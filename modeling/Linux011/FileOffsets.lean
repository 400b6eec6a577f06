import Linux011.Descriptors
import Linux011.FsQuiet

set_option autoImplicit false

/-!
# Offsets of regular files

A position may be any that `sys_lseek` accepts. `_bmap` is entered with a block that it can map as long
as no byte is stored at the greatest size of a file.
-/
namespace Linux011.Minix
open Outcomes

variable {k k' : Files} {s s' : Fs} {i : Slot} {f : Fin NR_FILE}

/-- The greatest size of a file. -/
def maxSize : ℤ := (7 + 512 + 512 * 512) * 1024

/-- A call stops for another reason than the two panics of `_bmap`. -/
def Elsewhere (w : Halt) : Prop := w ≠ .blockNegative ∧ w ≠ .fs .blockTooBig

/-! ### What stays as it is -/

/-- Of each inode, what the calls on regular files look at but do not change; `size` too, if it is set. -/
def SameFiles (size : Bool) (s s' : Fs) : Prop :=
  ∀ j, (s'.inodes j).mode = (s.inodes j).mode ∧ (s'.inodes j).pipe = (s.inodes j).pipe ∧
    (size = true → (s'.inodes j).size = (s.inodes j).size)

/-- The calls change no more of the files than their positions. -/
structure Keeps (k k' : Files) : Prop where
  filp : k'.filp = k.filp
  file : ∀ f, (k'.file f).mode = (k.file f).mode ∧ (k'.file f).flags = (k.file f).flags ∧
    (k'.file f).inode = (k.file f).inode
  inodes : SameFiles false k.fs k'.fs

/-- Positions are offsets that `sys_lseek` can have set, and no regular file is too big. -/
structure Sound (k : Files) : Prop where
  pos : ∀ f, 0 ≤ (k.file f).pos ∧ (k.file f).pos < 2 ^ 31
  size : ∀ i, isReg (k.fs.inodes i).mode → ((k.fs.inodes i).size.toNat : ℤ) ≤ maxSize

theorem SameFiles.refl (size : Bool) (s : Fs) : SameFiles size s s := fun _ => ⟨rfl, rfl, fun _ => rfl⟩

theorem SameFiles.trans {size : Bool} {s'' : Fs} (h : SameFiles size s s') (h' : SameFiles size s' s'') :
    SameFiles size s s'' := fun j =>
  ⟨(h' j).1.trans (h j).1, (h' j).2.1.trans (h j).2.1,
    fun hs => ((h' j).2.2 hs).trans ((h j).2.2 hs)⟩

theorem SameFiles.weaken {size : Bool} (h : SameFiles size s s') : SameFiles false s s' :=
  fun j => ⟨(h j).1, (h j).2.1, fun hs => nomatch hs⟩

theorem sameFiles_inodes {size : Bool} (h : s'.inodes = s.inodes) : SameFiles size s s' := by
  intro j
  rw [h]
  exact ⟨rfl, rfl, fun _ => rfl⟩

theorem sameFiles_setInode {size : Bool} {x : Inode} (hm : x.mode = (s.inodes i).mode)
    (hp : x.pipe = (s.inodes i).pipe) (hs : size = true → x.size = (s.inodes i).size) :
    SameFiles size s (s.setInode i x) := by
  intro j
  by_cases hj : j = i
  · subst hj
    rw [Fs.setInode_self]
    exact ⟨hm, hp, hs⟩
  · rw [Fs.setInode_ne s x hj]
    exact ⟨rfl, rfl, fun _ => rfl⟩

theorem Keeps.refl (k : Files) : Keeps k k := ⟨rfl, fun _ => ⟨rfl, rfl, rfl⟩, SameFiles.refl _ _⟩

theorem Keeps.trans {k'' : Files} (h : Keeps k k') (h' : Keeps k' k'') : Keeps k k'' := by
  constructor
  · exact h'.filp.trans h.filp
  · intro f
    obtain ⟨hm, hf, hi⟩ := h.file f
    obtain ⟨hm', hf', hi'⟩ := h'.file f
    exact ⟨hm'.trans hm, hf'.trans hf, hi'.trans hi⟩
  · exact h.inodes.trans h'.inodes

theorem Keeps.onFs (h : SameFiles false k.fs s) : Keeps k { k with fs := s } :=
  ⟨rfl, fun _ => ⟨rfl, rfl, rfl⟩, h⟩

theorem Keeps.setPos (k : Files) (f : Fin NR_FILE) (pos : ℤ) : Keeps k (k.setPos f pos) := by
  constructor
  · rfl
  · intro g
    change (Function.update k.file f { k.file f with pos := pos } g).mode = _ ∧
      (Function.update k.file f { k.file f with pos := pos } g).flags = _ ∧
      (Function.update k.file f { k.file f with pos := pos } g).inode = _
    by_cases hg : g = f
    · subst hg
      rw [Function.update_self]
      exact ⟨rfl, rfl, rfl⟩
    · rw [Function.update_of_ne hg]
      exact ⟨rfl, rfl, rfl⟩
  · exact SameFiles.refl _ _

theorem Sound.onFs (h : Sound k) (hs : SameFiles true k.fs s) : Sound { k with fs := s } := by
  constructor
  · exact h.pos
  · intro i hr
    obtain ⟨hm, -, hsize⟩ := hs i
    rw [hsize rfl]
    exact h.size i (hm ▸ hr)

theorem Sound.setPos (h : Sound k) (f : Fin NR_FILE) {pos : ℤ} (h0 : 0 ≤ pos) (hlt : pos < 2 ^ 31) :
    Sound (k.setPos f pos) := by
  constructor
  · intro g
    change 0 ≤ (Function.update k.file f { k.file f with pos := pos } g).pos ∧
      (Function.update k.file f { k.file f with pos := pos } g).pos < 2 ^ 31
    by_cases hg : g = f
    · subst hg
      rw [Function.update_self]
      exact ⟨h0, hlt⟩
    · rw [Function.update_of_ne hg]
      exact h.pos g
  · exact h.size

theorem setPos_pos (k : Files) (f : Fin NR_FILE) (pos : ℤ) : ((k.setPos f pos).file f).pos = pos := by
  unfold Files.setPos Files.setFile
  dsimp only
  rw [Function.update_self]

/-! ### The functions of the file system -/

theorem onFs_sat {α : Type} {g : Fs → Out α} {Q : α → Files → Prop} {E : Halt → Prop}
    (h : (g k.fs).Sat (fun a s => Q a { k with fs := s }) fun w => E (.fs w)) : (onFs g k).Sat Q E := by
  unfold onFs
  cases hg : g k.fs with
  | ok a s =>
    rw [hg] at h
    exact h
  | stop w =>
    rw [hg] at h
    exact h

theorem bread_same (dev block : ℕ) : (bread dev block s).Sat
    (fun _ s' => SameFiles true s s') (· ≠ Panic.blockTooBig) := by
  unfold bread
  split <;> exact SameFiles.refl _ _

theorem brelse_same (bh : Option Buffer) : (brelse bh s).Sat
    (fun _ s' => SameFiles true s s') (· ≠ Panic.blockTooBig) := by
  unfold brelse
  split
  · exact SameFiles.refl _ _
  · split
    · exact fun h => nomatch h
    · exact sameFiles_inodes rfl

theorem newBlock_same (dev : ℕ) : (newBlock dev s).Sat
    (fun _ s' => SameFiles true s s') (· ≠ Panic.blockTooBig) := by
  unfold newBlock
  split
  · exact fun h => nomatch h
  · dsimp only
    split
    · exact SameFiles.refl _ _
    · split
      · exact fun h => nomatch h
      · split
        · exact sameFiles_inodes rfl
        · split
          · exact fun h => nomatch h
          · exact sameFiles_inodes rfl

theorem fillZone_same (create : Bool) (i : Slot) (z : Fin 9) : (fillZone create i z s).Sat
    (fun _ s' => SameFiles true s s') (· ≠ Panic.blockTooBig) := by
  unfold fillZone
  split
  · apply (newBlock_same _).bind
    intro n s' hs
    split
    · have hzone : SameFiles true s' (s'.setZone i z (UInt16.ofNat n)) :=
        sameFiles_setInode rfl rfl fun _ => rfl
      exact (hs.trans hzone).trans (sameFiles_setInode rfl rfl fun _ => rfl)
    · exact hs
  · exact SameFiles.refl _ _

theorem fillEntry_same (create : Bool) (dev block n : ℕ) : (fillEntry create dev block n s).Sat
    (fun _ s' => SameFiles true s s') (· ≠ Panic.blockTooBig) := by
  unfold fillEntry
  apply (bread_same dev block).bind
  intro bh s₁ h₁
  cases bh with
  | none => exact h₁
  | some b =>
    apply Outcome.Sat.bind (Q := fun _ s' => SameFiles true s s')
    · split
      · apply (newBlock_same dev).bind
        intro j s₂ h₂
        split
        · exact (h₁.trans h₂).trans (sameFiles_inodes rfl)
        · exact h₁.trans h₂
      · exact h₁
    · intro j s₂ h₂
      apply (brelse_same _).bind
      intro _ s₃ h₃
      exact h₂.trans h₃

/-- Below the limit, `_bmap` does not panic. -/
theorem bmapWith_same (create : Bool) (i : Slot) {block : ℕ} (hb : block < 7 + 512 + 512 * 512) :
    (bmapWith create i block s).Sat (fun _ s' => SameFiles true s s') (· ≠ Panic.blockTooBig) := by
  unfold bmapWith
  rw [if_neg (Nat.not_le.mpr hb)]
  split
  · exact fillZone_same create i _
  · split
    · apply (fillZone_same create i 7).bind
      intro ind s₁ h₁
      split
      · exact h₁
      · exact (fillEntry_same create _ ind _).post fun _ _ h => h₁.trans h
    · apply (fillZone_same create i 8).bind
      intro dind s₁ h₁
      split
      · exact h₁
      · apply (fillEntry_same create _ dind _).bind
        intro ind s₂ h₂
        split
        · exact h₁.trans h₂
        · exact (fillEntry_same create _ ind _).post fun _ _ h => (h₁.trans h₂).trans h

/-- A function of the file system that looks at no block number keeps the files in order. -/
theorem onFs_sound {α : Type} {g : Fs → Out α} (hk : Sound k)
    (h : (g k.fs).Sat (fun _ s' => SameFiles true k.fs s') (· ≠ Panic.blockTooBig)) :
    (onFs g k).Sat (fun _ k' => Keeps k k' ∧ Sound k' ∧ k'.file = k.file) Elsewhere := by
  apply onFs_sat
  apply h.mono
  · exact fun _ s' hs => ⟨Keeps.onFs hs.weaken, hk.onFs hs, rfl⟩
  · intro w hw
    exact And.intro (fun hc => nomatch hc) fun hc => hw (Halt.fs.inj hc)

/-- `_bmap` at a position below the limit. -/
theorem enterBmap_sound (hk : Sound k) (create : Bool) (i : Slot) {pos : ℤ} (h0 : 0 ≤ pos)
    (hlt : pos < maxSize) : (enterBmap create i (Int.tdiv pos BLOCK_SIZE) k).Sat
      (fun _ k' => Keeps k k' ∧ Sound k' ∧ k'.file = k.file) Elsewhere := by
  unfold enterBmap
  have hdiv : Int.tdiv pos BLOCK_SIZE = pos / 1024 := Int.tdiv_eq_ediv_of_nonneg h0
  unfold maxSize at hlt
  rw [hdiv, if_neg (by omega)]
  exact onFs_sound hk (bmapWith_same create i (by omega))

/-- At the limit it panics. -/
theorem enterBmap_big (create : Bool) (i : Slot) {pos : ℤ} (hpos : maxSize ≤ pos) (k : Files) :
    enterBmap create i (Int.tdiv pos BLOCK_SIZE) k = .stop (.fs .blockTooBig) := by
  unfold maxSize at hpos
  have hdiv : Int.tdiv pos BLOCK_SIZE = pos / 1024 := Int.tdiv_eq_ediv_of_nonneg (by omega)
  unfold enterBmap onFs
  rw [hdiv, if_neg (by omega), bmapWith_big create i (by omega)]

/-! ### Reading -/

theorem int32_eq {x : ℤ} (h : -2 ^ 31 ≤ x) (h' : x < 2 ^ 31) : int32 x = x := by
  unfold int32
  omega

/-- The bytes that are read lie below the limit. -/
theorem readBlocks_sound (i : Slot) (f : Fin NR_FILE) (n : ℕ) : ∀ (left : ℤ) (got : List UInt8)
    (k : Files), Sound k → 0 ≤ left → (k.file f).pos + left ≤ maxSize →
    (readBlocks i f n left got k).Sat (fun _ k' => Keeps k k' ∧ Sound k') Elsewhere := by
  induction n with
  | zero => exact fun _ _ k hk _ _ => ⟨Keeps.refl k, hk⟩
  | succ n ih =>
    intro left got k hk hleft hend
    obtain ⟨hpos, -⟩ := hk.pos f
    unfold readBlocks
    split
    · exact ⟨Keeps.refl k, hk⟩
    · next hne =>
      apply (enterBmap_sound hk false i hpos (by omega)).bind
      rintro block k₁ ⟨hkeep, hk₁, hfile⟩
      dsimp only
      have hchars : 0 ≤ min (BLOCK_SIZE - Int.tmod (k₁.file f).pos BLOCK_SIZE) left ∧
          min (BLOCK_SIZE - Int.tmod (k₁.file f).pos BLOCK_SIZE) left ≤ left := by
        have hmod := Int.tmod_lt_of_pos (k₁.file f).pos (b := BLOCK_SIZE) (by decide)
        omega
      rw [← hfile] at hend hpos
      generalize min (BLOCK_SIZE - Int.tmod (k₁.file f).pos BLOCK_SIZE) left = chars at hchars
      have hnext : int32 ((k₁.file f).pos + chars) = (k₁.file f).pos + chars := by
        unfold maxSize at hend
        apply int32_eq <;> omega
      have hk₂ : Sound (k₁.setPos f (int32 ((k₁.file f).pos + chars))) := by
        rw [hnext]
        unfold maxSize at hend
        exact hk₁.setPos f (by omega) (by omega)
      have hkeep₂ := hkeep.trans (Keeps.setPos k₁ f (int32 ((k₁.file f).pos + chars)))
      have hleft₂ : 0 ≤ left - chars := by omega
      split
      · apply (ih _ _ _ hk₂ hleft₂ ?_).post
        · exact fun _ _ h => ⟨hkeep₂.trans h.1, h.2⟩
        · rw [setPos_pos, hnext]
          omega
      · apply (onFs_sound hk₁ (bread_same _ block)).bind
        rintro bh k₃ ⟨hkeep₃, hk₃, hfile₃⟩
        rw [← hfile₃] at hend hpos hnext ⊢
        cases bh with
        | none => exact ⟨hkeep.trans hkeep₃, hk₃⟩
        | some b =>
          have hk₄ : Sound (k₃.setPos f (int32 ((k₃.file f).pos + chars))) := by
            rw [hnext]
            unfold maxSize at hend
            exact hk₃.setPos f (by omega) (by omega)
          apply (onFs_sound hk₄ (brelse_same (some b))).bind
          rintro _ k₅ ⟨hkeep₅, hk₅, hfile₅⟩
          apply (ih _ _ _ hk₅ hleft₂ ?_).post
          · intro _ _ h
            exact ⟨(((hkeep.trans hkeep₃).trans (Keeps.setPos _ _ _)).trans hkeep₅).trans h.1, h.2⟩
          · rw [hfile₅, setPos_pos, hnext]
            omega

/-! ### Writing -/

/-- A chunk of a write, below the limit. -/
theorem chunk_sound (hk : Sound k) (i : Slot) (b : Buffer) (data : Block) {pos : ℤ} (h0 : 0 ≤ pos)
    (hlt : pos ≤ maxSize) :
    (onFs (brelse (some b)) { k with
      fs := (if pos % 2 ^ 32 > (k.fs.inodes i).size.toNat then
          k.fs.setInode i
            { k.fs.inodes i with size := UInt32.ofNat (pos % 2 ^ 32).toNat, dirt := true }
        else k.fs).setData b data }).Sat
      (fun _ k' => Keeps k k' ∧ Sound k' ∧ k'.file = k.file) Elsewhere := by
  have hsize : ((UInt32.ofNat (pos % 2 ^ 32).toNat).toNat : ℤ) = pos := by
    unfold maxSize at hlt
    rw [UInt32.toNat_ofNat']
    omega
  have hgrown : Keeps k { k with
      fs := (if pos % 2 ^ 32 > (k.fs.inodes i).size.toNat then
          k.fs.setInode i
            { k.fs.inodes i with size := UInt32.ofNat (pos % 2 ^ 32).toNat, dirt := true }
        else k.fs).setData b data } ∧ Sound { k with
      fs := (if pos % 2 ^ 32 > (k.fs.inodes i).size.toNat then
          k.fs.setInode i
            { k.fs.inodes i with size := UInt32.ofNat (pos % 2 ^ 32).toNat, dirt := true }
        else k.fs).setData b data } := by
    split
    · constructor
      · have hgrown : SameFiles false k.fs (k.fs.setInode i
            { k.fs.inodes i with size := UInt32.ofNat (pos % 2 ^ 32).toNat, dirt := true }) :=
          sameFiles_setInode rfl rfl fun h => nomatch h
        exact Keeps.onFs (hgrown.trans (sameFiles_inodes rfl))
      · constructor
        · exact hk.pos
        · intro j hr
          change isReg ((k.fs.setInode i _).inodes j).mode at hr
          change (((k.fs.setInode i _).inodes j).size.toNat : ℤ) ≤ maxSize
          by_cases hj : j = i
          · subst hj
            rw [Fs.setInode_self]
            exact hsize.trans_le hlt
          · rw [Fs.setInode_ne _ _ hj] at hr ⊢
            exact hk.size j hr
    · exact ⟨Keeps.onFs (sameFiles_inodes rfl), hk.onFs (sameFiles_inodes rfl)⟩
  apply (onFs_sound hgrown.2 (brelse_same (some b))).post
  rintro _ k' ⟨hkeep, hk', hfile⟩
  exact ⟨hgrown.1.trans hkeep, hk', hfile⟩

/-- A write that ends at the limit or before it enters no block that is too big. -/
theorem writeBlocks_sound (i : Slot) (buf : ℕ → UInt8) (count : ℤ) (n : ℕ) : ∀ (done pos : ℤ)
    (k : Files), Sound k → 0 ≤ pos → pos ≤ maxSize → pos + (count - done) ≤ maxSize →
    (writeBlocks i buf count n done pos k).Sat
      (fun r k' => Keeps k k' ∧ Sound k' ∧ 0 ≤ r.2 ∧ r.2 ≤ maxSize) Elsewhere := by
  induction n with
  | zero => exact fun _ _ k hk h0 hlt _ => ⟨Keeps.refl k, hk, h0, hlt⟩
  | succ n ih =>
    intro done pos k hk h0 hlt hend
    unfold writeBlocks
    split
    · exact ⟨Keeps.refl k, hk, h0, hlt⟩
    · next hmore =>
      apply (enterBmap_sound hk true i h0 (by omega)).bind
      rintro block k₁ ⟨hkeep, hk₁, -⟩
      split
      · exact ⟨hkeep, hk₁, h0, hlt⟩
      · apply (onFs_sound hk₁ (bread_same _ block)).bind
        rintro bh k₂ ⟨hkeep₂, hk₂, -⟩
        cases bh with
        | none => exact ⟨hkeep.trans hkeep₂, hk₂, h0, hlt⟩
        | some b =>
          have hc : 0 ≤ min (BLOCK_SIZE - Int.tmod pos BLOCK_SIZE) (count - done) ∧
              min (BLOCK_SIZE - Int.tmod pos BLOCK_SIZE) (count - done) ≤ count - done := by
            have hmod := Int.tmod_lt_of_pos pos (b := BLOCK_SIZE) (by decide)
            omega
          dsimp only
          generalize min (BLOCK_SIZE - Int.tmod pos BLOCK_SIZE) (count - done) = c at hc
          have hnext : int32 (pos + c) = pos + c := by
            unfold maxSize at hlt hend
            apply int32_eq <;> omega
          rw [hnext]
          apply (chunk_sound hk₂ i b _ (by omega) (by omega)).bind
          rintro _ k₃ ⟨hkeep₃, hk₃, -⟩
          apply (ih _ _ k₃ hk₃ (by omega) (by omega) (by omega)).post
          rintro r k' ⟨hkeep', hk', hr⟩
          exact ⟨((hkeep.trans hkeep₂).trans hkeep₃).trans hkeep', hk', hr⟩

/-! ### A write that goes over the limit -/

/-- The bytes of a write that end at the limit can all be stored. -/
def Stored (i : Slot) (buf : ℕ → UInt8) (start : ℤ) (k : Files) : Prop :=
  ∃ k', writeBlocks i buf (maxSize - start) (maxSize - start).toNat 0 start k =
    .ok (maxSize - start, maxSize) k'

/-- A longer write does the same as the one that ends at the limit. If that one is not cut short, the
    next block is too big. -/
theorem writeBlocks_over (i : Slot) (buf : ℕ → UInt8) {start count : ℤ}
    (hover : maxSize - start < count) (n : ℕ) : ∀ (m : ℕ) (done : ℤ) (k : Files), 0 ≤ start → 0 ≤ done →
    done ≤ maxSize - start → maxSize - start - done ≤ n → count - done ≤ m →
    ((∃ k', writeBlocks i buf (maxSize - start) n done (start + done) k =
        .ok (maxSize - start, maxSize) k') ∧
      writeBlocks i buf count m done (start + done) k = .stop (.fs .blockTooBig)) ∨
    ((¬∃ k', writeBlocks i buf (maxSize - start) n done (start + done) k =
        .ok (maxSize - start, maxSize) k') ∧
      writeBlocks i buf count m done (start + done) k =
        writeBlocks i buf (maxSize - start) n done (start + done) k) := by
  -- at the limit
  have hend : ∀ (n m : ℕ) (done : ℤ) (k : Files), done = maxSize - start → count - done ≤ m →
      (∃ k', writeBlocks i buf (maxSize - start) n done (start + done) k =
        .ok (maxSize - start, maxSize) k') ∧
      writeBlocks i buf count m done (start + done) k = .stop (.fs .blockTooBig) := by
    intro n m done k hdone hm
    have hpos : start + done = maxSize := by omega
    rw [hpos]
    constructor
    · refine ⟨k, ?_⟩
      cases n with
      | zero => rw [hdone]; rfl
      | succ n =>
        unfold writeBlocks
        rw [if_pos (by omega), hdone]
    · cases m with
      | zero => omega
      | succ m =>
        unfold writeBlocks
        rw [if_neg (by omega), enterBmap_big true i (le_refl _), Outcome.bind_stop]
  induction n with
  | zero =>
    intro m done k _ _ hle hn hm
    exact .inl (hend 0 m done k (by omega) hm)
  | succ n ih =>
    intro m done k hstart hdone hle hn hm
    by_cases hlast : done = maxSize - start
    · exact .inl (hend (n + 1) m done k hlast hm)
    · cases m with
      | zero => omega
      | succ m =>
        unfold writeBlocks
        rw [if_neg (by omega), if_neg (by omega)]
        -- both store the same chunk, as the limit is the end of a block
        have hmod : Int.tmod (start + done) BLOCK_SIZE = (start + done) % 1024 :=
          Int.tmod_eq_emod_of_nonneg (by omega)
        have hchunk : min (BLOCK_SIZE - Int.tmod (start + done) BLOCK_SIZE) (count - done) =
            BLOCK_SIZE - Int.tmod (start + done) BLOCK_SIZE := by
          rw [hmod]
          unfold BLOCK_SIZE
          unfold maxSize at hover hle hlast
          omega
        have hchunk' : min (BLOCK_SIZE - Int.tmod (start + done) BLOCK_SIZE) (maxSize - start - done) =
            BLOCK_SIZE - Int.tmod (start + done) BLOCK_SIZE := by
          rw [hmod]
          unfold BLOCK_SIZE
          unfold maxSize at hle hlast ⊢
          omega
        dsimp only
        rw [hchunk, hchunk']
        have hc : 0 < BLOCK_SIZE - Int.tmod (start + done) BLOCK_SIZE ∧
            done + (BLOCK_SIZE - Int.tmod (start + done) BLOCK_SIZE) ≤ maxSize - start := by
          rw [hmod]
          unfold BLOCK_SIZE
          unfold maxSize at hle hlast ⊢
          omega
        generalize BLOCK_SIZE - Int.tmod (start + done) BLOCK_SIZE = c at hc
        have hnext : int32 (start + done + c) = start + (done + c) := by
          unfold maxSize at hc
          rw [int32_eq] <;> omega
        rw [hnext]
        cases enterBmap true i (Int.tdiv (start + done) BLOCK_SIZE) k with
        | stop w => exact .inr ⟨(fun h => nomatch h), rfl⟩
        | ok block k₁ =>
          rw [Outcome.bind_ok, Outcome.bind_ok]
          by_cases hzero : block = 0
          · rw [if_pos hzero, if_pos hzero]
            refine .inr ⟨?_, rfl⟩
            rintro ⟨k', hk'⟩
            injection hk' with hr _
            exact hlast (Prod.mk.inj hr).1
          · rw [if_neg hzero, if_neg hzero]
            cases onFs (bread (k₁.fs.inodes i).dev block) k₁ with
            | stop w => exact .inr ⟨(fun h => nomatch h), rfl⟩
            | ok bh k₂ =>
              rw [Outcome.bind_ok, Outcome.bind_ok]
              cases bh with
              | none =>
                refine .inr ⟨?_, rfl⟩
                rintro ⟨k', hk'⟩
                injection hk' with hr _
                exact hlast (Prod.mk.inj hr).1
              | some b =>
                dsimp only
                cases onFs (brelse (some b)) _ with
                | stop w => exact .inr ⟨(fun h => nomatch h), rfl⟩
                | ok _ k₃ =>
                  rw [Outcome.bind_ok, Outcome.bind_ok]
                  exact ih m (done + c) k₃ hstart (by omega) (by omega) (by omega) (by omega)

/-- The bytes of a write lie below the limit, or those that do cannot all be stored. -/
def Fits (i : Slot) (buf : ℕ → UInt8) (start count : ℤ) (k : Files) : Prop :=
  start + count ≤ maxSize ∨ (start ≤ maxSize ∧ ¬Stored i buf start k)

theorem writeBlocks_fits (hk : Sound k) (i : Slot) (buf : ℕ → UInt8) {start count : ℤ}
    (h0 : 0 ≤ start) (hcount : 0 < count) (hfits : Fits i buf start count k) :
    (writeBlocks i buf count count.toNat 0 start k).Sat
      (fun r k' => Keeps k k' ∧ Sound k' ∧ 0 ≤ r.2 ∧ r.2 ≤ maxSize) Elsewhere := by
  rcases hfits with hbelow | ⟨hle, hstored⟩
  · exact writeBlocks_sound i buf count _ 0 start k hk h0 (by omega) (by omega)
  · by_cases hover : maxSize - start < count
    · have hsame := writeBlocks_over i buf hover (maxSize - start).toNat count.toNat 0 k h0
        (le_refl _) (by omega) (by omega) (by omega)
      rw [add_zero] at hsame
      rcases hsame with ⟨hall, -⟩ | ⟨-, heq⟩
      · exact absurd hall hstored
      · rw [heq]
        exact writeBlocks_sound i buf _ _ 0 start k hk h0 hle (by omega)
    · exact writeBlocks_sound i buf count _ 0 start k hk h0 hle (by omega)

/-- Otherwise the write panics. -/
theorem writeBlocks_panics (i : Slot) (buf : ℕ → UInt8) {start count : ℤ} (h0 : 0 ≤ start)
    (hcount : 0 < count) (hfits : ¬Fits i buf start count k) :
    writeBlocks i buf count count.toNat 0 start k = .stop (.fs .blockTooBig) := by
  obtain ⟨hover, hstored⟩ := not_or.mp hfits
  by_cases hle : start ≤ maxSize
  · have hmore : maxSize - start < count := by omega
    have hsame := writeBlocks_over i buf hmore (maxSize - start).toNat count.toNat 0 k h0
      (le_refl _) (by omega) (by omega) (by omega)
    rw [add_zero] at hsame
    rcases hsame with ⟨-, hstop⟩ | ⟨hnot, -⟩
    · exact hstop
    · exact absurd ⟨hle, hnot⟩ hstored
  · obtain ⟨n, hn⟩ : ∃ n, count.toNat = n + 1 := ⟨count.toNat - 1, by omega⟩
    rw [hn]
    unfold writeBlocks
    rw [if_neg (by omega), enterBmap_big true i (by omega), Outcome.bind_stop]

/-! ### The calls -/

/-- A call, whose arguments are taken as an `int` each. -/
inductive FileCall where
  | lseek (fd : ℕ) (offset origin : ℤ)
  | read (fd : ℕ) (count : ℤ)
  | write (fd : ℕ) (buf : ℕ → UInt8) (count : ℤ)

def FileCall.fd : FileCall → ℕ
  | .lseek fd _ _ => fd
  | .read fd _ => fd
  | .write fd _ _ => fd

def fileCall (d : Drivers) : FileCall → Files → Call Unit
  | .lseek fd offset origin, k =>
    (sysLseek fd (int32 offset) (int32 origin) k).bind fun _ k => .ok () k
  | .read fd count, k => (sysRead d fd (int32 count) k).bind fun _ k => .ok () k
  | .write fd buf count, k => (sysWrite d fd buf (int32 count) k).bind fun _ k => .ok () k

/-- If the descriptor is open, it is one of a regular file. -/
def OnRegular (k : Files) (fd : ℕ) : Prop :=
  ∀ f, fd < NR_OPEN → k.filp fd = some f → ∃ i, (k.file f).inode = some i ∧
    isReg (k.fs.inodes i).mode ∧ (k.fs.inodes i).pipe = false

/-- Where a write begins: at the end of the file, or at the position. -/
def writeStart (k : Files) (f : Fin NR_FILE) (i : Slot) : ℤ :=
  if (k.file f).flags.toNat &&& O_APPEND ≠ 0 then int32 (k.fs.inodes i).size.toNat else (k.file f).pos

/-- What is asked of a call: if it writes, that the bytes fit. -/
def CallFits (k : Files) : FileCall → Prop
  | .write fd buf count => ∀ f i, fd < NR_OPEN → k.filp fd = some f → (k.file f).inode = some i →
      0 < int32 count → Fits i buf (writeStart k f i) (int32 count) k
  | _ => True

theorem isReg_not {m : UInt16} (h : isReg m) : ¬isChr m ∧ ¬isBlk m := by
  unfold isReg at h
  unfold isChr isBlk
  rw [h]
  decide

theorem Keeps.onRegular (h : Keeps k k') {fd : ℕ} (hr : OnRegular k fd) : OnRegular k' fd := by
  intro f hfd hf
  rw [h.filp] at hf
  obtain ⟨i, hi, hreg, hpipe⟩ := hr f hfd hf
  obtain ⟨hm, hp, -⟩ := h.inodes i
  exact ⟨i, (h.file f).2.2.trans hi, hm ▸ hreg, hp.trans hpipe⟩

theorem int32_lt (x : ℤ) : -2 ^ 31 ≤ int32 x ∧ int32 x < 2 ^ 31 := by
  unfold int32
  omega

theorem sysLseek_sound (hk : Sound k) (fd : ℕ) {offset : ℤ} (hoffset : offset < 2 ^ 31) (origin : ℤ) :
    (sysLseek fd offset origin k).Sat (fun _ k' => Keeps k k' ∧ Sound k') Elsewhere := by
  have hset : ∀ (f : Fin NR_FILE) (pos : ℤ), ¬pos < 0 → pos < 2 ^ 31 →
      Keeps k (k.setPos f pos) ∧ Sound (k.setPos f pos) := fun f pos h0 hlt =>
    ⟨Keeps.setPos k f pos, hk.setPos f (Int.not_lt.mp h0) hlt⟩
  have hsame : Keeps k k ∧ Sound k := ⟨Keeps.refl k, hk⟩
  unfold sysLseek
  split
  · exact hsame
  · next f _ =>
    split
    · exact hsame
    · dsimp only
      split
      · exact hsame
      · split
        · exact hsame
        · split
          · split
            · exact hsame
            · next h0 => exact hset f _ h0 hoffset
          · split
            · split
              · exact hsame
              · next h0 => exact hset f _ h0 (int32_lt _).2
            · split
              · split
                · exact hsame
                · next h0 => exact hset f _ h0 (int32_lt _).2
              · exact hsame

theorem sysRead_sound (hk : Sound k) (d : Drivers) {fd : ℕ} (hr : OnRegular k fd) {count : ℤ}
    (hcount : count < 2 ^ 31) :
    (sysRead d fd count k).Sat (fun _ k' => Keeps k k' ∧ Sound k') Elsewhere := by
  have hsame : Keeps k k ∧ Sound k := ⟨Keeps.refl k, hk⟩
  unfold sysRead
  by_cases hbad : fd ≥ NR_OPEN ∨ count < 0
  · rw [if_pos hbad]
    exact hsame
  · rw [if_neg hbad]
    cases hf : k.filp fd with
    | none => exact hsame
    | some f =>
      dsimp only
      split
      · exact hsame
      · obtain ⟨i, hi, hreg, hpipe⟩ := hr f (by omega) hf
        rw [hi]
        dsimp only
        obtain ⟨hchr, hblk⟩ := isReg_not hreg
        rw [if_neg (by rw [hpipe]; decide), if_neg hchr, if_neg hblk, if_pos (.inr hreg)]
        obtain ⟨hpos, hpos'⟩ := hk.pos f
        have hsize := hk.size i hreg
        -- the count is cut at the end of the file
        have hend : (k.file f).pos + (if (count + (k.file f).pos) % 2 ^ 32 >
            (k.fs.inodes i).size.toNat then int32 ((k.fs.inodes i).size.toNat - (k.file f).pos)
            else count) ≤ maxSize := by
          unfold maxSize at hsize ⊢
          split
          · rw [int32_eq] <;> omega
          · omega
        generalize (if (count + (k.file f).pos) % 2 ^ 32 > ((k.fs.inodes i).size.toNat : ℤ) then _
          else count) = chars at hend ⊢
        split
        · exact hsame
        · next hpositive =>
          unfold fileRead
          rw [if_neg hpositive]
          apply (readBlocks_sound i f _ _ [] k hk (by omega) hend).bind
          exact fun _ _ h => h

theorem writeStart_nonneg (hk : Sound k) (f : Fin NR_FILE) {i : Slot} (hreg : isReg (k.fs.inodes i).mode) :
    0 ≤ writeStart k f i := by
  have hsize := hk.size i hreg
  unfold maxSize at hsize
  unfold writeStart
  split
  · rw [int32_eq] <;> omega
  · exact (hk.pos f).1

/-- A write through an open descriptor of a regular file is one of its blocks. -/
theorem sysWrite_regular (d : Drivers) {fd : ℕ} (hfd : fd < NR_OPEN) (hf : k.filp fd = some f)
    (hi : (k.file f).inode = some i) (hreg : isReg (k.fs.inodes i).mode)
    (hpipe : (k.fs.inodes i).pipe = false) (buf : ℕ → UInt8) {count : ℤ} (hcount : 0 < count) :
    sysWrite d fd buf count k = fileWrite i f buf count k := by
  obtain ⟨hchr, hblk⟩ := isReg_not hreg
  unfold sysWrite
  rw [if_neg (by omega), hf]
  dsimp only
  rw [if_neg (by omega), hi]
  dsimp only
  rw [if_neg (by rw [hpipe]; decide), if_neg hchr, if_neg hblk, if_pos hreg]

theorem fileWrite_sound (hk : Sound k) (hreg : isReg (k.fs.inodes i).mode) (buf : ℕ → UInt8)
    {count : ℤ} (hcount : 0 < count) (hfits : Fits i buf (writeStart k f i) count k) :
    (fileWrite i f buf count k).Sat (fun _ k' => Keeps k k' ∧ Sound k') Elsewhere := by
  unfold fileWrite
  apply (writeBlocks_fits hk i buf (writeStart_nonneg hk f hreg) hcount hfits).bind
  rintro r k₁ ⟨hkeep, hk₁, h0, hle⟩
  have hmtime : SameFiles true k₁.fs
      (k₁.fs.setInode i { k₁.fs.inodes i with mtime := k₁.fs.time }) :=
    sameFiles_setInode rfl rfl fun _ => rfl
  have hkeep₂ := hkeep.trans (Keeps.onFs hmtime.weaken)
  have hk₂ := hk₁.onFs hmtime
  rw [Outcome.sat_ok]
  split
  · exact ⟨hkeep₂, hk₂⟩
  · unfold maxSize at hle
    exact ⟨hkeep₂.trans (Keeps.setPos _ f r.2), hk₂.setPos f h0 (by omega)⟩

theorem fileWrite_panics (hk : Sound k) (hreg : isReg (k.fs.inodes i).mode) (buf : ℕ → UInt8)
    {count : ℤ} (hcount : 0 < count) (hfits : ¬Fits i buf (writeStart k f i) count k) :
    fileWrite i f buf count k = .stop (.fs .blockTooBig) := by
  unfold fileWrite
  dsimp only
  have hstop := writeBlocks_panics i buf (writeStart_nonneg hk f hreg) hcount hfits
  unfold writeStart at hstop
  rw [hstop, Outcome.bind_stop]

theorem fileCall_sound (hk : Sound k) (d : Drivers) {a : FileCall} (hr : OnRegular k a.fd)
    (hfits : CallFits k a) :
    (fileCall d a k).Sat (fun _ k' => Keeps k k' ∧ Sound k') Elsewhere := by
  cases a with
  | lseek fd offset origin =>
    apply (sysLseek_sound hk fd (int32_lt offset).2 _).bind
    exact fun _ _ h => h
  | read fd count =>
    apply (sysRead_sound hk d hr (int32_lt count).2).bind
    exact fun _ _ h => h
  | write fd buf count =>
    apply Outcome.Sat.bind (Q := fun _ k' => Keeps k k' ∧ Sound k')
    · have hsame : Keeps k k ∧ Sound k := ⟨Keeps.refl k, hk⟩
      by_cases hopen : fd < NR_OPEN ∧ 0 < int32 count
      · cases hf : k.filp fd with
        | none =>
          unfold sysWrite
          rw [if_neg (by omega), hf]
          exact hsame
        | some f =>
          obtain ⟨i, hi, hreg, hpipe⟩ := hr f hopen.1 hf
          rw [sysWrite_regular d hopen.1 hf hi hreg hpipe buf hopen.2]
          exact fileWrite_sound hk hreg buf hopen.2 (hfits f i hopen.1 hf hi hopen.2)
      · unfold sysWrite
        split
        · exact hsame
        · next hf =>
          split
          · exact hsame
          · next hne =>
            have hbad : fd ≥ NR_OPEN ∨ int32 count < 0 := by omega
            rw [if_pos hbad] at hf
            cases hf
    · exact fun _ _ h => h

theorem fileCall_panics (hk : Sound k) (d : Drivers) {a : FileCall} (hr : OnRegular k a.fd)
    (hfits : ¬CallFits k a) : fileCall d a k = .stop (.fs .blockTooBig) := by
  cases a with
  | lseek fd offset origin => exact absurd trivial hfits
  | read fd count => exact absurd trivial hfits
  | write fd buf count =>
    unfold CallFits at hfits
    push Not at hfits
    obtain ⟨f, i, hfd, hf, hi, hcount, hover⟩ := hfits
    obtain ⟨i', hi', hreg, hpipe⟩ := hr f hfd hf
    obtain rfl : i' = i := Option.some.inj (hi'.symm.trans hi)
    change (sysWrite d fd buf (int32 count) k).bind (fun _ k => Outcome.ok () k) = _
    rw [sysWrite_regular d hfd hf hi hreg hpipe buf hcount,
      fileWrite_panics hk hreg buf hcount hover, Outcome.bind_stop]

/-! ### Runs -/

/-- No position and no size of a regular file is negative, as a `long`. -/
def NonNegative (k : Files) : Prop :=
  (∀ f, 0 ≤ (k.file f).pos) ∧
    ∀ i, isReg (k.fs.inodes i).mode → 0 ≤ int32 (k.fs.inodes i).size.toNat

theorem Sound.nonNegative (h : Sound k) : NonNegative k := by
  constructor
  · exact fun f => (h.pos f).1
  · intro i hreg
    have hsize := h.size i hreg
    unfold maxSize at hsize
    rw [int32_eq] <;> omega

/-- In a run no call enters `_bmap` with a block that is negative or too big, and no state that it
    reaches has a negative position or size. -/
def OffsetsSafe (d : Drivers) : Files → List FileCall → Prop
  | k, [] => NonNegative k
  | k, a :: l => NonNegative k ∧ (∀ w, fileCall d a k = .stop w → Elsewhere w) ∧
      ∀ k', fileCall d a k = .ok () k' → OffsetsSafe d k' l

def CallsFit (d : Drivers) : Files → List FileCall → Prop
  | _, [] => True
  | k, a :: l => CallFits k a ∧ ∀ k', fileCall d a k = .ok () k' → CallsFit d k' l

/-- From files in order, offsets are safe in a run if and only if every write of it fits. -/
theorem offsets_safe_iff (d : Drivers) (hk : Sound k) (calls : List FileCall)
    (hr : ∀ a ∈ calls, OnRegular k a.fd) : OffsetsSafe d k calls ↔ CallsFit d k calls := by
  induction calls generalizing k with
  | nil => exact iff_of_true hk.nonNegative trivial
  | cons a calls ih =>
    have ha := hr a List.mem_cons_self
    -- the calls that are left, where this one comes back
    have hnext : CallFits k a → ∀ k', fileCall d a k = .ok () k' →
        (OffsetsSafe d k' calls ↔ CallsFit d k' calls) := by
      intro hfits k' hk'
      obtain ⟨hkeep, hk₁⟩ := (fileCall_sound hk d ha hfits).of_ok hk'
      exact ih hk₁ fun b hb => hkeep.onRegular (hr b (List.mem_cons_of_mem a hb))
    constructor
    · rintro ⟨-, hstops, hrest⟩
      have hfits : CallFits k a := by
        by_contra hnot
        exact (hstops _ (fileCall_panics hk d ha hnot)).2 rfl
      exact ⟨hfits, fun k' hk' => (hnext hfits k' hk').mp (hrest k' hk')⟩
    · rintro ⟨hfits, hrest⟩
      refine ⟨hk.nonNegative, ?_, fun k' hk' => (hnext hfits k' hk').mpr (hrest k' hk')⟩
      intro w hw
      have hsat := fileCall_sound hk d ha hfits
      rw [hw] at hsat
      exact hsat

/-- The root directory on a hard disk, and a file that is deleted but open. -/
def hdDisk : Fs := { disk with
  inodes i :=
    if i = 0 then { disk.inodes 0 with dev := 0x301 }
    else if i = 1 then
      { toDInode := ⟨0o100644, 0, 0, 0, 0, 0, fun _ => 0⟩, dev := 0x301, num := 2, count := 1,
        dirt := false, pipe := false, mount := false }
    else Inode.empty
  supers k := { disk.supers k with
    dev := if k.val = 0 then 0x301 else 0, imap := fun n => if n = 0 then some (0x301, 2) else none,
    zmap := fun n => if n = 0 then some (0x301, 3) else none }
  bcount b := if b.1 = 0x301 then disk.bcount (1, b.2) else 0
  data b := disk.data (1, b.2)
  rootDev := 0x301 }

def hdFiles : Files where
  fs := hdDisk
  file f := if f = 0 then ⟨3, 2, 1, some 1, 0⟩ else ⟨0, 0, 0, none, 0⟩
  filp fd := if fd = 3 then some 0 else none
  closeOnExec := 0

/-- No pipe and no device is there. -/
def noDrivers : Drivers :=
  ⟨fun _ _ => .ok (0, []), fun _ _ _ => .ok 0, fun _ _ _ => .ok (0, []), fun _ _ _ _ => .ok 0,
    fun _ _ _ => .ok (0, []), fun _ _ _ _ => .ok 0⟩

theorem hdFiles_sound : Sound hdFiles := by
  constructor
  · intro f
    unfold hdFiles
    dsimp only
    split <;> decide
  · intro i _
    change (((if i = 0 then _ else if i = 1 then _ else _ : Inode).size.toNat : ℕ) : ℤ) ≤ maxSize
    split
    · decide
    · split <;> decide

theorem hdFiles_regular : OnRegular hdFiles 3 := by
  intro f _ hf
  cases hf
  exact ⟨1, rfl, by decide, rfl⟩

theorem offsets_safe_iff_calls :
    OffsetsSafe noDrivers hdFiles [.lseek 3 10 0, .write 3 (fun _ => 7) 5, .read 3 4] := by
  have hseek : fileCall noDrivers (.lseek 3 10 0) hdFiles = .ok () (hdFiles.setPos 0 10) := rfl
  apply (offsets_safe_iff noDrivers hdFiles_sound _ ?_).mpr
  · refine ⟨trivial, fun k₁ h₁ => ?_⟩
    rw [hseek] at h₁
    cases h₁
    refine ⟨?_, fun k₂ _ => ⟨trivial, fun _ _ => trivial⟩⟩
    intro f i _ hf hi _
    cases hf
    cases hi
    exact .inl (by decide)
  · simp only [List.mem_cons, List.not_mem_nil, or_false]
    rintro a (rfl | rfl | rfl) <;> exact hdFiles_regular

/-- `lseek(3, 268966912, 0)` and a write of one byte. -/
theorem lseek_write_panics : ∃ k', fileCall noDrivers (.lseek 3 268966912 0) hdFiles = .ok () k' ∧
    fileCall noDrivers (.write 3 (fun _ => 7) 1) k' = .stop (.fs .blockTooBig) ∧
    ¬OffsetsSafe noDrivers hdFiles [.lseek 3 268966912 0, .write 3 (fun _ => 7) 1] := by
  have hseek : fileCall noDrivers (.lseek 3 268966912 0) hdFiles =
      .ok () (hdFiles.setPos 0 268966912) := rfl
  have hstop : fileCall noDrivers (.write 3 (fun _ => 7) 1) (hdFiles.setPos 0 268966912) =
      .stop (.fs .blockTooBig) := rfl
  refine ⟨_, hseek, hstop, ?_⟩
  intro h
  exact ((h.2.2 _ hseek).2.1 _ hstop).2 rfl

end Linux011.Minix
