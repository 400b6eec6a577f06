import Linux011.FileBytes

set_option autoImplicit false

/-!
# What processes see of regular files

Whatever `lseek`, `read`, `write` and `truncate` are called for the files of a device, each behaves as
on bytes of its own, through whatever descriptors.
-/
namespace Linux011.Minix
open Outcomes ByteFiles ByteFile

variable {s s' : Fs} {dev : ℕ} {k : Fin NR_SUPER} {i : Slot} {I : Finset Slot} {R : Set ℕ}
  {F : Slot → ByteFile} {g g' : Files} {f : Fin NR_FILE} {fd : ℕ}

/-- What each file is, and the positions of the open ones. -/
structure View where
  file : Slot → ByteFile
  pos : Fin NR_FILE → ℕ

/-- A call for an open file and its inode, with what it returns. -/
inductive FileEvent where
  | lseek (f : Fin NR_FILE) (i : Slot) (offset origin r : ℤ)
  | read (f : Fin NR_FILE) (i : Slot) (count : ℕ) (r : ℤ) (got : List UInt8)
  | write (f : Fin NR_FILE) (i : Slot) (buf : ℕ → UInt8) (count : ℕ) (r : ℤ)
  | truncate (i : Slot)

/-- Where a seek goes. -/
def View.target (v : View) (f : Fin NR_FILE) (i : Slot) (offset origin : ℤ) : ℤ :=
  (if origin = 0 then 0 else if origin = 1 then (v.pos f : ℤ) else ((v.file i).size : ℤ)) + offset

def View.setPos (v : View) (f : Fin NR_FILE) (pos : ℕ) : View :=
  { v with pos := Function.update v.pos f pos }

def View.setFile (v : View) (i : Slot) (F : ByteFile) : View :=
  { v with file := Function.update v.file i F }

/-- What a call does to bytes and positions. A write may store less than it is asked to. -/
inductive View.Step (append : Fin NR_FILE → Bool) (v : View) : FileEvent → View → Prop
  | seek {f : Fin NR_FILE} {i : Slot} {offset origin : ℤ} : 0 ≤ origin ∧ origin ≤ 2 →
      0 ≤ v.target f i offset origin ∧ v.target f i offset origin < 2 ^ 31 →
      Step append v (.lseek f i offset origin (v.target f i offset origin))
        (v.setPos f (v.target f i offset origin).toNat)
  | noSeek {f : Fin NR_FILE} {i : Slot} {offset origin : ℤ} :
      ¬((0 ≤ origin ∧ origin ≤ 2) ∧
        0 ≤ v.target f i offset origin ∧ v.target f i offset origin < 2 ^ 31) →
      Step append v (.lseek f i offset origin (-EINVAL)) v
  | read {f : Fin NR_FILE} {i : Slot} {count : ℕ} :
      Step append v (.read f i count ((v.file i).read (v.pos f) count).length
          ((v.file i).read (v.pos f) count))
        (v.setPos f (v.pos f + ((v.file i).read (v.pos f) count).length))
  | write {f : Fin NR_FILE} {i : Slot} {buf : ℕ → UInt8} {count m : ℕ} : m ≤ count →
      Step append v (.write f i buf count (if m = 0 ∧ count ≠ 0 then -1 else (m : ℤ)))
        ((if append f then v else
          v.setPos f ((v.file i).start (append f) (v.pos f) + m)).setFile i
            ((v.file i).write ((v.file i).start (append f) (v.pos f)) m buf))
  | truncate {i : Slot} : Step append v (.truncate i) (v.setFile i .empty)

inductive View.Run (append : Fin NR_FILE → Bool) : View → List FileEvent → View → Prop
  | nil {v : View} : Run append v [] v
  | cons {v v' v'' : View} {e : FileEvent} {es : List FileEvent} : View.Step append v e v' →
      Run append v' es v'' → Run append v (e :: es) v''

/-- The descriptor is open for one of the files `I`. -/
structure OpenFd (g : Files) (I : Finset Slot) (fd : ℕ) (f : Fin NR_FILE) (i : Slot) : Prop where
  small : fd < NR_OPEN
  filp : g.filp fd = some f
  inode : (g.file f).inode = some i
  mem : i ∈ I

/-- The calls that the kernel gets, through any descriptors. -/
inductive FileStep (d : Drivers) (I : Finset Slot) (g : Files) : FileEvent → Files → Prop
  | lseek {fd : ℕ} {f : Fin NR_FILE} {i : Slot} {offset origin r : ℤ} {g' : Files} :
      OpenFd g I fd f i → -2 ^ 31 ≤ offset → offset < 2 ^ 31 →
      sysLseek fd offset origin g = .ok r g' → FileStep d I g (.lseek f i offset origin r) g'
  | read {fd : ℕ} {f : Fin NR_FILE} {i : Slot} {count : ℕ} {r : ℤ} {got : List UInt8} {g' : Files} :
      OpenFd g I fd f i → count < 2 ^ 31 → sysRead d fd count g = .ok (r, got) g' →
      FileStep d I g (.read f i count r got) g'
  | write {fd : ℕ} {f : Fin NR_FILE} {i : Slot} {buf : ℕ → UInt8} {count : ℕ} {r : ℤ} {g' : Files} :
      OpenFd g I fd f i → count < 2 ^ 31 → sysWrite d fd buf count g = .ok r g' →
      FileStep d I g (.write f i buf count r) g'
  | truncate {i : Slot} {s : Fs} : i ∈ I → Minix.truncate i g.fs = .ok () s →
      FileStep d I g (.truncate i) { g with fs := s }

inductive FileRun (d : Drivers) (I : Finset Slot) : Files → List FileEvent → Files → Prop
  | nil {g : Files} : FileRun d I g [] g
  | cons {g g' g'' : Files} {e : FileEvent} {es : List FileEvent} : FileStep d I g e g' →
      FileRun d I g' es g'' → FileRun d I g (e :: es) g''

/-- The files of a device are what the view says. -/
structure Viewed (g : Files) (dev : ℕ) (k : Fin NR_SUPER) (I : Finset Slot) (R : Set ℕ) (v : View) :
    Prop where
  holding : Holding g.fs dev k I R v.file
  seekable : isSeekable dev
  pos : ∀ f, (g.file f).pos = v.pos f
  limit : ∀ f, v.pos f < 2 ^ 31

variable {v : View}

theorem Viewed.setPos (h : Viewed g dev k I R v) (f : Fin NR_FILE) {pos : ℕ} (hpos : pos < 2 ^ 31) :
    Viewed (g.setPos f pos) dev k I R (v.setPos f pos) := by
  refine ⟨h.holding, h.seekable, fun f' => ?_, fun f' => ?_⟩
  · by_cases hf : f' = f
    · subst hf
      have hself : (v.setPos f' pos).pos f' = pos := Function.update_self _ _ _
      rw [setPos_pos, hself]
    · have hfile : (g.setPos f pos).file f' = g.file f' := Function.update_of_ne hf _ _
      have hother : (v.setPos f pos).pos f' = v.pos f' := Function.update_of_ne hf _ _
      rw [hfile, h.pos f', hother]
  · change Function.update v.pos f pos f' < 2 ^ 31
    rw [Function.update_apply]
    split_ifs
    · exact hpos
    · exact h.limit f'

theorem Viewed.setFile (h : Viewed g dev k I R v) {F : ByteFile}
    (hs : Holding s dev k I R (Function.update v.file i F)) :
    Viewed { g with fs := s } dev k I R (v.setFile i F) :=
  ⟨hs, h.seekable, h.pos, h.limit⟩

theorem appends_setPos (g : Files) (f : Fin NR_FILE) (pos : ℤ) :
    (g.setPos f pos).appends = g.appends := by
  funext f'
  unfold Files.appends Files.setPos Files.setFile
  by_cases hf : f' = f
  · subst hf
    simp only [Function.update_self]
  · simp only [Function.update_of_ne hf]

/-- A step of the kernel is one of the view, and the table stays. -/
def Follows (dev : ℕ) (k : Fin NR_SUPER) (I : Finset Slot) (R : Set ℕ) (g : Files) (v : View)
    (e : FileEvent) (g' : Files) : Prop :=
  ∃ v', View.Step g.appends v e v' ∧ Viewed g' dev k I R v' ∧ g'.appends = g.appends

theorem Viewed.small (h : Viewed g dev k I R v) (hi : i ∈ I) : (v.file i).size < 2 ^ 31 := by
  have hsmall := h.holding.small i hi
  unfold maxSize at hsmall
  omega

theorem Viewed.lseek (h : Viewed g dev k I R v) (ho : OpenFd g I fd f i) {offset origin r : ℤ}
    (hle : -2 ^ 31 ≤ offset) (hlt : offset < 2 ^ 31) (heq : sysLseek fd offset origin g = .ok r g') :
    Follows dev k I R g v (.lseek f i offset origin r) g' := by
  have hfd : ¬fd ≥ NR_OPEN := Nat.not_le.2 ho.small
  have hdev := (h.holding.accounted.files i ho.mem).1
  have hpipe := (h.holding.regular i ho.mem).2
  have hsize := (h.holding.stores i ho.mem).size
  have hsmall := h.small ho.mem
  have hlimit := h.limit f
  have hseek : ∀ t : ℤ, 0 ≤ t → t < 2 ^ 31 → 0 ≤ origin ∧ origin ≤ 2 → v.target f i offset origin = t →
      Follows dev k I R g v (.lseek f i offset origin t) (g.setPos f t) := by
    rintro t h0 ht horigin rfl
    have hcast : v.target f i offset origin = ((v.target f i offset origin).toNat : ℤ) :=
      (Int.toNat_of_nonneg h0).symm
    have hpos : (v.target f i offset origin).toNat < 2 ^ 31 := by omega
    have hview := h.setPos f hpos
    rw [← hcast] at hview
    exact ⟨_, .seek horigin ⟨h0, ht⟩, hview, appends_setPos _ _ _⟩
  have hnone : ¬((0 ≤ origin ∧ origin ≤ 2) ∧ 0 ≤ v.target f i offset origin ∧
      v.target f i offset origin < 2 ^ 31) →
      Follows dev k I R g v (.lseek f i offset origin (-EINVAL)) g := fun hnot =>
    ⟨v, .noSeek hnot, h, rfl⟩
  unfold sysLseek at heq
  rw [if_neg hfd, ho.filp] at heq
  dsimp only at heq
  rw [ho.inode] at heq
  dsimp only at heq
  rw [hdev, if_neg (not_not_intro h.seekable), hpipe, if_neg Bool.false_ne_true, h.pos, hsize] at heq
  have hbounds : v.target f i offset origin < 2 ^ 32 ∧ -2 ^ 31 ≤ v.target f i offset origin := by
    unfold View.target
    split_ifs
    all_goals omega
  have hsigned : 0 ≤ origin ∧ origin ≤ 2 →
      (if int32 (v.target f i offset origin) < 0 then (.ok (-EINVAL) g : Call ℤ)
      else .ok (int32 (v.target f i offset origin))
        (g.setPos f (int32 (v.target f i offset origin)))) = .ok r g' →
      Follows dev k I R g v (.lseek f i offset origin r) g' := fun horigin hif => by
    by_cases hin : 0 ≤ v.target f i offset origin ∧ v.target f i offset origin < 2 ^ 31
    · have hint : int32 (v.target f i offset origin) = v.target f i offset origin := by
        apply int32_eq
        all_goals omega
      rw [hint, if_neg (Int.not_lt.2 hin.1)] at hif
      cases hif
      exact hseek _ hin.1 hin.2 horigin rfl
    · have hneg : int32 (v.target f i offset origin) < 0 := by
        unfold int32
        omega
      rw [if_pos hneg] at hif
      cases hif
      exact hnone fun hc => hin hc.2
  unfold View.target at hsigned hnone hbounds hseek
  by_cases h0 : origin = 0
  · subst h0
    rw [if_pos rfl] at heq
    simp only [if_true, zero_add] at hnone hseek
    split_ifs at heq with hneg
    · cases heq
      exact hnone fun hc => absurd hc.2.1 (Int.not_le.2 hneg)
    · cases heq
      exact hseek _ (Int.not_lt.1 hneg) hlt (by decide) rfl
  · by_cases h1 : origin = 1
    · subst h1
      rw [if_neg h0, if_pos rfl] at heq
      rw [if_neg h0, if_pos rfl] at hsigned
      exact hsigned (by decide) heq
    · by_cases h2 : origin = 2
      · subst h2
        rw [if_neg h0, if_neg h1, if_pos rfl] at heq
        rw [if_neg h0, if_neg h1] at hsigned
        exact hsigned (by decide) heq
      · rw [if_neg h0, if_neg h1, if_neg h2] at heq
        cases heq
        refine hnone fun hc => ?_
        omega

/-- `sys_read` of an open file. -/
theorem Viewed.sysRead (h : Viewed g dev k I R v) (ho : OpenFd g I fd f i) (d : Drivers) {count : ℕ}
    (hcount : count < 2 ^ 31) : Minix.sysRead d fd count g =
      .ok (((v.file i).read (v.pos f) count).length, (v.file i).read (v.pos f) count)
        (g.setPos f ((v.pos f + ((v.file i).read (v.pos f) count).length : ℕ) : ℤ)) := by
  have hfd : ¬(fd ≥ NR_OPEN ∨ (count : ℤ) < 0) := by
    have hlt := ho.small
    omega
  obtain ⟨hreg, hpipe⟩ := h.holding.regular i ho.mem
  obtain ⟨hchr, hblk⟩ := isReg_not hreg
  have hsize := (h.holding.stores i ho.mem).size
  have hsmall := h.small ho.mem
  have hlimit := h.limit f
  have hmax := h.holding.small i ho.mem
  have hnothing : min count ((v.file i).size - v.pos f) = 0 →
      (Outcome.ok (0, []) g : Call (ℤ × List UInt8)) =
        .ok (((v.file i).read (v.pos f) count).length, (v.file i).read (v.pos f) count)
          (g.setPos f ((v.pos f + ((v.file i).read (v.pos f) count).length : ℕ) : ℤ)) := fun h0 => by
    have hread : (v.file i).read (v.pos f) count = [] := by
      unfold ByteFile.read
      rw [h0, window_zero]
    rw [hread, List.length_nil, Nat.add_zero, ← h.pos f, setPos_self]
    rfl
  unfold Minix.sysRead
  rw [if_neg hfd, ho.filp]
  dsimp only
  by_cases h0 : count = 0
  · subst h0
    rw [if_pos Nat.cast_zero]
    exact hnothing (Nat.zero_min _)
  rw [if_neg (Nat.cast_ne_zero.2 h0), ho.inode]
  dsimp only
  rw [hpipe, if_neg Bool.false_ne_true, if_neg hchr, if_neg hblk, if_pos (.inr hreg), h.pos f, hsize]
  -- the sum is no more than an unsigned number holds
  have hmod : ((count : ℤ) + v.pos f) % 2 ^ 32 = count + v.pos f := by omega
  have hint : int32 (((v.file i).size : ℤ) - v.pos f) = (v.file i).size - v.pos f := by
    apply int32_eq
    all_goals omega
  rw [hmod, hint]
  by_cases hend : (v.file i).size ≤ v.pos f
  · have hgt : (count : ℤ) + v.pos f > (v.file i).size := by omega
    have hle : ((v.file i).size : ℤ) - v.pos f ≤ 0 := by omega
    rw [if_pos hgt, if_pos hle]
    exact hnothing (by omega)
  have hchars : (if (count : ℤ) + v.pos f > (v.file i).size then
      ((v.file i).size : ℤ) - v.pos f else (count : ℤ)) =
        ((min count ((v.file i).size - v.pos f) : ℕ) : ℤ) := by
    split_ifs
    all_goals omega
  have hne : min count ((v.file i).size - v.pos f) ≠ 0 := by omega
  have hpositive : ¬((min count ((v.file i).size - v.pos f) : ℕ) : ℤ) ≤ 0 := by omega
  have hin : ((v.pos f + min count ((v.file i).size - v.pos f) : ℕ) : ℤ) ≤ maxSize := by
    refine le_trans (Int.ofNat_le.2 ?_) hmax
    omega
  rw [hchars, if_neg hpositive, fileRead_bytes h.holding ho.mem (h.pos f) hin hne, read_length]
  rfl

theorem Viewed.read (h : Viewed g dev k I R v) (ho : OpenFd g I fd f i) {d : Drivers} {count : ℕ}
    (hcount : count < 2 ^ 31) {r : ℤ} {got : List UInt8}
    (heq : Minix.sysRead d fd count g = .ok (r, got) g') :
    Follows dev k I R g v (.read f i count r got) g' := by
  rw [h.sysRead ho d hcount] at heq
  cases heq
  have hsmall := h.small ho.mem
  have hlimit := h.limit f
  refine ⟨_, .read, h.setPos f ?_, appends_setPos _ _ _⟩
  rw [read_length]
  omega

/-- Nothing is stored. -/
theorem View.write_none (v : View) (f : Fin NR_FILE) (i : Slot) (append : Bool) (buf : ℕ → UInt8) :
    (if append then v else v.setPos f ((v.file i).start append (v.pos f) + 0)).setFile i
      ((v.file i).write ((v.file i).start append (v.pos f)) 0 buf) = v := by
  rw [write_zero]
  cases append with
  | true =>
    unfold View.setFile
    rw [if_pos rfl, Function.update_eq_self]
  | false =>
    unfold View.setFile View.setPos ByteFile.start
    rw [if_neg Bool.false_ne_true, if_neg Bool.false_ne_true, Nat.add_zero, Function.update_eq_self,
      Function.update_eq_self]

/-- `sys_write` of an open file: it comes back if what is asked for ends at the limit or before. -/
theorem Viewed.sysWrite (h : Viewed g dev k I R v) (ho : OpenFd g I fd f i) (d : Drivers)
    (buf : ℕ → UInt8) {count : ℕ} (hcount : count < 2 ^ 31) :
    (Minix.sysWrite d fd buf count g).Sat
      (fun r g' => Follows dev k I R g v (.write f i buf count r) g' ∧
        (r < count → g'.fs.freeZones k = ∅))
      fun w => w = .fs .blockTooBig ∧
        maxSize < (((v.file i).start (g.appends f) (v.pos f) + count : ℕ) : ℤ) := by
  obtain ⟨hreg, hpipe⟩ := h.holding.regular i ho.mem
  by_cases h0 : count = 0
  · subst h0
    have hfd : ¬(fd ≥ NR_OPEN ∨ ((0 : ℕ) : ℤ) < 0) := by
      have hlt := ho.small
      omega
    unfold Minix.sysWrite
    rw [if_neg hfd, ho.filp]
    dsimp only
    rw [if_pos Nat.cast_zero]
    have hstep : View.Step g.appends v (.write f i buf 0 0) _ := .write le_rfl
    rw [View.write_none] at hstep
    exact ⟨⟨v, hstep, h, rfl⟩, fun hc => absurd hc (lt_irrefl _)⟩
  have hpositive : (0 : ℤ) < count := by omega
  rw [sysWrite_regular d ho.small ho.filp ho.inode hreg hpipe buf hpositive]
  refine (fileWrite_bytes h.holding ho.mem (h.pos f) count buf).post fun r g' hr => ?_
  obtain ⟨m, s, hm, rfl, hshort, hs, rfl⟩ := hr
  have hr : (if m = 0 then -1 else (m : ℤ)) = if m = 0 ∧ count ≠ 0 then -1 else (m : ℤ) := by
    simp only [h0, ne_eq, not_false_eq_true, and_true]
  have hfile := h.setFile hs
  have hstep : View.Step g.appends v (.write f i buf count _) _ := .write hm
  rw [← hr] at hstep
  refine ⟨⟨_, hstep, ?_, ?_⟩, fun hlt => ?_⟩
  · split_ifs with ha
    · exact hfile
    · refine hfile.setPos f ?_
      by_cases hm0 : m = 0
      · have hlimit := h.limit f
        unfold ByteFile.start
        rw [if_neg ha, hm0]
        exact hlimit
      · have hsize := hfile.small ho.mem
        have hself : ((v.setFile i ((v.file i).write ((v.file i).start (g.appends f) (v.pos f)) m
            buf)).file i) = _ := Function.update_self _ _ _
        rw [hself, write_size, if_neg hm0] at hsize
        exact (le_max_right _ _).trans_lt hsize
  · split_ifs
    · rfl
    · exact appends_setPos _ _ _
  · have hfree : s.freeZones k = ∅ := by
      apply hshort
      split_ifs at hlt with hm0
      · omega
      · exact Int.ofNat_lt.1 hlt
    split_ifs
    · exact hfree
    · exact hfree

theorem Viewed.truncate (h : Viewed g dev k I R v) (hi : i ∈ I)
    (heq : Minix.truncate i g.fs = .ok () s) :
    Follows dev k I R g v (.truncate i) { g with fs := s } := by
  have hacc := h.holding.accounted
  have ht := (hacc.truncate hi).of_ok heq
  obtain ⟨time, hinodes⟩ := ht.inodes
  have hcon := ht.contents hacc hi
  simp only [Access.apply] at hcon
  refine ⟨_, .truncate, h.setFile ⟨ht.accounted hacc hi, fun j hj => ?_, fun j hj => ?_,
    fun j hj => ?_⟩, rfl⟩
  · rw [hinodes, Function.update_apply]
    split_ifs with hji
    · subst hji
      exact h.holding.regular j hj
    · exact h.holding.regular j hj
  · by_cases hji : j = i
    · subst hji
      rw [Function.update_self]
      refine ⟨by rw [hinodes, Function.update_self]; rfl, fun o => ?_⟩
      rw [hcon, Function.update_self]
      unfold bytesOf
      split_ifs
      · rfl
      · rfl
    · rw [Function.update_of_ne hji]
      refine ⟨?_, fun o => ?_⟩
      · rw [hinodes, Function.update_of_ne hji, (h.holding.stores j hj).size]
      · rw [hcon, Function.update_of_ne hji]
        exact (h.holding.stores j hj).byte o
  · rw [Function.update_apply]
    split_ifs
    · exact (by decide : ((0 : ℕ) : ℤ) ≤ maxSize)
    · exact h.holding.small j hj

theorem FileStep.follows {d : Drivers} {e : FileEvent} (h : Viewed g dev k I R v)
    (he : FileStep d I g e g') : Follows dev k I R g v e g' := by
  cases he with
  | lseek ho hle hlt heq => exact h.lseek ho hle hlt heq
  | read ho hcount heq => exact h.read ho hcount heq
  | write ho hcount heq => exact ((h.sysWrite ho d _ hcount).of_ok heq).1
  | truncate hi heq => exact h.truncate hi heq

theorem FileRun.follows {d : Drivers} {es : List FileEvent} (h : Viewed g dev k I R v)
    (hrun : FileRun d I g es g') :
    ∃ v', View.Run g.appends v es v' ∧ Viewed g' dev k I R v' ∧ g'.appends = g.appends := by
  induction hrun generalizing v with
  | nil => exact ⟨v, .nil, h, rfl⟩
  | cons he _ ih =>
    obtain ⟨v₁, hstep, hview, happend⟩ := he.follows h
    obtain ⟨v₂, hrun, hview₂, happend₂⟩ := ih hview
    rw [happend] at hrun happend₂
    exact ⟨v₂, .cons hstep hrun, hview₂, happend₂⟩

/-- Any run of calls does to the files what it does to bytes, and a read or write that stays within
    the greatest size comes back. A write is short only where no zone is free. -/
theorem files_are_bytes {d : Drivers} {es : List FileEvent} (h : Viewed g dev k I R v)
    (hrun : FileRun d I g es g') :
    ∃ v', View.Run g.appends v es v' ∧ Viewed g' dev k I R v' ∧
      ∀ fd f i (count : ℕ), OpenFd g' I fd f i → count < 2 ^ 31 →
        (∃ got g'', Minix.sysRead d fd count g' = .ok ((got.length : ℤ), got) g'') ∧
        ∀ buf, (((v'.file i).start (g.appends f) (v'.pos f) + count : ℕ) : ℤ) ≤ maxSize →
          ∃ r g'', Minix.sysWrite d fd buf count g' = .ok r g'' ∧
            (r < count → g''.fs.freeZones k = ∅) := by
  obtain ⟨v', hview, hv, happend⟩ := hrun.follows h
  refine ⟨v', hview, hv, fun fd f i count ho hcount => ⟨⟨_, _, hv.sysRead ho d hcount⟩,
    fun buf hfits => ?_⟩⟩
  have hsat := hv.sysWrite ho d buf hcount
  rw [happend] at hsat
  cases heq : Minix.sysWrite d fd buf count g' with
  | ok r g'' =>
    rw [heq] at hsat
    exact ⟨r, g'', rfl, hsat.2⟩
  | stop w =>
    rw [heq] at hsat
    exact absurd hfits (Int.not_le.2 hsat.2)

/-! ### A file on a disk with free zones -/

def spaciousFiles : Files := { hdFiles with fs := spacious }

def blankView : View := ⟨fun _ => .empty, fun _ => 0⟩

theorem spacious_viewed : Viewed spaciousFiles 0x301 ⟨0, by decide⟩ {1} {5} blankView := by
  refine ⟨⟨spacious_accounted, by decide, fun i hi => ?_,
    fun _ _ => (by decide : ((0 : ℕ) : ℤ) ≤ maxSize)⟩, by decide, fun f => ?_,
    fun _ => (by decide : 0 < 2 ^ 31)⟩
  · obtain rfl := Finset.mem_singleton.1 hi
    refine ⟨rfl, fun o => ?_⟩
    unfold bytesOf
    split_ifs with hlt
    · have hnone : spaciousFiles.fs.contents {1} 1 ⟨o / 1024, hlt⟩ = none :=
        contents_none ⟨o / 1024, hlt⟩ (spacious_at _)
      rw [hnone]
      rfl
    · rfl
  · change (if f = 0 then _ else _ : File).pos = 0
    split_ifs
    · rfl
    · rfl

theorem files_are_bytes_spacious : ∃ r g' v',
    FileRun noDrivers {1} spaciousFiles [.lseek 0 1 3 0 3, .write 0 1 (fun _ => 7) 2 r] g' ∧
      View.Run spaciousFiles.appends blankView [.lseek 0 1 3 0 3, .write 0 1 (fun _ => 7) 2 r] v' ∧
      Viewed g' 0x301 ⟨0, by decide⟩ {1} {5} v' := by
  have hopen : OpenFd spaciousFiles {1} 3 0 1 := ⟨by decide, rfl, rfl, by decide⟩
  have hseek : FileStep noDrivers {1} spaciousFiles (.lseek 0 1 3 0 3) (spaciousFiles.setPos 0 3) :=
    .lseek hopen (by decide) (by decide) rfl
  obtain ⟨v, -, hview, hcalls⟩ := files_are_bytes spacious_viewed (.cons hseek .nil)
  have hopen' : OpenFd (spaciousFiles.setPos 0 3) {1} 3 0 1 := ⟨by decide, rfl, rfl, by decide⟩
  have hpos : v.pos 0 = 3 := by
    have h3 := hview.pos 0
    rw [setPos_pos] at h3
    omega
  have hstart : (v.file 1).start (spaciousFiles.appends 0) (v.pos 0) = 3 := by
    rw [hpos]
    rfl
  obtain ⟨r, g', heq, -⟩ := (hcalls 3 0 1 2 hopen' (by decide)).2 (fun _ => 7) (by
    rw [hstart]
    decide)
  have hrun : FileRun noDrivers {1} spaciousFiles
      [.lseek 0 1 3 0 3, .write 0 1 (fun _ => 7) 2 r] g' :=
    .cons hseek (.cons (.write hopen' (by decide) heq) .nil)
  obtain ⟨v', hsteps, hview', -⟩ := files_are_bytes spacious_viewed hrun
  exact ⟨r, g', v', hrun, hsteps, hview'⟩

end Linux011.Minix
