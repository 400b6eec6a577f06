import Linux011.FsQuiet
import Linux011.FsOpens

set_option autoImplicit false

/-!
# Empty directories

`empty_dir` (fs/namei.c) keeps a buffer from one round of its loop to the next. It is released once
where the first two entries are in order and no hole is met.
-/
namespace Linux011.Minix
open Outcomes

variable {s : Fs} {i : Slot}

/-- `strcmp` of a string and the name of an entry says that they are equal. -/
def nameIs (str : Name) (b : Block) (j : ℕ) : Prop :=
  ((List.range (str.length + 1)).map fun t => b (16 * j + 2 + t)) = str ++ [0]

instance (str : Name) (b : Block) (j : ℕ) : Decidable (nameIs str b j) :=
  inferInstanceAs (Decidable (_ = _))

/-- The loop of `empty_dir`: `nr` is the number of the entry, `j` its place in the buffer `bh`. In a
    hole the old buffer, already released, stays where it is. -/
def emptyLoop (i : Slot) (len : ℕ) : ℕ → ℕ → ℕ → Buffer → Fs → Out ℕ
  | 0, _, _, bh, s => (brelse (some bh) s).bind fun _ s => .ok 1 s
  | n + 1, nr, j, bh, s =>
    if len ≤ nr then (brelse (some bh) s).bind fun _ s => .ok 1 s
    else if DIR_ENTRIES_PER_BLOCK ≤ j then
      (brelse (some bh) s).bind fun _ s =>
      (bmap i (nr / DIR_ENTRIES_PER_BLOCK) s).bind fun block s =>
      if block = 0 then emptyLoop i len n (nr + DIR_ENTRIES_PER_BLOCK) j bh s
      else (bread (s.inodes i).dev block s).bind fun b s => match b with
        | none => .ok 0 s
        | some bh =>
          if entryInode (s.data bh) 0 ≠ 0 then (brelse (some bh) s).bind fun _ s => .ok 0 s
          else emptyLoop i len n (nr + 1) 1 bh s
    else if entryInode (s.data bh) j ≠ 0 then (brelse (some bh) s).bind fun _ s => .ok 0 s
    else emptyLoop i len n (nr + 1) (j + 1) bh s

def emptyDir (i : Slot) (s : Fs) : Out ℕ :=
  let inode := s.inodes i
  let len := inode.size.toNat / 16
  if len < 2 ∨ inode.zone 0 = 0 then .ok 0 s
  else (bread inode.dev (inode.zone 0).toNat s).bind fun bh s => match bh with
    | none => .ok 0 s
    | some bh =>
      let de := s.data bh
      if entryInode de 0 ≠ inode.num ∨ entryInode de 1 = 0 ∨ ¬nameIs [dot] de 0 ∨
          ¬nameIs [dot, dot] de 1 then .ok 0 s
      else emptyLoop i len (len - 2) 2 2 bh s

/-! ### What the directory holds -/

def Fs.entries (s : Fs) (i : Slot) : ℕ := (s.inodes i).size.toNat / 16

/-- The block can be mapped and is no hole. -/
def Fs.Mapped (s : Fs) (i : Slot) (k : ℕ) : Prop := k < 7 + 512 + 512 * 512 ∧ s.blockOf i k ≠ 0

def Fs.dirData (s : Fs) (i : Slot) (k : ℕ) : Block := s.data ((s.inodes i).dev, s.blockOf i k)

/-- An entry in a mapped block that names an inode. -/
def Fs.LiveEntry (s : Fs) (i : Slot) (m : ℕ) : Prop :=
  s.Mapped i (m / DIR_ENTRIES_PER_BLOCK) ∧
    entryInode (s.dirData i (m / DIR_ENTRIES_PER_BLOCK)) (m % DIR_ENTRIES_PER_BLOCK) ≠ 0

/-- There is a first block with two entries. -/
def Fs.HasDots (s : Fs) (i : Slot) : Prop := 2 ≤ s.entries i ∧ (s.inodes i).zone 0 ≠ 0

/-- The first two entries are a proper `.` and `..`. -/
def Fs.ProperDots (s : Fs) (i : Slot) : Prop :=
  s.HasDots i ∧ entryInode (s.dirData i 0) 0 = (s.inodes i).num ∧ entryInode (s.dirData i 0) 1 ≠ 0 ∧
    nameIs [dot] (s.dirData i 0) 0 ∧ nameIs [dot, dot] (s.dirData i 0) 1

/-- What `empty_dir` is to do: the answer, and every buffer is released as often as it was got. -/
def EmptyDirRight (s : Fs) (i : Slot) : Prop :=
  ∃ r, emptyDir i s = .ok r s ∧
    (r = 1 ↔ s.ProperDots i ∧ ∀ m, 2 ≤ m → m < s.entries i → ¬s.LiveEntry i m)

/-- No live entry from `nr` on before block `k`, which the loop then comes to. -/
def Fs.Reaches (s : Fs) (i : Slot) (nr k : ℕ) : Prop :=
  nr ≤ DIR_ENTRIES_PER_BLOCK * k ∧ DIR_ENTRIES_PER_BLOCK * k < s.entries i ∧
    ∀ m, nr ≤ m → m < DIR_ENTRIES_PER_BLOCK * k → ¬s.LiveEntry i m

/-- The first two entries, if they are there, are in order, and if they are, the loop comes to no hole
    and to no block that is too big. -/
def ScanUnbroken (s : Fs) (i : Slot) : Prop :=
  (s.HasDots i → s.ProperDots i) ∧ (s.ProperDots i → ∀ k, s.Reaches i 2 k → s.Mapped i k)

/-! ### A buffer that was released -/

/-- Buffers are only released, and one of them is if `strict`. -/
def Loses (strict : Bool) (s s' : Fs) : Prop :=
  (∀ b, s'.bcount b ≤ s.bcount b) ∧ (strict = true → ∃ b, s'.bcount b < s.bcount b)

theorem Loses.trans {s₁ s₂ : Fs} {p q : Bool} (h : Loses p s s₁) (h' : Loses q s₁ s₂) :
    Loses p s s₂ := by
  constructor
  · exact fun b => (h'.1 b).trans (h.1 b)
  · intro hp
    obtain ⟨b, hb⟩ := h.2 hp
    exact ⟨b, (h'.1 b).trans_lt hb⟩

theorem Loses.refl (s : Fs) : Loses false s s := ⟨fun _ => le_refl _, fun h => nomatch h⟩

theorem Loses.weaken {s' : Fs} {p : Bool} (h : Loses p s s') : Loses false s s' :=
  ⟨h.1, fun h => nomatch h⟩

/-- A buffer that is not held for the loop is released for somebody else. -/
theorem brelse_loses (hq : Quiet s) (b : Buffer) :
    (brelse (some b) s).Sat (fun _ s' => Quiet s' ∧ Loses true s s') fun _ => True := by
  unfold brelse
  dsimp only
  split
  · exact trivial
  · next h0 =>
    have hle : ∀ b', Function.update s.bcount b (s.bcount b - 1) b' ≤ s.bcount b' := by
      intro b'
      by_cases hb : b' = b
      · subst hb
        rw [Function.update_self]
        omega
      · rw [Function.update_of_ne hb]
    constructor
    · exact ⟨hq.reads, fun b' => (hle b').trans_lt (hq.bcount b')⟩
    · constructor
      · exact hle
      · intro _
        refine ⟨b, ?_⟩
        change Function.update s.bcount b (s.bcount b - 1) b < s.bcount b
        rw [Function.update_self]
        omega

theorem bmap_quiet (hq : Quiet s) (k : ℕ) :
    (bmap i k s).Sat (fun n s' => s' = s ∧ n = s.blockOf i k) fun _ => True := by
  by_cases hk : k < 7 + 512 + 512 * 512
  · rw [hq.bmap i hk]
    exact ⟨rfl, rfl⟩
  · unfold bmap
    rw [bmapWith_big false i (Nat.not_lt.mp hk)]
    exact trivial

/-- From a hole on, the buffers never come back to what they were. -/
theorem emptyLoop_loses (len n : ℕ) : ∀ (nr j : ℕ) (b : Buffer) (s : Fs), Quiet s →
    ((emptyLoop i len n nr j b (s.hold b)).Sat (fun _ s' => Loses false s s') fun _ => True) ∧
    (DIR_ENTRIES_PER_BLOCK ≤ j →
      (emptyLoop i len n nr j b s).Sat (fun _ s' => Loses true s s') fun _ => True) := by
  induction n with
  | zero =>
    intro nr j b s hq
    unfold emptyLoop
    constructor
    · rw [brelse_hold]
      exact Loses.refl s
    · intro _
      exact (brelse_loses hq b).bind fun _ _ h => h.2
  | succ n ih =>
    intro nr j b s hq
    -- what follows once the old buffer is released
    have hnext : ∀ (s : Fs), Quiet s → DIR_ENTRIES_PER_BLOCK ≤ j →
        ((bmap i (nr / DIR_ENTRIES_PER_BLOCK) s).bind fun block s =>
          if block = 0 then emptyLoop i len n (nr + DIR_ENTRIES_PER_BLOCK) j b s
          else (bread (s.inodes i).dev block s).bind fun b s => match b with
            | none => .ok 0 s
            | some bh =>
              if entryInode (s.data bh) 0 ≠ 0 then (brelse (some bh) s).bind fun _ s => .ok 0 s
              else emptyLoop i len n (nr + 1) 1 bh s).Sat (fun _ s' => Loses false s s')
          fun _ => True := by
      intro s hq hj
      apply (bmap_quiet hq _).bind
      rintro block s' ⟨rfl, -⟩
      split
      · exact ((ih _ j b s' hq).2 hj).post fun _ _ h => h.weaken
      · rw [hq.bread, Outcome.bind_ok]
        dsimp only
        split
        · rw [brelse_hold]
          exact Loses.refl s'
        · exact (ih _ 1 _ s' hq).1
    unfold emptyLoop
    constructor
    · split
      · rw [brelse_hold]
        exact Loses.refl s
      · split
        · next hj =>
          rw [brelse_hold, Outcome.bind_ok]
          exact hnext s hq hj
        · split
          · rw [brelse_hold]
            exact Loses.refl s
          · exact (ih _ _ b s hq).1
    · intro hj
      split
      · exact (brelse_loses hq b).bind fun _ _ h => h.2
      · apply (brelse_loses hq b).bind
        intro _ s' hs'
        exact (hnext s' hs'.1 hj).post fun _ _ h => hs'.2.trans h

theorem Loses.ne {s' : Fs} (h : Loses true s s') : s' ≠ s := by
  rintro rfl
  obtain ⟨b, hb⟩ := h.2 rfl
  exact absurd hb (lt_irrefl _)

/-! ### The loop -/

/-- The loop is at entry `nr` with buffer `b` held. -/
structure AtEntry (s : Fs) (i : Slot) (nr j : ℕ) (b : Buffer) : Prop where
  place : 0 < j ∧ j ≤ DIR_ENTRIES_PER_BLOCK ∧ nr % DIR_ENTRIES_PER_BLOCK = j % DIR_ENTRIES_PER_BLOCK
  block : j < DIR_ENTRIES_PER_BLOCK → s.Mapped i (nr / DIR_ENTRIES_PER_BLOCK) ∧
    b = ((s.inodes i).dev, s.blockOf i (nr / DIR_ENTRIES_PER_BLOCK))

/-- The loop goes on in a block that it has begun. -/
theorem atEntry_succ {nr j : ℕ} (hj : j < DIR_ENTRIES_PER_BLOCK) (hmod : nr % DIR_ENTRIES_PER_BLOCK = j)
    (hmapped : s.Mapped i (nr / DIR_ENTRIES_PER_BLOCK)) :
    AtEntry s i (nr + 1) (j + 1)
      ((s.inodes i).dev, s.blockOf i (nr / DIR_ENTRIES_PER_BLOCK)) := by
  unfold DIR_ENTRIES_PER_BLOCK at *
  constructor
  · unfold DIR_ENTRIES_PER_BLOCK
    omega
  · intro hlt
    unfold DIR_ENTRIES_PER_BLOCK at *
    have hdiv : (nr + 1) / 64 = nr / 64 := by omega
    rw [hdiv]
    exact ⟨hmapped, rfl⟩

/-- No live entry from `nr` on. -/
def Fs.DeadFrom (s : Fs) (i : Slot) (nr : ℕ) : Prop :=
  ∀ m, nr ≤ m → m < s.entries i → ¬s.LiveEntry i m

theorem deadFrom_succ {nr : ℕ} (h : ¬s.LiveEntry i nr) : s.DeadFrom i nr ↔ s.DeadFrom i (nr + 1) := by
  constructor
  · exact fun hd m hm => hd m (by omega)
  · intro hd m hm
    by_cases heq : m = nr
    · exact fun _ => heq ▸ h
    · exact hd m (by omega)

theorem not_deadFrom {nr : ℕ} (h : s.LiveEntry i nr) (hlt : nr < s.entries i) : ¬s.DeadFrom i nr :=
  fun hd => hd nr (le_refl _) hlt h

/-- Behind a live entry nothing is reached. -/
theorem reaches_live {nr k : ℕ} (hr : s.Reaches i nr k) (h : s.LiveEntry i nr) :
    nr = DIR_ENTRIES_PER_BLOCK * k := by
  by_contra hne
  have hle := hr.1
  exact hr.2.2 nr (le_refl _) (by omega) h

/-- Behind a free entry the same blocks are reached, but for the one that begins with it. -/
theorem reaches_succ {nr k : ℕ} (h : ¬s.LiveEntry i nr) (hne : nr ≠ DIR_ENTRIES_PER_BLOCK * k) :
    s.Reaches i nr k ↔ s.Reaches i (nr + 1) k := by
  constructor
  · rintro ⟨hle, hlt, hdead⟩
    exact ⟨by omega, hlt, fun m hm => hdead m (by omega)⟩
  · rintro ⟨hle, hlt, hdead⟩
    refine ⟨by omega, hlt, fun m hm hmk => ?_⟩
    by_cases heq : m = nr
    · exact heq ▸ h
    · exact hdead m (by omega) hmk

/-- The loop gives the right answer and keeps the counts if and only if every block that it comes to
    is mapped. -/
theorem emptyLoop_iff (hq : Quiet s) (n : ℕ) : ∀ (nr j : ℕ) (b : Buffer), AtEntry s i nr j b →
    s.entries i ≤ nr + n →
    ((∃ r, emptyLoop i (s.entries i) n nr j b (s.hold b) = .ok r s ∧ (r = 1 ↔ s.DeadFrom i nr)) ↔
      ∀ k, s.Reaches i nr k → s.Mapped i k) := by
  induction n with
  | zero =>
    intro nr j b _ hfuel
    have hend : ∀ k, ¬s.Reaches i nr k := fun k hr => absurd hr.2.1 (by have := hr.1; omega)
    have hdead : s.DeadFrom i nr := fun m hm hlt => by omega
    constructor
    · exact fun _ k hr => absurd hr (hend k)
    · intro _
      refine ⟨1, ?_, iff_of_true rfl hdead⟩
      unfold emptyLoop
      rw [brelse_hold]
      rfl
  | succ n ih =>
    intro nr j b hat hfuel
    obtain ⟨⟨hj0, hj64, hmod⟩, hblock⟩ := hat
    unfold emptyLoop
    by_cases hend : s.entries i ≤ nr
    · have hnone : ∀ k, ¬s.Reaches i nr k := fun k hr => absurd hr.2.1 (by have := hr.1; omega)
      have hdead : s.DeadFrom i nr := fun m hm hlt => by omega
      rw [if_pos hend, brelse_hold]
      constructor
      · exact fun _ k hr => absurd hr (hnone k)
      · exact fun _ => ⟨1, rfl, iff_of_true rfl hdead⟩
    · rw [if_neg hend]
      by_cases hj : DIR_ENTRIES_PER_BLOCK ≤ j
      · -- the next block
        have hnr : DIR_ENTRIES_PER_BLOCK * (nr / DIR_ENTRIES_PER_BLOCK) = nr := by
          have hjj : j = DIR_ENTRIES_PER_BLOCK := le_antisymm hj64 hj
          rw [hjj, Nat.mod_self] at hmod
          exact Nat.mul_div_cancel' (Nat.dvd_of_mod_eq_zero hmod)
        have hmod0 : nr % DIR_ENTRIES_PER_BLOCK = 0 := by
          unfold DIR_ENTRIES_PER_BLOCK at hnr ⊢
          omega
        have hreach : s.Reaches i nr (nr / DIR_ENTRIES_PER_BLOCK) :=
          ⟨hnr.ge, hnr.trans_lt (Nat.not_le.mp hend), fun m hm hlt => by omega⟩
        rw [if_pos hj, brelse_hold, Outcome.bind_ok]
        by_cases hbig : nr / DIR_ENTRIES_PER_BLOCK < 7 + 512 + 512 * 512
        · rw [hq.bmap i hbig, Outcome.bind_ok]
          by_cases hzero : s.blockOf i (nr / DIR_ENTRIES_PER_BLOCK) = 0
          · rw [if_pos hzero]
            have hloses := (emptyLoop_loses (i := i) (s.entries i) n (nr + DIR_ENTRIES_PER_BLOCK) j b s
              hq).2 hj
            constructor
            · rintro ⟨r, hr, -⟩
              rw [hr] at hloses
              exact absurd rfl hloses.ne
            · intro h
              exact absurd hzero (h _ hreach).2
          · have hmapped : s.Mapped i (nr / DIR_ENTRIES_PER_BLOCK) := ⟨hbig, hzero⟩
            rw [if_neg hzero, hq.bread, Outcome.bind_ok]
            dsimp only
            rw [hold_data]
            change (∃ r, (if entryInode (s.dirData i (nr / DIR_ENTRIES_PER_BLOCK)) 0 ≠ 0 then _ else _) =
              Outcome.ok r s ∧ _) ↔ _
            by_cases hlive : s.LiveEntry i nr
            · have hentry := hlive.2
              rw [hmod0] at hentry
              rw [if_pos hentry, brelse_hold]
              constructor
              · intro _ k hr
                have hk := reaches_live hr hlive
                rw [← hnr] at hk
                exact Nat.eq_of_mul_eq_mul_left (by decide) hk ▸ hmapped
              · intro _
                exact ⟨0, rfl, iff_of_false (by decide) (not_deadFrom hlive (Nat.not_le.mp hend))⟩
            · have hentry : ¬entryInode (s.dirData i (nr / DIR_ENTRIES_PER_BLOCK)) 0 ≠ 0 := by
                intro hne
                exact hlive ⟨hmapped, by rw [hmod0]; exact hne⟩
              rw [if_neg hentry, deadFrom_succ hlive, ih (nr + 1) 1 _ ?_ (by omega)]
              · constructor
                · intro h k hr
                  by_cases hk : nr = DIR_ENTRIES_PER_BLOCK * k
                  · rw [hk, Nat.mul_div_cancel_left k (by decide)] at hmapped
                    exact hmapped
                  · exact h k ((reaches_succ hlive hk).mp hr)
                · intro h k hr
                  have hk : nr ≠ DIR_ENTRIES_PER_BLOCK * k := by
                    have := hr.1
                    omega
                  exact h k ((reaches_succ hlive hk).mpr hr)
              · exact atEntry_succ (by decide) hmod0 hmapped
        · have hstop : bmap i (nr / DIR_ENTRIES_PER_BLOCK) s = .stop .blockTooBig :=
            bmapWith_big false i (Nat.not_lt.mp hbig) s
          rw [hstop, Outcome.bind_stop]
          constructor
          · rintro ⟨r, hr, -⟩
            cases hr
          · intro h
            exact absurd (h _ hreach).1 hbig
      · rw [if_neg hj]
        obtain ⟨hmapped, hb⟩ := hblock (Nat.not_le.mp hj)
        have hmodj : nr % DIR_ENTRIES_PER_BLOCK = j := by
          rw [hmod, Nat.mod_eq_of_lt (Nat.not_le.mp hj)]
        have hdata : s.data b = s.dirData i (nr / DIR_ENTRIES_PER_BLOCK) := by rw [hb]; rfl
        have hinside : ∀ k, nr ≠ DIR_ENTRIES_PER_BLOCK * k := by
          intro k hk
          rw [hk, Nat.mul_mod_right] at hmodj
          omega
        rw [hold_data]
        by_cases hlive : s.LiveEntry i nr
        · have hentry := hlive.2
          rw [hmodj, ← hdata] at hentry
          rw [if_pos hentry, brelse_hold]
          constructor
          · exact fun _ k hr => absurd (reaches_live hr hlive) (hinside k)
          · intro _
            exact ⟨0, rfl, iff_of_false (by decide) (not_deadFrom hlive (Nat.not_le.mp hend))⟩
        · have hentry : ¬entryInode (s.data b) j ≠ 0 := by
            intro hne
            rw [hdata, ← hmodj] at hne
            exact hlive ⟨hmapped, hne⟩
          rw [if_neg hentry, deadFrom_succ hlive, ih (nr + 1) (j + 1) b ?_ (by omega)]
          · constructor
            · exact fun h k hr => h k ((reaches_succ hlive (hinside k)).mp hr)
            · exact fun h k hr => h k ((reaches_succ hlive (hinside k)).mpr hr)
          · rw [hb]
            exact atEntry_succ (Nat.not_le.mp hj) hmodj hmapped

/-! ### The whole of `empty_dir` -/

theorem blockOf_zero : s.blockOf i 0 = ((s.inodes i).zone 0).toNat := rfl

theorem HasDots.mapped (h : s.HasDots i) : s.Mapped i 0 := by
  constructor
  · decide
  · rw [blockOf_zero]
    exact fun h0 => h.2 (UInt16.toNat_inj.mp h0)

/-- `empty_dir` is right if and only if the scan meets nothing but mapped blocks behind proper first
    entries. -/
theorem empty_dir_iff (hq : Quiet s) (i : Slot) : EmptyDirRight s i ↔ ScanUnbroken s i := by
  unfold EmptyDirRight ScanUnbroken emptyDir
  dsimp only
  by_cases hdots : s.HasDots i
  · have hskip : ¬((s.inodes i).size.toNat / 16 < 2 ∨ (s.inodes i).zone 0 = 0) :=
      not_or.mpr ⟨Nat.not_lt.mpr hdots.1, hdots.2⟩
    rw [if_neg hskip, hq.bread, Outcome.bind_ok]
    dsimp only
    by_cases hproper : s.ProperDots i
    · obtain ⟨-, hdot, hdotdot, hname, hname'⟩ := hproper
      rw [if_neg]
      · have hat : AtEntry s i 2 2 ((s.inodes i).dev, ((s.inodes i).zone 0).toNat) :=
          ⟨by decide, fun _ => ⟨HasDots.mapped hdots, rfl⟩⟩
        have hloop := emptyLoop_iff hq (s.entries i - 2) 2 2 _ hat (by omega)
        have hp : s.ProperDots i := ⟨hdots, hdot, hdotdot, hname, hname'⟩
        simp only [hp, true_and, forall_const, hdots]
        exact hloop
      · rw [not_or, not_or, not_or, not_ne_iff, not_not, not_not]
        exact ⟨hdot, hdotdot, hname, hname'⟩
    · rw [if_pos]
      · constructor
        · rintro ⟨r, hr, -⟩
          injection hr with _ hs
          exact absurd hs (hold_ne s _)
        · intro h
          exact absurd (h.1 hdots) hproper
      · by_contra h
        rw [not_or, not_or, not_or, not_ne_iff, not_not, not_not] at h
        exact hproper ⟨hdots, h.1, h.2.1, h.2.2.1, h.2.2.2⟩
  · have hskip : (s.inodes i).size.toNat / 16 < 2 ∨ (s.inodes i).zone 0 = 0 := by
      by_contra h
      rw [not_or] at h
      exact hdots ⟨Nat.not_lt.mp h.1, h.2⟩
    rw [if_pos hskip]
    constructor
    · exact fun _ => ⟨fun h => absurd h hdots, fun h => absurd h.1 hdots⟩
    · exact fun _ => ⟨0, rfl, iff_of_false (by decide) fun h => hdots h.1.1⟩

theorem disk_quiet : Quiet disk where
  reads := rfl
  bcount b := by
    unfold disk
    dsimp only
    split <;> decide

theorem empty_dir_iff_root : EmptyDirRight disk 0 := by
  refine (empty_dir_iff disk_quiet 0).mpr ⟨fun _ => ?_, fun _ k hk => ?_⟩
  · exact ⟨⟨by decide, by decide⟩, by decide⟩
  · have hentries : disk.entries 0 = 2 := rfl
    have hlow := hk.1
    have hhigh := hk.2.1
    rw [hentries] at hhigh
    unfold DIR_ENTRIES_PER_BLOCK at hlow hhigh
    omega
/-- The root directory with one entry more than its block has, in a hole. -/
def sparseRoot : Fs := disk.setInode 0 { disk.inodes 0 with size := 1040 }

set_option maxRecDepth 4000 in
/-- The loop releases the first block twice. -/
theorem empty_dir_hole : emptyDir 0 sparseRoot = .stop .freeFreeBuffer ∧ sparseRoot.ProperDots 0 ∧
    ¬EmptyDirRight sparseRoot 0 := by
  have hstop : emptyDir 0 sparseRoot = .stop .freeFreeBuffer := by rfl
  refine ⟨hstop, ⟨⟨?_, ?_⟩, ?_⟩, ?_⟩
  · decide
  · decide
  · decide
  · rintro ⟨r, hr, -⟩
    rw [hstop] at hr
    cases hr

end Linux011.Minix
