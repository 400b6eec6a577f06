import Linux011.FsFiles
import Linux011.FsOpens

set_option autoImplicit false

/-!
# Duplicated descriptors

`sys_dup2` closes the second descriptor before it looks at the first. What it does is right for exactly
the pairs for which that does not matter.
-/
namespace Linux011.Minix
open Outcomes

variable {k k' : Files} {fd oldfd newfd : ℕ} {r : ℤ}

/-! ### Closing -/

/-- The count of a file once `fd` is closed. -/
def Files.countWithout (k : Files) (fd : ℕ) (f : Fin NR_FILE) : ℕ :=
  (k.file f).count - if k.filp fd = some f then 1 else 0

/-- What the last close of a file leaves of the file system. -/
def PutLast (k : Files) (fd : ℕ) (fs : Fs) : Prop :=
  match k.filp fd with
  | none => fs = k.fs
  | some f =>
    if (k.file f).count = 1 then iputAny (k.file f).inode k.fs = .ok () fs else fs = k.fs

/-- A close that comes back. -/
structure Closed (k : Files) (fd : ℕ) (k' : Files) : Prop where
  filp : k'.filp = Function.update k.filp fd none
  closeOnExec : k'.closeOnExec = k.closeOnExec &&& ~~~fdBit fd
  file : ∀ f, k'.file f = { k.file f with count := k.countWithout fd f }
  fs : PutLast k fd k'.fs

theorem onFs_ok {α : Type} {f : Fs → Out α} {a : α} (h : onFs f k = .ok a k') :
    f k.fs = .ok a k'.fs ∧ k' = { k with fs := k'.fs } := by
  unfold onFs at h
  cases hf : f k.fs with
  | stop w => rw [hf] at h; cases h
  | ok b s =>
    rw [hf] at h
    cases h
    exact ⟨rfl, rfl⟩

theorem countWithout_update (f : Fin NR_FILE) (h : k.filp fd = some f) (g : Fin NR_FILE) :
    Function.update k.file f { k.file f with count := (k.file f).count - 1 } g =
      { k.file g with count := k.countWithout fd g } := by
  unfold Files.countWithout
  by_cases hg : g = f
  · subst hg
    rw [Function.update_self, if_pos h]
  · rw [Function.update_of_ne hg, if_neg, Nat.sub_zero]
    rw [h]
    exact fun hc => hg (Option.some.inj hc).symm

theorem sysClose_high (h : NR_OPEN ≤ fd) : sysClose fd k = .ok (-EINVAL) k := if_pos h

theorem sysClose_closed (h : sysClose fd k = .ok r k') (hfd : fd < NR_OPEN) : Closed k fd k' := by
  unfold sysClose at h
  rw [if_neg (Nat.not_le.mpr hfd)] at h
  cases hf : k.filp fd with
  | none =>
    rw [hf] at h
    cases h
    constructor
    · exact (Function.update_eq_self_iff.mpr hf.symm).symm
    · rfl
    · intro f
      unfold Files.countWithout
      rw [hf, if_neg (fun hc => nomatch hc)]
      rfl
    · unfold PutLast
      rw [hf]
      rfl
  | some f =>
    rw [hf] at h
    dsimp only at h
    split at h
    · cases h
    · next h0 =>
      split at h
      · next h1 =>
        cases h
        constructor
        · rfl
        · rfl
        · exact countWithout_update f hf
        · unfold PutLast
          rw [hf]
          dsimp only
          rw [if_neg (by omega)]
          rfl
      · next h1 =>
        generalize hk₂ : Files.setFile _ f _ = k₂ at h
        cases hp : onFs (iputAny (k.file f).inode) k₂ with
        | stop w => rw [hp] at h; cases h
        | ok a k₁ =>
          rw [hp] at h
          cases h
          obtain ⟨hfs, hk⟩ := onFs_ok hp
          subst hk₂
          constructor
          · rw [hk]
            rfl
          · rw [hk]
            rfl
          · rw [hk]
            exact countWithout_update f hf
          · unfold PutLast
            rw [hf]
            dsimp only
            rw [if_pos (by omega)]
            exact hfs

/-! ### Duplicating -/

theorem dupfd_bad (arg : ℕ) (h : NR_OPEN ≤ fd ∨ k.filp fd = none) :
    dupfd fd arg k = .ok (-EBADF) k := by
  unfold dupfd
  split
  · rfl
  · next hfd =>
    rw [h.resolve_left hfd]

/-- The search for a free descriptor stops where it starts. -/
theorem findFd_free {filp : ℕ → Option (Fin NR_FILE)} {arg : ℕ} (n : ℕ) (h : filp arg = none) :
    findFd filp n arg = arg := by
  cases n with
  | zero => rfl
  | succ n =>
    unfold findFd
    rw [h]
    rfl

theorem dupfd_free {f : Fin NR_FILE} {arg : ℕ} (hfd : fd < NR_OPEN) (hf : k.filp fd = some f)
    (harg : arg < NR_OPEN) (hfree : k.filp arg = none) :
    dupfd fd arg k = .ok arg
      { k with
        closeOnExec := k.closeOnExec &&& ~~~fdBit arg
        filp := Function.update k.filp arg (some f)
        file := Function.update k.file f
          { k.file f with count := ((k.file f).count + 1) % 65536 } } := by
  unfold dupfd
  rw [if_neg (Nat.not_le.mpr hfd), hf]
  dsimp only
  rw [if_neg (Nat.not_le.mpr harg), findFd_free _ hfree, if_neg (Nat.not_le.mpr harg)]
  rfl

theorem dupfd_high {f : Fin NR_FILE} {arg : ℕ} (hfd : fd < NR_OPEN) (hf : k.filp fd = some f)
    (harg : NR_OPEN ≤ arg) : dupfd fd arg k = .ok (-EINVAL) k := by
  unfold dupfd
  rw [if_neg (Nat.not_le.mpr hfd), hf]
  exact if_pos harg

/-! ### `sys_dup2` -/

def Files.IsOpen (k : Files) (fd : ℕ) : Prop := fd < NR_OPEN ∧ k.filp fd ≠ none

/-- The count of a file when `newfd` is made a second name of `oldfd`. -/
def Files.countDup (k : Files) (oldfd newfd : ℕ) (f : Fin NR_FILE) : ℕ :=
  if k.filp oldfd = some f then (k.countWithout newfd f + 1) % 65536 else k.countWithout newfd f

/-- The new descriptor names the file of the old one. Of the rest, only the counts of the two files are
    changed, and the file system where the file of `newfd` is closed for the last time. -/
structure Duplicated (k : Files) (oldfd newfd : ℕ) (r : ℤ) (k' : Files) : Prop where
  result : r = newfd
  filp : k'.filp = Function.update k.filp newfd (k.filp oldfd)
  closeOnExec : k'.closeOnExec = k.closeOnExec &&& ~~~fdBit newfd
  file : ∀ f, k'.file f = { k.file f with count := k.countDup oldfd newfd f }
  fs : PutLast k newfd k'.fs

structure Untouched (k k' : Files) : Prop where
  filp : k'.filp = k.filp
  closeOnExec : k'.closeOnExec = k.closeOnExec
  fileCount : ∀ f, (k'.file f).count = (k.file f).count
  inodeCount : ∀ i, (k'.fs.inodes i).count = (k.fs.inodes i).count

/-- What `dup2` is to do, with its result and the state that it leaves. -/
structure Dup2Right (k : Files) (oldfd newfd : ℕ) (r : ℤ) (k' : Files) : Prop where
  success : 0 ≤ r → Duplicated k oldfd newfd r k'
  failure : r < 0 → Untouched k k'
  same : oldfd = newfd → k.IsOpen oldfd → k' = k

/-- There is nothing to close, or the old descriptor is open and another one. -/
def CloseHarmless (k : Files) (oldfd newfd : ℕ) : Prop :=
  NR_OPEN ≤ newfd ∨ (k.filp newfd = none ∧ k.closeOnExec &&& fdBit newfd = 0) ∨
    (k.IsOpen oldfd ∧ oldfd ≠ newfd)

theorem clear_eq_self {w b : UInt32} : w &&& ~~~b = w ↔ w &&& b = 0 := by
  constructor
  · intro h
    rw [← h]
    apply UInt32.toBitVec_inj.mp
    ext i hi
    simp
  · intro h
    apply UInt32.toBitVec_inj.mp
    ext i hi
    have hb : (w &&& b).toBitVec[i] = (0 : UInt32).toBitVec[i] := by rw [h]
    simp only [UInt32.toBitVec_and, BitVec.getElem_and, UInt32.toBitVec_not, BitVec.getElem_not] at hb ⊢
    cases hw : w.toBitVec[i] <;> cases hbb : b.toBitVec[i] <;> simp_all

/-- A failure after the close has changed nothing only if there was nothing to close. -/
theorem Closed.untouched_iff {k₁ : Files} (h : Closed k newfd k₁) :
    Untouched k k₁ ↔ k.filp newfd = none ∧ k.closeOnExec &&& fdBit newfd = 0 := by
  constructor
  · intro hu
    have hf := congrFun (h.filp.symm.trans hu.filp) newfd
    rw [Function.update_self] at hf
    exact ⟨hf.symm, clear_eq_self.mp (h.closeOnExec.symm.trans hu.closeOnExec)⟩
  · rintro ⟨hf, hb⟩
    have hfs := h.fs
    unfold PutLast at hfs
    rw [hf] at hfs
    constructor
    · exact h.filp.trans (Function.update_eq_self_iff.mpr hf.symm)
    · exact h.closeOnExec.trans (clear_eq_self.mpr hb)
    · intro f
      rw [h.file f]
      unfold Files.countWithout
      rw [hf, if_neg (fun hc => nomatch hc)]
      rfl
    · intro i
      rw [hfs]

theorem Closed.countDup {k₁ : Files} (h : Closed k newfd k₁) {f : Fin NR_FILE}
    (hf : k.filp oldfd = some f) (g : Fin NR_FILE) :
    Function.update k₁.file f { k₁.file f with count := ((k₁.file f).count + 1) % 65536 } g =
      { k.file g with count := k.countDup oldfd newfd g } := by
  unfold Files.countDup
  by_cases hg : g = f
  · subst hg
    rw [Function.update_self, if_pos hf, h.file g]
  · rw [Function.update_of_ne hg, if_neg, h.file g]
    rw [hf]
    exact fun hc => hg (Option.some.inj hc).symm

/-- With an open descriptor and another one, `sys_dup2` does what it is to do. -/
theorem Closed.duplicated {k₁ : Files} (h : Closed k newfd k₁) (hold : k.IsOpen oldfd)
    (hne : oldfd ≠ newfd) (hnew : newfd < NR_OPEN) (hr : dupfd oldfd newfd k₁ = .ok r k') :
    0 ≤ r ∧ Duplicated k oldfd newfd r k' := by
  obtain ⟨f, hf⟩ := Option.ne_none_iff_exists'.mp hold.2
  have hf₁ : k₁.filp oldfd = some f := by rw [h.filp, Function.update_of_ne hne, hf]
  have hfree : k₁.filp newfd = none := by rw [h.filp, Function.update_self]
  rw [dupfd_free hold.1 hf₁ hnew hfree] at hr
  cases hr
  constructor
  · exact Int.natCast_nonneg newfd
  · constructor
    · rfl
    · dsimp only
      rw [h.filp, Function.update_idem, hf]
    · dsimp only
      rw [h.closeOnExec, UInt32.and_assoc, UInt32.and_self]
    · exact h.countDup hf
    · exact h.fs

/-- `dup2` is right if and only if its close does no harm. -/
theorem dup2_right_iff (h : sysDup2 oldfd newfd k = .ok r k') :
    Dup2Right k oldfd newfd r k' ↔ CloseHarmless k oldfd newfd := by
  unfold sysDup2 at h
  by_cases hnew : newfd < NR_OPEN
  · cases hc : sysClose newfd k with
    | stop w => rw [hc] at h; cases h
    | ok r₁ k₁ =>
      rw [hc, Outcome.bind_ok] at h
      have hclosed := sysClose_closed hc hnew
      by_cases hold : k.IsOpen oldfd ∧ oldfd ≠ newfd
      · obtain ⟨hr, hdup⟩ := hclosed.duplicated hold.1 hold.2 hnew h
        constructor
        · exact fun _ => .inr (.inr hold)
        · intro _
          exact ⟨fun _ => hdup, fun hneg => absurd hr (Int.not_le.mpr hneg),
            fun heq => absurd heq hold.2⟩
      · -- the old descriptor is bad, or it has just been closed
        have hbad : NR_OPEN ≤ oldfd ∨ k₁.filp oldfd = none := by
          by_cases hlt : oldfd < NR_OPEN
          · right
            rw [hclosed.filp]
            by_cases heq : oldfd = newfd
            · rw [heq, Function.update_self]
            · rw [Function.update_of_ne heq]
              by_contra hopen
              exact hold ⟨⟨hlt, hopen⟩, heq⟩
          · exact .inl (Nat.not_lt.mp hlt)
        rw [dupfd_bad newfd hbad] at h
        cases h
        constructor
        · intro hright
          have hu := hright.failure (by decide)
          exact .inr (.inl (hclosed.untouched_iff.mp hu))
        · intro hharmless
          have hnone : k.filp newfd = none ∧ k.closeOnExec &&& fdBit newfd = 0 := by
            rcases hharmless with hhigh | hnone | hother
            · omega
            · exact hnone
            · exact absurd hother hold
          constructor
          · intro hr
            exact absurd hr (by decide)
          · intro _
            exact hclosed.untouched_iff.mpr hnone
          · intro heq hopen
            exact absurd hnone.1 (heq ▸ hopen.2)
  · have hhigh : NR_OPEN ≤ newfd := Nat.not_lt.mp hnew
    rw [sysClose_high hhigh, Outcome.bind_ok] at h
    have hfail : r < 0 ∧ k' = k := by
      by_cases hlt : oldfd < NR_OPEN
      · cases hf : k.filp oldfd with
        | none =>
          rw [dupfd_bad newfd (.inr hf)] at h
          cases h
          exact ⟨by decide, rfl⟩
        | some f =>
          rw [dupfd_high hlt hf hhigh] at h
          cases h
          exact ⟨by decide, rfl⟩
      · rw [dupfd_bad newfd (.inl (Nat.not_lt.mp hlt))] at h
        cases h
        exact ⟨by decide, rfl⟩
    obtain ⟨hr, rfl⟩ := hfail
    constructor
    · exact fun _ => .inl hhigh
    · intro _
      exact ⟨fun hpos => absurd hr (Int.not_lt.mpr hpos), fun _ => ⟨rfl, rfl, fun _ => rfl, fun _ => rfl⟩,
        fun _ _ => rfl⟩

/-- A task with three descriptors of two files. -/
def openFiles : Files where
  fs := disk
  file f :=
    if f = 0 then ⟨3, 0, 1, some 0, 0⟩ else if f = 1 then ⟨3, 0, 2, some 0, 0⟩
    else ⟨0, 0, 0, none, 0⟩
  filp fd := if fd = 3 then some 0 else if fd = 4 ∨ fd = 5 then some 1 else none
  closeOnExec := 0

theorem dup2_right_iff_open : ∃ r k', sysDup2 3 4 openFiles = .ok r k' ∧
    (Dup2Right openFiles 3 4 r k' ↔ CloseHarmless openFiles 3 4) :=
  ⟨_, _, rfl, dup2_right_iff rfl⟩

/-- `dup2(7, 4)` fails, as 7 is not open, and has closed 4. -/
theorem dup2_closes : ∃ r k', sysDup2 7 4 openFiles = .ok r k' ∧ r = -EBADF ∧
    openFiles.filp 4 ≠ none ∧ k'.filp 4 = none ∧ ¬Dup2Right openFiles 7 4 r k' := by
  refine ⟨_, _, rfl, rfl, by decide, rfl, ?_⟩
  intro h
  have hf := congrFun (h.failure (by decide)).filp 4
  cases hf

end Linux011.Minix
