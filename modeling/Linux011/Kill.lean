import Linux011.Scheduler

set_option autoImplicit false

/-!
# `sys_kill` (kernel/exit.c)

Its four loops over the task table differ in the tasks that they look at, and share the error that
they return.
-/
namespace Linux011.Kill
open Scheduler (NR_TASKS int32)

structure Task where
  pid : ℤ
  pgrp : ℤ
  euid : ℕ
  signal : BitVec 32
  deriving DecidableEq

def EPERM : ℤ := 1
def EINVAL : ℤ := 22

/-- `1<<(sig-1)`. -/
def bit (sig : ℤ) : BitVec 32 := 1 <<< (sig - 1).toNat

def suser (cur : Task) : Prop := cur.euid = 0

instance (cur : Task) : Decidable (suser cur) := inferInstanceAs (Decidable (_ = _))

/-- `send_sig`, with what becomes of the task. -/
def sendSig (cur : Task) (sig : ℤ) (p : Option Task) (priv : Bool) : Option Task × ℤ :=
  match p with
  | none => (none, -EINVAL)
  | some t =>
    if sig < 1 ∨ sig > 32 then (some t, -EINVAL)
    else if priv = true ∨ cur.euid = t.euid ∨ suser cur then
      (some { t with signal := t.signal ||| bit sig }, 0)
    else (some t, -EPERM)

/-- The test that a loop makes before it sends. -/
def picks (cur : Task) (pid : ℤ) (p : Option Task) : Prop :=
  if pid = 0 then ∃ t ∈ p, t.pgrp = cur.pid
  else if pid > 0 then ∃ t ∈ p, t.pid = pid
  else if pid = -1 then True
  else ∃ t ∈ p, t.pgrp = int32 (-pid)

instance (cur : Task) (pid : ℤ) (p : Option Task) : Decidable (picks cur pid p) := by
  unfold picks
  infer_instance

/-- What a turn makes of its slot, and the error, if it is not 0. -/
def turn (cur : Task) (pid sig : ℤ) (p : Option Task) : Option Task × ℤ :=
  if picks cur pid p then sendSig cur sig p (decide (pid = 0)) else (p, 0)

def killLoop (cur : Task) (pid sig : ℤ) (s : (ℕ → Option Task) × ℤ) (i : ℕ) :
    (ℕ → Option Task) × ℤ :=
  let r := turn cur pid sig (s.1 i)
  (Function.update s.1 i r.1, if r.2 ≠ 0 then r.2 else s.2)

/-- The slots from `NR_TASKS + task` down to the one behind `FIRST_TASK`. -/
def slots : List ℕ := ((List.range NR_TASKS).filter fun i => 1 ≤ i).reverse

def sysKill (task : ℕ → Option Task) (cur : Task) (pid sig : ℤ) : (ℕ → Option Task) × ℤ :=
  slots.foldl (killLoop cur pid sig) (task, 0)

/-! ### What it is meant to do -/

/-- The tasks that the comment before `sys_kill` names. -/
def Named (cur : Task) (pid : ℤ) (i : ℕ) (t : Task) : Prop :=
  if pid > 0 then t.pid = pid
  else if pid = 0 then t.pgrp = cur.pgrp
  else if pid = -1 then i ≠ 0
  else t.pgrp = int32 (-pid)

instance (cur : Task) (pid : ℤ) (i : ℕ) (t : Task) : Decidable (Named cur pid i t) := by
  unfold Named
  infer_instance

/-- The caller may send the signal, or ask whether it may. -/
def May (cur : Task) (pid sig : ℤ) (t : Task) : Prop :=
  0 ≤ sig ∧ sig ≤ 32 ∧ (pid = 0 ∨ cur.euid = t.euid ∨ suser cur)

instance (cur : Task) (pid sig : ℤ) (t : Task) : Decidable (May cur pid sig t) :=
  inferInstanceAs (Decidable (_ ∧ _))

/-- A task table: the caller is in it, and task 0 has number 0 and is in group 0. -/
structure Table (task : ℕ → Option Task) (cur : Task) : Prop where
  inside : ∀ i t, task i = some t → i < NR_TASKS
  first : ∀ t, task 0 = some t → t.pid = 0 ∧ t.pgrp = 0
  running : ∃ c, task c = some cur

/-- The signal goes to the tasks that are named and may be sent it, and all is well if that is all
    that are named. -/
structure KillRight (task : ℕ → Option Task) (cur : Task) (pid sig : ℤ) : Prop where
  sent : ∀ i t, task i = some t → (sysKill task cur pid sig).1 i = some
    (if 1 ≤ sig ∧ Named cur pid i t ∧ May cur pid sig t then
      { t with signal := t.signal ||| bit sig } else t)
  empty : ∀ i, task i = none → (sysKill task cur pid sig).1 i = none
  result : (∀ i t, task i = some t → Named cur pid i t → May cur pid sig t) →
    (sysKill task cur pid sig).2 = 0

/-- The group of the caller has its number as far as the signal is news; and if all that are named
    may be sent it, no slot is empty for -1, and no task is looked at for signal 0. -/
structure KillFits (task : ℕ → Option Task) (cur : Task) (pid sig : ℤ) : Prop where
  group : pid = 0 → 1 ≤ sig → sig ≤ 32 → ∀ i t, task i = some t → t.signal ||| bit sig ≠ t.signal →
    (t.pgrp = cur.pgrp ↔ i ≠ 0 ∧ t.pgrp = cur.pid)
  quiet : (∀ i t, task i = some t → Named cur pid i t → May cur pid sig t) →
    (pid = -1 → ∀ i, 1 ≤ i → i < NR_TASKS → task i ≠ none) ∧
    (sig = 0 → ∀ i t, 1 ≤ i → task i = some t → ¬ picks cur pid (some t))

variable {task : ℕ → Option Task} {cur t : Task} {pid sig : ℤ} {i : ℕ}

theorem mem_slots : i ∈ slots ↔ 1 ≤ i ∧ i < NR_TASKS := by
  unfold slots
  rw [List.mem_reverse, List.mem_filter, List.mem_range, decide_eq_true_eq, and_comm]

theorem nodup_slots : slots.Nodup := by
  unfold slots
  exact List.nodup_reverse.mpr (List.nodup_range.filter _)

/-- Each turn leaves the slots of the others as they are. -/
theorem killLoop_all {l : List ℕ} (hl : l.Nodup) (s : (ℕ → Option Task) × ℤ) :
    (∀ i, (l.foldl (killLoop cur pid sig) s).1 i =
      if i ∈ l then (turn cur pid sig (s.1 i)).1 else s.1 i) ∧
    ((l.foldl (killLoop cur pid sig) s).2 = 0 ↔
      s.2 = 0 ∧ ∀ i ∈ l, (turn cur pid sig (s.1 i)).2 = 0) := by
  induction l generalizing s with
  | nil => simp
  | cons j l ih =>
    obtain ⟨hj, hl⟩ := List.nodup_cons.mp hl
    obtain ⟨htask, hres⟩ := ih hl (killLoop cur pid sig s j)
    have hself : (killLoop cur pid sig s j).1 j = (turn cur pid sig (s.1 j)).1 :=
      Function.update_self ..
    have hother : ∀ i, i ≠ j → (killLoop cur pid sig s j).1 i = s.1 i := fun i hi =>
      Function.update_of_ne hi ..
    rw [List.foldl_cons]
    constructor
    · intro i
      rw [htask]
      by_cases hi : i = j
      · subst hi
        rw [if_neg hj, if_pos List.mem_cons_self, hself]
      · rw [hother i hi]
        simp only [List.mem_cons, hi, false_or]
    · rw [hres]
      have hl' : (∀ i ∈ l, (turn cur pid sig ((killLoop cur pid sig s j).1 i)).2 = 0) ↔
          ∀ i ∈ l, (turn cur pid sig (s.1 i)).2 = 0 := by
        refine forall₂_congr fun i hi => ?_
        rw [hother i fun hc => hj (hc ▸ hi)]
      rw [hl', List.forall_mem_cons, ← and_assoc]
      refine and_congr_left' ?_
      unfold killLoop
      dsimp only
      by_cases hz : (turn cur pid sig (s.1 j)).2 = 0
      · rw [if_neg (not_not_intro hz)]
        exact (and_iff_left hz).symm
      · rw [if_pos hz]
        exact iff_of_false hz fun hc => hz hc.2

theorem sysKill_task (i : ℕ) : (sysKill task cur pid sig).1 i =
    if i ∈ slots then (turn cur pid sig (task i)).1 else task i :=
  (killLoop_all nodup_slots (task, 0)).1 i

theorem sysKill_result : (sysKill task cur pid sig).2 = 0 ↔
    ∀ i ∈ slots, (turn cur pid sig (task i)).2 = 0 := by
  unfold sysKill
  rw [(killLoop_all nodup_slots (task, 0)).2]
  exact and_iff_right rfl

/-! ### One slot -/

theorem einval_ne : -EINVAL ≠ 0 := by decide

theorem eperm_ne : -EPERM ≠ 0 := by decide

theorem sendSig_some (cur : Task) (sig : ℤ) (t : Task) (priv : Bool) :
    (sendSig cur sig (some t) priv).1 = some (if (1 ≤ sig ∧ sig ≤ 32) ∧
      (priv = true ∨ cur.euid = t.euid ∨ suser cur) then
        { t with signal := t.signal ||| bit sig } else t) ∧
    ((sendSig cur sig (some t) priv).2 = 0 ↔ (1 ≤ sig ∧ sig ≤ 32) ∧
      (priv = true ∨ cur.euid = t.euid ∨ suser cur)) := by
  unfold sendSig
  dsimp only
  by_cases hsig : sig < 1 ∨ sig > 32
  · have hno : ¬ ((1 ≤ sig ∧ sig ≤ 32) ∧ (priv = true ∨ cur.euid = t.euid ∨ suser cur)) := by omega
    rw [if_pos hsig, if_neg hno]
    exact ⟨rfl, iff_of_false einval_ne hno⟩
  · rw [if_neg hsig]
    have hyes : 1 ≤ sig ∧ sig ≤ 32 := by omega
    by_cases hmay : priv = true ∨ cur.euid = t.euid ∨ suser cur
    · rw [if_pos hmay, if_pos ⟨hyes, hmay⟩]
      exact ⟨rfl, iff_of_true rfl ⟨hyes, hmay⟩⟩
    · rw [if_neg hmay, if_neg fun hc => hmay hc.2]
      exact ⟨rfl, iff_of_false eperm_ne fun hc => hmay hc.2⟩

/-- A turn sends the signal to the task if it looks at it, and may send it one. -/
theorem turn_some (cur : Task) (pid sig : ℤ) (t : Task) :
    (turn cur pid sig (some t)).1 = some (if 1 ≤ sig ∧ picks cur pid (some t) ∧ May cur pid sig t then
      { t with signal := t.signal ||| bit sig } else t) ∧
    ((turn cur pid sig (some t)).2 = 0 ↔
      (picks cur pid (some t) → 1 ≤ sig ∧ May cur pid sig t)) := by
  obtain ⟨htask, hres⟩ := sendSig_some cur sig t (decide (pid = 0))
  have hmay : (1 ≤ sig ∧ sig ≤ 32) ∧ (decide (pid = 0) = true ∨ cur.euid = t.euid ∨ suser cur) ↔
      1 ≤ sig ∧ May cur pid sig t := by
    unfold May
    rw [decide_eq_true_eq]
    constructor
    · rintro ⟨⟨h1, h32⟩, h⟩
      exact ⟨h1, by omega, h32, h⟩
    · rintro ⟨h1, -, h32, h⟩
      exact ⟨⟨h1, h32⟩, h⟩
  unfold turn
  by_cases hp : picks cur pid (some t)
  · rw [if_pos hp, htask, hres]
    simp only [hmay, hp, true_and, forall_const, and_self]
  · rw [if_neg hp]
    simp only [hp, false_and, and_false, if_false, false_implies, and_self]

/-- An empty slot fails for -1. -/
theorem turn_none (cur : Task) (pid sig : ℤ) :
    (turn cur pid sig none).1 = none ∧ ((turn cur pid sig none).2 = 0 ↔ pid ≠ -1) := by
  have hempty : picks cur pid none ↔ pid = -1 := by
    unfold picks
    split_ifs with h0 hpos hall
    · simp [h0]
    · simp only [Option.mem_def, reduceCtorEq, false_and, exists_false, false_iff]
      omega
    · simp [hall]
    · simp [hall]
  unfold turn
  by_cases hp : pid = -1
  · rw [if_pos (hempty.mpr hp)]
    exact ⟨rfl, iff_of_false einval_ne (not_not_intro hp)⟩
  · rw [if_neg fun hc => hp (hempty.mp hc)]
    exact ⟨rfl, iff_of_true rfl hp⟩

/-- But for 0, the loops look at the tasks that are named. -/
theorem picks_iff (h : Table task cur) (ht : task i = some t) (hpid : pid ≠ 0)
    (hrange : -2147483648 ≤ pid) : Named cur pid i t ↔ i ≠ 0 ∧ picks cur pid (some t) := by
  have hfirst : i = 0 → t.pid = 0 ∧ t.pgrp = 0 := by
    rintro rfl
    exact h.first t ht
  unfold Named picks
  rw [if_neg hpid, if_neg hpid]
  simp only [Option.mem_some_iff, exists_eq_left']
  split_ifs with hpos hall
  · refine ⟨fun he => ⟨fun hi => ?_, he⟩, fun he => he.2⟩
    have := (hfirst hi).1
    omega
  · exact (and_iff_left trivial).symm
  · refine ⟨fun he => ⟨fun hi => ?_, he⟩, fun he => he.2⟩
    have hz := (hfirst hi).2
    rw [he] at hz
    unfold int32 at hz
    omega

theorem picks_zero (cur t : Task) : picks cur 0 (some t) ↔ t.pgrp = cur.pid := by
  unfold picks
  rw [if_pos rfl]
  simp only [Option.mem_some_iff, exists_eq_left']

/-- What the call makes of a task. -/
theorem sysKill_some (h : Table task cur) (ht : task i = some t) : (sysKill task cur pid sig).1 i =
    some (if 1 ≤ sig ∧ (i ≠ 0 ∧ picks cur pid (some t)) ∧ May cur pid sig t then
      { t with signal := t.signal ||| bit sig } else t) := by
  rw [sysKill_task, ht]
  by_cases hi : i = 0
  · have hno : i ∉ slots := fun hc => absurd (mem_slots.mp hc).1 (by omega)
    rw [if_neg hno]
    simp only [hi, ne_eq, not_true, false_and, and_false, if_false]
  · rw [if_pos (mem_slots.mpr ⟨Nat.pos_of_ne_zero hi, h.inside i t ht⟩), (turn_some cur pid sig t).1]
    simp only [ne_eq, hi, not_false_eq_true, true_and]

/-- Nothing fails: the slots are not empty for -1, and a task that is looked at gets the signal. -/
theorem sysKill_zero (h : Table task cur) : (sysKill task cur pid sig).2 = 0 ↔
    (pid = -1 → ∀ i, 1 ≤ i → i < NR_TASKS → task i ≠ none) ∧
    ∀ i t, 1 ≤ i → task i = some t → picks cur pid (some t) → 1 ≤ sig ∧ May cur pid sig t := by
  rw [sysKill_result]
  constructor
  · intro hall
    refine ⟨?_, ?_⟩
    · intro hpid i h1 hi hnone
      have hz := hall i (mem_slots.mpr ⟨h1, hi⟩)
      rw [hnone] at hz
      exact (turn_none cur pid sig).2.mp hz hpid
    · intro i t h1 ht hp
      have hz := hall i (mem_slots.mpr ⟨h1, h.inside i t ht⟩)
      rw [ht] at hz
      exact (turn_some cur pid sig t).2.mp hz hp
  · rintro ⟨hfull, hsent⟩ i hi
    obtain ⟨h1, hlt⟩ := mem_slots.mp hi
    cases ht : task i with
    | none => exact (turn_none cur pid sig).2.mpr fun hc => hfull hc i h1 hlt ht
    | some t => exact (turn_some cur pid sig t).2.mpr (hsent i t h1 ht)

/-! ### The whole call -/

/-- The signal goes where it should, exactly if the groups agree. -/
theorem sent_iff (h : Table task cur) (hrange : -2147483648 ≤ pid) :
    (∀ i t, task i = some t → (sysKill task cur pid sig).1 i = some
      (if 1 ≤ sig ∧ Named cur pid i t ∧ May cur pid sig t then
        { t with signal := t.signal ||| bit sig } else t)) ↔
    (pid = 0 → 1 ≤ sig → sig ≤ 32 → ∀ i t, task i = some t → t.signal ||| bit sig ≠ t.signal →
      (t.pgrp = cur.pgrp ↔ i ≠ 0 ∧ t.pgrp = cur.pid)) := by
  by_cases hpid : pid = 0
  · subst hpid
    have hnamed : ∀ i t, Named cur 0 i t ↔ t.pgrp = cur.pgrp := fun i t => Iff.rfl
    have hmay : ∀ t, May cur 0 sig t ↔ 0 ≤ sig ∧ sig ≤ 32 := fun t => by
      unfold May
      simp only [true_or, and_true]
    constructor
    · intro hsent _ h1 h32 i t ht hnew
      have hone := hsent i t ht
      have hok : May cur 0 sig t := (hmay t).mpr ⟨by omega, h32⟩
      rw [sysKill_some h ht] at hone
      simp only [hnamed, picks_zero, h1, hok, and_true, true_and, Option.some.injEq] at hone
      by_cases hp : i ≠ 0 ∧ t.pgrp = cur.pid <;> by_cases hg : t.pgrp = cur.pgrp
      · exact iff_of_true hg hp
      · rw [if_pos hp, if_neg hg] at hone
        exact absurd (congrArg Task.signal hone) hnew
      · rw [if_neg hp, if_pos hg] at hone
        exact absurd (congrArg Task.signal hone).symm hnew
      · exact iff_of_false hg hp
    · intro hgroup i t ht
      rw [sysKill_some h ht]
      simp only [hnamed, picks_zero]
      by_cases hsig : 1 ≤ sig ∧ sig ≤ 32
      swap
      · have hno : ∀ q : Prop, ¬ (1 ≤ sig ∧ q ∧ May cur 0 sig t) := fun q hc =>
          hsig ⟨hc.1, ((hmay t).mp hc.2.2).2⟩
        rw [if_neg (hno _), if_neg (hno _)]
      by_cases hnew : t.signal ||| bit sig = t.signal
      · have hsame : ({ t with signal := t.signal ||| bit sig } : Task) = t := by
          rw [hnew]
        rw [hsame, ite_self, ite_self]
      · simp only [hgroup rfl hsig.1 hsig.2 i t ht hnew]
  · refine iff_of_true ?_ fun hc => absurd hc hpid
    intro i t ht
    rw [sysKill_some h ht]
    simp only [picks_iff h ht hpid hrange]

/-- The result is right, exactly if what may be sent does not fail. -/
theorem result_iff (h : Table task cur) (hrange : -2147483648 ≤ pid) :
    ((∀ i t, task i = some t → Named cur pid i t → May cur pid sig t) →
      (sysKill task cur pid sig).2 = 0) ↔
    ((∀ i t, task i = some t → Named cur pid i t → May cur pid sig t) →
      (pid = -1 → ∀ i, 1 ≤ i → i < NR_TASKS → task i ≠ none) ∧
      (sig = 0 → ∀ i t, 1 ≤ i → task i = some t → ¬ picks cur pid (some t))) := by
  refine forall_congr' fun hmay => ?_
  rw [sysKill_zero h]
  refine and_congr_right fun _ => ?_
  -- what the loops look at may be sent the signal, unless it is 0
  have hsig : ∀ i t, 1 ≤ i → task i = some t → picks cur pid (some t) → May cur pid sig t := by
    intro i t h1 ht hp
    by_cases hpid : pid = 0
    · obtain ⟨c, hc⟩ := h.running
      have hself := hmay c cur hc (by rw [hpid]; rfl)
      exact ⟨hself.1, hself.2.1, .inl hpid⟩
    · exact hmay i t ht ((picks_iff h ht hpid hrange).mpr ⟨by omega, hp⟩)
  constructor
  · intro hsent hz i t h1 ht hp
    have := (hsent i t h1 ht hp).1
    omega
  · intro hzero i t h1 ht hp
    have hm := hsig i t h1 ht hp
    refine ⟨?_, hm⟩
    by_contra hc
    have := hm.1
    exact hzero (by omega) i t h1 ht hp

/-- `kill` does what it is meant to, exactly under the condition. -/
theorem kill_right_iff (h : Table task cur) (hrange : -2147483648 ≤ pid) :
    KillRight task cur pid sig ↔ KillFits task cur pid sig := by
  have hnone : ∀ i, task i = none → (sysKill task cur pid sig).1 i = none := by
    intro i hi
    rw [sysKill_task, hi, (turn_none cur pid sig).1, ite_self]
  constructor
  · intro hr
    exact ⟨(sent_iff h hrange).mp hr.sent, (result_iff h hrange).mp hr.result⟩
  · intro hf
    exact ⟨(sent_iff h hrange).mpr hf.group, hnone, (result_iff h hrange).mpr hf.quiet⟩

/-- Tasks 0 and 1, a shell that leads group 2, and its child, which calls. -/
def shell (i : ℕ) : Option Task :=
  if i = 0 then some ⟨0, 0, 0, 0⟩
  else if i = 1 then some ⟨1, 0, 0, 0⟩
  else if i = 2 then some ⟨2, 2, 5, 0⟩
  else if i = 3 then some ⟨3, 2, 5, 0⟩
  else none

theorem shell_table : Table shell ⟨3, 2, 5, 0⟩ := by
  refine ⟨?_, ?_, 3, rfl⟩
  · intro i t ht
    unfold shell at ht
    split_ifs at ht <;> subst_vars <;> decide
  · intro t ht
    obtain rfl := Option.some.inj ht
    exact ⟨rfl, rfl⟩

/-- Signal 15 to the shell. -/
theorem kill_right_shell : KillRight shell ⟨3, 2, 5, 0⟩ 2 15 := by
  refine (kill_right_iff shell_table (by decide)).mpr ⟨?_, ?_⟩
  · intro hc
    exact absurd hc (by decide)
  · intro _
    exact ⟨fun hc => absurd hc (by decide), fun hc => absurd hc (by decide)⟩

/-- The group of a caller that does not lead it gets nothing; the superuser's signal for all fails
    for the empty slots; and signal 0 fails. -/
theorem kill_wrong : ¬ KillRight shell ⟨3, 2, 5, 0⟩ 0 15 ∧ ¬ KillRight shell ⟨1, 0, 0, 0⟩ (-1) 15 ∧
    ¬ KillRight shell ⟨3, 2, 5, 0⟩ 2 0 := by
  refine ⟨fun hr => ?_, fun hr => ?_, fun hr => ?_⟩
  · have hsent := hr.sent 2 ⟨2, 2, 5, 0⟩ rfl
    exact absurd hsent (by decide +kernel)
  · refine absurd (hr.result ?_) (by decide +kernel)
    intro i t _ _
    exact ⟨by decide, by decide, .inr (.inr rfl)⟩
  · refine absurd (hr.result ?_) (by decide +kernel)
    intro i t ht hn
    unfold shell at ht
    have hp : t.pid = 2 := hn
    split_ifs at ht <;> obtain rfl := Option.some.inj ht
    · cases hp
    · cases hp
    · exact ⟨le_rfl, by decide, .inr (.inl rfl)⟩
    · cases hp

end Linux011.Kill
