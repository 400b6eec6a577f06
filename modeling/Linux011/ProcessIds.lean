import Linux011.Parenthood

set_option autoImplicit false

/-!
# Process numbers

`find_empty_process` counts `last_pid` up until no task has it, and starts again at 1 behind the
greatest 32-bit number. Here task 1 may exit like any other.
-/
namespace Linux011.ProcessTree
open Scheduler (NR_TASKS)

variable {s s' s'' : Tasks} {i : ℕ} {t cur : Task}

/-- `find_empty_process`, for as many turns of its search as given; no slot is `-EAGAIN`. -/
def findEmptyProcess (fuel : ℕ) (s : Tasks) : Option (Tasks × Option ℕ) :=
  (findPid s.task fuel s.lastPid).map fun pid => ({ s with lastPid := pid }, findSlot s.task)

/-- Task 0 alone, `last_pid` being 0. -/
def initTask : Tasks where
  task i := if i = 0 then some ⟨0, -1, 0, 0, false, true, .running, 0, 0, 0, .user⟩ else none
  lastPid := 0
  current := 0
  born := 1
  returned := []

/-- A step of the system, or the exit of task 1. -/
def anyStep (s : Tasks) (a : Act) : Option Tasks :=
  match a, s.current, s.task s.current with
  | .exit code, 1, some cur => match cur.state, cur.place with
    | .running, .user => some (enterExit s cur code)
    | _, _ => none
  | a, _, _ => step s a

/-- The states of all runs. -/
inductive Forked : Tasks → Prop where
  | init : Forked initTask
  | step {s s' : Tasks} (a : Act) (h : Forked s) (hs : anyStep s a = some s') : Forked s'

/-! ### The search -/

theorem nextPid_eq {last : ℤ} (h : 0 ≤ last) (hlt : last < 2147483648) :
    nextPid last = last % 2147483647 + 1 := by
  unfold nextPid
  split_ifs <;> omega

theorem nextPid_pos {last : ℤ} (h : 0 ≤ last) : 0 < nextPid last ∧ nextPid last < 2147483648 := by
  unfold nextPid
  split_ifs <;> omega

/-- The numbers that are tried, one after another. -/
def tried (last : ℤ) (k : ℕ) : ℤ := nextPid^[k + 1] last

theorem tried_eq {last : ℤ} (h : 0 ≤ last) (hlt : last < 2147483648) (k : ℕ) :
    tried last k = (last + k) % 2147483647 + 1 := by
  unfold tried
  induction k with
  | zero =>
    rw [Function.iterate_one, nextPid_eq h hlt]
    norm_num
  | succ k ih =>
    rw [Function.iterate_succ_apply', ih, nextPid_eq (by omega) (by omega)]
    push_cast
    omega

theorem tried_injective {last : ℤ} (h : 0 ≤ last) (hlt : last < 2147483648) {j k : ℕ}
    (hj : j < 2147483647) (hk : k < 2147483647) (he : tried last j = tried last k) : j = k := by
  rw [tried_eq h hlt, tried_eq h hlt] at he
  omega

theorem findPid_none {task : ℕ → Option Task} {n : ℕ} {last : ℤ} (h : findPid task n last = none) :
    ∀ k < n, pidUsed task (tried last k) = true := by
  induction n generalizing last with
  | zero =>
    intro k hk
    exact absurd hk (Nat.not_lt_zero k)
  | succ n ih =>
    unfold findPid at h
    split_ifs at h with hused
    intro k hk
    cases k with
    | zero => exact hused
    | succ k =>
      unfold tried
      rw [Function.iterate_succ_apply]
      exact ih h k (Nat.lt_of_succ_lt_succ hk)

theorem findPid_lt {task : ℕ → Option Task} {n : ℕ} {last pid : ℤ} (hl : 0 ≤ last)
    (h : findPid task n last = some pid) : pid < 2147483648 := by
  induction n generalizing last with
  | zero => cases h
  | succ n ih =>
    unfold findPid at h
    split_ifs at h
    · exact ih (nextPid_pos hl).1.le h
    · obtain rfl := Option.some.inj h
      exact (nextPid_pos hl).2

theorem findPid_more {task : ℕ → Option Task} {n m : ℕ} {last pid : ℤ} (hm : n ≤ m)
    (h : findPid task n last = some pid) : findPid task m last = some pid := by
  induction n generalizing m last with
  | zero => cases h
  | succ n ih =>
    obtain ⟨m, rfl⟩ := Nat.exists_eq_add_of_le' (show 1 ≤ m by omega)
    unfold findPid at h ⊢
    split_ifs at h ⊢ with hused
    · exact ih (by omega) h
    · exact h

/-- The numbers of the tasks in the table. -/
def usedPids (task : ℕ → Option Task) : Finset ℤ :=
  (Finset.range NR_TASKS).biUnion fun i => ((task i).map Task.pid).toFinset

theorem card_usedPids (task : ℕ → Option Task) : (usedPids task).card ≤ NR_TASKS := by
  have hone : ∀ i ∈ Finset.range NR_TASKS, (((task i).map Task.pid).toFinset).card ≤ 1 := by
    intro i _
    cases task i with
    | none => exact Nat.zero_le 1
    | some t => exact le_rfl
  have h := Finset.card_biUnion_le_card_mul _ _ 1 hone
  rwa [Finset.card_range, Nat.mul_one] at h

theorem mem_usedPids {task : ℕ → Option Task} {pid : ℤ} (h : pidUsed task pid = true) :
    pid ∈ usedPids task := by
  obtain ⟨i, hi, ht⟩ := List.any_eq_true.mp h
  refine Finset.mem_biUnion.mpr ⟨i, Finset.mem_range.mpr (List.mem_range.mp hi), ?_⟩
  cases hti : task i with
  | none =>
    rw [hti] at ht
    cases ht
  | some t =>
    rw [hti] at ht
    have hp : t.pid = pid := of_decide_eq_true ht
    rw [← hp]
    exact Finset.mem_singleton_self t.pid

/-- There are 65 numbers among those that are tried, and at most 64 tasks. -/
theorem findPid_ends (task : ℕ → Option Task) {last : ℤ} (h : 0 ≤ last) (hlt : last < 2147483648) :
    ∃ pid, findPid task (NR_TASKS + 1) last = some pid := by
  by_contra hc
  have hnone : findPid task (NR_TASKS + 1) last = none :=
    Option.eq_none_iff_forall_ne_some.mpr fun pid hp => hc ⟨pid, hp⟩
  have hmaps : ∀ k ∈ Finset.range (NR_TASKS + 1), tried last k ∈ usedPids task := by
    intro k hk
    exact mem_usedPids (findPid_none hnone k (Finset.mem_range.mp hk))
  have hcard : (usedPids task).card < (Finset.range (NR_TASKS + 1)).card := by
    rw [Finset.card_range]
    exact Nat.lt_succ_of_le (card_usedPids task)
  obtain ⟨j, hj, k, hk, hne, he⟩ := Finset.exists_ne_map_eq_of_card_lt_of_maps_to hcard hmaps
  have hsmall : NR_TASKS + 1 < 2147483647 := by decide
  rw [Finset.mem_range] at hj hk
  exact hne (tried_injective h hlt (hj.trans hsmall) (hk.trans hsmall) he)

theorem findSlot_none {task : ℕ → Option Task} (h : findSlot task = none) (h1 : 1 ≤ i)
    (hi : i < NR_TASKS) : task i ≠ none := by
  intro hn
  have hno := List.find?_eq_none.mp h i (List.mem_range.mpr hi)
  rw [hn] at hno
  exact hno (by simp [h1])

/-! ### Runs -/

/-- What the numbers of the tasks are. -/
structure Numbered (s : Tasks) : Prop where
  inside : ∀ i t, s.task i = some t → i < NR_TASKS
  unique : ∀ i j t u, s.task i = some t → s.task j = some u → t.pid = u.pid → i = j
  last : 0 ≤ s.lastPid ∧ s.lastPid < 2147483648

/-- No task gets another number, and none is added. -/
structure KeepsPids (s s' : Tasks) : Prop where
  task : ∀ i t', s'.task i = some t' → ∃ t, s.task i = some t ∧ t.pid = t'.pid
  last : s'.lastPid = s.lastPid

theorem KeepsPids.numbered (h : KeepsPids s s') (hn : Numbered s) : Numbered s' := by
  refine ⟨?_, ?_, ?_⟩
  · intro i t' ht'
    obtain ⟨t, ht, -⟩ := h.task i t' ht'
    exact hn.inside i t ht
  · intro i j t' u' ht' hu' he
    obtain ⟨t, ht, hp⟩ := h.task i t' ht'
    obtain ⟨u, hu, hq⟩ := h.task j u' hu'
    exact hn.unique i j t u ht hu (by rw [hp, hq, he])
  · rw [h.last]
    exact hn.last

theorem KeepsPids.of_task (ht : s'.task = s.task) (hl : s'.lastPid = s.lastPid) : KeepsPids s s' := by
  refine ⟨?_, hl⟩
  intro i t' ht'
  rw [ht] at ht'
  exact ⟨t', ht', rfl⟩

theorem KeepsPids.refl (s : Tasks) : KeepsPids s s := .of_task rfl rfl

theorem KeepsPids.trans (h : KeepsPids s s') (h' : KeepsPids s' s'') : KeepsPids s s'' := by
  refine ⟨?_, h'.last.trans h.last⟩
  intro i t'' ht''
  obtain ⟨t', ht', hp'⟩ := h'.task i t'' ht''
  obtain ⟨t, ht, hp⟩ := h.task i t' ht'
  exact ⟨t, ht, hp.trans hp'⟩

theorem KeepsPids.set (ht : s.task i = some t) {t' : Task} (hp : t'.pid = t.pid) :
    KeepsPids s (s.set i (some t')) := by
  refine ⟨?_, rfl⟩
  intro j u hu
  by_cases hj : j = i
  · subst hj
    rw [set_self] at hu
    obtain rfl := Option.some.inj hu
    exact ⟨t, ht, hp.symm⟩
  · rw [set_other _ _ hj] at hu
    exact ⟨u, hu, rfl⟩

theorem KeepsPids.remove (s : Tasks) (i : ℕ) : KeepsPids s (s.set i none) := by
  refine ⟨?_, rfl⟩
  intro j u hu
  by_cases hj : j = i
  · subst hj
    rw [set_self] at hu
    cases hu
  · rw [set_other _ _ hj] at hu
    exact ⟨u, hu, rfl⟩

theorem KeepsPids.modify (s : Tasks) (i : ℕ) (f : Task → Task) (hf : ∀ t, (f t).pid = t.pid) :
    KeepsPids s (s.modify i f) := by
  cases ht : s.task i with
  | none =>
    unfold Tasks.modify
    rw [ht]
    exact .remove s i
  | some t =>
    rw [modify_some f ht]
    exact .set ht (hf t)

theorem KeepsPids.foldl {turn : Tasks → ℕ → Tasks} (hturn : ∀ s i, KeepsPids s (turn s i)) (l : List ℕ)
    (s : Tasks) : KeepsPids s (l.foldl turn s) := by
  induction l generalizing s with
  | nil => exact .refl s
  | cons i l ih => exact (hturn s i).trans (ih (turn s i))

theorem KeepsPids.reparent (pid : ℤ) (s : Tasks) (i : ℕ) : KeepsPids s (reparent pid s i) := by
  unfold ProcessTree.reparent
  cases ht : s.task i with
  | none => exact .refl s
  | some t =>
    dsimp only
    have hset : KeepsPids s (s.set i (some { t with father := 1 })) := .set ht rfl
    split_ifs
    · exact hset.trans (.modify _ 1 _ fun _ => rfl)
    · exact hset
    · exact .refl s

theorem KeepsPids.enterExit (s : Tasks) (cur : Task) (code : ℤ) : KeepsPids s (enterExit s cur code) :=
  (KeepsPids.foldl (KeepsPids.reparent cur.pid) _ s).trans (.modify _ _ _ fun _ => rfl)

theorem KeepsPids.hangUp (session : ℤ) (s : Tasks) (i : ℕ) : KeepsPids s (hangUp session s i) := by
  unfold ProcessTree.hangUp
  cases ht : s.task i with
  | none => exact .refl s
  | some t =>
    dsimp only
    split_ifs
    · exact .set ht rfl
    · exact .refl s

theorem KeepsPids.release (h : release s i = some s') : KeepsPids s s' := by
  unfold ProcessTree.release at h
  split_ifs at h
  obtain rfl := Option.some.inj h
  exact .remove s i

theorem KeepsPids.tellFather {pid : ℤ} (h : tellFather s pid = some s') : KeepsPids s s' := by
  unfold ProcessTree.tellFather at h
  cases hf : findFather s.task pid with
  | none =>
    rw [hf] at h
    exact .release h
  | some i =>
    rw [hf] at h
    obtain rfl := Option.some.inj h
    exact .modify s i _ fun _ => rfl

theorem KeepsPids.leaveExit {code : ℤ} (h : leaveExit s cur code = some s') : KeepsPids s s' := by
  have hkill : KeepsPids s (if cur.leader then killSession s cur.session else s) := by
    split_ifs
    · exact KeepsPids.foldl (KeepsPids.hangUp cur.session) _ s
    · exact .refl s
  unfold ProcessTree.leaveExit at h
  dsimp only at h
  refine hkill.trans (.trans (.modify _ _ (fun t => { t with
    state := .zombie, exitCode := code, place := .dead }) fun _ => rfl) (.tellFather h))

theorem KeepsPids.putPlace (s : Tasks) (p : Place) : KeepsPids s (putPlace s p) :=
  .modify s _ _ fun _ => rfl

theorem KeepsPids.sysWaitpid {pid : ℤ} {options : ℕ} (h : sysWaitpid s cur pid options = some s') :
    KeepsPids s s' := by
  unfold ProcessTree.sysWaitpid at h
  cases hf : scan s cur pid options (NR_TASKS - 1) false with
  | stopped t =>
    rw [hf] at h
    obtain rfl := Option.some.inj h
    exact .putPlace s _
  | zombie i t =>
    rw [hf] at h
    obtain ⟨s₁, hs₁, rfl⟩ := Option.map_eq_some_iff.mp h
    exact (KeepsPids.release hs₁).trans (.putPlace s₁ _)
  | quiet flag =>
    rw [hf] at h
    cases flag with
    | false =>
      obtain rfl := Option.some.inj h
      exact .putPlace s _
    | true =>
      dsimp only at h
      split_ifs at h
      · obtain rfl := Option.some.inj h
        exact .putPlace s _
      · obtain rfl := Option.some.inj h
        exact .modify s _ _ fun _ => rfl

/-- A new task gets the number that was found. -/
theorem Numbered.sysFork (h : Numbered s) {memory : Bool} (hs : sysFork s cur memory = some s') :
    Numbered s' := by
  obtain ⟨pid, hpid, hs⟩ := Option.map_eq_some_iff.mp hs
  obtain ⟨hfree, hpos⟩ := findPid_free hpid h.last.1
  have hn : Numbered { s with lastPid := pid } :=
    ⟨h.inside, h.unique, hpos.le, findPid_lt h.last.1 hpid⟩
  dsimp only at hs
  cases hslot : findSlot s.task with
  | none =>
    rw [hslot] at hs
    rwa [← hs]
  | some i =>
    rw [hslot] at hs
    obtain ⟨h1, hi, hnone⟩ := findSlot_some hslot
    dsimp only at hs
    unfold ProcessTree.copyProcess at hs
    cases memory with
    | false => rwa [← hs]
    | true =>
      obtain ⟨child, hchild, htask, hlast⟩ : ∃ child : Task, child.pid = pid ∧
          s'.task = Function.update s.task i (some child) ∧ s'.lastPid = pid := by
        rw [← hs]
        exact ⟨_, rfl, rfl, rfl⟩
      have hold : ∀ j u, s'.task j = some u → j = i ∧ u = child ∨ j ≠ i ∧ s.task j = some u := by
        intro j u hu
        rw [htask] at hu
        by_cases hj : j = i
        · subst hj
          rw [Function.update_self] at hu
          exact .inl ⟨rfl, (Option.some.inj hu).symm⟩
        · rw [Function.update_of_ne hj] at hu
          exact .inr ⟨hj, hu⟩
      have hnew : ∀ j u, s.task j = some u → u.pid ≠ child.pid := by
        intro j u hu
        rw [hchild]
        exact pidUsed_false hfree (h.inside j u hu) hu
      refine ⟨?_, ?_, ?_⟩
      · intro j u hu
        rcases hold j u hu with ⟨rfl, -⟩ | ⟨-, hu⟩
        · exact hi
        · exact h.inside j u hu
      · intro j k u v hu hv he
        rcases hold j u hu with ⟨rfl, rfl⟩ | ⟨-, hu⟩
        · rcases hold k v hv with ⟨rfl, -⟩ | ⟨-, hv⟩
          · rfl
          · exact absurd he.symm (hnew k v hv)
        · rcases hold k v hv with ⟨rfl, rfl⟩ | ⟨-, hv⟩
          · exact absurd he (hnew j u hu)
          · exact h.unique j k u v hu hv he
      · rw [hlast]
        exact hn.last

theorem Numbered.runCurrent (h : Numbered s) {a : Act} (hs : runCurrent s cur a = some s')
    (hc : s.task s.current = some cur) : Numbered s' := by
  unfold ProcessTree.runCurrent at hs
  cases a with
  | fork memory =>
    cases hp : cur.place with
    | user =>
      rw [hp] at hs
      exact h.sysFork hs
    | _ =>
      rw [hp] at hs
      cases hs
  | setsid =>
    cases hp : cur.place with
    | user =>
      rw [hp] at hs
      dsimp only at hs
      split_ifs at hs
      · rwa [← Option.some.inj hs]
      · have hkeep : KeepsPids s (s.modify s.current fun t =>
            { t with leader := true, session := t.pid, pgrp := t.pid }) := .modify s _ _ fun _ => rfl
        rw [← Option.some.inj hs]
        exact hkeep.numbered h
    | _ =>
      rw [hp] at hs
      cases hs
  | exit code =>
    cases hp : cur.place with
    | user =>
      rw [hp] at hs
      dsimp only at hs
      split_ifs at hs
      rw [← Option.some.inj hs]
      exact (KeepsPids.enterExit s cur code).numbered h
    | _ =>
      rw [hp] at hs
      cases hs
  | waitpid pid options =>
    cases hp : cur.place with
    | user =>
      rw [hp] at hs
      exact (KeepsPids.sysWaitpid hs).numbered h
    | _ =>
      rw [hp] at hs
      cases hs
  | sleep state =>
    have hkeep : KeepsPids s (s.modify s.current fun t => { t with state := state }) :=
      .modify s _ _ fun _ => rfl
    dsimp only at hs
    split at hs
    · cases hs
    · cases hs
    · rw [← Option.some.inj hs]
      exact hkeep.numbered h
  | go =>
    cases hp : cur.place with
    | closing code =>
      rw [hp] at hs
      exact (KeepsPids.leaveExit hs).numbered h
    | waiting pid options =>
      rw [hp] at hs
      dsimp only at hs
      have hset : KeepsPids s (s.set s.current
          (some { cur with
            signal := cur.signal &&& ~~~sigchld, place := .waiting pid options })) := .set hc rfl
      split_ifs at hs
      · exact (hset.trans (.sysWaitpid hs)).numbered h
      · rw [← Option.some.inj hs]
        exact (hset.trans (.putPlace _ _)).numbered h
    | releasing child =>
      rw [hp] at hs
      have hkeep : KeepsPids s { putPlace s .user with
          returned := s.returned ++ [(cur.pid, child)] } :=
        (KeepsPids.putPlace s .user).trans (.of_task rfl rfl)
      rw [← Option.some.inj hs]
      exact hkeep.numbered h
    | _ =>
      rw [hp] at hs
      cases hs
  | _ => cases hs

theorem Numbered.step (h : Numbered s) {a : Act} (hs : step s a = some s') : Numbered s' := by
  unfold ProcessTree.step at hs
  split at hs
  · split at hs
    · next i _ _ _ =>
      split_ifs at hs
      have hkeep : KeepsPids s { s with current := i } := .of_task rfl rfl
      rw [← Option.some.inj hs]
      exact hkeep.numbered h
    · cases hs
  · split at hs
    · next i _ t ht =>
      split_ifs at hs
      have hkeep : KeepsPids s (s.set i (some { t with state := .running })) := .set ht rfl
      rw [← Option.some.inj hs]
      exact hkeep.numbered h
    · cases hs
  · next i mask =>
    have hkeep : KeepsPids s (s.modify i fun t => { t with signal := mask }) :=
      .modify s _ _ fun _ => rfl
    rw [← Option.some.inj hs]
    exact hkeep.numbered h
  · split at hs
    · next cur hc =>
      split_ifs at hs
      exact h.runCurrent hs hc
    · cases hs

theorem Numbered.anyStep (h : Numbered s) {a : Act} (hs : anyStep s a = some s') : Numbered s' := by
  unfold ProcessTree.anyStep at hs
  split at hs
  · split at hs
    · rw [← Option.some.inj hs]
      exact (KeepsPids.enterExit s _ _).numbered h
    · cases hs
  · exact h.step hs

theorem initTask_some {i : ℕ} {t : Task} (h : initTask.task i = some t) : i = 0 := by
  by_contra hi
  have hnone : initTask.task i = none := if_neg hi
  rw [hnone] at h
  cases h

theorem Forked.numbered (h : Forked s) : Numbered s := by
  induction h with
  | init =>
    refine ⟨?_, ?_, ?_⟩
    · intro i t ht
      rw [initTask_some ht]
      decide
    · intro i j t u ht hu _
      rw [initTask_some ht, initTask_some hu]
    · decide
  | step a _ hs ih => exact ih.anyStep hs

/-- `find_empty_process` ends with a number that no task has, in any state of any run, and finds a
    slot if one is empty; no two tasks ever have the same number. -/
theorem process_ids_unique (h : Forked s) :
    (∃ s' slot, (∀ fuel ≥ NR_TASKS + 1, findEmptyProcess fuel s = some (s', slot)) ∧
      0 < s'.lastPid ∧ s'.lastPid < 2147483648 ∧ s'.task = s.task ∧
      (∀ i t, s.task i = some t → t.pid ≠ s'.lastPid) ∧
      (∀ i, slot = some i → 1 ≤ i ∧ i < NR_TASKS ∧ s.task i = none) ∧
      (slot = none ↔ ∀ i, 1 ≤ i → i < NR_TASKS → s.task i ≠ none)) ∧
    ∀ i j t u, s.task i = some t → s.task j = some u → t.pid = u.pid → i = j := by
  have hn := h.numbered
  refine ⟨?_, hn.unique⟩
  obtain ⟨pid, hpid⟩ := findPid_ends s.task hn.last.1 hn.last.2
  obtain ⟨hfree, hpos⟩ := findPid_free hpid hn.last.1
  refine ⟨{ s with lastPid := pid }, findSlot s.task, ?_, hpos, findPid_lt hn.last.1 hpid, rfl,
    fun i t ht => pidUsed_false hfree (hn.inside i t ht) ht, fun i hi => findSlot_some hi, ?_⟩
  · intro fuel hfuel
    unfold findEmptyProcess
    rw [findPid_more hfuel hpid]
    rfl
  · constructor
    · intro hnone i h1 hi
      exact findSlot_none hnone h1 hi
    · intro hall
      cases hslot : findSlot s.task with
      | none => rfl
      | some i =>
        obtain ⟨h1, hi, hi'⟩ := findSlot_some hslot
        exact absurd hi' (hall i h1 hi)

theorem Forked.acts (h : Forked s) {l : List Act} (hl : l.foldlM anyStep s = some s') : Forked s' := by
  induction l generalizing s with
  | nil => rwa [← Option.some.inj hl]
  | cons a l ih =>
    obtain ⟨s₁, hs₁, hl⟩ := Option.bind_eq_some_iff.mp hl
    exact ih (h.step a hs₁) hl

/-- Task 0 has forked, and its child. -/
theorem process_ids_unique_forked : ∃ s s' : Tasks, Forked s ∧ s.lastPid = 2 ∧
    findEmptyProcess 65 s = some (s', some 3) ∧ s'.lastPid = 3 ∧
    ∀ i t, s.task i = some t → t.pid ≠ s'.lastPid := by
  let acts : List Act := [.fork true, .dispatch 1, .fork true]
  have hrun : ((acts.foldlM anyStep initTask).bind fun s =>
      (findEmptyProcess 65 s).map fun r => (s.lastPid, r.1.lastPid, r.2)) = some (2, 3, some 3) := by
    rfl
  obtain ⟨s, hs, hfound⟩ := Option.bind_eq_some_iff.mp hrun
  have h : Forked s := Forked.init.acts hs
  obtain ⟨⟨s', slot, hfuel, -, -, -, hnew, -, -⟩, -⟩ := process_ids_unique h
  have h65 := hfuel 65 le_rfl
  rw [h65] at hfound
  obtain ⟨hl, hl', rfl⟩ : s.lastPid = 2 ∧ s'.lastPid = 3 ∧ slot = some 3 := by
    simpa only [Option.map_some, Option.some.injEq, Prod.mk.injEq] using hfound
  exact ⟨s, s', h, hl, h65, hl', hnew⟩

end Linux011.ProcessTree
