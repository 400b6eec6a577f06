import Mathlib

set_option autoImplicit false

/-!
# Wait queues (sleep_on, interruptible_sleep_on and wake_up of kernel/sched.c)

A queue is a pointer to the last task that went to sleep; the tasks before it are only
known to the stack variables `tmp` of those that came after them.
-/
namespace Linux011.WaitQueue

inductive TaskState where
  | running
  | interruptible
  | uninterruptible
  | zombie
  | stopped
  deriving DecidableEq

/-- `head` is `*p`; `saved t` is the `tmp` of task `t` while it is inside the function. -/
structure Queue where
  head : Option ℕ
  saved : ℕ → Option (Option ℕ)
  state : ℕ → TaskState

def Queue.setState (q : Queue) (t : ℕ) (s : TaskState) : Queue :=
  { q with state := Function.update q.state t s }

/-- `if (tmp) tmp->state=0`. -/
def Queue.wake (q : Queue) : Option ℕ → Queue
  | none => q
  | some t => q.setState t .running

def Queue.enter (q : Queue) (t : ℕ) (s : TaskState) : Queue where
  head := some t
  saved := Function.update q.saved t (some q.head)
  state := Function.update q.state t s

def Queue.leave (q : Queue) (t : ℕ) : Queue :=
  { q with saved := Function.update q.saved t none }

def wakeUp (q : Queue) : Queue :=
  match q.head with
  | none => q
  | some h => { q.setState h .running with head := none }

/-- `other` is whatever the rest of the kernel does to a task that is not in the function. -/
inductive Event where
  | sleep (t : ℕ)
  | wakeUp
  | resume (t : ℕ)
  | signal (t : ℕ)
  | other (t : ℕ) (s : TaskState)
  deriving DecidableEq

/-- The scan at the start of `schedule`. -/
def signal (q : Queue) (t : ℕ) : Queue :=
  if q.state t = .interruptible then q.setState t .running else q

/-- `sleep_on`: a task that is resumed wakes the one before it. Task 0 may not sleep. -/
def sleepOn (q : Queue) : Event → Option Queue
  | .sleep t => if t ≠ 0 ∧ q.saved t = none then some (q.enter t .uninterruptible) else none
  | .wakeUp => some (wakeUp q)
  | .resume t => match q.saved t with
    | some tmp => if q.state t = .running then some ((q.leave t).wake tmp) else none
    | none => none
  | .signal t => some (signal q t)
  | .other t s => if q.saved t = none then some (q.setState t s) else none

/-- `interruptible_sleep_on`: a task that is resumed and finds another one at the head wakes
    that one and goes back to sleep. -/
def interruptibleSleepOn (q : Queue) : Event → Option Queue
  | .sleep t => if t ≠ 0 ∧ q.saved t = none then some (q.enter t .interruptible) else none
  | .wakeUp => some (wakeUp q)
  | .resume t => match q.saved t with
    | some tmp =>
      if q.state t = .running then
        match q.head with
        | some h =>
          if h ≠ t then some ((q.setState h .running).setState t .interruptible)
          else some (({ q with head := none }.leave t).wake tmp)
        | none => some (({ q with head := none }.leave t).wake tmp)
      else none
    | none => none
  | .signal t => some (signal q t)
  | .other t s => if q.saved t = none then some (q.setState t s) else none

inductive Run (step : Queue → Event → Option Queue) (q₀ : Queue) :
    List (Queue × Event) → Queue → Prop
  | nil : Run step q₀ [] q₀
  | snoc {tr : List (Queue × Event)} {q q' : Queue} {ev : Event} (hr : Run step q₀ tr q)
      (hs : step q ev = some q') : Run step q₀ (tr ++ [(q, ev)]) q'

def Idle (q : Queue) : Prop := q.head = none ∧ ∀ t, q.saved t = none

def Inside (q : Queue) (t : ℕ) : Prop := (q.saved t).isSome
def Blocked (q : Queue) (t : ℕ) : Prop := Inside q t ∧ q.state t ≠ .running
def Runnable (q : Queue) (t : ℕ) : Prop := Inside q t ∧ q.state t = .running

/-- One step along the saved pointers. -/
def Link (q : Queue) (t u : ℕ) : Prop := q.saved t = some (some u)

def Reach (q : Queue) : ℕ → ℕ → Prop := Relation.ReflTransGen (Link q)

/-- Every blocked task will be woken by a `wake_up` still to come or by a task on its way out. -/
def NoneLost (q : Queue) : Prop :=
  ∀ t, Blocked q t → (∃ h, q.head = some h ∧ Reach q h t) ∨ ∃ r, Runnable q r ∧ Reach q r t

section Fields
variable (q : Queue) (t : ℕ) (s : TaskState)

@[simp] theorem setState_head : (q.setState t s).head = q.head := rfl
@[simp] theorem setState_saved : (q.setState t s).saved = q.saved := rfl
@[simp] theorem enter_head : (q.enter t s).head = some t := rfl
@[simp] theorem leave_head : (q.leave t).head = q.head := rfl
@[simp] theorem leave_state : (q.leave t).state = q.state := rfl

theorem setState_state (u : ℕ) : (q.setState t s).state u = if u = t then s else q.state u := by
  simp only [Queue.setState, Function.update_apply]

theorem enter_saved (u : ℕ) :
    (q.enter t s).saved u = if u = t then some q.head else q.saved u := by
  simp only [Queue.enter, Function.update_apply]

theorem enter_state (u : ℕ) : (q.enter t s).state u = if u = t then s else q.state u := by
  simp only [Queue.enter, Function.update_apply]

theorem leave_saved (u : ℕ) : (q.leave t).saved u = if u = t then none else q.saved u := by
  simp only [Queue.leave, Function.update_apply]

@[simp] theorem wake_head (tmp : Option ℕ) : (q.wake tmp).head = q.head := by
  cases tmp <;> rfl

@[simp] theorem wake_saved (tmp : Option ℕ) : (q.wake tmp).saved = q.saved := by
  cases tmp <;> rfl

theorem wake_state (tmp : Option ℕ) (u : ℕ) :
    (q.wake tmp).state u = if tmp = some u then .running else q.state u := by
  cases tmp with
  | none => simp [Queue.wake]
  | some t => simp only [Queue.wake, setState_state, Option.some.injEq, eq_comm]

theorem wakeUp_head : (wakeUp q).head = none := by
  unfold wakeUp
  cases h : q.head
  · exact h
  · rfl

@[simp] theorem wakeUp_saved : (wakeUp q).saved = q.saved := by
  unfold wakeUp
  cases q.head <;> rfl

theorem wakeUp_state (u : ℕ) :
    (wakeUp q).state u = if q.head = some u then .running else q.state u := by
  unfold wakeUp
  cases h : q.head with
  | none => simp
  | some t =>
    change (q.setState t .running).state u = _
    simp only [setState_state, Option.some.injEq, eq_comm]

@[simp] theorem signal_head : (signal q t).head = q.head := by
  unfold signal
  split_ifs <;> rfl

@[simp] theorem signal_saved : (signal q t).saved = q.saved := by
  unfold signal
  split_ifs <;> rfl

theorem signal_state (u : ℕ) : (signal q t).state u =
    if u = t ∧ q.state t = .interruptible then .running else q.state u := by
  unfold signal
  split_ifs with h1 h2 h3
  · rw [setState_state, if_pos h2.1]
  · rw [setState_state, if_neg (fun hc => h2 ⟨hc, h1⟩)]
  · exact absurd h3.2 h1
  · rfl

end Fields

/-! ### sleep_on -/

/-- Saved pointers lead to blocked tasks that went to sleep earlier, from one task each, and
    every blocked task is the head or saved by a task inside. -/
structure Chain (q : Queue) (rank : ℕ → ℕ) (n : ℕ) : Prop where
  head : ∀ h, q.head = some h → Inside q h ∧ q.state h = .uninterruptible
  saved : ∀ t u, Link q t u → Inside q u ∧ q.state u = .uninterruptible ∧ rank u < rank t
  fresh : ∀ t u, Link q t u → q.head ≠ some u
  one : ∀ t t' u, Link q t u → Link q t' u → t = t'
  found : ∀ t, Blocked q t → q.head = some t ∨ ∃ u, Link q u t
  state : ∀ t, Inside q t → q.state t = .running ∨ q.state t = .uninterruptible
  bound : ∀ t, Inside q t → rank t < n

theorem Chain.enter {q : Queue} {rank : ℕ → ℕ} {n t : ℕ} (h : Chain q rank n)
    (ht : q.saved t = none) :
    Chain (q.enter t .uninterruptible) (Function.update rank t n) (n + 1) := by
  have hout : ∀ u, Inside q u → u ≠ t := by
    rintro u hu rfl
    simp [Inside, ht] at hu
  have hin : ∀ u, Inside (q.enter t .uninterruptible) u ↔ u = t ∨ Inside q u := by
    intro u
    unfold Inside
    rw [enter_saved]
    split_ifs with hc <;> simp [hc]
  have hlink : ∀ u v, Link (q.enter t .uninterruptible) u v →
      (u = t ∧ q.head = some v) ∨ (u ≠ t ∧ Link q u v) := by
    intro u v hl
    unfold Link at hl
    rw [enter_saved] at hl
    split_ifs at hl with hc
    · exact .inl ⟨hc, Option.some.inj hl⟩
    · exact .inr ⟨hc, hl⟩
  have hstate : ∀ u, u ≠ t → (q.enter t .uninterruptible).state u = q.state u := by
    intro u hu
    rw [enter_state, if_neg hu]
  refine ⟨?_, ?_, ?_, ?_, ?_, ?_, ?_⟩
  · intro u hu
    obtain rfl : t = u := Option.some.inj hu
    exact ⟨(hin t).mpr (.inl rfl), by rw [enter_state, if_pos rfl]⟩
  · intro u v hl
    rcases hlink u v hl with ⟨rfl, hh⟩ | ⟨hu, hl⟩
    · obtain ⟨hv, hs⟩ := h.head v hh
      refine ⟨(hin v).mpr (.inr hv), by rw [hstate v (hout v hv), hs], ?_⟩
      rw [Function.update_self, Function.update_of_ne (hout v hv)]
      exact h.bound v hv
    · obtain ⟨hv, hs, hr⟩ := h.saved u v hl
      refine ⟨(hin v).mpr (.inr hv), by rw [hstate v (hout v hv), hs], ?_⟩
      rwa [Function.update_of_ne hu, Function.update_of_ne (hout v hv)]
  · intro u v hl hh
    obtain rfl : t = v := Option.some.inj hh
    rcases hlink u t hl with ⟨rfl, hh⟩ | ⟨hu, hl⟩
    · exact hout _ (h.head _ hh).1 rfl
    · exact hout _ (h.saved _ _ hl).1 rfl
  · intro u u' v hl hl'
    rcases hlink u v hl with ⟨rfl, hh⟩ | ⟨_, hl⟩ <;>
      rcases hlink u' v hl' with ⟨rfl, hh'⟩ | ⟨_, hl'⟩
    · rfl
    · exact absurd hh (h.fresh _ _ (by assumption))
    · exact absurd hh' (h.fresh _ _ (by assumption))
    · exact h.one u u' v hl hl'
  · rintro u ⟨hu, hs⟩
    rcases (hin u).mp hu with rfl | hu
    · exact .inl rfl
    · have hne := hout u hu
      rw [hstate u hne] at hs
      rcases h.found u ⟨hu, hs⟩ with hh | ⟨v, hl⟩
      · exact .inr ⟨t, by unfold Link; rw [enter_saved, if_pos rfl, hh]⟩
      · have hv : v ≠ t := hout v (by unfold Inside; rw [hl]; rfl)
        exact .inr ⟨v, by unfold Link; rw [enter_saved, if_neg hv]; exact hl⟩
  · intro u hu
    rcases (hin u).mp hu with rfl | hu
    · exact .inr (by rw [enter_state, if_pos rfl])
    · rw [hstate u (hout u hu)]
      exact h.state u hu
  · intro u hu
    rcases (hin u).mp hu with rfl | hu
    · rw [Function.update_self]
      omega
    · rw [Function.update_of_ne (hout u hu)]
      have := h.bound u hu
      omega

theorem Chain.wakeUp {q : Queue} {rank : ℕ → ℕ} {n : ℕ} (h : Chain q rank n) :
    Chain (wakeUp q) rank n := by
  have hlink : ∀ u v, Link (WaitQueue.wakeUp q) u v ↔ Link q u v := fun u v => by
    unfold Link
    rw [wakeUp_saved]
  have hin : ∀ u, Inside (WaitQueue.wakeUp q) u ↔ Inside q u := fun u => by
    unfold Inside
    rw [wakeUp_saved]
  refine ⟨?_, ?_, ?_, ?_, ?_, ?_, ?_⟩
  · intro u hu
    rw [wakeUp_head] at hu
    cases hu
  · intro u v hl
    rw [hlink] at hl
    obtain ⟨hv, hs, hr⟩ := h.saved u v hl
    refine ⟨(hin v).mpr hv, ?_, hr⟩
    rw [wakeUp_state, if_neg (h.fresh u v hl), hs]
  · intro u v _
    rw [wakeUp_head]
    simp
  · intro u u' v hl hl'
    exact h.one u u' v ((hlink u v).mp hl) ((hlink u' v).mp hl')
  · rintro u ⟨hu, hs⟩
    rw [wakeUp_state] at hs
    split_ifs at hs with hh
    · exact absurd rfl hs
    · rcases h.found u ⟨(hin u).mp hu, hs⟩ with hc | ⟨v, hl⟩
      · exact absurd hc hh
      · exact .inr ⟨v, (hlink v u).mpr hl⟩
  · intro u hu
    rw [wakeUp_state]
    split_ifs
    · exact .inl rfl
    · exact h.state u ((hin u).mp hu)
  · intro u hu
    exact h.bound u ((hin u).mp hu)

/-- A task on its way out wakes the one it saved. -/
theorem Chain.resume {q : Queue} {rank : ℕ → ℕ} {n t : ℕ} {tmp : Option ℕ} (h : Chain q rank n)
    (ht : q.saved t = some tmp) (hrun : q.state t = .running) :
    Chain ((q.leave t).wake tmp) rank n := by
  have hlink : ∀ u v, Link ((q.leave t).wake tmp) u v ↔ u ≠ t ∧ Link q u v := by
    intro u v
    unfold Link
    rw [wake_saved, leave_saved]
    split_ifs with hc <;> simp [hc]
  have hin : ∀ u, Inside ((q.leave t).wake tmp) u ↔ u ≠ t ∧ Inside q u := by
    intro u
    unfold Inside
    rw [wake_saved, leave_saved]
    split_ifs with hc <;> simp [hc]
  have hkeep : ∀ u, tmp ≠ some u → ((q.leave t).wake tmp).state u = q.state u := by
    intro u hu
    rw [wake_state, if_neg hu, leave_state]
  have hnot : ∀ u v, u ≠ t → Link q u v → tmp ≠ some v := by
    rintro u v hu hl rfl
    exact hu (h.one u t v hl ht)
  have hself : ∀ v, q.state v = .uninterruptible → v ≠ t := by
    rintro v hv rfl
    rw [hrun] at hv
    cases hv
  refine ⟨?_, ?_, ?_, ?_, ?_, ?_, ?_⟩
  · intro u hu
    rw [wake_head, leave_head] at hu
    obtain ⟨hin', hs⟩ := h.head u hu
    refine ⟨(hin u).mpr ⟨hself u hs, hin'⟩, ?_⟩
    rw [hkeep u ?_, hs]
    rintro rfl
    exact h.fresh t u ht hu
  · intro u v hl
    obtain ⟨hu, hl⟩ := (hlink u v).mp hl
    obtain ⟨hv, hs, hr⟩ := h.saved u v hl
    exact ⟨(hin v).mpr ⟨hself v hs, hv⟩, by rw [hkeep v (hnot u v hu hl), hs], hr⟩
  · intro u v hl
    rw [wake_head, leave_head]
    exact h.fresh u v ((hlink u v).mp hl).2
  · intro u u' v hl hl'
    exact h.one u u' v ((hlink u v).mp hl).2 ((hlink u' v).mp hl').2
  · rintro u ⟨hu, hs⟩
    obtain ⟨hut, hu⟩ := (hin u).mp hu
    rw [wake_state, leave_state] at hs
    split_ifs at hs with hc
    · exact absurd rfl hs
    · rcases h.found u ⟨hu, hs⟩ with hh | ⟨v, hl⟩
      · exact .inl (by rw [wake_head, leave_head, hh])
      · refine .inr ⟨v, (hlink v u).mpr ⟨?_, hl⟩⟩
        rintro rfl
        unfold Link at hl
        rw [ht] at hl
        exact hc (Option.some.inj hl)
  · intro u hu
    rw [wake_state, leave_state]
    split_ifs
    · exact .inl rfl
    · exact h.state u ((hin u).mp hu).2
  · intro u hu
    exact h.bound u ((hin u).mp hu).2

/-- What happens to tasks outside, and to interruptible ones, does not touch the queue. -/
theorem Chain.setState {q : Queue} {rank : ℕ → ℕ} {n : ℕ} (h : Chain q rank n) {q' : Queue}
    (hh : q'.head = q.head) (hsv : q'.saved = q.saved)
    (hst : ∀ t, Inside q t → q'.state t = q.state t) : Chain q' rank n := by
  have hlink : ∀ u v, Link q' u v ↔ Link q u v := fun u v => by
    unfold Link
    rw [hsv]
  have hin : ∀ u, Inside q' u ↔ Inside q u := fun u => by
    unfold Inside
    rw [hsv]
  refine ⟨?_, ?_, ?_, ?_, ?_, ?_, ?_⟩
  · intro u hu
    rw [hh] at hu
    obtain ⟨hu, hs⟩ := h.head u hu
    exact ⟨(hin u).mpr hu, by rw [hst u hu, hs]⟩
  · intro u v hl
    obtain ⟨hv, hs, hr⟩ := h.saved u v ((hlink u v).mp hl)
    exact ⟨(hin v).mpr hv, by rw [hst v hv, hs], hr⟩
  · intro u v hl
    rw [hh]
    exact h.fresh u v ((hlink u v).mp hl)
  · intro u u' v hl hl'
    exact h.one u u' v ((hlink u v).mp hl) ((hlink u' v).mp hl')
  · rintro u ⟨hu, hs⟩
    rw [hin] at hu
    rw [hst u hu] at hs
    rw [hh]
    rcases h.found u ⟨hu, hs⟩ with hc | ⟨v, hl⟩
    · exact .inl hc
    · exact .inr ⟨v, (hlink v u).mpr hl⟩
  · intro u hu
    rw [hin] at hu
    rw [hst u hu]
    exact h.state u hu
  · intro u hu
    exact h.bound u ((hin u).mp hu)

theorem Chain.step {q q' : Queue} {rank : ℕ → ℕ} {n : ℕ} {ev : Event} (h : Chain q rank n)
    (hs : sleepOn q ev = some q') : ∃ rank' n', Chain q' rank' n' := by
  cases ev with
  | sleep t =>
    simp only [sleepOn] at hs
    split_ifs at hs with hc
    cases hs
    exact ⟨_, _, h.enter hc.2⟩
  | wakeUp =>
    cases hs
    exact ⟨rank, n, h.wakeUp⟩
  | resume t =>
    simp only [sleepOn] at hs
    cases ht : q.saved t with
    | none => simp [ht] at hs
    | some tmp =>
      simp only [ht] at hs
      split_ifs at hs with hrun
      cases hs
      exact ⟨rank, n, h.resume ht hrun⟩
  | signal t =>
    cases hs
    refine ⟨rank, n, h.setState (by simp) (by simp) ?_⟩
    intro u hu
    rw [signal_state, if_neg]
    rintro ⟨rfl, hc⟩
    rcases h.state u hu with hs | hs <;> rw [hs] at hc <;> cases hc
  | other t s =>
    simp only [sleepOn] at hs
    split_ifs at hs with hc
    cases hs
    refine ⟨rank, n, h.setState rfl rfl ?_⟩
    intro u hu
    rw [setState_state, if_neg]
    rintro rfl
    simp [Inside, hc] at hu

theorem Idle.chain {q : Queue} (h : Idle q) : Chain q (fun _ => 0) 0 := by
  have hin : ∀ t, ¬ Inside q t := fun t => by simp [Inside, h.2 t]
  have hlink : ∀ t u, ¬ Link q t u := fun t u => by simp [Link, h.2 t]
  refine ⟨fun u hu => ?_, fun t u hl => absurd hl (hlink t u), fun t u hl => absurd hl (hlink t u),
    fun t _ u hl => absurd hl (hlink t u), fun t hb => absurd hb.1 (hin t),
    fun t ht => absurd ht (hin t), fun t ht => absurd ht (hin t)⟩
  rw [h.1] at hu
  cases hu

theorem Run.chain {q₀ q : Queue} {tr : List (Queue × Event)} (hr : Run sleepOn q₀ tr q)
    (h₀ : ∃ rank n, Chain q₀ rank n) : ∃ rank n, Chain q rank n := by
  induction hr with
  | nil => exact h₀
  | snoc _ hs ih =>
    obtain ⟨rank, n, h⟩ := ih
    exact h.step hs

/-- Going up from a blocked task, towards those that slept later, ends at the head or at a
    runnable task. -/
theorem Chain.noneLost {q : Queue} {rank : ℕ → ℕ} {n : ℕ} (h : Chain q rank n) : NoneLost q := by
  have key : ∀ k t, n ≤ rank t + k → Blocked q t →
      (∃ h, q.head = some h ∧ Reach q h t) ∨ ∃ r, Runnable q r ∧ Reach q r t := by
    intro k
    induction k with
    | zero =>
      intro t hk hb
      have := h.bound t hb.1
      omega
    | succ k ih =>
      intro t hk hb
      rcases h.found t hb with hh | ⟨u, hl⟩
      · exact .inl ⟨t, hh, .refl⟩
      · have hu : Inside q u := by
          unfold Inside
          rw [hl]
          rfl
        by_cases hrun : q.state u = .running
        · exact .inr ⟨u, ⟨hu, hrun⟩, .single hl⟩
        · have hr := (h.saved u t hl).2.2
          rcases ih u (by omega) ⟨hu, hrun⟩ with ⟨v, hv, hreach⟩ | ⟨v, hv, hreach⟩
          · exact .inl ⟨v, hv, hreach.tail hl⟩
          · exact .inr ⟨v, hv, hreach.tail hl⟩
  exact fun t hb => key n t (by omega) hb

/-- The sleepers that a `wake_up` found and that have not returned since. -/
structure Woken (q : Queue) (old : Finset ℕ) (rank : ℕ → ℕ) : Prop where
  inside : ∀ t ∈ old, Inside q t
  head : ∀ t ∈ old, q.head ≠ some t
  saved : ∀ t u, t ∉ old → Link q t u → u ∉ old
  rank : ∀ t ∈ old, ∀ u ∈ old, Link q t u → rank u < rank t
  found : ∀ t ∈ old, q.state t ≠ .running → ∃ u ∈ old, Link q u t

/-- Nothing happens to the links and heads of old sleepers; they can only be woken. -/
theorem Woken.mono {q q' : Queue} {old : Finset ℕ} {rank : ℕ → ℕ} (h : Woken q old rank)
    (hs : q'.saved = q.saved) (hh : ∀ t ∈ old, q'.head ≠ some t)
    (hst : ∀ t ∈ old, q'.state t ≠ .running → q.state t ≠ .running) : Woken q' old rank := by
  have hlink : ∀ u v, Link q' u v ↔ Link q u v := fun u v => by
    unfold Link
    rw [hs]
  refine ⟨?_, hh, ?_, ?_, ?_⟩
  · intro t ht
    unfold Inside
    rw [hs]
    exact h.inside t ht
  · intro t u ht hl
    exact h.saved t u ht ((hlink t u).mp hl)
  · intro t ht u hu hl
    exact h.rank t ht u hu ((hlink t u).mp hl)
  · intro t ht hrun
    obtain ⟨u, hu, hl⟩ := h.found t ht (hst t ht hrun)
    exact ⟨u, hu, (hlink u t).mpr hl⟩

theorem Woken.enter {q : Queue} {old : Finset ℕ} {rank : ℕ → ℕ} (h : Woken q old rank) {t : ℕ}
    (ht : q.saved t = none) (s : TaskState) : Woken (q.enter t s) old rank := by
  have hout : ∀ u ∈ old, u ≠ t := by
    rintro u hu rfl
    have := h.inside u hu
    simp [Inside, ht] at this
  have hlink : ∀ u v, u ≠ t → (Link (q.enter t s) u v ↔ Link q u v) := by
    intro u v hu
    unfold Link
    rw [enter_saved, if_neg hu]
  refine ⟨?_, ?_, ?_, ?_, ?_⟩
  · intro u hu
    unfold Inside
    rw [enter_saved, if_neg (hout u hu)]
    exact h.inside u hu
  · intro u hu hc
    exact hout u hu (Option.some.inj hc).symm
  · intro u v hu hl
    by_cases hut : u = t
    · subst hut
      unfold Link at hl
      rw [enter_saved, if_pos rfl] at hl
      exact fun hv => h.head v hv (Option.some.inj hl)
    · exact h.saved u v hu ((hlink u v hut).mp hl)
  · intro u hu v hv hl
    exact h.rank u hu v hv ((hlink u v (hout u hu)).mp hl)
  · intro u hu hrun
    rw [enter_state, if_neg (hout u hu)] at hrun
    obtain ⟨v, hv, hl⟩ := h.found u hu hrun
    exact ⟨v, hv, (hlink v u (hout v hv)).mpr hl⟩

theorem Woken.resume {q : Queue} {old : Finset ℕ} {rank : ℕ → ℕ} (h : Woken q old rank) {t : ℕ}
    {tmp : Option ℕ} (ht : q.saved t = some tmp) :
    Woken ((q.leave t).wake tmp) (old.erase t) rank := by
  have hlink : ∀ u v, Link ((q.leave t).wake tmp) u v ↔ u ≠ t ∧ Link q u v := by
    intro u v
    unfold Link
    rw [wake_saved, leave_saved]
    split_ifs with hc <;> simp [hc]
  refine ⟨?_, ?_, ?_, ?_, ?_⟩
  · intro u hu
    obtain ⟨hut, hu⟩ := Finset.mem_erase.mp hu
    unfold Inside
    rw [wake_saved, leave_saved, if_neg hut]
    exact h.inside u hu
  · intro u hu
    rw [wake_head, leave_head]
    exact h.head u (Finset.mem_of_mem_erase hu)
  · intro u v hu hl hv
    obtain ⟨hut, hl⟩ := (hlink u v).mp hl
    exact h.saved u v (fun hc => hu (Finset.mem_erase.mpr ⟨hut, hc⟩)) hl
      (Finset.mem_of_mem_erase hv)
  · intro u hu v hv hl
    exact h.rank u (Finset.mem_of_mem_erase hu) v (Finset.mem_of_mem_erase hv)
      ((hlink u v).mp hl).2
  · intro u hu hrun
    rw [wake_state, leave_state] at hrun
    split_ifs at hrun with hc
    · exact absurd rfl hrun
    · obtain ⟨v, hv, hl⟩ := h.found u (Finset.mem_of_mem_erase hu) hrun
      have hvt : v ≠ t := by
        rintro rfl
        exact hc (Option.some.inj (ht.symm.trans hl))
      exact ⟨v, Finset.mem_erase.mpr ⟨hvt, hv⟩, (hlink v u).mpr ⟨hvt, hl⟩⟩

/-- The old sleepers left after an event. -/
def remaining (old : Finset ℕ) : Event → Finset ℕ
  | .resume t => old.erase t
  | _ => old

theorem Woken.step {q q' : Queue} {old : Finset ℕ} {rank : ℕ → ℕ} {ev : Event}
    (h : Woken q old rank) (hs : sleepOn q ev = some q') : Woken q' (remaining old ev) rank := by
  cases ev with
  | sleep t =>
    simp only [sleepOn] at hs
    split_ifs at hs with hc
    cases hs
    exact h.enter hc.2 _
  | wakeUp =>
    cases hs
    refine h.mono (wakeUp_saved q) ?_ ?_
    · intro t _
      rw [wakeUp_head]
      simp
    · intro t ht hrun
      rwa [wakeUp_state, if_neg (h.head t ht)] at hrun
  | resume t =>
    simp only [sleepOn] at hs
    cases ht : q.saved t with
    | none => simp [ht] at hs
    | some tmp =>
      simp only [ht] at hs
      split_ifs at hs
      cases hs
      exact h.resume ht
  | signal t =>
    cases hs
    refine h.mono (signal_saved q t) (fun u hu => by rw [signal_head]; exact h.head u hu) ?_
    intro u _ hrun
    rw [signal_state] at hrun
    split_ifs at hrun
    · exact absurd rfl hrun
    · exact hrun
  | other t s =>
    simp only [sleepOn] at hs
    split_ifs at hs with hc
    cases hs
    refine h.mono rfl h.head ?_
    intro u hu hrun
    rw [setState_state, if_neg] at hrun
    · exact hrun
    · rintro rfl
      have := h.inside u hu
      simp [Inside, hc] at this

/-- The sleepers of `old` that have not returned in a run. -/
theorem Run.woken {q₀ q : Queue} {tr : List (Queue × Event)} {old : Finset ℕ} {rank : ℕ → ℕ}
    (hr : Run sleepOn q₀ tr q) (h₀ : Woken q₀ old rank) :
    ∃ left, Woken q left rank ∧ ∀ t ∈ old, t ∉ left → .resume t ∈ tr.map Prod.snd := by
  induction hr with
  | nil => exact ⟨old, h₀, fun t ht hn => absurd ht hn⟩
  | @snoc tr q q' ev hr hs ih =>
    obtain ⟨left, hw, hmem⟩ := ih
    refine ⟨remaining left ev, hw.step hs, ?_⟩
    intro t ht hn
    rw [List.map_append, List.mem_append]
    by_cases hl : t ∈ left
    · right
      cases ev with
      | resume u =>
        have : t = u := by
          by_contra hc
          exact hn (Finset.mem_erase.mpr ⟨hc, hl⟩)
        simp [this]
      | sleep | wakeUp | signal | other => exact absurd hl hn
    · exact .inl (hmem t ht hl)

/-- Among sleepers all of which are blocked there would be a last one, saved by nobody. -/
theorem Woken.empty {q : Queue} {old : Finset ℕ} {rank : ℕ → ℕ} (h : Woken q old rank)
    (hrun : ∀ t, ¬ Runnable q t) : old = ∅ := by
  by_contra hne
  obtain ⟨t, ht, hmax⟩ := Finset.exists_max_image old rank (Finset.nonempty_iff_ne_empty.mpr hne)
  obtain ⟨u, hu, hl⟩ := h.found t ht fun hc => hrun t ⟨h.inside t ht, hc⟩
  have := h.rank u hu t ht hl
  have := hmax u hu
  omega

theorem Chain.woken {q : Queue} {rank : ℕ → ℕ} {n : ℕ} (h : Chain q rank n) {all : Finset ℕ}
    (hall : ∀ t, Inside q t ↔ t ∈ all) : Woken (WaitQueue.wakeUp q) all rank := by
  have hw := h.wakeUp
  refine ⟨?_, ?_, ?_, ?_, ?_⟩
  · intro t ht
    unfold Inside
    rw [wakeUp_saved]
    exact (hall t).mpr ht
  · intro t _
    rw [wakeUp_head]
    simp
  · intro t u ht hl
    refine absurd ((hall t).mp ?_) ht
    unfold Link at hl
    rw [wakeUp_saved] at hl
    unfold Inside
    rw [hl]
    rfl
  · intro t _ u _ hl
    exact (hw.saved t u hl).2.2
  · intro t ht hrun
    have hin : Inside (WaitQueue.wakeUp q) t := by
      unfold Inside
      rw [wakeUp_saved]
      exact (hall t).mpr ht
    rcases hw.found t ⟨hin, hrun⟩ with hc | ⟨u, hl⟩
    · rw [wakeUp_head] at hc
      cases hc
    · refine ⟨u, (hall u).mp ?_, hl⟩
      unfold Link at hl
      rw [wakeUp_saved] at hl
      unfold Inside
      rw [hl]
      rfl

/-- Only finitely many tasks sleep. -/
theorem Run.finite {step : Queue → Event → Option Queue} {q₀ q : Queue}
    {tr : List (Queue × Event)} (hr : Run step q₀ tr q) (h₀ : Idle q₀)
    (hstep : ∀ q q' ev t, step q ev = some q' → Inside q' t → Inside q t ∨ ev = .sleep t) :
    ∃ all : Finset ℕ, ∀ t, Inside q t ↔ t ∈ all := by
  have hsub : ∃ all : Finset ℕ, ∀ t, Inside q t → t ∈ all := by
    induction hr with
    | nil => exact ⟨∅, fun t ht => by simp [Inside, h₀.2 t] at ht⟩
    | @snoc tr q q' ev _ hs ih =>
      obtain ⟨all, hall⟩ := ih
      cases ev with
      | sleep u =>
        refine ⟨insert u all, fun t ht => ?_⟩
        rcases hstep q q' _ t hs ht with hc | hc
        · exact Finset.mem_insert_of_mem (hall t hc)
        · cases hc
          exact Finset.mem_insert_self _ _
      | wakeUp | resume | signal | other =>
        refine ⟨all, fun t ht => hall t ?_⟩
        rcases hstep q q' _ t hs ht with hc | hc
        · exact hc
        · cases hc
  obtain ⟨all, hall⟩ := hsub
  classical
  exact ⟨all.filter (Inside q), fun t => by
    rw [Finset.mem_filter]
    exact ⟨fun h => ⟨hall t h, h⟩, fun h => h.2⟩⟩

theorem sleepOn_inside {q q' : Queue} {ev : Event} {t : ℕ} (hs : sleepOn q ev = some q')
    (hin : Inside q' t) : Inside q t ∨ ev = .sleep t := by
  unfold Inside at *
  cases ev with
  | sleep u =>
    simp only [sleepOn] at hs
    split_ifs at hs
    cases hs
    rw [enter_saved] at hin
    split_ifs at hin with hc
    · exact .inr (by rw [hc])
    · exact .inl hin
  | wakeUp =>
    cases hs
    rw [wakeUp_saved] at hin
    exact .inl hin
  | resume u =>
    simp only [sleepOn] at hs
    cases hu : q.saved u with
    | none => simp [hu] at hs
    | some tmp =>
      simp only [hu] at hs
      split_ifs at hs
      cases hs
      rw [wake_saved, leave_saved] at hin
      split_ifs at hin
      · simp at hin
      · exact .inl hin
  | signal u =>
    cases hs
    rw [signal_saved] at hin
    exact .inl hin
  | other u s =>
    simp only [sleepOn] at hs
    split_ifs at hs
    cases hs
    exact .inl hin

/-- No sleeper is lost, and those asleep at a `wake_up` have all returned as soon as nobody
    inside is runnable. -/
theorem no_lost_sleeper {q₀ q : Queue} {tr : List (Queue × Event)} (h₀ : Idle q₀)
    (hr : Run sleepOn q₀ tr q) :
    NoneLost q ∧ ∀ tr' q', Run sleepOn (wakeUp q) tr' q' → (∀ t, ¬ Runnable q' t) →
      ∀ t, Blocked q t → .resume t ∈ tr'.map Prod.snd := by
  obtain ⟨rank, n, h⟩ := hr.chain ⟨_, _, h₀.chain⟩
  refine ⟨h.noneLost, ?_⟩
  intro tr' q' hr' hrun t ht
  obtain ⟨all, hall⟩ := hr.finite h₀ fun _ _ _ _ => sleepOn_inside
  obtain ⟨left, hw, hmem⟩ := hr'.woken (h.woken hall)
  apply hmem t ((hall t).mp ht.1)
  rw [hw.empty hrun]
  exact Finset.notMem_empty t

def quiet : Queue := ⟨none, fun _ => none, fun _ => .running⟩

/-- Two sleepers at a `wake_up`, and a third one that comes while they return. -/
theorem no_lost_sleeper_two : ∃ q tr tr' q', Run sleepOn quiet tr q ∧ Blocked q 1 ∧ Blocked q 2 ∧
    NoneLost q ∧ Run sleepOn (wakeUp q) tr' q' ∧ Blocked q' 3 ∧
    .resume 1 ∈ tr'.map Prod.snd ∧ .resume 2 ∈ tr'.map Prod.snd := by
  have h₀ : Idle quiet := ⟨rfl, fun _ => rfl⟩
  let q₁ := quiet.enter 1 .uninterruptible
  let q₂ := q₁.enter 2 .uninterruptible
  have h₁ : sleepOn quiet (.sleep 1) = some q₁ := rfl
  have h₂ : sleepOn q₁ (.sleep 2) = some q₂ := rfl
  have hr := (Run.nil.snoc h₁).snoc h₂
  -- the last sleeper is woken first, and wakes the one before it on its way out
  let w₁ := ((wakeUp q₂).leave 2).wake (some 1)
  let w₂ := w₁.enter 3 .uninterruptible
  let w₃ := (w₂.leave 1).wake none
  have hw₁ : sleepOn (wakeUp q₂) (.resume 2) = some w₁ := rfl
  have hw₂ : sleepOn w₁ (.sleep 3) = some w₂ := rfl
  have hw₃ : sleepOn w₂ (.resume 1) = some w₃ := rfl
  have hr' := ((Run.nil.snoc hw₁).snoc hw₂).snoc hw₃
  have hb₁ : Blocked q₂ 1 := ⟨rfl, by decide⟩
  have hb₂ : Blocked q₂ 2 := ⟨rfl, by decide⟩
  have hnone : ∀ t, ¬ Runnable w₃ t := by
    rintro t ⟨hin, hstate⟩
    by_cases h3 : t = 3
    · subst h3
      exact absurd hstate (by decide)
    · simp [w₃, w₂, w₁, q₂, q₁, quiet, Inside, wakeUp, Queue.enter, Queue.leave, Queue.wake,
        Queue.setState, Function.update_apply, h3] at hin
      grind
  have h := no_lost_sleeper h₀ hr
  exact ⟨q₂, _, _, w₃, hr, hb₁, hb₂, h.1, hr', ⟨rfl, by decide⟩, h.2 _ _ hr' hnone 1 hb₁,
    h.2 _ _ hr' hnone 2 hb₂⟩

/-! ### interruptible_sleep_on -/

/-- Someone else than `t` itself leads to `t`. -/
def KeepsSleeper (q : Queue) (t : ℕ) : Prop :=
  (∃ h, q.head = some h ∧ Reach q h t) ∨ ∃ r, r ≠ t ∧ Runnable q r ∧ Reach q r t

/-- A task that is resumed, finds another head and so goes back to sleep can still be found. -/
def StaysLinked (q : Queue) : Event → Prop
  | .resume t => ∀ h, q.head = some h → h ≠ t → Inside q t → q.state t = .running →
      KeepsSleeper q t
  | _ => True

theorem reach_congr {q q' : Queue} (h : q'.saved = q.saved) (t u : ℕ) :
    Reach q' t u ↔ Reach q t u := by
  unfold Reach
  have : Link q' = Link q := by
    funext a b
    unfold Link
    rw [h]
  rw [this]

theorem inside_congr {q q' : Queue} (h : q'.saved = q.saved) (t : ℕ) :
    Inside q' t ↔ Inside q t := by
  unfold Inside
  rw [h]

/-- Tasks are only woken, and whoever was the head is head or runnable. -/
theorem NoneLost.mono {q q' : Queue} (h : NoneLost q) (hs : q'.saved = q.saved)
    (hst : ∀ t, Inside q t → q'.state t = .running ∨ q'.state t = q.state t)
    (hh : ∀ t, q.head = some t → q'.head = some t ∨ Runnable q' t) : NoneLost q' := by
  rintro t ⟨hin, hrun⟩
  rw [inside_congr hs] at hin
  have hb : Blocked q t := by
    refine ⟨hin, ?_⟩
    rcases hst t hin with hc | hc
    · exact absurd hc hrun
    · rwa [← hc]
  simp only [reach_congr hs]
  rcases h t hb with ⟨u, hu, hr⟩ | ⟨u, hu, hr⟩
  · rcases hh u hu with hc | hc
    · exact .inl ⟨u, hc, hr⟩
    · exact .inr ⟨u, hc, hr⟩
  · refine .inr ⟨u, ⟨(inside_congr hs u).mpr hu.1, ?_⟩, hr⟩
    rcases hst u hu.1 with hc | hc
    · exact hc
    · rw [hc, hu.2]

theorem NoneLost.enter {q : Queue} (h : NoneLost q) {t : ℕ} (ht : q.saved t = none)
    (s : TaskState) : NoneLost (q.enter t s) := by
  have hout : ∀ u, Inside q u → u ≠ t := by
    rintro u hu rfl
    simp [Inside, ht] at hu
  have hlink : ∀ u v, Link q u v → Link (q.enter t s) u v := by
    intro u v hl
    unfold Link
    rw [enter_saved, if_neg (hout u (by unfold Inside; rw [hl]; rfl))]
    exact hl
  have hreach : ∀ u v, Reach q u v → Reach (q.enter t s) u v :=
    fun u v hr => Relation.ReflTransGen.mono hlink u v hr
  rintro u ⟨hin, hrun⟩
  by_cases hut : u = t
  · exact .inl ⟨t, rfl, by rw [hut]; exact .refl⟩
  · unfold Inside at hin
    rw [enter_saved, if_neg hut] at hin
    rw [enter_state, if_neg hut] at hrun
    rcases h u ⟨hin, hrun⟩ with ⟨v, hv, hr⟩ | ⟨v, hv, hr⟩
    · refine .inl ⟨t, rfl, .head ?_ (hreach v u hr)⟩
      unfold Link
      rw [enter_saved, if_pos rfl, hv]
    · have hvt := hout v hv.1
      refine .inr ⟨v, ⟨?_, ?_⟩, hreach v u hr⟩
      · unfold Inside
        rw [enter_saved, if_neg hvt]
        exact hv.1
      · rw [enter_state, if_neg hvt, hv.2]

/-- A way that does not go through `t` any more goes on from what `t` had saved. -/
theorem reach_leave {q q' : Queue} {t : ℕ} {tmp : Option ℕ} (ht : q.saved t = some tmp)
    (hs : ∀ u, u ≠ t → q'.saved u = q.saved u) {u v : ℕ} (h : Reach q u v) :
    Reach q' u v ∨ ∃ w, tmp = some w ∧ Reach q' w v := by
  induction h using Relation.ReflTransGen.head_induction_on with
  | refl => exact .inl .refl
  | @head a b hl _ ih =>
    rcases ih with hr | hr
    · by_cases hat : a = t
      · subst hat
        exact .inr ⟨b, Option.some.inj (ht.symm.trans hl), hr⟩
      · refine .inl (.head ?_ hr)
        unfold Link
        rw [hs a hat]
        exact hl
    · exact .inr hr

/-- A task leaves, clears the head, which is itself or nobody, and wakes the one it saved. -/
theorem NoneLost.leave {q : Queue} (h : NoneLost q) {t : ℕ} {tmp : Option ℕ}
    (ht : q.saved t = some tmp) (hh : q.head = none ∨ q.head = some t) :
    NoneLost (({ q with head := none }.leave t).wake tmp) := by
  have hsaved : ∀ u, u ≠ t → (({ q with head := none }.leave t).wake tmp).saved u = q.saved u := by
    intro u hu
    rw [wake_saved, leave_saved, if_neg hu]
  have hout : ¬ Inside (({ q with head := none }.leave t).wake tmp) t := by
    unfold Inside
    rw [wake_saved, leave_saved, if_pos rfl]
    simp
  have hstate : ∀ u, (({ q with head := none }.leave t).wake tmp).state u =
      if tmp = some u then .running else q.state u := by
    intro u
    rw [wake_state, leave_state]
  generalize ({ q with head := none }.leave t).wake tmp = q' at *
  rintro u ⟨hin, hrun⟩
  have hut : u ≠ t := fun hc => hout (hc ▸ hin)
  have hinq : Inside q u := by
    unfold Inside at hin ⊢
    rwa [← hsaved u hut]
  rw [hstate] at hrun
  have htmp : tmp ≠ some u := fun hc => hrun (if_pos hc)
  rw [if_neg htmp] at hrun
  -- the one that is woken lies inside, or nothing could be reached from it
  have hnext : ∀ w, tmp = some w → Reach q' w u → ∃ r, Runnable q' r ∧ Reach q' r u := by
    intro w hw hr
    refine ⟨w, ⟨?_, by rw [hstate, if_pos hw]⟩, hr⟩
    rcases Relation.ReflTransGen.cases_head hr with rfl | ⟨x, hl, _⟩
    · exact absurd hw htmp
    · unfold Inside
      rw [hl]
      rfl
  rcases h u ⟨hinq, hrun⟩ with ⟨v, hv, hr⟩ | ⟨v, hv, hr⟩
  · have hvt : v = t := by
      rcases hh with hc | hc
      · rw [hc] at hv
        cases hv
      · rw [hc] at hv
        exact (Option.some.inj hv).symm
    subst hvt
    rcases Relation.ReflTransGen.cases_head hr with rfl | ⟨x, hl, hr⟩
    · exact absurd rfl hut
    · have hx : tmp = some x := Option.some.inj (ht.symm.trans hl)
      rcases reach_leave ht hsaved hr with hr' | ⟨w, hw, hr'⟩
      · exact .inr (hnext x hx hr')
      · exact .inr (hnext w hw hr')
  · rcases reach_leave ht hsaved hr with hr' | ⟨w, hw, hr'⟩
    · by_cases hvt : v = t
      · subst hvt
        rcases Relation.ReflTransGen.cases_head hr' with rfl | ⟨x, hl, _⟩
        · exact absurd rfl hut
        · exact absurd (by unfold Inside; rw [hl]; rfl) hout
      · refine .inr ⟨v, ⟨?_, ?_⟩, hr'⟩
        · unfold Inside
          rw [hsaved v hvt]
          exact hv.1
        · rw [hstate]
          split_ifs
          · rfl
          · exact hv.2
    · exact .inr (hnext w hw hr')

/-- Going back to sleep loses nobody exactly when the way to the task itself does not begin
    with it. -/
theorem noneLost_requeue {q : Queue} (h : NoneLost q) {t u : ℕ} (ht : Runnable q t)
    (hu : q.head = some u) (hne : u ≠ t) (hin : Inside q u) :
    NoneLost ((q.setState u .running).setState t .interruptible) ↔ KeepsSleeper q t := by
  have hsaved : ((q.setState u .running).setState t .interruptible).saved = q.saved := rfl
  have hhead : ((q.setState u .running).setState t .interruptible).head = some u := hu
  have hstate : ∀ v, ((q.setState u .running).setState t .interruptible).state v =
      if v = t then .interruptible else if v = u then .running else q.state v := by
    intro v
    rw [setState_state, setState_state]
  generalize (q.setState u .running).setState t .interruptible = q' at *
  have hrunnable : ∀ v, v ≠ t → Runnable q v → Runnable q' v := by
    rintro v hv ⟨hvi, hvs⟩
    refine ⟨(inside_congr hsaved v).mpr hvi, ?_⟩
    rw [hstate, if_neg hv]
    split_ifs
    · rfl
    · exact hvs
  constructor
  · intro hl
    have hb : Blocked q' t := ⟨(inside_congr hsaved t).mpr ht.1, by rw [hstate, if_pos rfl]; simp⟩
    rcases hl t hb with ⟨v, hv, hr⟩ | ⟨v, ⟨hvi, hvs⟩, hr⟩
    · rw [hhead] at hv
      cases hv
      exact .inl ⟨u, hu, (reach_congr hsaved u t).mp hr⟩
    · rw [reach_congr hsaved] at hr
      rw [inside_congr hsaved] at hvi
      rw [hstate] at hvs
      split_ifs at hvs with h1 h2
      · subst h2
        exact .inl ⟨v, hu, hr⟩
      · exact .inr ⟨v, h1, ⟨hvi, hvs⟩, hr⟩
  · intro hk
    have htask : (∃ v, q'.head = some v ∧ Reach q' v t) ∨ ∃ r, Runnable q' r ∧ Reach q' r t := by
      rcases hk with ⟨v, hv, hr⟩ | ⟨r, hrt, hr, hreach⟩
      · rw [hu] at hv
        cases hv
        exact .inl ⟨u, hhead, (reach_congr hsaved u t).mpr hr⟩
      · exact .inr ⟨r, hrunnable r hrt hr, (reach_congr hsaved r t).mpr hreach⟩
    rintro v ⟨hvi, hvs⟩
    by_cases hvt : v = t
    · rwa [hvt]
    · rw [hstate, if_neg hvt] at hvs
      have hvu : v ≠ u := fun hc => hvs (if_pos hc)
      rw [if_neg hvu] at hvs
      rcases h v ⟨(inside_congr hsaved v).mp hvi, hvs⟩ with ⟨w, hw, hr⟩ | ⟨w, hw, hr⟩
      · rw [hu] at hw
        cases hw
        exact .inl ⟨u, hhead, (reach_congr hsaved u v).mpr hr⟩
      · rw [← reach_congr hsaved] at hr
        by_cases hwt : w = t
        · subst hwt
          rcases htask with ⟨x, hx, hr'⟩ | ⟨x, hx, hr'⟩
          · exact .inl ⟨x, hx, hr'.trans hr⟩
          · exact .inr ⟨x, hx, hr'.trans hr⟩
        · exact .inr ⟨w, hrunnable w hwt hw, hr⟩

theorem interruptible_step {q q' : Queue} {ev : Event} (h : NoneLost q)
    (hh : ∀ t, q.head = some t → Inside q t) (hs : interruptibleSleepOn q ev = some q') :
    (NoneLost q' ↔ StaysLinked q ev) ∧ ∀ t, q'.head = some t → Inside q' t := by
  cases ev with
  | sleep t =>
    simp only [interruptibleSleepOn] at hs
    split_ifs at hs with hc
    cases hs
    refine ⟨iff_of_true (h.enter hc.2 _) trivial, fun u hu => ?_⟩
    obtain rfl : t = u := Option.some.inj hu
    unfold Inside
    rw [enter_saved, if_pos rfl]
    rfl
  | wakeUp =>
    cases hs
    refine ⟨iff_of_true (h.mono (wakeUp_saved q) ?_ ?_) trivial, fun u hu => ?_⟩
    · intro u _
      rw [wakeUp_state]
      split_ifs
      · exact .inl rfl
      · exact .inr rfl
    · intro u hu
      refine .inr ⟨(inside_congr (wakeUp_saved q) u).mpr (hh u hu), ?_⟩
      rw [wakeUp_state, if_pos hu]
    · rw [wakeUp_head] at hu
      cases hu
  | resume t =>
    simp only [interruptibleSleepOn] at hs
    cases ht : q.saved t with
    | none => simp [ht] at hs
    | some tmp =>
      simp only [ht] at hs
      split_ifs at hs with hrun
      have hin : Inside q t := by
        unfold Inside
        rw [ht]
        rfl
      cases hq : q.head with
      | none =>
        simp only [hq] at hs
        cases hs
        refine ⟨iff_of_true (h.leave ht (.inl hq)) ?_, fun u hu => ?_⟩
        · intro u hu
          rw [hq] at hu
          cases hu
        · rw [wake_head, leave_head] at hu
          cases hu
      | some u =>
        simp only [hq] at hs
        split_ifs at hs with hne
        · cases hs
          refine ⟨(noneLost_requeue h ⟨hin, hrun⟩ hq hne (hh u hq)).trans ?_, hh⟩
          constructor
          · intro hk v _ _ _ _
            exact hk
          · intro hk
            exact hk u hq hne hin hrun
        · cases hs
          have hut : u = t := not_not.mp hne
          refine ⟨iff_of_true (h.leave ht (.inr (hut ▸ hq))) ?_, fun v hv => ?_⟩
          · intro v hv hne' _ _
            rw [hq] at hv
            cases hv
            exact absurd hut hne'
          · rw [wake_head, leave_head] at hv
            cases hv
  | signal t =>
    cases hs
    refine ⟨iff_of_true (h.mono (signal_saved q t) ?_ ?_) trivial, fun u hu => ?_⟩
    · intro u _
      rw [signal_state]
      split_ifs
      · exact .inl rfl
      · exact .inr rfl
    · intro u hu
      exact .inl (by rw [signal_head, hu])
    · rw [signal_head] at hu
      exact (inside_congr (signal_saved q t) u).mpr (hh u hu)
  | other t s =>
    simp only [interruptibleSleepOn] at hs
    split_ifs at hs with hc
    cases hs
    refine ⟨iff_of_true (h.mono rfl ?_ fun u hu => .inl hu) trivial, hh⟩
    intro u hu
    right
    rw [setState_state, if_neg]
    rintro rfl
    simp [Inside, hc] at hu

theorem Idle.noneLost {q : Queue} (h : Idle q) : NoneLost q := by
  intro t ht
  have := ht.1
  simp [Inside, h.2 t] at this

/-- A run loses nobody exactly when every task that goes back to sleep in it stays linked. -/
theorem interruptible_no_lost_sleeper {q₀ q : Queue} {tr : List (Queue × Event)} (h₀ : Idle q₀)
    (hr : Run interruptibleSleepOn q₀ tr q) :
    ((∀ x ∈ tr, NoneLost x.1) ∧ NoneLost q) ↔ ∀ x ∈ tr, StaysLinked x.1 x.2 := by
  have key : (((∀ x ∈ tr, NoneLost x.1) ∧ NoneLost q) ↔ ∀ x ∈ tr, StaysLinked x.1 x.2) ∧
      (((∀ x ∈ tr, NoneLost x.1) ∧ NoneLost q) → ∀ t, q.head = some t → Inside q t) := by
    induction hr with
    | nil =>
      refine ⟨iff_of_true ⟨by simp, h₀.noneLost⟩ (by simp), fun _ t ht => ?_⟩
      rw [h₀.1] at ht
      cases ht
    | @snoc tr q q' ev _ hs ih =>
      obtain ⟨hiff, hhead⟩ := ih
      have hsplit : (∀ x ∈ tr ++ [(q, ev)], NoneLost x.1) ↔
          (∀ x ∈ tr, NoneLost x.1) ∧ NoneLost q := by
        simp [List.mem_append, or_imp, forall_and]
      have hsplit' : (∀ x ∈ tr ++ [(q, ev)], StaysLinked x.1 x.2) ↔
          (∀ x ∈ tr, StaysLinked x.1 x.2) ∧ StaysLinked q ev := by
        simp [List.mem_append, or_imp, forall_and]
      rw [hsplit, hsplit', ← hiff]
      refine ⟨and_congr_right fun hn => ?_, fun hn => ?_⟩
      · exact (interruptible_step hn.2 (hhead hn) hs).1
      · exact (interruptible_step hn.1.2 (hhead hn.1) hs).2
  exact key.1

/-- The first sleeper is woken, a second one goes to sleep, and the first goes back to sleep
    behind it: nothing leads to it any more once the second has left. -/
theorem interruptible_loses_sleeper : ¬ ∀ (q₀ q : Queue) (tr : List (Queue × Event)), Idle q₀ →
    Run interruptibleSleepOn q₀ tr q → NoneLost q := by
  intro hall
  have h₀ : Idle quiet := ⟨rfl, fun _ => rfl⟩
  have h₁ := (Run.nil).snoc (show interruptibleSleepOn quiet (.sleep 1) = some _ from rfl)
  have h₂ := h₁.snoc (show interruptibleSleepOn _ .wakeUp = some _ from rfl)
  have h₃ := h₂.snoc (show interruptibleSleepOn _ (.sleep 2) = some _ from rfl)
  have h₄ := h₃.snoc (show interruptibleSleepOn _ (.resume 1) = some _ from rfl)
  have h₅ := h₄.snoc (show interruptibleSleepOn _ (.resume 2) = some _ from rfl)
  rcases hall _ _ _ h₀ h₅ 1 ⟨rfl, by decide⟩ with ⟨u, hu, _⟩ | ⟨r, ⟨hin, hrun⟩, _⟩
  · cases hu
  · have h1 : r = 1 := by
      by_contra hc
      by_cases h2 : r = 2
      · subst h2
        cases hin
      · simp [Inside, leave_saved, enter_saved, quiet, hc, h2] at hin
    subst h1
    cases hrun

/-- A task woken while another one sleeps after it goes back to sleep, and stays linked. -/
theorem interruptible_no_lost_sleeper_two :
    ∃ (tr : List (Queue × Event)) (q : Queue), Run interruptibleSleepOn quiet tr q ∧
      tr.map Prod.snd = [.sleep 1, .sleep 2, .signal 1, .resume 1] ∧ Blocked q 1 ∧
      ((∀ x ∈ tr, NoneLost x.1) ∧ NoneLost q) := by
  have h₀ : Idle quiet := ⟨rfl, fun _ => rfl⟩
  have h₁ := (Run.nil).snoc (show interruptibleSleepOn quiet (.sleep 1) = some _ from rfl)
  have h₂ := h₁.snoc (show interruptibleSleepOn _ (.sleep 2) = some _ from rfl)
  have h₃ := h₂.snoc (show interruptibleSleepOn _ (.signal 1) = some _ from rfl)
  have h₄ := h₃.snoc (show interruptibleSleepOn _ (.resume 1) = some _ from rfl)
  refine ⟨_, _, h₄, rfl, ⟨rfl, by decide⟩, (interruptible_no_lost_sleeper h₀ h₄).mpr ?_⟩
  intro x hx
  simp only [List.nil_append, List.cons_append, List.mem_cons, List.not_mem_nil, or_false] at hx
  rcases hx with rfl | rfl | rfl | rfl
  · trivial
  · trivial
  · trivial
  · intro u hu _ _ _
    obtain rfl : 2 = u := Option.some.inj hu
    exact .inl ⟨2, rfl, .single rfl⟩

end Linux011.WaitQueue
