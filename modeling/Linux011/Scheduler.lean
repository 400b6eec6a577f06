import Linux011.WaitQueue

set_option autoImplicit false

/-!
# The scheduler (schedule, do_timer and sys_nice of kernel/sched.c)

`long` is a 32-bit signed integer; arithmetic that can leave its range is wrapped.
-/
namespace Linux011.Scheduler
open WaitQueue (TaskState)

def int32 (x : ℤ) : ℤ := (x + 2147483648) % 4294967296 - 2147483648

def NR_TASKS : ℕ := 64
/-- `1 << (SIGALRM - 1)`. -/
def sigalrm : BitVec 32 := 1 <<< 13
/-- `_BLOCKABLE`: everything but SIGKILL and SIGSTOP. -/
def blockable : BitVec 32 := ~~~((1 <<< 8) ||| (1 <<< 18))

structure Task where
  state : TaskState
  counter : ℤ
  priority : ℤ
  signal : BitVec 32
  blocked : BitVec 32
  alarm : ℤ
  deriving DecidableEq

structure Sched where
  task : ℕ → Option Task
  current : ℕ
  jiffies : ℤ

def Sched.set (s : Sched) (i : ℕ) (t : Option Task) : Sched :=
  { s with task := Function.update s.task i t }

/-- One turn of the scan for alarms and signals. -/
def checkSignals (jiffies : ℤ) (t : Task) : Task :=
  let t := if t.alarm ≠ 0 ∧ t.alarm < jiffies then
    { t with signal := t.signal ||| sigalrm, alarm := 0 } else t
  if t.signal &&& ~~~(blockable &&& t.blocked) ≠ 0 ∧ t.state = .interruptible then
    { t with state := .running }
  else t

/-- A change made to every task of the slots 1 to 63. -/
def mapTasks (f : Task → Task) (task : ℕ → Option Task) (i : ℕ) : Option Task :=
  if 1 ≤ i ∧ i < NR_TASKS then (task i).map f else task i

def signalled (s : Sched) : ℕ → Option Task := mapTasks (checkSignals s.jiffies) s.task

/-- `while (--i)`: from slot `n` down to 1, with `c` and `next`. -/
def pick (task : ℕ → Option Task) : ℕ → ℤ × ℕ → ℤ × ℕ
  | 0, best => best
  | i + 1, best => pick task i (match task (i + 1) with
    | some t => if t.state = .running ∧ t.counter > best.1 then (t.counter, i + 1) else best
    | none => best)

def select (task : ℕ → Option Task) : ℤ × ℕ := pick task 63 (-1, 0)

def recompute : (ℕ → Option Task) → ℕ → Option Task :=
  mapTasks fun t => { t with counter := int32 (t.counter / 2 + t.priority) }

/-- `while (1)`, for as many turns as given. -/
def search : ℕ → (ℕ → Option Task) → Option (ℕ × (ℕ → Option Task))
  | 0, _ => none
  | fuel + 1, task =>
    if (select task).1 ≠ 0 then some ((select task).2, task) else search fuel (recompute task)

def schedule (fuel : ℕ) (s : Sched) : Option Sched :=
  (search fuel (signalled s)).map fun r => { s with task := r.2, current := r.1 }

/-- `schedule` comes to its `switch_to`. -/
def Schedules (s s' : Sched) : Prop := ∃ fuel, schedule fuel s = some s'

inductive Event where
  | fork (nr : ℕ)
  /-- a timer interrupt, in user mode or not -/
  | tick (cpl : Bool)
  | nice (increment : ℤ)
  /-- sleeping, waking and exiting -/
  | setState (i : ℕ) (state : TaskState)
  | signal (i : ℕ) (bits : BitVec 32)
  | mask (blocked : BitVec 32)
  | alarm (jiffies : ℤ)
  | release (i : ℕ)
  | schedule

/-- What `copy_process` changes in its copy of the parent. -/
def Task.child (p : Task) : Task :=
  { p with state := .running, counter := p.priority, signal := 0, alarm := 0 }

/-- What an event does apart from calling `schedule`, and whether it calls it. -/
def effect (s : Sched) : Event → Option (Sched × Bool)
  | .fork nr => (s.task s.current).bind fun p =>
    if 1 ≤ nr ∧ nr < NR_TASKS ∧ s.task nr = none then
      some (s.set nr (some p.child), false)
    else none
  | .tick cpl => (s.task s.current).map fun p =>
    let s := { s with jiffies := int32 (s.jiffies + 1) }
    if int32 (p.counter - 1) > 0 then
      (s.set s.current (some { p with counter := int32 (p.counter - 1) }), false)
    else (s.set s.current (some { p with counter := 0 }), cpl)
  | .nice increment => (s.task s.current).bind fun p =>
    if -2147483648 ≤ increment ∧ increment < 2147483648 then
      some (if int32 (p.priority - increment) > 0 then
        s.set s.current (some { p with priority := int32 (p.priority - increment) }) else s, false)
    else none
  | .setState i state => (s.task i).map fun t => (s.set i (some { t with state := state }), false)
  | .signal i bits => (s.task i).map fun t =>
    (s.set i (some { t with signal := t.signal ||| bits }), false)
  | .mask blocked => (s.task s.current).map fun p =>
    (s.set s.current (some { p with blocked := blocked }), false)
  | .alarm jiffies => (s.task s.current).map fun p =>
    (s.set s.current (some { p with alarm := jiffies }), false)
  | .release i => if 1 ≤ i ∧ i ≠ s.current then some (s.set i none, false) else none
  | .schedule => some (s, true)

def Step (s : Sched) (ev : Event) (s' : Sched) : Prop :=
  ∃ s₁ call, effect s ev = some (s₁, call) ∧ if call then Schedules s₁ s' else s' = s₁

inductive Run (s₀ : Sched) : List (Sched × Event × Sched) → Sched → Prop
  | nil : Run s₀ [] s₀
  | snoc {tr : List (Sched × Event × Sched)} {s s' : Sched} {ev : Event} (hr : Run s₀ tr s)
      (hs : Step s ev s') : Run s₀ (tr ++ [(s, ev, s')]) s'

/-- `sched_init`: task 0 with its 15 ticks, and nobody else. -/
def init : Sched where
  task i := if i = 0 then some ⟨.running, 15, 15, 0, 0, 0⟩ else none
  current := 0
  jiffies := 0

def Runnable (task : ℕ → Option Task) (i : ℕ) (t : Task) : Prop :=
  1 ≤ i ∧ i < NR_TASKS ∧ task i = some t ∧ t.state = .running

/-- All runnable tasks, and there are some, have used up their ticks. -/
def Exhausted (task : ℕ → Option Task) : Prop :=
  (∃ i t, Runnable task i t) ∧ ∀ i t, Runnable task i t → t.counter = 0

/-- The choice `schedule` is to make: new counters if the old ones are used up, and then a
    runnable task with the largest counter, or task 0 if there is none. -/
structure Choice (s s' : Sched) : Prop where
  kept : ¬ Exhausted (signalled s) → s'.task = signalled s
  renewed : Exhausted (signalled s) → s'.task =
    mapTasks (fun t => { t with counter := t.counter / 2 + t.priority }) (signalled s)
  runs : (∃ i t, Runnable s'.task i t) → ∃ t, Runnable s'.task s'.current t ∧
    ∀ i u, Runnable s'.task i u → u.counter ≤ t.counter
  idle : (¬ ∃ i t, Runnable s'.task i t) → s'.current = 0

/-- The property of one step: if it calls `schedule`, that makes the right choice. -/
def Chooses (s : Sched) (ev : Event) (s' : Sched) : Prop :=
  ∀ s₁, effect s ev = some (s₁, true) → Choice s₁ s'

/-- New counters, where they are due, fit into 32 bits. -/
def FitsNow (s : Sched) : Prop :=
  Exhausted (signalled s) → ∀ i t, 1 ≤ i → i < NR_TASKS → signalled s i = some t →
    t.counter / 2 + t.priority < 2147483648

def Fits (s : Sched) (ev : Event) : Prop :=
  ∀ s₁, effect s ev = some (s₁, true) → FitsNow s₁

/-- Signs and ranges of the two fields. -/
structure InRange (t : Task) : Prop where
  counter : 0 ≤ t.counter
  counter_lt : t.counter < 2147483648
  priority : 1 ≤ t.priority
  priority_lt : t.priority < 2147483648

def AllInRange (task : ℕ → Option Task) : Prop := ∀ i t, task i = some t → InRange t

theorem int32_of_range {x : ℤ} (hl : -2147483648 ≤ x) (hh : x < 2147483648) : int32 x = x := by
  unfold int32
  omega

theorem mapTasks_some {f : Task → Task} {task : ℕ → Option Task} {i : ℕ} {t : Task}
    (h : mapTasks f task i = some t) :
    (1 ≤ i ∧ i < NR_TASKS ∧ ∃ u, task i = some u ∧ f u = t) ∨ task i = some t := by
  unfold mapTasks at h
  split_ifs at h with hi
  · rw [Option.map_eq_some_iff] at h
    exact .inl ⟨hi.1, hi.2, h⟩
  · exact .inr h

theorem checkSignals_fields (jiffies : ℤ) (t : Task) :
    (checkSignals jiffies t).counter = t.counter ∧
      (checkSignals jiffies t).priority = t.priority := by
  have hfirst : ∀ u : Task, (if u.signal &&& ~~~(blockable &&& u.blocked) ≠ 0 ∧
      u.state = .interruptible then { u with state := .running } else u).counter = u.counter ∧
      (if u.signal &&& ~~~(blockable &&& u.blocked) ≠ 0 ∧
      u.state = .interruptible then { u with state := .running } else u).priority =
        u.priority := by
    intro u
    split_ifs <;> exact ⟨rfl, rfl⟩
  unfold checkSignals
  split_ifs <;> exact hfirst _

theorem signalled_inRange {s : Sched} (h : AllInRange s.task) : AllInRange (signalled s) := by
  intro i t ht
  rcases mapTasks_some ht with ⟨_, _, u, hu, rfl⟩ | ht
  · obtain ⟨hc, hp⟩ := checkSignals_fields s.jiffies u
    have hr := h i u hu
    exact ⟨hc ▸ hr.counter, hc ▸ hr.counter_lt, hp ▸ hr.priority, hp ▸ hr.priority_lt⟩
  · exact h i t ht

/-! ### The selection loop -/

/-- The best of the slots `1 … n` and the one found so far. -/
theorem pick_spec (task : ℕ → Option Task) (n : ℕ) (best : ℤ × ℕ) :
    (pick task n best = best ∧ ∀ i t, 1 ≤ i → i ≤ n → task i = some t → t.state = .running →
      t.counter ≤ best.1) ∨
    (best.1 < (pick task n best).1 ∧ ∃ i t, 1 ≤ i ∧ i ≤ n ∧ task i = some t ∧
      t.state = .running ∧ pick task n best = (t.counter, i) ∧
      ∀ j u, 1 ≤ j → j ≤ n → task j = some u → u.state = .running → u.counter ≤ t.counter) := by
  induction n generalizing best with
  | zero => exact .inl ⟨rfl, fun i t h1 h2 => by omega⟩
  | succ n ih =>
    simp only [pick]
    cases hn : task (n + 1) with
    | none =>
      have hlast : ∀ (i : ℕ) (t : Task), i ≤ n + 1 → task i = some t → i ≤ n := by
        intro i t hi ht
        rcases Nat.lt_or_ge n i with hc | hc
        · rw [show i = n + 1 by omega, hn] at ht
          cases ht
        · exact hc
      rcases ih best with ⟨he, hb⟩ | ⟨hlt, i, t, h1, h2, ht, hs, he, hb⟩
      · exact .inl ⟨he, fun j u h1 h2 hu => hb j u h1 (hlast j u h2 hu) hu⟩
      · exact .inr ⟨hlt, i, t, h1, by omega, ht, hs, he,
          fun j u h1 h2 hu => hb j u h1 (hlast j u h2 hu) hu⟩
    | some v =>
      simp only
      split_ifs with hv
      · have hlast : ∀ (c : ℤ), v.counter ≤ c → (∀ i t, 1 ≤ i → i ≤ n → task i = some t →
            t.state = .running → t.counter ≤ c) → ∀ i t, 1 ≤ i → i ≤ n + 1 → task i = some t →
            t.state = .running → t.counter ≤ c := by
          intro c hc hb i t h1 h2 ht hs
          rcases Nat.lt_or_ge n i with hi | hi
          · rw [show i = n + 1 by omega, hn] at ht
            cases ht
            exact hc
          · exact hb i t h1 hi ht hs
        right
        rcases ih (v.counter, n + 1) with ⟨he, hb⟩ | ⟨hlt, i, t, h1, h2, ht, hs, he, hb⟩
        · refine ⟨by rw [he]; exact hv.2, n + 1, v, by omega, le_rfl, hn, hv.1, he, ?_⟩
          exact hlast v.counter le_rfl hb
        · simp only at hlt
          refine ⟨by omega, i, t, h1, by omega, ht, hs, he, ?_⟩
          rw [he] at hlt
          exact hlast t.counter (le_of_lt hlt) hb
      · have hlast : ∀ (c : ℤ), best.1 ≤ c → (∀ i t, 1 ≤ i → i ≤ n → task i = some t →
            t.state = .running → t.counter ≤ c) → ∀ i t, 1 ≤ i → i ≤ n + 1 → task i = some t →
            t.state = .running → t.counter ≤ c := by
          intro c hc hb i t h1 h2 ht hs
          rcases Nat.lt_or_ge n i with hi | hi
          · rw [show i = n + 1 by omega, hn] at ht
            cases ht
            have : ¬ v.counter > best.1 := fun hc => hv ⟨hs, hc⟩
            omega
          · exact hb i t h1 hi ht hs
        rcases ih best with ⟨he, hb⟩ | ⟨hlt, i, t, h1, h2, ht, hs, he, hb⟩
        · exact .inl ⟨he, hlast best.1 le_rfl hb⟩
        · refine .inr ⟨hlt, i, t, h1, by omega, ht, hs, he, ?_⟩
          rw [he] at hlt
          exact hlast t.counter (le_of_lt hlt) hb

/-- With counters that are not negative the loop finds the largest one, or `-1` if nobody is
    runnable. -/
theorem select_spec {task : ℕ → Option Task} (h : AllInRange task) :
    (select task = (-1, 0) ∧ ¬ ∃ i t, Runnable task i t) ∨
    ∃ i t, Runnable task i t ∧ select task = (t.counter, i) ∧
      ∀ j u, Runnable task j u → u.counter ≤ t.counter := by
  rcases pick_spec task 63 (-1, 0) with ⟨he, hb⟩ | ⟨_, i, t, h1, h2, ht, hs, he, hb⟩
  · refine .inl ⟨he, ?_⟩
    rintro ⟨i, t, h1, h2, ht, hs⟩
    have := hb i t h1 (by unfold NR_TASKS at h2; omega) ht hs
    have := (h i t ht).counter
    simp only at *
    omega
  · refine .inr ⟨i, t, ⟨h1, by unfold NR_TASKS; omega, ht, hs⟩, he, ?_⟩
    rintro j u ⟨h1, h2, hu, hs⟩
    exact hb j u h1 (by unfold NR_TASKS at h2; omega) hu hs

theorem select_zero {task : ℕ → Option Task} (h : AllInRange task) :
    (select task).1 = 0 ↔ Exhausted task := by
  rcases select_spec h with ⟨he, hno⟩ | ⟨i, t, hr, he, hb⟩
  · rw [he]
    exact ⟨fun hc => by simp at hc, fun hc => absurd hc.1 hno⟩
  · rw [he]
    constructor
    · intro hz
      refine ⟨⟨i, t, hr⟩, fun j u hu => ?_⟩
      have := hb j u hu
      have := (h j u hu.2.2.1).counter
      simp only at hz
      omega
    · intro hx
      exact hx.2 i t hr

/-- `select` found a task, or there is none. -/
theorem select_choice {task : ℕ → Option Task} (h : AllInRange task) :
    ((∃ i t, Runnable task i t) → ∃ t, Runnable task (select task).2 t ∧
      ∀ i u, Runnable task i u → u.counter ≤ t.counter) ∧
    ((¬ ∃ i t, Runnable task i t) → (select task).2 = 0) := by
  rcases select_spec h with ⟨he, hno⟩ | ⟨i, t, hr, he, hb⟩
  · exact ⟨fun hc => absurd hc hno, fun _ => by rw [he]⟩
  · rw [he]
    exact ⟨fun _ => ⟨t, hr, hb⟩, fun hno => absurd ⟨i, t, hr⟩ hno⟩

/-! ### One call -/

theorem recompute_exact {task : ℕ → Option Task}
    (hfit : ∀ i t, 1 ≤ i → i < NR_TASKS → task i = some t → 0 ≤ t.counter ∧ 1 ≤ t.priority ∧
      t.counter / 2 + t.priority < 2147483648) :
    recompute task = mapTasks (fun t => { t with counter := t.counter / 2 + t.priority }) task := by
  funext i
  unfold recompute mapTasks
  split_ifs with hi
  · cases ht : task i with
    | none => rfl
    | some t =>
      obtain ⟨hc, hp, hlt⟩ := hfit i t hi.1 hi.2 ht
      simp only [Option.map_some]
      rw [int32_of_range (by omega) hlt]
  · rfl

theorem recompute_inRange {task : ℕ → Option Task} (h : AllInRange task)
    (hfit : ∀ i t, 1 ≤ i → i < NR_TASKS → task i = some t →
      t.counter / 2 + t.priority < 2147483648) : AllInRange (recompute task) := by
  intro i t ht
  rcases mapTasks_some ht with ⟨h1, h2, u, hu, rfl⟩ | ht
  · have hr := h i u hu
    have hlt := hfit i u h1 h2 hu
    have := hr.counter
    have := hr.priority
    refine ⟨?_, ?_, hr.priority, hr.priority_lt⟩
    · simp only
      rw [int32_of_range (by omega) hlt]
      omega
    · simp only
      rw [int32_of_range (by omega) hlt]
      exact hlt
  · exact h i t ht

/-- After one recomputation the loop ends. -/
theorem recompute_positive {task : ℕ → Option Task} (h : AllInRange task) (hx : Exhausted task) :
    (select (recompute task)).1 ≠ 0 := by
  obtain ⟨⟨i, t, h1, h2, ht, hs⟩, hz⟩ := hx
  have hc : t.counter = 0 := hz i t ⟨h1, h2, ht, hs⟩
  have hr := h i t ht
  have hnew : recompute task i = some { t with counter := t.priority } := by
    unfold recompute mapTasks
    rw [if_pos ⟨h1, h2⟩, ht, Option.map_some, hc]
    have : int32 (0 / 2 + t.priority) = t.priority := by
      have := hr.priority
      have := hr.priority_lt
      rw [int32_of_range] <;> omega
    rw [this]
  have h63 : i ≤ 63 := by
    unfold NR_TASKS at h2
    omega
  rcases pick_spec (recompute task) 63 (-1, 0) with ⟨_, hb⟩ | ⟨_, j, u, _, _, _, _, he, hb⟩
  · have := hb i _ h1 h63 hnew hs
    have := hr.priority
    simp only at *
    omega
  · unfold select
    rw [he]
    have := hb i _ h1 h63 hnew hs
    have := hr.priority
    simp only at *
    omega

theorem search_mono {fuel : ℕ} {task : ℕ → Option Task} {r : ℕ × (ℕ → Option Task)}
    (h : search fuel task = some r) (k : ℕ) : search (fuel + k) task = some r := by
  induction fuel generalizing task with
  | zero => simp [search] at h
  | succ fuel ih =>
    rw [Nat.succ_add]
    simp only [search] at h ⊢
    split_ifs at h ⊢ with hc
    · exact h
    · exact ih h

theorem Schedules.unique {s a b : Sched} (ha : Schedules s a) (hb : Schedules s b) : a = b := by
  obtain ⟨m, hm⟩ := ha
  obtain ⟨n, hn⟩ := hb
  simp only [schedule, Option.map_eq_some_iff] at hm hn
  obtain ⟨r, hr, rfl⟩ := hm
  obtain ⟨q, hq, rfl⟩ := hn
  have h1 := search_mono hr n
  have h2 := search_mono hq m
  rw [Nat.add_comm] at h2
  rw [h1] at h2
  cases h2
  rfl

/-- The loop ends at the latest in its second turn. -/
theorem schedules_eq {s : Sched} (h : AllInRange s.task) :
    (¬ Exhausted (signalled s) → Schedules s
      { s with task := signalled s, current := (select (signalled s)).2 }) ∧
    (Exhausted (signalled s) → Schedules s
      { s with
        task := recompute (signalled s)
        current := (select (recompute (signalled s))).2 }) := by
  have hr := signalled_inRange h
  constructor
  · intro hx
    have hc : (select (signalled s)).1 ≠ 0 := fun hc => hx ((select_zero hr).mp hc)
    refine ⟨2, ?_⟩
    simp only [schedule, search, hc, ne_eq, not_false_eq_true, if_true, Option.map_some]
  · intro hx
    refine ⟨2, ?_⟩
    simp only [schedule, search, (select_zero hr).mpr hx, ne_eq, not_true, if_false,
      recompute_positive hr hx, not_false_eq_true, if_true, Option.map_some]

/-- One call makes the right choice exactly when the new counters fit. -/
theorem schedule_choice {s s' : Sched} (h : AllInRange s.task) (hs : Schedules s s') :
    (Choice s s' ↔ FitsNow s) ∧ (FitsNow s → AllInRange s'.task) := by
  have hr := signalled_inRange h
  by_cases hx : Exhausted (signalled s)
  · obtain rfl := hs.unique ((schedules_eq h).2 hx)
    refine ⟨⟨?_, ?_⟩, fun hfit => recompute_inRange hr (hfit hx)⟩
    · intro hc _ i t h1 h2 ht
      have hnew := congrFun (hc.renewed hx) i
      simp only [recompute, mapTasks] at hnew
      rw [if_pos ⟨h1, h2⟩, if_pos ⟨h1, h2⟩, ht, Option.map_some, Option.map_some] at hnew
      have := congrArg Task.counter (Option.some.inj hnew)
      simp only [int32] at this
      omega
    · intro hfit
      have hin := recompute_inRange hr (hfit hx)
      refine ⟨fun hc => absurd hx hc, fun _ => ?_, (select_choice hin).1, (select_choice hin).2⟩
      refine recompute_exact fun i t h1 h2 ht => ?_
      have := hr i t ht
      exact ⟨this.counter, this.priority, hfit hx i t h1 h2 ht⟩
  · obtain rfl := hs.unique ((schedules_eq h).1 hx)
    exact ⟨iff_of_true ⟨fun _ => rfl, fun hc => absurd hc hx, (select_choice hr).1,
      (select_choice hr).2⟩ fun hc => absurd hc hx, fun _ => hr⟩

/-! ### Runs -/

theorem AllInRange.set {task : ℕ → Option Task} (h : AllInRange task) (i : ℕ) {t : Task}
    (ht : InRange t) : AllInRange (Function.update task i (some t)) := by
  intro j u hu
  rw [Function.update_apply] at hu
  split_ifs at hu
  · cases hu
    exact ht
  · exact h j u hu

/-- Forking, ticking and `nice` keep the fields in range, whatever `nice` is given. -/
theorem effect_inRange {s s₁ : Sched} {ev : Event} {call : Bool} (h : AllInRange s.task)
    (he : effect s ev = some (s₁, call)) : AllInRange s₁.task := by
  cases ev with
  | fork nr =>
    simp only [effect, Option.bind_eq_some_iff] at he
    obtain ⟨p, hp, he⟩ := he
    split_ifs at he
    cases he
    have hr := h _ p hp
    exact h.set nr ⟨le_trans (by omega) hr.priority, hr.priority_lt, hr.priority, hr.priority_lt⟩
  | tick cpl =>
    simp only [effect, Option.map_eq_some_iff] at he
    obtain ⟨p, hp, he⟩ := he
    have hr := h _ p hp
    split_ifs at he with hc
    · cases he
      have := hr.counter
      have := hr.counter_lt
      have hi : int32 (p.counter - 1) = p.counter - 1 := int32_of_range (by omega) (by omega)
      refine h.set s.current ⟨?_, ?_, hr.priority, hr.priority_lt⟩
      · simp only [hi] at hc ⊢
        omega
      · simp only [hi]
        omega
    · cases he
      exact h.set s.current ⟨le_rfl, by simp, hr.priority, hr.priority_lt⟩
  | nice increment =>
    simp only [effect, Option.bind_eq_some_iff] at he
    obtain ⟨p, hp, he⟩ := he
    have hr := h _ p hp
    split_ifs at he with hi hc
    · cases he
      refine h.set s.current ⟨hr.counter, hr.counter_lt, ?_, ?_⟩
      · simp only
        omega
      · simp only [int32]
        omega
    · cases he
      exact h
  | setState i state =>
    simp only [effect, Option.map_eq_some_iff] at he
    obtain ⟨t, ht, he⟩ := he
    cases he
    have hr := h i t ht
    exact h.set i ⟨hr.counter, hr.counter_lt, hr.priority, hr.priority_lt⟩
  | signal i bits =>
    simp only [effect, Option.map_eq_some_iff] at he
    obtain ⟨t, ht, he⟩ := he
    cases he
    have hr := h i t ht
    exact h.set i ⟨hr.counter, hr.counter_lt, hr.priority, hr.priority_lt⟩
  | mask blocked =>
    simp only [effect, Option.map_eq_some_iff] at he
    obtain ⟨t, ht, he⟩ := he
    cases he
    have hr := h _ t ht
    exact h.set _ ⟨hr.counter, hr.counter_lt, hr.priority, hr.priority_lt⟩
  | alarm jiffies =>
    simp only [effect, Option.map_eq_some_iff] at he
    obtain ⟨t, ht, he⟩ := he
    cases he
    have hr := h _ t ht
    exact h.set _ ⟨hr.counter, hr.counter_lt, hr.priority, hr.priority_lt⟩
  | release i =>
    simp only [effect] at he
    split_ifs at he
    cases he
    intro j u hu
    simp only [Sched.set, Function.update_apply] at hu
    split_ifs at hu
    exact h j u hu
  | schedule =>
    cases he
    exact h

theorem init_inRange : AllInRange init.task := by
  intro i t ht
  simp only [init] at ht
  split_ifs at ht
  cases ht
  exact ⟨by simp, by simp, by simp, by simp⟩

theorem step_choice {s s' : Sched} {ev : Event} (h : AllInRange s.task) (hs : Step s ev s') :
    (Chooses s ev s' ↔ Fits s ev) ∧ (Fits s ev → AllInRange s'.task) := by
  obtain ⟨s₁, call, he, hcall⟩ := hs
  have h₁ := effect_inRange h he
  cases call with
  | false =>
    have hs' : s' = s₁ := hcall
    subst hs'
    refine ⟨iff_of_true ?_ ?_, fun _ => h₁⟩
    · intro s₂ h₂
      rw [he] at h₂
      cases h₂
    · intro s₂ h₂
      rw [he] at h₂
      cases h₂
  | true =>
    obtain ⟨hiff, hin⟩ := schedule_choice h₁ hcall
    have hc : Chooses s ev s' ↔ Choice s₁ s' := by
      constructor
      · exact fun hc => hc s₁ he
      · intro hc s₂ h₂
        rw [he] at h₂
        cases h₂
        exact hc
    have hf : Fits s ev ↔ FitsNow s₁ := by
      constructor
      · exact fun hf => hf s₁ he
      · intro hf s₂ h₂
        rw [he] at h₂
        cases h₂
        exact hf
    rw [hc, hf]
    exact ⟨hiff, hin⟩

/-- In a run every call of `schedule` chooses well exactly if all new counters fit; and as long
    as they do, the next call comes to its end. -/
theorem schedule_chooses {s : Sched} {tr : List (Sched × Event × Sched)} (hr : Run init tr s) :
    ((∀ x ∈ tr, Chooses x.1 x.2.1 x.2.2) ↔ ∀ x ∈ tr, Fits x.1 x.2.1) ∧
    ((∀ x ∈ tr, Fits x.1 x.2.1) → ∃ s', Schedules s s') := by
  have key : ((∀ x ∈ tr, Chooses x.1 x.2.1 x.2.2) ↔ ∀ x ∈ tr, Fits x.1 x.2.1) ∧
      ((∀ x ∈ tr, Fits x.1 x.2.1) → AllInRange s.task) := by
    induction hr with
    | nil => exact ⟨by simp, fun _ => init_inRange⟩
    | @snoc tr s s' ev _ hs ih =>
      obtain ⟨hiff, hin⟩ := ih
      simp only [List.mem_append, List.mem_singleton, or_imp, forall_and, forall_eq]
      rw [hiff]
      refine ⟨and_congr_right fun hf => (step_choice (hin hf) hs).1, fun hf => ?_⟩
      exact (step_choice (hin hf.1) hs).2 hf.2
  refine ⟨key.1, fun hf => ?_⟩
  have h := key.2 hf
  by_cases hx : Exhausted (signalled s)
  · exact ⟨_, (schedules_eq h).2 hx⟩
  · exact ⟨_, (schedules_eq h).1 hx⟩

/-! ### A task that lowers its own `nice` value -/

/-- An event with the two turns of the loop that are always enough. -/
def exec (s : Sched) (ev : Event) : Option Sched :=
  (effect s ev).bind fun r => if r.2 then schedule 2 r.1 else some r.1

def execAll : List Event → Sched → Option Sched
  | [], s => some s
  | ev :: rest, s => (exec s ev).bind (execAll rest)

theorem exec_step {s s' : Sched} {ev : Event} (h : exec s ev = some s') : Step s ev s' := by
  obtain ⟨⟨s₁, call⟩, he, hs⟩ := Option.bind_eq_some_iff.mp h
  refine ⟨s₁, call, he, ?_⟩
  cases call with
  | true => exact ⟨2, hs⟩
  | false => exact (Option.some.inj hs).symm

theorem execAll_run {s₀ s s' : Sched} {tr : List (Sched × Event × Sched)} {evs : List Event}
    (hr : Run s₀ tr s) (h : execAll evs s = some s') :
    ∃ tr', Run s₀ tr' s' ∧ tr'.map (fun x => x.2.1) = tr.map (fun x => x.2.1) ++ evs := by
  induction evs generalizing s tr with
  | nil =>
    cases h
    exact ⟨tr, hr, by simp⟩
  | cons ev evs ih =>
    obtain ⟨s₁, h₁, h⟩ := Option.bind_eq_some_iff.mp h
    obtain ⟨tr', hr', he⟩ := ih (hr.snoc (exec_step h₁)) h
    exact ⟨tr', hr', by rw [he]; simp⟩

/-- Task 1 raises its priority as far as it goes; its child 3 sleeps through a recomputation,
    which makes its counter negative. -/
def niceRun : List Event :=
  [.fork 1, .schedule, .nice 14, .fork 2, .nice (-2147483646), .fork 3, .setState 3 .interruptible,
    .setState 1 .interruptible, .schedule, .tick false, .schedule, .setState 3 .running,
    .setState 2 .interruptible]

theorem schedule_starves : ¬ ∀ (s : Sched) (tr : List (Sched × Event × Sched)), Run init tr s →
    ∀ x ∈ tr, Chooses x.1 x.2.1 x.2.2 := by
  intro hall
  have hend : ((execAll niceRun init).bind (schedule 2)).map
      (fun s => (s.current, (s.task 3).map Task.state)) = some (0, some .running) := by
    decide +kernel
  obtain ⟨s', hs', he⟩ := Option.map_eq_some_iff.mp hend
  obtain ⟨s, hs, hlast⟩ := Option.bind_eq_some_iff.mp hs'
  obtain ⟨tr, hr, _⟩ := execAll_run .nil hs
  have hstep : Step s .schedule s' := ⟨s, true, rfl, 2, hlast⟩
  have hc := hall s' _ (hr.snoc hstep) (s, .schedule, s') (by simp) s rfl
  obtain ⟨hcur, h3⟩ := Prod.mk.inj he
  obtain ⟨t, ht, hrun⟩ := Option.map_eq_some_iff.mp h3
  obtain ⟨u, ⟨h1, _⟩, _⟩ := hc.runs ⟨3, t, by decide, by decide, ht, hrun⟩
  have h1 : 1 ≤ s'.current := h1
  omega

/-- Task 0 forks, and the child is chosen. -/
theorem schedule_chooses_child : ∃ (s : Sched) (tr : List (Sched × Event × Sched)),
    Run init tr s ∧ tr.map (fun x => x.2.1) = [.fork 1, .schedule] ∧ s.current = 1 ∧
    (∀ x ∈ tr, Chooses x.1 x.2.1 x.2.2) ∧ ∃ s', Schedules s s' := by
  have h₁ := (Run.nil).snoc (exec_step (show exec init (.fork 1) = some _ from rfl))
  have h₂ := h₁.snoc (exec_step (show exec _ .schedule = some _ from rfl))
  refine ⟨_, _, h₂, rfl, rfl,
    (fun hfit => ⟨(schedule_chooses h₂).1.mpr hfit, (schedule_chooses h₂).2 hfit⟩) ?_⟩
  intro x hx
  rw [List.nil_append, List.cons_append, List.nil_append, List.mem_cons,
    List.mem_singleton] at hx
  rcases hx with rfl | rfl
  · intro s₁ he
    cases he
  · intro s₁ he
    cases he
    rintro ⟨_, hz⟩
    exact absurd (hz 1 _ ⟨by decide, by decide, rfl, rfl⟩) (by decide)

end Linux011.Scheduler
