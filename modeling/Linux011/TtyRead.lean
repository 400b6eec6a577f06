import Linux011.TerminatorCount
import Mathlib

set_option autoImplicit false

/-!
# The loop of tty_read (tty_read and sleep_if_empty of kernel/chr_drv/tty_io.c)

The call of `tty_read` with its alarm and its places to sleep, over a terminal that interrupts and other
tasks go on working with. `schedule` may also run while a byte is copied to user space, since the page
may have to be loaded.
-/
namespace Linux011.TtyRead
open Tty

/-- `1<<(SIGALRM-1)` -/
def ALRMMASK : UInt32 := 8192

/-- What `tty_read` and `schedule` look at in the task, and the clock. -/
structure Task where
  jiffies : ℕ
  alarm : ℤ
  signal : UInt32
  deriving DecidableEq

inductive Point where
  /-- In the loop. -/
  | loop
  /-- `sleep_if_empty` is called, and interrupts are still on. -/
  | entering
  | asleep
  deriving DecidableEq

/-- The variables of the call. `idle` is not one of them: the loop has come to `sleep_if_empty`, and
    since then no byte was removed and the task did not sleep. -/
structure Call where
  oldalarm : ℤ
  time : ℤ
  flag : Bool
  point : Point
  idle : Bool
  deriving DecidableEq

/-- `tty.reader` holds the other variables of the call; `call` is `none` when it has returned. -/
structure Sys where
  tty : State
  task : Task
  call : Option Call

/-- The part of `schedule` that looks at the alarm. -/
def Task.schedule (t : Task) : Task :=
  if t.alarm ≠ 0 ∧ t.alarm < t.jiffies then
    { t with signal := t.signal ||| ALRMMASK, alarm := 0 }
  else t

/-- `!oldalarm || time+jiffies<oldalarm` -/
def borrows (oldalarm time : ℤ) (jiffies : ℕ) : Bool :=
  oldalarm = 0 ∨ time + jiffies < oldalarm

/-- `10L*tty->termios.c_cc[VTIME]` -/
def timeOf (t : Termios) : ℤ := 10 * (t.cc VTIME).toNat

/-- Whether the alarm is set before the loop. -/
def borrowed (s : State) (t : Task) : Bool :=
  timeOf s.termios ≠ 0 ∧ s.termios.cc VMIN = 0 ∧ borrows t.alarm (timeOf s.termios) t.jiffies

/-- `tty_read` up to its loop. -/
def ttyRead (s : State) (t : Task) (nr : ℕ) : Sys where
  tty := s.setReader ⟨State.minimum s.termios nr, nr, [], .outer⟩
  task := if borrowed s t then { t with alarm := timeOf s.termios + t.jiffies } else t
  call := some ⟨t.alarm, timeOf s.termios, borrowed s t, .loop, false⟩

namespace Sys

/-- The end of `tty_read`. -/
def leave (s : Sys) (r : Reader) (k : Call) : Sys :=
  { tty := s.tty.endRead r, task := { s.task with alarm := k.oldalarm }, call := none }

/-- From `GETCH` to the test of the inner loop. The EOF character ends the call at once. -/
def fetch (s : Sys) (r : Reader) (k : Call) : Sys :=
  if s.tty.termios.is VEOF s.tty.secondary.front ∧ flag s.tty.termios.lflag ICANON then
    { s with tty := s.tty.fetch r, call := none }
  else { s with tty := s.tty.fetch r, call := some { k with idle := false } }

/-- `if (time && !L_CANON(tty))` -/
def rearm (s : Sys) (k : Call) : Sys :=
  if k.time ≠ 0 ∧ ¬flag s.tty.termios.lflag ICANON then
    { s with
      task := { s.task with
        alarm := if borrows k.oldalarm k.time s.task.jiffies then k.time + s.task.jiffies
          else k.oldalarm },
      call := some { k with flag := borrows k.oldalarm k.time s.task.jiffies } }
  else s

/-- After the inner loop. -/
def readOut (s : Sys) (r : Reader) (k : Call) : Sys :=
  if flag s.tty.termios.lflag ICANON then
    if r.got ≠ [] then (s.rearm k).leave r k
    else { s.rearm k with tty := s.tty.readOut r }
  else if r.got.length ≥ r.minimum then (s.rearm k).leave r k
  else { s.rearm k with tty := s.tty.readOut r }

/-- One turn of the loop, up to the first `GETCH` or to `sleep_if_empty`. -/
def turn (s : Sys) (r : Reader) (k : Call) : Sys :=
  if r.nr = 0 then s.leave r k
  else if k.flag ∧ s.task.signal &&& ALRMMASK ≠ 0 then
    { s with task := { s.task with signal := s.task.signal &&& ~~~ALRMMASK } }.leave r k
  else if s.task.signal ≠ 0 then s.leave r k
  else if s.tty.sleeps then { s with call := some { k with point := .entering, idle := true } }
  else { s with tty := s.tty.setReader { r with point := .get } }

/-- `sleep_if_empty`, with interrupts off. -/
def sleepIfEmpty (s : Sys) (k : Call) : Sys :=
  if s.task.signal = 0 ∧ s.tty.secondary.EMPTY then
    { s with task := s.task.schedule, call := some { k with point := .asleep, idle := false } }
  else { s with call := some { k with point := .loop } }

/-- The call goes on. -/
def read (s : Sys) (r : Reader) (k : Call) : Sys :=
  if k.point = .loop then
    match r.point with
    | .outer => s.turn r k
    | .get => s.fetch r k
    | .inner =>
      if r.nr = 0 ∨ s.tty.secondary.EMPTY then s.readOut r k
      else { s with tty := s.tty.setReader { r with point := .get } }
  else s.sleepIfEmpty k

end Sys

inductive Act where
  | read
  /-- An interrupt comes or goes on, or another task uses the terminal. -/
  | tty (a : Tty.Act)
  | tick
  | signal (mask : UInt32)
  /-- `schedule` runs, for another task or while a page is loaded. -/
  | schedule

/-- What only the reader does. -/
def Reads : Tty.Act → Prop
  | .read _ => True
  | .readOn _ => True
  | _ => False

instance (a : Tty.Act) : Decidable (Reads a) := by
  cases a <;> unfold Reads <;> infer_instance

variable (ct : CType)

def step (s : Sys) : Act → Option Sys
  | .read =>
    if s.tty.stack = [] then s.call.bind fun k => s.tty.reader.map fun r => s.read r k else none
  | .tty a =>
    if Reads a then none else (Tty.step ct s.tty a).map fun tty => { s with tty := tty }
  | .tick => some { s with task := { s.task with jiffies := s.task.jiffies + 1 } }
  | .signal mask => some { s with task := { s.task with signal := s.task.signal ||| mask } }
  | .schedule => some { s with task := s.task.schedule }

def runs (s : Sys) : List Act → Option Sys
  | [] => some s
  | a :: l => (step ct s a).bind fun s' => runs s' l

/-- A property of every state of a run, as far as its actions are possible. -/
def Along (P : Sys → Prop) (s : Sys) : List Act → Prop
  | [] => P s
  | a :: l => P s ∧ ∀ s', step ct s a = some s' → Along P s' l

/-- A condition on every step of a run. -/
def EachStep (C : Sys → Act → Prop) (s : Sys) : List Act → Prop
  | [] => True
  | a :: l => ∀ s', step ct s a = some s' → C s a ∧ EachStep C s' l

/-! ### The loop as `readOn` of the terminal -/

section Refines

variable {s : Sys} {r : Reader} {k : Call}

theorem fetch_tty : (s.fetch r k).tty = s.tty.fetch r := by
  unfold Sys.fetch
  split <;> rfl

theorem rearm_tty : (s.rearm k).tty = s.tty := by
  unfold Sys.rearm
  split <;> rfl

theorem readOut_tty : (s.readOut r k).tty = s.tty.readOut r := by
  unfold Sys.readOut Sys.leave State.readOut
  rw [rearm_tty]
  split_ifs <;> simp_all

/-- With its alarm left out, the loop does what `readOn` of the terminal does, or it goes to sleep or
    wakes up. -/
theorem read_tty (s : Sys) (r : Reader) (k : Call) :
    (s.read r k).tty = if k.point = .loop then s.tty.readOn r (s.task.signal ≠ 0) else s.tty := by
  unfold Sys.read
  by_cases hloop : k.point = .loop
  case neg =>
    rw [if_neg hloop, if_neg hloop]
    unfold Sys.sleepIfEmpty
    split <;> rfl
  rw [if_pos hloop, if_pos hloop]
  unfold State.readOn
  cases r.point with
  | get => exact fetch_tty
  | inner =>
    simp only
    split
    · exact readOut_tty
    · rfl
  | outer =>
    simp only
    unfold Sys.turn
    by_cases hnr : r.nr = 0
    · rw [if_pos hnr, if_pos (.inl hnr)]
      rfl
    by_cases hsignal : s.task.signal = 0
    · have hzero : ¬(k.flag = true ∧ s.task.signal &&& ALRMMASK ≠ 0) := by
        rw [hsignal]
        simp
      have hgo : ¬(r.nr = 0 ∨ decide (s.task.signal ≠ 0) = true) := by simp [hnr, hsignal]
      rw [if_neg hnr, if_neg hzero, if_neg (not_not_intro hsignal), if_neg hgo]
      split <;> rfl
    · have hend : r.nr = 0 ∨ decide (s.task.signal ≠ 0) = true := .inr (decide_eq_true hsignal)
      rw [if_neg hnr, if_pos hsignal, if_pos hend]
      split <;> rfl

end Refines

/-! ### Waiting -/

section Waiting

variable {s s' : Sys} {r : Reader} {k : Call} {l : List Act}

/-- When the loop condition is to be tested again, the iteration before has removed a byte or slept. -/
def Busy (s : Sys) : Prop := ∀ k, s.call = some k → k.point = .loop → k.idle = false

/-- `sleep_if_empty` finds nothing that keeps it from sleeping. -/
def Waits (s : Sys) (a : Act) : Prop :=
  a = .read → ∀ k, s.call = some k → k.point = .entering →
    s.task.signal = 0 ∧ s.tty.secondary.EMPTY

/-- What `idle` is on the way through `sleep_if_empty`. -/
def Steady (s : Sys) : Prop :=
  ∀ k, s.call = some k → (k.point = .entering → k.idle = true) ∧ (k.point = .asleep → k.idle = false)

theorem ttyRead_busy (s : State) (t : Task) (nr : ℕ) :
    Busy (ttyRead s t nr) ∧ Steady (ttyRead s t nr) := by
  constructor
  · intro k hk _
    cases hk
    rfl
  · intro k hk
    cases hk
    exact ⟨fun h => (by cases h), fun h => (by cases h)⟩

theorem fetch_call : (s.fetch r k).call = none ∨ (s.fetch r k).call = some { k with idle := false } := by
  unfold Sys.fetch
  split
  · exact .inl rfl
  · exact .inr rfl

theorem rearm_call (hk : s.call = some k) :
    ∃ flag, (s.rearm k).call = some { k with flag := flag } := by
  unfold Sys.rearm
  split
  · exact ⟨_, rfl⟩
  · exact ⟨k.flag, hk⟩

theorem readOut_call (hk : s.call = some k) :
    (s.readOut r k).call = none ∨ ∃ flag, (s.readOut r k).call = some { k with flag := flag } := by
  unfold Sys.readOut
  split_ifs
  · exact .inl rfl
  · exact .inr (rearm_call hk)
  · exact .inl rfl
  · exact .inr (rearm_call hk)

theorem turn_call (hk : s.call = some k) : (s.turn r k).call = none ∨ (s.turn r k).call = some k ∨
    (s.turn r k).call = some { k with point := .entering, idle := true } := by
  unfold Sys.turn
  split_ifs
  · exact .inl rfl
  · exact .inl rfl
  · exact .inl rfl
  · exact .inr (.inr rfl)
  · exact .inr (.inl hk)

/-- Within the loop no iteration ends without a byte removed. -/
theorem read_loop (hk : s.call = some k) (hloop : k.point = .loop) (hidle : k.idle = false) :
    Busy (s.read r k) ∧ Steady (s.read r k) := by
  have hcall : ∀ k', (s.read r k).call = some k' →
      k'.point = .loop ∧ k'.idle = false ∨ k'.point = .entering ∧ k'.idle = true := by
    intro k' hk'
    unfold Sys.read at hk'
    rw [if_pos hloop] at hk'
    split at hk'
    · obtain h | h | h := turn_call (r := r) hk <;> rw [h] at hk' <;> cases hk'
      · exact .inl ⟨hloop, hidle⟩
      · exact .inr ⟨rfl, rfl⟩
    · obtain h | h := fetch_call (s := s) (r := r) (k := k) <;> rw [h] at hk' <;> cases hk'
      exact .inl ⟨hloop, rfl⟩
    · split at hk'
      · obtain h | ⟨flag, h⟩ := readOut_call (r := r) hk <;> rw [h] at hk' <;> cases hk'
        exact .inl ⟨hloop, hidle⟩
      · cases hk.symm.trans hk'
        exact .inl ⟨hloop, hidle⟩
  constructor
  · intro k' hk' hpoint
    obtain h | h := hcall k' hk'
    · exact h.2
    · rw [h.1] at hpoint
      cases hpoint
  · intro k' hk'
    obtain h | h := hcall k' hk'
    · refine ⟨fun hp => ?_, fun _ => h.2⟩
      rw [h.1] at hp
      cases hp
    · refine ⟨fun _ => h.2, fun hp => ?_⟩
      rw [h.1] at hp
      cases hp

theorem sleepIfEmpty_iff (hidle : k.point = .entering → k.idle = true)
    (hawake : k.point = .asleep → k.idle = false) (hpoint : k.point ≠ .loop) :
    Steady (s.sleepIfEmpty k) ∧ (Busy (s.sleepIfEmpty k) ↔
      (k.point = .entering → s.task.signal = 0 ∧ s.tty.secondary.EMPTY)) := by
  unfold Sys.sleepIfEmpty
  split
  · next hsleep =>
    refine ⟨?_, iff_of_true ?_ fun _ => hsleep⟩
    · intro k' hk'
      cases hk'
      exact ⟨fun h => (by cases h), fun _ => rfl⟩
    · intro k' hk' _
      cases hk'
      rfl
  · next hsleep =>
    refine ⟨?_, ?_⟩
    · intro k' hk'
      cases hk'
      exact ⟨fun h => (by cases h), fun h => (by cases h)⟩
    · constructor
      · intro hbusy hentering
        have h := hbusy _ rfl rfl
        rw [hidle hentering] at h
        cases h
      · intro h k' hk' _
        cases hk'
        have hasleep : k.point = .asleep := by
          cases hk : k.point with
          | loop => exact absurd hk hpoint
          | entering => exact absurd (h hk) hsleep
          | asleep => rfl
        exact hawake hasleep

/-- One step: the loop condition is tested in vain only after `sleep_if_empty` has returned at once. -/
theorem step_busy {a : Act} (hb : Busy s) (hs : Steady s) (hstep : step ct s a = some s') :
    Steady s' ∧ (Busy s' ↔ Waits s a) := by
  cases a with
  | read =>
    unfold step at hstep
    simp only at hstep
    split at hstep
    · obtain ⟨k, hk, hread⟩ := Option.bind_eq_some_iff.1 hstep
      obtain ⟨r, -, rfl⟩ := Option.map_eq_some_iff.1 hread
      by_cases hloop : k.point = .loop
      · obtain ⟨hb', hs'⟩ := read_loop (r := r) hk hloop (hb k hk hloop)
        refine ⟨hs', iff_of_true hb' ?_⟩
        intro _ k' hk' hentering
        rw [hk] at hk'
        cases hk'
        rw [hloop] at hentering
        cases hentering
      · unfold Sys.read
        rw [if_neg hloop]
        obtain ⟨hs', hiff⟩ := sleepIfEmpty_iff (s := s) (hs k hk).1 (hs k hk).2 hloop
        refine ⟨hs', hiff.trans ⟨?_, ?_⟩⟩
        · intro h _ k' hk' hentering
          rw [hk] at hk'
          cases hk'
          exact h hentering
        · intro h hentering
          exact h rfl k hk hentering
    · cases hstep
  | tty a =>
    unfold step at hstep
    simp only at hstep
    split at hstep
    · cases hstep
    · obtain ⟨tty, -, rfl⟩ := Option.map_eq_some_iff.1 hstep
      exact ⟨hs, iff_of_true hb nofun⟩
  | tick =>
    cases hstep
    exact ⟨hs, iff_of_true hb nofun⟩
  | signal mask =>
    cases hstep
    exact ⟨hs, iff_of_true hb nofun⟩
  | schedule =>
    cases hstep
    exact ⟨hs, iff_of_true hb nofun⟩

theorem Along.head {P : Sys → Prop} (h : Along ct P s l) : P s := by
  cases l with
  | nil => exact h
  | cons a l => exact h.1

theorem busy_iff (hb : Busy s) (hs : Steady s) : Along ct Busy s l ↔ EachStep ct Waits s l := by
  induction l generalizing s with
  | nil => exact iff_of_true hb trivial
  | cons a l ih =>
    constructor
    · rintro ⟨-, h⟩ s' hstep
      obtain ⟨hs', hiff⟩ := step_busy ct hb hs hstep
      have hb' := (h s' hstep).head
      exact ⟨hiff.1 hb', (ih hb' hs').1 (h s' hstep)⟩
    · intro h
      refine ⟨hb, fun s' hstep => ?_⟩
      obtain ⟨hs', hiff⟩ := step_busy ct hb hs hstep
      obtain ⟨hwaits, hrest⟩ := h s' hstep
      exact (ih (hiff.2 hwaits) hs').2 hrest

/-- `tty_read` does not spin if and only if, whenever it wants to wait, `sleep_if_empty` finds the queue
    empty and no signal. -/
theorem never_spins_iff (s : State) (t : Task) (nr : ℕ) (l : List Act) :
    Along ct Busy (ttyRead s t nr) l ↔ EachStep ct Waits (ttyRead s t nr) l :=
  busy_iff ct (ttyRead_busy s t nr).1 (ttyRead_busy s t nr).2

/-- An unfinished line lies in the queue of a canonical terminal. -/
structure Spinning (s : Sys) (r : Reader) (k : Call) : Prop where
  stack : s.tty.stack = []
  call : s.call = some k
  reader : s.tty.reader = some r
  point : k.point = .loop
  idle : k.idle = true
  outer : r.point = .outer
  wanted : r.nr ≠ 0
  signal : s.task.signal = 0
  sleeps : s.tty.sleeps
  some : ¬s.tty.secondary.EMPTY

theorem Spinning.twice (h : Spinning s r k) (l : List Act) :
    runs ct s (.read :: .read :: l) = runs ct s l := by
  have hturn : s.read r k = { s with call := Option.some { k with point := .entering, idle := true } } := by
    have hflag : ¬(k.flag = true ∧ s.task.signal &&& ALRMMASK ≠ 0) := by
      rw [h.signal]
      simp
    rw [Sys.read, if_pos h.point, h.outer]
    simp only
    rw [Sys.turn, if_neg h.wanted, if_neg hflag, if_neg (not_not_intro h.signal), if_pos h.sleeps]
  have hback : Sys.read { s with call := Option.some { k with point := .entering, idle := true } } r
      { k with point := .entering, idle := true } = s := by
    have hk : { k with point := .loop, idle := true } = k := by
      rw [← h.point, ← h.idle]
    rw [Sys.read, if_neg nofun, Sys.sleepIfEmpty, if_neg fun hempty => h.some hempty.2]
    change { s with call := Option.some { k with point := .loop, idle := true } } = s
    rw [hk, ← h.call]
  rw [runs, step, if_pos h.stack, h.call, Option.bind_some, h.reader, Option.map_some,
    Option.bind_some, hturn, runs, step, if_pos h.stack, Option.bind_some, h.reader, Option.map_some,
    Option.bind_some, hback]

/-- As long as nothing arrives, `tty_read` goes round without sleeping. -/
theorem Spinning.forever (h : Spinning s r k) (n : ℕ) :
    runs ct s (List.replicate (2 * n) .read) = Option.some s := by
  induction n with
  | zero => rfl
  | succ n ih =>
    rw [Nat.mul_succ, List.replicate_succ, List.replicate_succ, h.twice, ih]

theorem Along.last {P : Sys → Prop} (h : Along ct P s l) : ∀ s' ∈ runs ct s l, P s' := by
  intro s' hs
  induction l generalizing s with
  | nil =>
    cases hs
    exact h
  | cons a l ih =>
    obtain ⟨s₁, hstep, hs⟩ := Option.bind_eq_some_iff.1 hs
    exact ih (h.2 s₁ hstep) hs

/-- `a` is typed, `tty_read` calls `sleep_if_empty` and comes back at once. -/
def letterTyped : List Act := (typed [97] 6).map .tty ++ [.read, .read]

theorem letterTyped_spins : ∃ s r k,
    runs .ascii (ttyRead console0 ⟨0, 0, 0⟩ 5) letterTyped = some s ∧ Spinning s r k := by
  have hrun : (runs .ascii (ttyRead console0 ⟨0, 0, 0⟩ 5) letterTyped).any (fun s =>
      s.tty.stack = [] ∧ s.call = some ⟨0, 0, false, .loop, true⟩ ∧ s.task.signal = 0 ∧
      s.tty.sleeps ∧ ¬s.tty.secondary.EMPTY ∧
      s.tty.reader.any fun r => r.point = .outer ∧ r.nr ≠ 0) = true := by
    decide +kernel
  obtain ⟨s, hs, h⟩ := (Option.any_eq_true _ _).1 hrun
  obtain ⟨hstack, hcall, hsignal, hsleeps, hsome, hreader⟩ := of_decide_eq_true h
  obtain ⟨r, hr, hr'⟩ := (Option.any_eq_true _ _).1 hreader
  obtain ⟨houter, hwanted⟩ := of_decide_eq_true hr'
  exact ⟨s, r, _, hs, hstack, hcall, hr, rfl, rfl, houter, hwanted, hsignal, hsleeps, hsome⟩

/-- The machine hangs until a newline, an EOF character or a signal comes. -/
theorem spins_on_unfinished_line : ¬Along .ascii Busy (ttyRead console0 ⟨0, 0, 0⟩ 5) letterTyped ∧
    ∃ s, runs .ascii (ttyRead console0 ⟨0, 0, 0⟩ 5) letterTyped = some s ∧
      ∀ n, runs .ascii s (List.replicate (2 * n) .read) = some s := by
  obtain ⟨s, r, k, hrun, hspins⟩ := letterTyped_spins
  refine ⟨?_, s, hrun, hspins.forever .ascii⟩
  intro h
  have hidle := h.last .ascii s hrun k hspins.call hspins.point
  rw [hspins.idle] at hidle
  cases hidle

end Waiting

end Linux011.TtyRead
