import Linux011.TtyRead
import Mathlib

set_option autoImplicit false

/-! # The alarm that tty_read borrows -/
namespace Linux011.TtyRead
open Tty

variable {ct : CType}

section Settings

open State

/-- `tty_ioctl` changes the settings. -/
def Sets : Tty.Act → Prop
  | .setTermios _ _ => True
  | .setTermio _ _ => True
  | _ => False

theorem putAll_termios (f : State → UInt8 → State) (hf : ∀ s c, (f s c).termios = s.termios) (s : State)
    (l : List UInt8) : (l.foldl f s).termios = s.termios := by
  induction l generalizing s with
  | nil => rfl
  | cons c l ih => exact (ih (f s c)).trans (hf s c)

theorem received_termios (s : State) (c : UInt8) : (s.received ct c).termios = s.termios := by
  unfold State.received
  split
  · rfl
  · rfl
  · split
    · rfl
    · exact echo_termios _ _ _
  · rfl
  · rfl
  · rfl
  · rfl
  · rw [echo_termios, count_termios]

theorem write_termios (s : State) : s.write.termios = s.termios := by
  unfold State.write
  split <;> rfl

theorem conWrite_termios (s : State) (nr : ℕ) (below : List Frame) :
    (s.conWrite nr below).termios = s.termios := by
  cases nr with
  | zero => rfl
  | succ nr =>
    unfold State.conWrite
    simp only
    split
    · exact putAll_termios putRead (fun _ _ => rfl) _ _
    · rfl

theorem run_termios (s : State) : (s.run ct).termios = s.termios := by
  unfold State.run
  split
  · rfl
  · unfold State.cook
    split <;> rfl
  · exact received_termios _ _
  · unfold State.kill
    split
    · rfl
    · exact echo_termios _ _ _
  · rfl
  · rfl
  · exact conWrite_termios _ _ _

theorem writeOn_termios (s : State) (w : Writer) (signal : Bool) :
    (s.writeOn ct w signal).termios = s.termios := by
  unfold State.writeOn
  split
  · split_ifs <;> rfl
  · split_ifs <;> rfl
  · split_ifs
    · exact write_termios _
    · rfl
  · unfold State.writePut
    split
    · rfl
    · split <;> rfl
  · rfl

/-- The settings change through `tty_ioctl` only. -/
theorem step_termios {s s' : State} {a : Tty.Act} (hreads : ¬Reads a) (hsets : ¬Sets a)
    (h : Tty.step ct s a = some s') : s'.termios = s.termios := by
  cases a with
  | run =>
    simp only [Tty.step] at h
    split at h
    · cases h
    · cases h
      exact run_termios s
  | interrupt l =>
    cases h
    split
    · exact putAll_termios putRead (fun _ _ => rfl) _ _
    · rfl
  | drain =>
    simp only [Tty.step] at h
    split at h
    · cases h
    · cases h
      rfl
  | write buf =>
    simp only [Tty.step] at h
    split at h
    · cases h
      rfl
    · cases h
  | writeOn signal =>
    simp only [Tty.step] at h
    split at h
    · obtain ⟨w, -, rfl⟩ := Option.map_eq_some_iff.1 h
      exact writeOn_termios s w signal
    · cases h
  | read nr => exact absurd trivial hreads
  | readOn broken => exact absurd trivial hreads
  | setTermios t flushed => exact absurd trivial hsets
  | setTermio t flushed => exact absurd trivial hsets

theorem readOn_termios (s : State) (r : Reader) (broken : Bool) :
    (s.readOn r broken).termios = s.termios := by
  unfold State.readOn State.readOut State.fetch
  cases r.point with
  | _ =>
    simp only
    split_ifs <;> rfl

end Settings

section Alarm

variable {s s' : Sys} {r : Reader} {k : Call} {tm : Termios} {old a : ℤ}

/-- The step does not come from `tty_ioctl`. -/
def Fixed (a : Act) : Prop := ∀ b, a = .tty b → ¬Sets b

/-- The alarm is the one of the entry, unless that one has expired. -/
def Preserved (old : ℤ) (t : Task) : Prop := t.alarm = old ∨ old ≠ 0 ∧ old < t.jiffies

instance (old : ℤ) (t : Task) : Decidable (Preserved old t) := inferInstanceAs (Decidable (_ ∨ _))

/-- The next step takes a byte from the queue. -/
def Fetches (r : Reader) (k : Call) : Prop := k.point = .loop ∧ r.point = .get

/-- The next step takes the EOF character from the queue of a canonical terminal. -/
def AtEof (s : Sys) : Prop := ∃ r k, s.tty.reader = some r ∧ s.call = some k ∧ Fetches r k ∧
  s.tty.termios.is VEOF s.tty.secondary.front = true ∧ flag s.tty.termios.lflag ICANON = true

theorem AtEof.canonical (h : AtEof s) : flag s.tty.termios.lflag ICANON = true := by
  obtain ⟨-, -, -, -, -, -, hcanon⟩ := h
  exact hcanon

theorem leave_task : (s.leave r k).task.alarm = k.oldalarm ∧
    (s.leave r k).task.jiffies = s.task.jiffies :=
  ⟨rfl, rfl⟩

theorem turn_none (hk : s.call = some k) (h : (s.turn r k).call = none) :
    (s.turn r k).task.alarm = k.oldalarm ∧ (s.turn r k).task.jiffies = s.task.jiffies := by
  unfold Sys.turn at h ⊢
  split_ifs at h ⊢
  · exact leave_task
  · exact leave_task
  · exact leave_task
  · cases hk.symm.trans h

theorem read_oldalarm (hk : s.call = some k) :
    ∀ k', (s.read r k).call = some k' → k'.oldalarm = k.oldalarm := by
  intro k' hk'
  unfold Sys.read at hk'
  split at hk'
  · split at hk'
    · obtain h | h | h := turn_call (r := r) hk <;> rw [h] at hk' <;> cases hk' <;> rfl
    · obtain h | h := fetch_call (s := s) (r := r) (k := k) <;> rw [h] at hk' <;> cases hk'
      rfl
    · split at hk'
      · obtain h | ⟨flag, h⟩ := readOut_call (r := r) hk <;> rw [h] at hk' <;> cases hk'
        rfl
      · cases hk.symm.trans hk'
        rfl
  · unfold Sys.sleepIfEmpty at hk'
    split at hk' <;> cases hk' <;> rfl

/-- On a canonical terminal the loop does not set the alarm. -/
theorem read_task (hcanon : flag s.tty.termios.lflag ICANON = true) :
    (s.read r k).call = none ∨ (s.read r k).task = s.task ∨
      (s.read r k).task = s.task.schedule := by
  have hrearm : s.rearm k = s := if_neg fun h => h.2 hcanon
  have hfetch : (s.fetch r k).task = s.task := by
    unfold Sys.fetch
    split <;> rfl
  unfold Sys.read
  split
  · split
    · unfold Sys.turn
      split_ifs
      · exact .inl rfl
      · exact .inl rfl
      · exact .inl rfl
      · exact .inr (.inl rfl)
      · exact .inr (.inl rfl)
    · exact .inr (.inl hfetch)
    · split
      · unfold Sys.readOut
        rw [if_pos hcanon, hrearm]
        split_ifs
        · exact .inl rfl
        · exact .inr (.inl rfl)
      · exact .inr (.inl rfl)
  · unfold Sys.sleepIfEmpty
    split
    · exact .inr (.inr rfl)
    · exact .inr (.inl rfl)

/-- The alarm that is set, or none once `schedule` has found it expired. -/
def Runs (a : ℤ) (t : Task) : Prop := t.alarm = a ∨ t.alarm = 0 ∧ a ≠ 0 ∧ a < t.jiffies

theorem Runs.schedule {t : Task} (h : Runs a t) : Runs a t.schedule := by
  unfold Task.schedule
  split
  · next hexpired =>
    obtain h | h := h
    · rw [h] at hexpired
      exact .inr ⟨rfl, hexpired.1, hexpired.2⟩
    · exact absurd h.1 hexpired.1
  · exact h

/-- What a call that is under way has to do with the alarm. -/
structure Lent (tm : Termios) (old a : ℤ) (s : Sys) : Prop where
  termios : s.tty.termios = tm
  oldalarm : ∀ k, s.call = some k → k.oldalarm = old
  alarm : flag tm.lflag ICANON = true → s.call ≠ none → Runs a s.task

theorem Lent.read (h : Lent tm old a s) (hk : s.call = some k) :
    Lent tm old a (s.read r k) := by
  refine ⟨?_, ?_, ?_⟩
  · rw [read_tty]
    split
    · rw [readOn_termios, h.termios]
    · exact h.termios
  · intro k' hk'
    rw [read_oldalarm hk k' hk', h.oldalarm k hk]
  · intro hcanon hcall
    have hruns := h.alarm hcanon (by rw [hk]; exact Option.some_ne_none k)
    rw [← h.termios] at hcanon
    obtain hnone | htask | htask := read_task (r := r) (k := k) hcanon
    · exact absurd hnone hcall
    · rw [htask]
      exact hruns
    · rw [htask]
      exact hruns.schedule

theorem Lent.step (h : Lent tm old a s) {b : Act} (hb : Fixed b) (hstep : step ct s b = some s') :
    Lent tm old a s' := by
  cases b with
  | read =>
    unfold TtyRead.step at hstep
    simp only at hstep
    split at hstep
    · obtain ⟨k, hk, hread⟩ := Option.bind_eq_some_iff.1 hstep
      obtain ⟨r, -, rfl⟩ := Option.map_eq_some_iff.1 hread
      exact h.read hk
    · cases hstep
  | tty b =>
    unfold TtyRead.step at hstep
    simp only at hstep
    split at hstep
    · cases hstep
    · next hreads =>
      obtain ⟨tty, htty, rfl⟩ := Option.map_eq_some_iff.1 hstep
      exact ⟨(step_termios hreads (hb b rfl) htty).trans h.termios, h.oldalarm, h.alarm⟩
  | tick =>
    cases hstep
    refine ⟨h.termios, h.oldalarm, fun hcanon hcall => ?_⟩
    obtain halarm | ⟨hzero, hne, hlt⟩ := h.alarm hcanon hcall
    · exact .inl halarm
    · refine .inr ⟨hzero, hne, ?_⟩
      push_cast
      omega
  | signal mask =>
    cases hstep
    exact ⟨h.termios, h.oldalarm, h.alarm⟩
  | schedule =>
    cases hstep
    exact ⟨h.termios, h.oldalarm, fun hcanon hcall => (h.alarm hcanon hcall).schedule⟩

theorem Lent.runs (h : Lent tm old a s) {l : List Act} (hl : ∀ b ∈ l, Fixed b)
    (hrun : runs ct s l = some s') : Lent tm old a s' := by
  induction l generalizing s with
  | nil =>
    cases hrun
    exact h
  | cons b l ih =>
    obtain ⟨s₁, hstep, hrest⟩ := Option.bind_eq_some_iff.1 hrun
    exact ih (h.step (hl b List.mem_cons_self) hstep)
      (fun c hc => hl c (List.mem_cons_of_mem _ hc)) hrest

end Alarm

end Linux011.TtyRead
