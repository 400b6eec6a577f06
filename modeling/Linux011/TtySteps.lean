import Linux011.TtyMachine
import Mathlib

set_option autoImplicit false

/-! # What the steps of a terminal change -/
namespace Linux011.Tty
open TtyQueue

namespace State

/-! ### Putting characters -/

theorem dropped_of_room {q : TtyQueue} (h : ¬ q.FULL) : dropped q = [] := if_neg h

/-- Characters that fit throw nothing away. -/
theorem putWrite_all (s : State) (l : List UInt8) :
    ∃ lost, l.foldl putWrite s =
        { s with writeQ := s.writeQ.putAll l, written := s.written ++ l, lost := lost } ∧
      (l.length ≤ s.writeQ.LEFT → lost = s.lost) := by
  induction l generalizing s with
  | nil => exact ⟨s.lost, by rw [List.append_nil]; rfl, fun _ => rfl⟩
  | cons c l ih =>
    obtain ⟨lost, heq, hlost⟩ := ih (s.putWrite c)
    refine ⟨lost, ?_, fun h => ?_⟩
    · rw [List.foldl_cons, heq]
      simp [putWrite]
    · have hroom := not_full_of_left h
      have hleft := LEFT_PUTCH hroom c
      rw [List.length_cons] at h
      rw [hlost (by change l.length ≤ (s.writeQ.PUTCH c).LEFT; omega)]
      change s.lost ++ dropped s.writeQ = s.lost
      rw [dropped_of_room hroom, List.append_nil]

theorem putRead_all (s : State) (l : List UInt8) :
    ∃ lost, l.foldl putRead s = { s with readQ := s.readQ.putAll l, lost := lost } ∧
      (l.length ≤ s.readQ.LEFT → lost = s.lost) := by
  induction l generalizing s with
  | nil => exact ⟨s.lost, rfl, fun _ => rfl⟩
  | cons c l ih =>
    obtain ⟨lost, heq, hlost⟩ := ih (s.putRead c)
    refine ⟨lost, heq, fun h => ?_⟩
    have hroom := not_full_of_left h
    have hleft := LEFT_PUTCH hroom c
    rw [List.length_cons] at h
    rw [hlost (by change l.length ≤ (s.readQ.PUTCH c).LEFT; omega)]
    change s.lost ++ dropped s.readQ = s.lost
    rw [dropped_of_room hroom, List.append_nil]

/-- Whether there is an echo, and whether it is shown at once. -/
theorem echo_cases (s : State) (l : List UInt8) (next : Frame) :
    s.echo l next = s.push next ∧ flag s.termios.lflag ECHO = false ∨
    flag s.termios.lflag ECHO = true ∧
      ∃ lost, (l.length ≤ s.writeQ.LEFT → lost = s.lost) ∧
        s.echo l next = { s with
          writeQ := s.writeQ.putAll l, written := s.written ++ l, lost := lost,
          stack := if s.console then .conWrite (s.writeQ.putAll l).CHARS :: next :: s.stack
            else next :: s.stack } := by
  unfold echo
  split
  · next hecho =>
    obtain ⟨lost, heq, hlost⟩ := s.putWrite_all l
    refine .inr ⟨hecho, lost, hlost, ?_⟩
    rw [heq]
    unfold write push
    simp only
    split <;> rfl
  · next hecho => exact .inl ⟨rfl, Bool.eq_false_of_not_eq_true hecho⟩

@[simp] theorem echo_secondary (s : State) (l : List UInt8) (next : Frame) :
    (s.echo l next).secondary = s.secondary := by
  obtain ⟨h, -⟩ | ⟨-, lost, -, h⟩ := s.echo_cases l next
  · rw [h]
    rfl
  · rw [h]

@[simp] theorem echo_termios (s : State) (l : List UInt8) (next : Frame) :
    (s.echo l next).termios = s.termios := by
  obtain ⟨h, -⟩ | ⟨-, lost, -, h⟩ := s.echo_cases l next
  · rw [h]
    rfl
  · rw [h]

/-- What the call that goes on at `next` comes to lie under. -/
theorem echo_stack (s : State) (l : List UInt8) (next : Frame) :
    (s.echo l next).stack = next :: s.stack ∨
      ∃ nr, (s.echo l next).stack = .conWrite nr :: next :: s.stack := by
  obtain ⟨h, -⟩ | ⟨-, lost, -, h⟩ := s.echo_cases l next
  · rw [h]
    exact .inl rfl
  · rw [h]
    simp only
    split
    · exact .inr ⟨_, rfl⟩
    · exact .inl rfl

@[simp] theorem count_stack (s : State) (c : UInt8) : (s.count c).stack = s.stack := by
  unfold count
  split <;> rfl

@[simp] theorem count_termios (s : State) (c : UInt8) : (s.count c).termios = s.termios := by
  unfold count
  split <;> rfl

end State

end Linux011.Tty
