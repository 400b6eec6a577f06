import Linux011.RingBuffer
import Linux011.Tty
import Mathlib

set_option autoImplicit false

/-! # What a terminal queue holds -/
namespace Linux011.Tty.TtyQueue
open RingBuffer

/-- The cells of a queue by number. -/
def cell (q : TtyQueue) (i : ℕ) : UInt8 := q.buf ⟨i % 1024, Nat.mod_lt _ (by decide)⟩

/-- The characters from `tail` to `head`. -/
def content (q : TtyQueue) : List UInt8 := window 1024 q.cell q.tail.val q.CHARS

variable (q : TtyQueue)

@[simp] theorem content_length : q.content.length = q.CHARS := window_length _ _ _ _

theorem LEFT_eq : q.LEFT + q.CHARS = 1023 := by
  unfold LEFT CHARS
  omega

theorem CHARS_le : q.CHARS ≤ 1023 := by
  have := q.LEFT_eq
  omega

theorem EMPTY_iff : q.EMPTY ↔ q.CHARS = 0 := by
  unfold EMPTY CHARS
  omega

theorem FULL_iff : q.FULL ↔ q.CHARS = 1023 := by
  have := q.LEFT_eq
  unfold FULL
  omega

theorem content_eq_nil : q.content = [] ↔ q.EMPTY := by
  rw [EMPTY_iff, ← content_length, List.length_eq_zero_iff]

/-- `head` lies behind the last character. -/
theorem head_eq : (q.tail.val + q.CHARS) % 1024 = q.head.val := by
  unfold CHARS
  omega

variable {q}

theorem CHARS_PUTCH (h : ¬ q.FULL) (c : UInt8) : (q.PUTCH c).CHARS = q.CHARS + 1 := by
  rw [FULL_iff] at h
  unfold CHARS at h
  unfold CHARS PUTCH
  simp only
  omega

theorem CHARS_GETCH (h : ¬ q.EMPTY) : q.GETCH.CHARS + 1 = q.CHARS := by
  unfold EMPTY at h
  unfold CHARS GETCH
  simp only
  omega

theorem CHARS_DEC (h : ¬ q.EMPTY) : q.DEC.CHARS + 1 = q.CHARS := by
  unfold EMPTY at h
  unfold CHARS DEC
  simp only
  omega

theorem window_cell {f g : ℕ → UInt8} (h : ∀ i < 1024, f i = g i) (start n : ℕ) :
    window 1024 f start n = window 1024 g start n := by
  unfold window
  apply List.map_congr_left
  intro i _
  exact h _ (Nat.mod_lt _ (by decide))

theorem content_PUTCH (h : ¬ q.FULL) (c : UInt8) : (q.PUTCH c).content = q.content ++ [c] := by
  have hlt : q.CHARS < 1024 := by
    have := q.CHARS_le
    omega
  have hcell : ∀ i < 1024, (q.PUTCH c).cell i =
      Function.update q.cell ((q.tail.val + q.CHARS) % 1024) c i := by
    intro i hi
    rw [q.head_eq]
    unfold cell PUTCH
    by_cases he : i = q.head.val
    · subst he
      rw [Function.update_self]
      have hfin : (⟨q.head.val % 1024, Nat.mod_lt _ (by decide)⟩ : Fin 1024) = q.head :=
        Fin.ext (Nat.mod_eq_of_lt hi)
      rw [hfin]
      exact Function.update_self _ _ _
    · rw [Function.update_of_ne he]
      apply Function.update_of_ne
      intro hfin
      apply he
      rw [← hfin]
      exact (Nat.mod_eq_of_lt hi).symm
  unfold content
  rw [CHARS_PUTCH h, window_cell hcell]
  exact window_push q.cell q.tail.val q.CHARS c hlt

theorem content_GETCH (h : ¬ q.EMPTY) : q.content = q.front :: q.GETCH.content := by
  unfold content
  rw [← CHARS_GETCH h, window_front]
  have hfront : q.cell (q.tail.val % 1024) = q.front := by
    unfold cell front
    congr 1
    apply Fin.ext
    change q.tail.val % 1024 % 1024 = q.tail.val
    omega
  rw [hfront]
  congr 1
  apply window_congr
  change (q.tail.val + 1) % 1024 = (q.tail + 1).val % 1024
  omega

theorem content_DEC (h : ¬ q.EMPTY) : q.content = q.DEC.content ++ [q.LAST] := by
  unfold content
  rw [← CHARS_DEC h, window_back]
  congr 2
  unfold cell LAST
  congr 1
  apply Fin.ext
  change (q.tail.val + q.DEC.CHARS) % 1024 % 1024 = (q.head - 1).val
  have hhead := q.DEC.head_eq
  change (q.tail.val + q.DEC.CHARS) % 1024 = (q.head - 1).val at hhead
  omega

theorem LEFT_PUTCH (h : ¬ q.FULL) (c : UInt8) : (q.PUTCH c).LEFT + 1 = q.LEFT := by
  have hnew := (q.PUTCH c).LEFT_eq
  have hold := q.LEFT_eq
  have hchars := CHARS_PUTCH h c
  omega

/-- Several characters, one after the other. -/
def putAll (q : TtyQueue) (l : List UInt8) : TtyQueue := l.foldl (fun q c => q.PUTCH c) q

@[simp] theorem putAll_nil (q : TtyQueue) : q.putAll [] = q := rfl

@[simp] theorem putAll_cons (q : TtyQueue) (c : UInt8) (l : List UInt8) :
    q.putAll (c :: l) = (q.PUTCH c).putAll l := rfl

theorem not_full_of_left {n : ℕ} (h : n + 1 ≤ q.LEFT) : ¬ q.FULL := by
  intro hf
  have hz : q.LEFT = 0 := hf
  omega

theorem content_putAll {l : List UInt8} (h : l.length ≤ q.LEFT) :
    (q.putAll l).content = q.content ++ l := by
  induction l generalizing q with
  | nil => exact (List.append_nil _).symm
  | cons c l ih =>
    have hroom := not_full_of_left h
    have hleft := LEFT_PUTCH hroom c
    rw [List.length_cons] at h
    rw [putAll_cons, ih (by omega), content_PUTCH hroom, List.append_assoc]
    rfl

end Linux011.Tty.TtyQueue
