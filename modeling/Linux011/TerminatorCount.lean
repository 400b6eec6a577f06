import Linux011.TtySteps
import Mathlib

set_option autoImplicit false

/-!
# The count of finished lines

`tty->secondary.data` against the newlines and EOF characters that are queued, over runs in which the
settings change, and with the characters whose echo is still under way.
-/
namespace Linux011.Tty
open TtyQueue State

/-- A newline or the current EOF character. -/
def Termios.marks (t : Termios) (c : UInt8) : Bool := c == LF || c == t.cc VEOF

variable (P : Termios → UInt8 → Bool) (ct : CType)

def State.marked (s : State) : ℕ := s.secondary.content.countP (P s.termios)

/-- A character that is counted and not yet in the queue. -/
def Frame.counted (t : Termios) : Frame → Bool
  | .store c => t.ends c
  | _ => false

def State.underWay (s : State) : ℕ := s.stack.countP (Frame.counted s.termios)

def Balanced (s : State) : Prop := s.secondary.data = UInt32.ofNat (s.marked P + s.underWay)

/-- A character is stored in a free place, and is a mark just if it was counted. A character taken
    back is still the last one, and no mark. -/
def State.keeps (s : State) : Frame → Prop
  | .store c => ¬ s.secondary.FULL ∧ P s.termios c = s.termios.ends c
  | .erase _ => ¬ s.secondary.EMPTY ∧ P s.termios s.secondary.LAST = false
  | _ => True

/-- The steps that keep the balance. The character that `tty_read` has seen is still there when it is
    fetched, and is a mark just if it is counted; new settings leave the number of marks in the
    queue. -/
def Keeps (s : State) : Act → Prop
  | .run => ∀ f ∈ s.stack.head?, s.keeps P f
  | .readOn _ => ∀ r ∈ s.reader, r.point = .get → ¬ s.secondary.EMPTY ∧
    P s.termios s.secondary.front = s.termios.ends s.secondary.front
  | .setTermios t _ => s.secondary.content.countP (P t) = s.marked P
  | .setTermio t _ => s.secondary.content.countP (P (s.termios.set_termio t)) = s.marked P
  | _ => True

instance (s : State) : (f : Frame) → Decidable (s.keeps P f)
  | .store _ => inferInstanceAs (Decidable (_ ∧ _))
  | .erase _ => inferInstanceAs (Decidable (_ ∧ _))
  | .cook => .isTrue trivial
  | .take => .isTrue trivial
  | .kill => .isTrue trivial
  | .conWrite _ => .isTrue trivial

instance (s : State) : (a : Act) → Decidable (Keeps P s a)
  | .run => inferInstanceAs (Decidable (∀ f ∈ s.stack.head?, s.keeps P f))
  | .readOn _ => inferInstanceAs (Decidable (∀ r ∈ s.reader, r.point = .get → _ ∧ _ = _))
  | .setTermios _ _ => inferInstanceAs (Decidable (_ = _))
  | .setTermio _ _ => inferInstanceAs (Decidable (_ = _))
  | .interrupt _ => .isTrue trivial
  | .drain => .isTrue trivial
  | .read _ => .isTrue trivial
  | .write _ => .isTrue trivial
  | .writeOn _ => .isTrue trivial

variable {P ct} {s s' : State}

theorem Balanced.congr (h : Balanced P s) (hq : s'.secondary = s.secondary)
    (ht : s'.termios = s.termios) (hu : s'.underWay = s.underWay) : Balanced P s' := by
  unfold Balanced State.marked at h ⊢
  rw [hq, ht, hu, h]

/-! ### The stack -/

theorem underWay_push (f : Frame) :
    (s.push f).underWay = s.underWay + if f.counted s.termios then 1 else 0 :=
  List.countP_cons

theorem underWay_echo (l : List UInt8) (next : Frame) :
    (s.echo l next).underWay = s.underWay + if next.counted s.termios then 1 else 0 := by
  unfold State.underWay
  rw [echo_termios]
  obtain h | ⟨nr, h⟩ := s.echo_stack l next
  · rw [h, List.countP_cons]
  · rw [h, List.countP_cons, List.countP_cons]
    rfl

/-- An echo before a character is taken back. -/
theorem Balanced.rubout (h : Balanced P s) (l : List UInt8) (again : Bool) :
    Balanced P (s.echo l (.erase again)) :=
  h.congr (echo_secondary s l _) (echo_termios s l _) (underWay_echo l _)

theorem Balanced.push (h : Balanced P s) {f : Frame} (hf : f.counted s.termios = false) :
    Balanced P (s.push f) := by
  refine h.congr rfl rfl ?_
  rw [underWay_push, hf]
  rfl

/-- A character is counted and goes under way. -/
theorem Balanced.char (h : Balanced P s) (c : UInt8) (l : List UInt8) :
    Balanced P ((s.count c).echo l (.store c)) := by
  unfold Balanced at h ⊢
  rw [underWay_echo, echo_secondary]
  unfold State.marked
  rw [echo_secondary, echo_termios, count_termios]
  unfold State.count
  change _ = UInt32.ofNat (_ + (_ + if s.termios.ends c then 1 else 0))
  split
  · rw [← Nat.add_assoc]
    change s.secondary.data + 1 = UInt32.ofNat (s.marked P + s.underWay + 1)
    rw [h]
    exact (UInt32.ofNat_add _ 1).symm
  · exact h

/-! ### `copy_to_cooked` and `con_write` -/

theorem Balanced.received (h : Balanced P s) (c : UInt8) : Balanced P (s.received ct c) := by
  unfold State.received
  split
  · exact h
  · exact h.push rfl
  · split
    · exact h
    · exact h.rubout _ false
  · exact h
  · exact h
  · exact h
  · exact h
  · exact h.char _ _

/-- A frame that holds no character comes off the stack. -/
theorem underWay_pop {f : Frame} {below : List Frame} (hs : s.stack = f :: below)
    (hf : f.counted s.termios = false) : { s with stack := below }.underWay = s.underWay := by
  unfold State.underWay
  rw [hs, List.countP_cons, hf]
  rfl

theorem Balanced.pop (h : Balanced P s) {f : Frame} {below : List Frame}
    (hs : s.stack = f :: below) (hf : f.counted s.termios = false) :
    Balanced P { s with stack := below } :=
  h.congr rfl rfl (underWay_pop hs hf)

theorem Balanced.cook (h : Balanced P s) {below : List Frame} (hs : s.stack = .cook :: below) :
    Balanced P (s.cook below) := by
  unfold State.cook
  split
  · exact h.pop hs rfl
  · exact h.push rfl

theorem Balanced.take (h : Balanced P s) {below : List Frame} (hs : s.stack = .take :: below) :
    Balanced P (s.take ct below) := by
  have hgetch : Balanced P { s with readQ := s.readQ.GETCH, stack := below } :=
    h.congr rfl rfl (underWay_pop hs rfl)
  exact hgetch.received _

theorem Balanced.kill (h : Balanced P s) {below : List Frame} (hs : s.stack = .kill :: below) :
    Balanced P (s.kill below) := by
  unfold State.kill
  split
  · exact h.pop hs rfl
  · exact (h.pop hs rfl).rubout _ true

theorem Balanced.erase (h : Balanced P s) {again : Bool} {below : List Frame}
    (hs : s.stack = .erase again :: below) (hlast : ¬ s.secondary.EMPTY)
    (hmark : P s.termios s.secondary.LAST = false) : Balanced P (s.erase again below) := by
  have hcontent := content_DEC hlast
  have hmarked : (s.erase again below).marked P = s.marked P := by
    unfold State.marked
    rw [hcontent, List.countP_append, List.countP_singleton, hmark]
    rfl
  have hunder : (s.erase again below).underWay = s.underWay := by
    unfold State.underWay State.erase
    rw [hs]
    cases again <;> rfl
  unfold Balanced at h ⊢
  rw [hmarked, hunder, ← h]
  rfl

theorem Balanced.store (h : Balanced P s) {c : UInt8} {below : List Frame}
    (hs : s.stack = .store c :: below) (hroom : ¬ s.secondary.FULL)
    (hmark : P s.termios c = s.termios.ends c) : Balanced P (s.store c below) := by
  have hcontent := content_PUTCH hroom c
  have hmarked : (s.store c below).marked P = s.marked P + if s.termios.ends c then 1 else 0 := by
    unfold State.marked
    change List.countP (P s.termios) (s.secondary.PUTCH c).content = _
    rw [hcontent, List.countP_append, List.countP_singleton, hmark]
  have hunder : s.underWay = (s.store c below).underWay + if s.termios.ends c then 1 else 0 := by
    unfold State.underWay
    rw [hs, List.countP_cons]
    rfl
  unfold Balanced at h ⊢
  rw [hmarked, Nat.add_assoc, Nat.add_comm _ (s.store c below).underWay, ← hunder, ← h]
  rfl

theorem Balanced.respond (h : Balanced P s) : Balanced P s.respond := by
  unfold State.respond
  generalize RESPONSE = l
  obtain ⟨lost, heq, -⟩ := s.putRead_all l
  rw [heq]
  exact h.congr rfl rfl (underWay_push .cook)

theorem Balanced.conWrite (h : Balanced P s) {nr : ℕ} {below : List Frame}
    (hs : s.stack = .conWrite nr :: below) : Balanced P (s.conWrite nr below) := by
  unfold State.conWrite
  split
  · exact h.congr rfl rfl (underWay_pop hs rfl)
  · next n =>
    have hnext : Balanced P { s with
        stack := .conWrite n :: below,
        writeQ := s.writeQ.GETCH,
        shown := s.shown ++ [s.writeQ.front],
        screen := Console.putByte (s.termios.cc VERASE).toNat s.screen s.writeQ.front.toNat } := by
      refine h.congr rfl rfl ?_
      unfold State.underWay
      rw [hs]
      rfl
    simp only
    split
    · exact hnext.respond
    · exact hnext

theorem Balanced.run (h : Balanced P s) (hk : Keeps P s .run) : Balanced P (s.run ct) := by
  have hkeeps (f : Frame) (below : List Frame) (hs : s.stack = f :: below) : s.keeps P f :=
    hk f (by rw [hs]; rfl)
  unfold State.run
  split
  · exact h
  · next hs => exact h.cook hs
  · next hs => exact h.take hs
  · next hs => exact h.kill hs
  · next hs => exact h.erase hs (hkeeps _ _ hs).1 (hkeeps _ _ hs).2
  · next hs => exact h.store hs (hkeeps _ _ hs).1 (hkeeps _ _ hs).2
  · next hs => exact h.conWrite hs

/-! ### `tty_read` and `tty_write` -/

theorem Balanced.fetch (h : Balanced P s) (r : Reader) (hsome : ¬ s.secondary.EMPTY)
    (hmark : P s.termios s.secondary.front = s.termios.ends s.secondary.front) :
    Balanced P (s.fetch r) := by
  have hcontent := content_GETCH hsome
  have hmarked : s.marked P = s.secondary.GETCH.content.countP (P s.termios) +
      if s.termios.ends s.secondary.front then 1 else 0 := by
    unfold State.marked
    rw [hcontent, List.countP_cons, hmark]
  have hdata : (if s.termios.ends s.secondary.front then
      { s.secondary.GETCH with data := s.secondary.data - 1 } else s.secondary.GETCH).data =
      UInt32.ofNat (s.secondary.GETCH.content.countP (P s.termios) + s.underWay) := by
    unfold Balanced at h
    rw [hmarked] at h
    split
    · next hends =>
      rw [if_pos hends, Nat.add_right_comm] at h
      change s.secondary.data - 1 = _
      rw [h, UInt32.ofNat_add _ 1]
      exact add_sub_cancel_right _ _
    · next hends =>
      rw [if_neg hends] at h
      exact h
  have hqueue : (if s.termios.ends s.secondary.front then
      { s.secondary.GETCH with data := s.secondary.data - 1 } else s.secondary.GETCH).content =
      s.secondary.GETCH.content := by
    split <;> rfl
  have hnext : Balanced P { s with
      secondary := if s.termios.ends s.secondary.front then
        { s.secondary.GETCH with data := s.secondary.data - 1 } else s.secondary.GETCH } := by
    unfold Balanced State.marked
    rw [hqueue]
    exact hdata
  unfold State.fetch
  simp only
  split
  · exact hnext.congr rfl rfl rfl
  · exact hnext.congr rfl rfl rfl

theorem Balanced.readOn (h : Balanced P s) {r : Reader} {broken : Bool}
    (hget : r.point = .get → ¬ s.secondary.EMPTY ∧
      P s.termios s.secondary.front = s.termios.ends s.secondary.front) :
    Balanced P (s.readOn r broken) := by
  unfold State.readOn State.readOut
  cases hpoint : r.point with
  | outer =>
    simp only
    split_ifs
    · exact h.congr rfl rfl rfl
    · exact h
    · exact h.congr rfl rfl rfl
  | get => exact h.fetch r (hget hpoint).1 (hget hpoint).2
  | inner =>
    simp only
    split_ifs <;> exact h.congr rfl rfl rfl

theorem Balanced.writeOn (h : Balanced P s) (w : Writer) (signal : Bool) :
    Balanced P (s.writeOn ct w signal) := by
  unfold State.writeOn State.writePut State.write
  split
  · split_ifs <;> exact h.congr rfl rfl rfl
  · split_ifs <;> exact h.congr rfl rfl rfl
  · split
    · split
      · exact (h.congr rfl rfl rfl : Balanced P (s.setWriter { w with point := .flushed })).push rfl
      · exact h.congr rfl rfl rfl
    · exact h.congr rfl rfl rfl
  · split
    · exact h.congr rfl rfl rfl
    · split <;> exact h.congr rfl rfl rfl
  · exact h.congr rfl rfl rfl

theorem Balanced.set (h : Balanced P s) (hs : s.stack = []) {t : Termios} {flushed : Bool}
    (hmarks : s.secondary.content.countP (P t) = s.marked P) : Balanced P (s.set t flushed) := by
  have hunder : (s.set t flushed).underWay = s.underWay := by
    unfold State.underWay State.set
    rw [hs]
    rfl
  have hmarked : (s.set t flushed).marked P = s.marked P := hmarks
  unfold Balanced at h ⊢
  rw [hmarked, hunder, ← h]
  rfl

theorem Balanced.step (h : Balanced P s) {a : Act} (hk : Keeps P s a) (hs : step ct s a = some s') :
    Balanced P s' := by
  unfold Tty.step at hs
  cases a with
  | run =>
    simp only at hs
    split at hs
    · cases hs
    · cases hs
      exact h.run hk
  | interrupt l =>
    cases hs
    split
    · obtain ⟨lost, heq, -⟩ := s.putRead_all l
      rw [heq]
      exact (h.congr rfl rfl rfl : Balanced P { s with readQ := s.readQ.putAll l, lost := lost }).push
        rfl
    · exact h.push rfl
  | drain =>
    simp only at hs
    split at hs
    · cases hs
    · cases hs
      exact h.congr rfl rfl rfl
  | read nr =>
    simp only at hs
    split at hs
    · cases hs
      exact h.congr rfl rfl rfl
    · cases hs
  | readOn broken =>
    simp only at hs
    split at hs
    · obtain ⟨r, hr, rfl⟩ := Option.map_eq_some_iff.mp hs
      exact h.readOn (hk r hr)
    · cases hs
  | write buf =>
    simp only at hs
    split at hs
    · cases hs
      exact h.congr rfl rfl rfl
    · cases hs
  | writeOn signal =>
    simp only at hs
    split at hs
    · obtain ⟨w, hw, rfl⟩ := Option.map_eq_some_iff.mp hs
      exact h.writeOn w signal
    · cases hs
  | setTermios t flushed =>
    simp only at hs
    split at hs
    · next hstack =>
      cases hs
      exact h.set hstack hk
    · cases hs
  | setTermio t flushed =>
    simp only at hs
    split at hs
    · next hstack =>
      cases hs
      exact h.set hstack hk
    · cases hs

/-- Whenever no call is under way, `data` is the number of newlines and EOF characters in the
    queue. -/
def State.Counted (s : State) : Prop :=
  s.stack = [] → s.secondary.data.toNat = s.marked Termios.marks

instance (s : State) : Decidable s.Counted := inferInstanceAs (Decidable (_ → _))

/-- Characters are typed, and all calls come to their end in `n` steps. -/
def typed (l : List UInt8) (n : ℕ) : List Act := .interrupt l :: List.replicate n .run

end Linux011.Tty
