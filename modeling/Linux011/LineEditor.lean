import Linux011.TerminatorCount
import Mathlib

set_option autoImplicit false

/-!
# Line editing (copy_to_cooked of kernel/chr_drv/tty_io.c)

A call of `copy_to_cooked` has a character in hand from the test before `GETCH` to `PUTCH`, or to
`DEC`. Between them comes the echo, and with it whatever `con_write` does.
-/
namespace Linux011.Tty
open TtyQueue State

/-! ### The editor -/

namespace Editor

variable (t : Termios)

/-- What is received for a character; `none` if it is dropped. -/
def mapped (c : UInt8) : Option UInt8 :=
  if c = CR then
    if flag t.iflag ICRNL then some LF else if flag t.iflag IGNCR then none else some CR
  else if c = LF ∧ flag t.iflag INLCR then some CR
  else some c

/-- The characters that a line is not taken back across. -/
def ends (c : UInt8) : Bool := c = LF ∨ c = t.cc VEOF

def eraseLast (line : List UInt8) : List UInt8 :=
  match line.getLast? with
  | none => line
  | some c => if ends t c then line else line.dropLast

def killLine (line : List UInt8) : List UInt8 := line.rdropWhile fun c => !ends t c

def signals (c : UInt8) : Prop := flag t.lflag ISIG ∧ (c = t.cc VINTR ∨ c = t.cc VQUIT)

instance (c : UInt8) : Decidable (signals t c) := inferInstanceAs (Decidable (_ ∧ _))

def typeChar (line : List UInt8) (c : UInt8) : List UInt8 :=
  if c = t.cc VKILL then killLine t line
  else if c = t.cc VERASE then eraseLast t line
  else if c = t.cc VSTOP ∨ c = t.cc VSTART ∨ signals t c then line
  else line ++ [c]

/-- The line after some characters have been received. -/
def edit (line received : List UInt8) : List UInt8 :=
  received.foldl (fun line c => ((mapped t c).map (typeChar t line)).getD line) line

end Editor

/-- `ICANON` with characters that the comparisons of `copy_to_cooked` can find. -/
structure Termios.Edits (t : Termios) : Prop where
  canonical : flag t.lflag ICANON = true
  letters : flag t.iflag IUCLC = false
  kill : t.cc VKILL < 128
  erase : t.cc VERASE < 128
  eof : t.cc VEOF < 128
  stop : t.cc VSTOP < 128
  start : t.cc VSTART < 128
  intr : t.cc VINTR < 128
  quit : t.cc VQUIT < 128

/-! ### Runs -/

/-- The characters that a step puts into `read_q`. -/
def arrivals (s : State) : Act → List UInt8
  | .interrupt l => if l.length ≤ s.readQ.LEFT then l else []
  | .run => match s.stack with
    | .conWrite (_ + 1) :: _ => if s.asks then RESPONSE else []
    | _ => []
  | _ => []

/-- What has been received in a run. -/
def received (ct : CType) (s : State) : List Act → List UInt8
  | [] => []
  | a :: l => arrivals s a ++ ((step ct s a).map fun s' => received ct s' l).getD []

/-- A call of `copy_to_cooked` that has a character in hand, or is about to take one. -/
def Frame.inHand : Frame → Bool
  | .take => true
  | .kill => true
  | .erase _ => true
  | .store _ => true
  | _ => false

def State.hand (s : State) : List Frame := s.stack.filter Frame.inHand

/-- The next step finds a character in `read_q`, and goes on to take it. -/
def Takes (s : State) (a : Act) : Prop :=
  a = .run ∧ s.stack.head? = some .cook ∧ ¬s.readQ.EMPTY ∧ ¬s.secondary.FULL

/-- A step that neither reads nor changes the settings, and does not lose an answer. -/
def Meanwhile (s : State) : Act → Prop
  | .run => (arrivals s .run).length ≤ s.readQ.LEFT
  | .read _ => False
  | .readOn _ => False
  | .setTermios _ _ => False
  | .setTermio _ _ => False
  | _ => True

/-- No call takes a character before the one in hand is stored. -/
def InOrder (s : State) (a : Act) : Prop := Takes s a → s.hand = []

/-- No reads, no new settings, no character taken out of order. -/
def Regular (s : State) (a : Act) : Prop := Meanwhile s a ∧ InOrder s a

/-! ### What is still to be done -/

section Pending

variable {t : Termios}

/-- What a call does with the character that it has in hand. -/
def Frame.effect (t : Termios) (line : List UInt8) : Frame → List UInt8
  | .kill => Editor.killLine t line
  | .erase again => if again then Editor.killLine t line.dropLast else line.dropLast
  | .store c => line ++ [c]
  | _ => line

/-- There is something to take, to take back, or room to store. -/
def Frame.Fits (line waiting : List UInt8) : Frame → Prop
  | .take => waiting ≠ [] ∧ line.length < 1023
  | .erase _ => line ≠ []
  | .store _ => line.length < 1023
  | _ => True

theorem Frame.Fits.arrive {line waiting : List UInt8} {f : Frame} (h : f.Fits line waiting)
    (l : List UInt8) : f.Fits line (waiting ++ l) := by
  cases f with
  | take => exact ⟨List.append_ne_nil_of_left_ne_nil h.1 l, h.2⟩
  | erase again => exact h
  | store c => exact h
  | _ => trivial

def Key.effect (t : Termios) (line : List UInt8) : Key → List UInt8
  | .kill => Editor.killLine t line
  | .erase => Editor.eraseLast t line
  | .char c => line ++ [c]
  | _ => line

theorem is_eq {k : Fin 17} (h : t.cc k < 128) (c : UInt8) : t.is k c = decide (c = t.cc k) := by
  unfold Termios.is
  by_cases hc : c = t.cc k
  · rw [hc]
    simp [h]
  · simp [hc]

theorem ends_eq (h : t.Edits) (c : UInt8) : t.ends c = Editor.ends t c := by
  unfold Termios.ends Editor.ends
  rw [is_eq h.eof, Bool.decide_or]
  congr 1

theorem mapIn_eq (ct : CType) (h : t.Edits) (c : UInt8) : mapIn ct t c = Editor.mapped t c := by
  unfold mapIn Editor.mapped
  simp only [h.letters, Bool.false_eq_true, if_false, Option.map_id']

theorem key_effect (ct : CType) (h : t.Edits) (line : List UInt8) (c : UInt8) :
    (key ct t c).effect t line = Editor.edit t line [c] := by
  unfold key Editor.edit
  rw [mapIn_eq ct h, List.foldl_cons, List.foldl_nil]
  cases Editor.mapped t c with
  | none => rfl
  | some c =>
    simp only [Option.map_some, Option.getD_some, is_eq h.kill, is_eq h.erase, is_eq h.stop,
      is_eq h.start, is_eq h.intr, is_eq h.quit, h.canonical, true_and, decide_eq_true_eq]
    unfold Editor.typeChar Editor.signals
    split_ifs <;> grind [Key.effect]

theorem edit_append (line x y : List UInt8) :
    Editor.edit t line (x ++ y) = Editor.edit t (Editor.edit t line x) y :=
  List.foldl_append

theorem killLine_ends {line : List UInt8} {c : UInt8} (hc : Editor.ends t c = true) :
    Editor.killLine t (line ++ [c]) = line ++ [c] := by
  rw [Editor.killLine, List.rdropWhile_concat, hc]
  rfl

theorem killLine_other {line : List UInt8} {c : UInt8} (hc : Editor.ends t c = false) :
    Editor.killLine t (line ++ [c]) = Editor.killLine t line := by
  rw [Editor.killLine, List.rdropWhile_concat, hc]
  rfl

variable {s : State}

theorem content_concat (h : ¬s.secondary.EMPTY) :
    s.secondary.content = s.secondary.content.dropLast ++ [s.secondary.LAST] := by
  rw [content_DEC h, List.dropLast_concat]

/-- At the start of a line nothing is taken back. -/
theorem lineStart_effect (ht : s.termios.Edits) (h : s.lineStart) :
    Editor.killLine s.termios s.secondary.content = s.secondary.content ∧
      Editor.eraseLast s.termios s.secondary.content = s.secondary.content := by
  by_cases hempty : s.secondary.EMPTY
  · rw [(content_eq_nil _).2 hempty]
    exact ⟨rfl, rfl⟩
  · have hends := h.resolve_left hempty
    rw [ends_eq ht] at hends
    rw [content_concat hempty]
    refine ⟨killLine_ends hends, ?_⟩
    simp [Editor.eraseLast, hends]

/-- Within a line the last character is taken back. -/
theorem within_effect (ht : s.termios.Edits) (h : ¬s.lineStart) :
    s.secondary.content ≠ [] ∧
      Editor.killLine s.termios s.secondary.content =
        Editor.killLine s.termios s.secondary.content.dropLast ∧
      Editor.eraseLast s.termios s.secondary.content = s.secondary.content.dropLast := by
  obtain ⟨hempty, hends⟩ := not_or.1 h
  rw [ends_eq ht, Bool.not_eq_true] at hends
  have hconcat := content_concat hempty
  refine ⟨fun hnil => hempty ((content_eq_nil _).1 hnil), ?_, ?_⟩
  · rw [hconcat, killLine_other hends, List.dropLast_concat]
  · rw [hconcat]
    simp [Editor.eraseLast, hends]

end Pending

/-! ### What a step keeps -/

section Steps

variable {ct : CType} {t : Termios} {total : List UInt8} {s s' : State}

/-- When the character in hand and those in `read_q` have been seen to, the line is `total`. -/
structure Pending (t : Termios) (total : List UInt8) (s : State) : Prop where
  termios : s.termios = t
  line : s.hand = [] ∧ Editor.edit t s.secondary.content s.readQ.content = total ∨
    ∃ f, s.hand = [f] ∧ f.Fits s.secondary.content s.readQ.content ∧
      Editor.edit t (f.effect t s.secondary.content) s.readQ.content = total

theorem Pending.same (h : Pending t total s) (hterm : s'.termios = s.termios)
    (hhand : s'.hand = s.hand) (hline : s'.secondary.content = s.secondary.content)
    (hread : s'.readQ = s.readQ) : Pending t total s' := by
  refine ⟨hterm.trans h.termios, ?_⟩
  rw [hhand, hline, hread]
  exact h.line

@[simp] theorem echo_readQ (s : State) (l : List UInt8) (next : Frame) :
    (s.echo l next).readQ = s.readQ := by
  obtain ⟨h, -⟩ | ⟨-, lost, -, h⟩ := s.echo_cases l next
  · rw [h]
    rfl
  · rw [h]

theorem echo_hand (s : State) (l : List UInt8) {next : Frame} (h : next.inHand = true) :
    (s.echo l next).hand = next :: s.hand := by
  unfold hand
  obtain hstack | ⟨nr, hstack⟩ := s.echo_stack l next
  · rw [hstack, List.filter_cons_of_pos h]
  · rw [hstack, List.filter_cons_of_neg (by exact Bool.false_ne_true), List.filter_cons_of_pos h]

theorem count_content (s : State) (c : UInt8) :
    (s.count c).secondary.content = s.secondary.content := by
  unfold count
  split <;> rfl

theorem count_hand (s : State) (c : UInt8) : (s.count c).hand = s.hand := by
  unfold hand
  rw [count_stack]

theorem count_readQ (s : State) (c : UInt8) : (s.count c).readQ = s.readQ := by
  unfold count
  split <;> rfl

/-- An echo starts: the character is in hand. -/
theorem Pending.echo {l : List UInt8} {next : Frame} (hterm : s.termios = t) (hhand : s.hand = [])
    (hin : next.inHand = true) (hfits : next.Fits s.secondary.content s.readQ.content)
    (hline : Editor.edit t (next.effect t s.secondary.content) s.readQ.content = total) :
    Pending t total (s.echo l next) := by
  refine ⟨(s.echo_termios l next).trans hterm, .inr ⟨next, ?_, ?_, ?_⟩⟩
  · rw [echo_hand s l hin, hhand]
  · rw [echo_secondary, echo_readQ]
    exact hfits
  · rw [echo_secondary, echo_readQ]
    exact hline

theorem Pending.received (ht : t.Edits) (hterm : s.termios = t) (hhand : s.hand = [])
    (hroom : s.secondary.content.length < 1023) (c : UInt8)
    (hline : Editor.edit t s.secondary.content (c :: s.readQ.content) = total) :
    Pending t total (s.received ct c) := by
  have hkey : Editor.edit t ((key ct t c).effect t s.secondary.content) s.readQ.content = total := by
    rw [key_effect ct ht, ← edit_append]
    exact hline
  subst hterm
  unfold State.received
  cases hk : key ct s.termios c with
  | dropped =>
    rw [hk] at hkey
    exact ⟨rfl, .inl ⟨hhand, hkey⟩⟩
  | kill =>
    rw [hk] at hkey
    refine ⟨rfl, .inr ⟨.kill, ?_, trivial, hkey⟩⟩
    exact congrArg (List.cons Frame.kill) hhand
  | erase =>
    rw [hk] at hkey
    by_cases hstart : s.lineStart
    · rw [Key.effect, (lineStart_effect ht hstart).2] at hkey
      simp only [if_pos hstart]
      exact ⟨rfl, .inl ⟨hhand, hkey⟩⟩
    · obtain ⟨hne, -, herase⟩ := within_effect ht hstart
      rw [Key.effect, herase] at hkey
      simp only [if_neg hstart]
      exact .echo rfl hhand rfl hne hkey
  | stop =>
    rw [hk] at hkey
    exact ⟨rfl, .inl ⟨hhand, hkey⟩⟩
  | start =>
    rw [hk] at hkey
    exact ⟨rfl, .inl ⟨hhand, hkey⟩⟩
  | intr =>
    rw [hk] at hkey
    exact ⟨rfl, .inl ⟨hhand, hkey⟩⟩
  | quit =>
    rw [hk] at hkey
    exact ⟨rfl, .inl ⟨hhand, hkey⟩⟩
  | char c =>
    rw [hk] at hkey
    refine .echo (count_termios s c) ((count_hand s c).trans hhand) rfl ?_ ?_
    · change (s.count c).secondary.content.length < 1023
      rw [count_content]
      exact hroom
    · rw [count_content, count_readQ]
      exact hkey

theorem hand_cons {f : Frame} {below : List Frame} (hs : s.stack = f :: below)
    (hf : f.inHand = false) : below.filter Frame.inHand = s.hand := by
  rw [hand, hs, List.filter_cons_of_neg (by rw [hf]; exact Bool.false_ne_true)]

/-- Only the call on top has a character in hand. -/
theorem Pending.top {f : Frame} {below : List Frame} (h : Pending t total s)
    (hs : s.stack = f :: below) (hf : f.inHand = true) :
    below.filter Frame.inHand = [] ∧ f.Fits s.secondary.content s.readQ.content ∧
      Editor.edit t (f.effect t s.secondary.content) s.readQ.content = total := by
  have hhand : s.hand = f :: below.filter Frame.inHand := by
    rw [hand, hs, List.filter_cons_of_pos hf]
  obtain ⟨hnil, -⟩ | ⟨g, hg, hfits, hline⟩ := h.line
  · rw [hhand] at hnil
    cases hnil
  · rw [hhand] at hg
    obtain ⟨rfl, hbelow⟩ := List.cons.inj hg
    exact ⟨hbelow, hfits, hline⟩

/-- The character to be taken is the first of those that wait. -/
theorem Pending.cook {below : List Frame} (h : Pending t total s) (hs : s.stack = .cook :: below)
    (horder : InOrder s .run) : Pending t total (s.cook below) := by
  unfold State.cook
  split
  · exact h.same rfl (hand_cons hs rfl) rfl rfl
  · next hgo =>
    obtain ⟨hempty, hfull⟩ := not_or.1 hgo
    have hhand := horder ⟨rfl, by rw [hs]; rfl, hempty, hfull⟩
    have hroom : s.secondary.content.length < 1023 := by
      rw [FULL_iff] at hfull
      have hle := s.secondary.CHARS_le
      rw [content_length]
      omega
    obtain ⟨-, hline⟩ | ⟨f, hf, -⟩ := h.line
    · refine ⟨h.termios, .inr ⟨.take, ?_, ⟨fun hnil => hempty ((content_eq_nil _).1 hnil), hroom⟩,
        hline⟩⟩
      exact congrArg (List.cons Frame.take) hhand
    · rw [hhand] at hf
      cases hf

theorem Pending.take {below : List Frame} (ht : t.Edits) (h : Pending t total s)
    (hs : s.stack = .take :: below) : Pending t total (s.take ct below) := by
  obtain ⟨hbelow, ⟨hwaits, hroom⟩, hline⟩ := h.top hs rfl
  refine Pending.received (s := { s with readQ := s.readQ.GETCH, stack := below }) ht h.termios
    hbelow hroom _ ?_
  rw [← content_GETCH fun hempty => hwaits ((content_eq_nil _).2 hempty)]
  exact hline

theorem Pending.kill {below : List Frame} (ht : t.Edits) (h : Pending t total s)
    (hs : s.stack = .kill :: below) : Pending t total (s.kill below) := by
  obtain ⟨hbelow, -, hline⟩ := h.top hs rfl
  obtain ⟨rfl, -⟩ := h
  unfold State.kill
  by_cases hstart : s.lineStart
  · rw [if_pos hstart]
    rw [Frame.effect, (lineStart_effect ht hstart).1] at hline
    exact ⟨rfl, .inl ⟨hbelow, hline⟩⟩
  · rw [if_neg hstart]
    obtain ⟨hne, hkill, -⟩ := within_effect ht hstart
    rw [Frame.effect, hkill] at hline
    exact .echo rfl hbelow rfl hne hline

theorem Pending.erase {again : Bool} {below : List Frame} (h : Pending t total s)
    (hs : s.stack = .erase again :: below) : Pending t total (s.erase again below) := by
  obtain ⟨hbelow, hne, hline⟩ := h.top hs rfl
  have hdec : s.secondary.DEC.content = s.secondary.content.dropLast := by
    have hconcat := content_DEC fun hempty => hne ((content_eq_nil _).2 hempty)
    rw [hconcat, List.dropLast_concat]
  unfold State.erase
  cases again with
  | true =>
    refine ⟨h.termios, .inr ⟨.kill, ?_, trivial, ?_⟩⟩
    · exact congrArg (List.cons Frame.kill) hbelow
    · change Editor.edit t (Editor.killLine t s.secondary.DEC.content) s.readQ.content = total
      rw [hdec]
      exact hline
  | false =>
    refine ⟨h.termios, .inl ⟨hbelow, ?_⟩⟩
    change Editor.edit t s.secondary.DEC.content s.readQ.content = total
    rw [hdec]
    exact hline

theorem Pending.store {c : UInt8} {below : List Frame} (h : Pending t total s)
    (hs : s.stack = .store c :: below) : Pending t total (s.store c below) := by
  obtain ⟨hbelow, hroom, hline⟩ := h.top hs rfl
  have hput : (s.secondary.PUTCH c).content = s.secondary.content ++ [c] := by
    refine content_PUTCH (fun hfull => ?_) c
    have hlen := (FULL_iff _).1 hfull
    rw [← content_length] at hlen
    exact absurd hroom (by change ¬_ < 1023; omega)
  refine ⟨h.termios, .inl ⟨hbelow, ?_⟩⟩
  change Editor.edit t (s.secondary.PUTCH c).content s.readQ.content = total
  rw [hput]
  exact hline

/-- Characters come in behind those that wait. -/
theorem Pending.arrive {l : List UInt8} (h : Pending t total s) (hterm : s'.termios = s.termios)
    (hhand : s'.hand = s.hand) (hline : s'.secondary = s.secondary)
    (hread : s'.readQ.content = s.readQ.content ++ l) :
    Pending t (Editor.edit t total l) s' := by
  refine ⟨hterm.trans h.termios, ?_⟩
  rw [hhand, hline, hread]
  obtain ⟨hnil, htotal⟩ | ⟨f, hf, hfits, htotal⟩ := h.line
  · refine .inl ⟨hnil, ?_⟩
    rw [edit_append, htotal]
  · refine .inr ⟨f, hf, hfits.arrive l, ?_⟩
    rw [edit_append, htotal]

/-- An answer of the screen, in a queue with room for it. -/
theorem Pending.respond (h : Pending t total s) (hfits : RESPONSE.length ≤ s.readQ.LEFT) :
    Pending t (Editor.edit t total RESPONSE) s.respond := by
  unfold State.respond
  generalize RESPONSE = l at *
  obtain ⟨lost, heq, -⟩ := putRead_all s l
  rw [heq]
  exact h.arrive rfl rfl rfl (content_putAll hfits)

theorem Pending.conWrite {nr : ℕ} {below : List Frame} (h : Pending t total s)
    (hs : s.stack = .conWrite nr :: below) (hfits : (arrivals s .run).length ≤ s.readQ.LEFT) :
    Pending t (Editor.edit t total (arrivals s .run)) (s.conWrite nr below) := by
  have hbelow : below.filter Frame.inHand = s.hand := hand_cons hs rfl
  unfold arrivals at hfits ⊢
  rw [hs] at hfits ⊢
  unfold State.conWrite
  cases nr with
  | zero => exact h.same rfl hbelow rfl rfl
  | succ nr =>
    by_cases hasks : s.asks
    · simp only [if_pos hasks] at hfits ⊢
      refine Pending.respond ?_ hfits
      exact h.same rfl hbelow rfl rfl
    · simp only [if_neg hasks]
      exact h.same rfl hbelow rfl rfl

theorem arrivals_none {f : Frame} {below : List Frame} (hs : s.stack = f :: below)
    (hf : ∀ nr, f ≠ .conWrite nr) : arrivals s .run = [] := by
  unfold arrivals
  rw [hs]
  cases f with
  | conWrite nr => exact absurd rfl (hf nr)
  | _ => rfl

theorem Pending.run (ht : t.Edits) (h : Pending t total s)
    (hfits : (arrivals s .run).length ≤ s.readQ.LEFT) (horder : InOrder s .run) :
    Pending t (Editor.edit t total (arrivals s .run)) (s.run ct) := by
  unfold State.run
  split
  · next hs =>
    unfold arrivals
    rw [hs]
    exact h
  · next below hs =>
    rw [arrivals_none hs nofun]
    exact h.cook hs horder
  · next below hs =>
    rw [arrivals_none hs nofun]
    exact h.take ht hs
  · next below hs =>
    rw [arrivals_none hs nofun]
    exact h.kill ht hs
  · next again below hs =>
    rw [arrivals_none hs nofun]
    exact h.erase hs
  · next c below hs =>
    rw [arrivals_none hs nofun]
    exact h.store hs
  · next nr below hs => exact h.conWrite hs hfits

theorem Pending.interrupt (h : Pending t total s) (l : List UInt8) :
    Pending t (Editor.edit t total (arrivals s (.interrupt l)))
      ((if l.length ≤ s.readQ.LEFT then l.foldl putRead s else s).push .cook) := by
  by_cases hl : l.length ≤ s.readQ.LEFT
  · obtain ⟨lost, heq, -⟩ := putRead_all s l
    rw [if_pos hl, heq, arrivals, if_pos hl]
    exact h.arrive rfl rfl rfl (content_putAll hl)
  · rw [if_neg hl, arrivals, if_neg hl]
    exact h.same rfl rfl rfl rfl

theorem Pending.write (h : Pending t total s) : Pending t total s.write := by
  unfold State.write
  split
  · exact h.same rfl rfl rfl rfl
  · exact h

theorem Pending.writeOn (h : Pending t total s) (w : Writer) (signal : Bool) :
    Pending t total (s.writeOn ct w signal) := by
  unfold State.writeOn
  split
  · split_ifs <;> exact h.same rfl rfl rfl rfl
  · split_ifs
    · exact h.same rfl rfl rfl rfl
    · exact h
    · exact h.same rfl rfl rfl rfl
  · split_ifs
    · refine Pending.write ?_
      exact h.same rfl rfl rfl rfl
    · exact h.same rfl rfl rfl rfl
  · unfold State.writePut
    split
    · exact h.same rfl rfl rfl rfl
    · split <;> exact h.same rfl rfl rfl rfl
  · exact h.same rfl rfl rfl rfl

theorem Pending.step {a : Act} (ht : t.Edits) (h : Pending t total s) (hmean : Meanwhile s a)
    (horder : InOrder s a) (hstep : step ct s a = some s') :
    Pending t (Editor.edit t total (arrivals s a)) s' := by
  cases a with
  | run =>
    simp only [Tty.step] at hstep
    split at hstep
    · cases hstep
    · cases hstep
      exact h.run ht hmean horder
  | interrupt l =>
    cases hstep
    exact h.interrupt l
  | drain =>
    simp only [Tty.step] at hstep
    split at hstep
    · cases hstep
    · cases hstep
      exact h.same rfl rfl rfl rfl
  | write buf =>
    simp only [Tty.step] at hstep
    split at hstep
    · cases hstep
      exact h.same rfl rfl rfl rfl
    · cases hstep
  | writeOn signal =>
    simp only [Tty.step] at hstep
    split at hstep
    · obtain ⟨w, -, rfl⟩ := Option.map_eq_some_iff.1 hstep
      exact h.writeOn w signal
    · cases hstep
  | read nr => exact hmean.elim
  | readOn broken => exact hmean.elim
  | setTermios t flushed => exact hmean.elim
  | setTermio t flushed => exact hmean.elim

theorem Pending.runs {l : List Act} (ht : t.Edits) (h : Pending t total s)
    (hl : EachStep ct Regular s l) (hs : runs ct s l = some s') :
    Pending t (Editor.edit t total (Tty.received ct s l)) s' := by
  induction l generalizing s total with
  | nil =>
    cases hs
    exact h
  | cons a l ih =>
    obtain ⟨s₁, hstep, hs⟩ := Option.bind_eq_some_iff.1 hs
    have hnext := ih (h.step ht hl.1.1 hl.1.2 hstep) (hl.2 s₁ hstep) hs
    rw [← edit_append] at hnext
    rw [Tty.received, hstep]
    exact hnext

/-! ### Nothing waits when no call is under way -/

/-- A call of `copy_to_cooked` sees to the characters that wait. -/
def State.Waits (s : State) : Prop := .cook ∈ s.stack ∨ s.readQ.EMPTY

theorem echo_mem {f next : Frame} (l : List UInt8) (h : f ∈ s.stack) :
    f ∈ (s.echo l next).stack := by
  obtain hstack | ⟨nr, hstack⟩ := s.echo_stack l next
  · rw [hstack]
    exact List.mem_cons_of_mem _ h
  · rw [hstack]
    exact List.mem_cons_of_mem _ (List.mem_cons_of_mem _ h)

theorem received_mem {f : Frame} (c : UInt8) (h : f ∈ s.stack) :
    f ∈ (s.received ct c).stack := by
  unfold State.received
  split
  · exact h
  · exact List.mem_cons_of_mem _ h
  · split
    · exact h
    · exact echo_mem _ h
  · exact h
  · exact h
  · exact h
  · exact h
  · exact echo_mem _ (by rw [count_stack]; exact h)

theorem State.Waits.run (h : s.Waits) (hroom : ¬s.secondary.FULL)
    (htake : ∀ below, s.stack = .take :: below → ¬s.readQ.EMPTY) : (s.run ct).Waits := by
  have hbelow : ∀ {f : Frame} {below : List Frame}, s.stack = f :: below → f ≠ .cook →
      .cook ∈ below ∨ s.readQ.EMPTY := by
    intro f below hs hf
    refine h.imp_left fun hmem => ?_
    rw [hs] at hmem
    exact (List.mem_cons.1 hmem).resolve_left hf.symm
  unfold State.run
  split
  · exact h
  · next below hs =>
    unfold State.cook
    split
    · next hstop => exact .inr (hstop.resolve_right hroom)
    · refine .inl (List.mem_cons_of_mem _ ?_)
      rw [hs]
      exact List.mem_cons_self
  · next below hs => exact .inl (received_mem _ ((hbelow hs nofun).resolve_right (htake below hs)))
  · next below hs =>
    unfold State.kill
    split
    · exact hbelow hs nofun
    · refine (hbelow hs nofun).imp (echo_mem _) fun hempty => ?_
      rw [echo_readQ]
      exact hempty
  · next again below hs =>
    refine (hbelow hs nofun).imp_left fun hmem => ?_
    change .cook ∈ (if again then Frame.kill :: below else below)
    split
    · exact List.mem_cons_of_mem _ hmem
    · exact hmem
  · next c below hs => exact hbelow hs nofun
  · next nr below hs =>
    unfold State.conWrite
    cases nr with
    | zero => exact hbelow hs nofun
    | succ nr =>
      simp only
      split
      · exact .inl List.mem_cons_self
      · exact (hbelow hs nofun).imp_left (List.mem_cons_of_mem _)

theorem State.Waits.write (h : s.Waits) : s.write.Waits := by
  unfold State.write
  split
  · exact h.imp_left (List.mem_cons_of_mem _)
  · exact h

theorem State.Waits.writeOn (h : s.Waits) (w : Writer) (signal : Bool) :
    (s.writeOn ct w signal).Waits := by
  unfold State.writeOn
  split
  · split_ifs <;> exact h
  · split_ifs <;> exact h
  · split_ifs
    · exact State.Waits.write (s := s.setWriter { w with point := .flushed }) h
    · exact h
  · unfold State.writePut
    split
    · exact h
    · split <;> exact h
  · exact h

theorem State.Waits.step {a : Act} (h : s.Waits) (hp : Pending t total s)
    (hroom : ¬s.secondary.FULL) (hmean : Meanwhile s a) (hstep : step ct s a = some s') :
    s'.Waits := by
  cases a with
  | run =>
    simp only [Tty.step] at hstep
    split at hstep
    · cases hstep
    · cases hstep
      exact h.run hroom fun below hs hempty =>
        (hp.top hs rfl).2.1.1 ((content_eq_nil _).2 hempty)
  | interrupt l =>
    cases hstep
    exact .inl List.mem_cons_self
  | drain =>
    simp only [Tty.step] at hstep
    split at hstep
    · cases hstep
    · cases hstep
      exact h
  | write buf =>
    simp only [Tty.step] at hstep
    split at hstep
    · cases hstep
      exact h
    · cases hstep
  | writeOn signal =>
    simp only [Tty.step] at hstep
    split at hstep
    · obtain ⟨w, -, rfl⟩ := Option.map_eq_some_iff.1 hstep
      exact h.writeOn w signal
    · cases hstep
  | read nr => exact hmean.elim
  | readOn broken => exact hmean.elim
  | setTermios t flushed => exact hmean.elim
  | setTermio t flushed => exact hmean.elim

/-! ### Whole runs -/

theorem State.Waits.runs {l : List Act} (ht : t.Edits) (h : s.Waits) (hp : Pending t total s)
    (hl : EachStep ct Regular s l) (hroom : Along ct (fun s => ¬s.secondary.FULL) s l)
    (hs : runs ct s l = some s') : s'.Waits := by
  induction l generalizing s total with
  | nil =>
    cases hs
    exact h
  | cons a l ih =>
    obtain ⟨s₁, hstep, hs⟩ := Option.bind_eq_some_iff.1 hs
    exact ih (h.step hp hroom.1 hl.1.1 hstep) (hp.step ht hl.1.1 hl.1.2 hstep) (hl.2 s₁ hstep)
      (hroom.2 s₁ hstep) hs

theorem Pending.start (ht : s.termios = t) (hhand : s.hand = []) :
    Pending t (Editor.edit t s.secondary.content s.readQ.content) s :=
  ⟨ht, .inl ⟨hhand, rfl⟩⟩

theorem Pending.finished (h : Pending t total s) (hhand : s.hand = []) (hread : s.readQ.EMPTY) :
    s.secondary.content = total := by
  obtain ⟨-, hline⟩ | ⟨f, hf, -⟩ := h.line
  · rw [(content_eq_nil _).2 hread] at hline
    exact hline
  · rw [hhand] at hf
    cases hf

theorem edited_when_idle {l : List Act} (ht : s.termios.Edits) (hhand : s.hand = []) (hwaits : s.Waits)
    (hl : EachStep ct Regular s l) (hroom : Along ct (fun s => ¬s.secondary.FULL) s l)
    (hs : runs ct s l = some s') (hidle : s'.stack = []) :
    s'.secondary.content =
      Editor.edit s.termios s.secondary.content (s.readQ.content ++ Tty.received ct s l) := by
  have hread : s'.readQ.EMPTY := by
    refine (hwaits.runs ht (.start rfl hhand) hl hroom hs).resolve_left fun hmem => ?_
    rw [hidle] at hmem
    cases hmem
  have hempty : s'.hand = [] := by
    rw [hand, hidle]
    rfl
  rw [edit_append]
  exact ((Pending.start rfl hhand).runs ht hl hs).finished hempty hread

end Steps

/-! ### A call comes to its end -/

section Ends

variable {ct : CType} {s s' s₁ : State} {below : List Frame}

/-- Some steps of the calls that are under way, in which nothing arrives. -/
def Comes (ct : CType) (s s' : State) : Prop :=
  ∃ n, runs ct s (List.replicate n .run) = some s' ∧
    Tty.received ct s (List.replicate n .run) = []

/-- Left to itself, the run stays regular. -/
def Undisturbed (ct : CType) (s : State) : Prop :=
  ∀ n, EachStep ct Regular s (List.replicate n .run) ∧
    Along ct (fun s => ¬s.secondary.FULL) s (List.replicate n .run)

theorem Comes.refl (s : State) : Comes ct s s := ⟨0, rfl, rfl⟩

theorem Comes.head (hstep : step ct s .run = some s₁) (hnone : arrivals s .run = [])
    (h : Comes ct s₁ s') : Comes ct s s' := by
  obtain ⟨n, hruns, hreceived⟩ := h
  refine ⟨n + 1, ?_, ?_⟩
  · rw [List.replicate_succ, runs, hstep]
    exact hruns
  · rw [List.replicate_succ, Tty.received, hstep, hnone]
    exact hreceived

theorem Comes.trans (h : Comes ct s s₁) (h' : Comes ct s₁ s') : Comes ct s s' := by
  obtain ⟨n, hruns, hreceived⟩ := h
  induction n generalizing s with
  | zero =>
    cases hruns
    exact h'
  | succ n ih =>
    rw [List.replicate_succ] at hruns hreceived
    obtain ⟨s₂, hstep, hruns⟩ := Option.bind_eq_some_iff.1 hruns
    rw [Tty.received, hstep] at hreceived
    obtain ⟨hnone, hreceived⟩ := List.append_eq_nil_iff.1 hreceived
    exact (ih hruns hreceived).head hstep hnone

theorem Undisturbed.room (h : Undisturbed ct s) : ¬s.secondary.FULL := (h 0).2

theorem Undisturbed.inOrder (h : Undisturbed ct s) : InOrder s .run := (h 1).1.1.2

theorem Undisturbed.next (h : Undisturbed ct s) (hstep : step ct s .run = some s₁) :
    Undisturbed ct s₁ :=
  fun n => ⟨(h (n + 1)).1.2 s₁ hstep, (h (n + 1)).2.2 s₁ hstep⟩

theorem Undisturbed.comes (h : Undisturbed ct s) (hc : Comes ct s s') : Undisturbed ct s' := by
  obtain ⟨n, hruns, -⟩ := hc
  induction n generalizing s with
  | zero =>
    cases hruns
    exact h
  | succ n ih =>
    obtain ⟨s₂, hstep, hruns⟩ := Option.bind_eq_some_iff.1 hruns
    exact ih (h.next hstep) hruns

variable (ct) in
theorem step_top {f : Frame} (hs : s.stack = f :: below) : step ct s .run = some (s.run ct) := by
  rw [step, if_neg (by rw [hs]; exact List.cons_ne_nil f below)]

/-- `con_write` within an echo is not asked for an answer: the answer would be taken at once. -/
theorem not_asks {nr : ℕ} (h : Undisturbed ct s) (hs : s.stack = .conWrite (nr + 1) :: below)
    (hin : below.filter Frame.inHand ≠ []) : ¬s.asks := by
  intro hasks
  have hfits : RESPONSE.length ≤ s.readQ.LEFT := by
    have hmean : (arrivals s .run).length ≤ s.readQ.LEFT := (h 1).1.1.1
    unfold arrivals at hmean
    simp only [hs, if_pos hasks] at hmean
    exact hmean
  have hnext := h.next (step_top ct hs)
  have hrun : s.run ct = s.conWrite (nr + 1) below := by
    unfold State.run
    rw [hs]
  rw [hrun] at hnext
  unfold State.conWrite at hnext
  simp only [if_pos hasks] at hnext
  unfold respond at hnext
  obtain ⟨lost, heq, -⟩ := putRead_all
    { s with
      stack := .conWrite nr :: below, writeQ := s.writeQ.GETCH, shown := s.shown ++ [s.writeQ.front],
      screen := Console.putByte (s.termios.cc VERASE).toNat s.screen s.writeQ.front.toNat } RESPONSE
  rw [heq] at hnext
  refine hin (hnext.inOrder ⟨rfl, rfl, ?_, hnext.room⟩)
  intro hempty
  have hcontent : (s.readQ.putAll RESPONSE).content = [] := (content_eq_nil _).2 hempty
  rw [content_putAll hfits] at hcontent
  exact absurd (List.append_eq_nil_iff.1 hcontent).2 (by decide)

theorem conWrite_comes (nr : ℕ) (h : Undisturbed ct s) (hs : s.stack = .conWrite nr :: below)
    (hin : below.filter Frame.inHand ≠ []) :
    ∃ s', Comes ct s s' ∧ s'.stack = below ∧ s'.secondary = s.secondary ∧ s'.readQ = s.readQ := by
  induction nr generalizing s with
  | zero =>
    have hstep := step_top ct hs
    have hrun : s.run ct = s.conWrite 0 below := by
      unfold State.run
      rw [hs]
    rw [hrun] at hstep
    refine ⟨_, Comes.head hstep ?_ (.refl _), rfl, rfl, rfl⟩
    unfold arrivals
    rw [hs]
  | succ nr ih =>
    have hasks := not_asks h hs hin
    have hstep := step_top ct hs
    have hrun : s.run ct = s.conWrite (nr + 1) below := by
      unfold State.run
      rw [hs]
    rw [hrun] at hstep
    have hnext := h.next hstep
    unfold State.conWrite at hstep hnext
    simp only [if_neg hasks] at hstep hnext
    obtain ⟨s', hcomes, hrest⟩ := ih hnext rfl
    refine ⟨s', hcomes.head hstep ?_, hrest⟩
    unfold arrivals
    simp only [hs, if_neg hasks]

theorem echo_comes {l : List UInt8} {next : Frame} (hin : next.inHand = true)
    (h : Undisturbed ct (s.echo l next)) :
    ∃ s', Comes ct (s.echo l next) s' ∧ s'.stack = next :: s.stack ∧ s'.secondary = s.secondary ∧
      s'.readQ = s.readQ := by
  obtain hstack | ⟨nr, hstack⟩ := s.echo_stack l next
  · exact ⟨_, .refl _, hstack, echo_secondary _ _ _, echo_readQ _ _ _⟩
  · have hne : (next :: s.stack).filter Frame.inHand ≠ [] := by
      rw [List.filter_cons_of_pos hin]
      exact List.cons_ne_nil _ _
    obtain ⟨s', hcomes, hs', hsecondary, hread⟩ := conWrite_comes nr h hstack hne
    exact ⟨s', hcomes, hs', hsecondary.trans (echo_secondary _ _ _), hread.trans (echo_readQ _ _ _)⟩

theorem kill_comes (n : ℕ) (h : Undisturbed ct s) (hs : s.stack = .kill :: below)
    (hn : s.secondary.CHARS = n) :
    ∃ s', Comes ct s s' ∧ s'.stack = below ∧ s'.readQ = s.readQ := by
  induction n using Nat.strong_induction_on generalizing s with
  | _ n ih =>
    have hstep := step_top ct hs
    have hrun : s.run ct = s.kill below := by
      unfold State.run
      rw [hs]
    rw [hrun] at hstep
    have hnext := h.next hstep
    unfold State.kill at hstep hnext
    by_cases hstart : s.lineStart
    · rw [if_pos hstart] at hstep
      exact ⟨_, Comes.head hstep (arrivals_none hs nofun) (.refl _), rfl, rfl⟩
    · rw [if_neg hstart] at hstep hnext
      obtain ⟨s₂, hcomes, hs₂, hsecondary, hread⟩ := echo_comes rfl hnext
      have hstep₂ := step_top ct hs₂
      have hrun₂ : s₂.run ct = s₂.erase true below := by
        unfold State.run
        rw [hs₂]
      rw [hrun₂] at hstep₂
      have hdec : s₂.secondary.DEC.CHARS + 1 = n := by
        rw [hsecondary, ← hn]
        exact CHARS_DEC (not_or.1 hstart).1
      obtain ⟨s', hcomes', hs', hread'⟩ := ih s₂.secondary.DEC.CHARS (by omega)
        ((hnext.comes hcomes).next hstep₂) rfl rfl
      refine ⟨s', ?_, hs', hread'.trans hread⟩
      exact (hcomes.trans (hcomes'.head hstep₂ (arrivals_none hs₂ nofun))).head hstep
        (arrivals_none hs nofun)

/-- After a turn of the loop `copy_to_cooked` is back at its test. -/
theorem received_comes (c : UInt8) (h : Undisturbed ct (s.received ct c)) :
    ∃ s', Comes ct (s.received ct c) s' ∧ s'.stack = s.stack ∧ s'.readQ = s.readQ := by
  unfold State.received at h ⊢
  cases hk : key ct s.termios c with
  | kill =>
    rw [hk] at h
    exact kill_comes _ h rfl rfl
  | erase =>
    rw [hk] at h
    by_cases hstart : s.lineStart
    · simp only [if_pos hstart]
      exact ⟨_, .refl _, rfl, rfl⟩
    · simp only [if_neg hstart] at h ⊢
      obtain ⟨s₂, hcomes, hs₂, -, hread⟩ := echo_comes rfl h
      have hstep := step_top ct hs₂
      have hrun : s₂.run ct = s₂.erase false s.stack := by
        unfold State.run
        rw [hs₂]
      rw [hrun] at hstep
      exact ⟨_, hcomes.trans ((Comes.refl _).head hstep (arrivals_none hs₂ nofun)), rfl, hread⟩
  | char c =>
    rw [hk] at h
    obtain ⟨s₂, hcomes, hs₂, -, hread⟩ := echo_comes rfl h
    have hstep := step_top ct hs₂
    have hrun : s₂.run ct = s₂.store c (s.count c).stack := by
      unfold State.run
      rw [hs₂]
    rw [hrun] at hstep
    exact ⟨_, hcomes.trans ((Comes.refl _).head hstep (arrivals_none hs₂ nofun)), count_stack s c,
      hread.trans (count_readQ s c)⟩
  | _ => exact ⟨_, .refl _, rfl, rfl⟩

/-- By induction on the characters that wait. -/
theorem cook_comes (n : ℕ) (h : Undisturbed ct s) (hs : s.stack = .cook :: below)
    (hn : s.readQ.CHARS = n) : ∃ s', Comes ct s s' ∧ s'.stack = below ∧ s'.readQ.EMPTY := by
  induction n using Nat.strong_induction_on generalizing s with
  | _ n ih =>
    have hstep := step_top ct hs
    have hrun : s.run ct = s.cook below := by
      unfold State.run
      rw [hs]
    rw [hrun] at hstep
    have hnext := h.next hstep
    unfold State.cook at hstep hnext
    by_cases hempty : s.readQ.EMPTY
    · rw [if_pos (.inl hempty)] at hstep
      exact ⟨_, (Comes.refl _).head hstep (arrivals_none hs nofun), rfl, hempty⟩
    · rw [if_neg (not_or.2 ⟨hempty, h.room⟩)] at hstep hnext
      have hstep₁ := @step_top ct (s.push .take) _ _ rfl
      have hrun₁ : (s.push .take).run ct = (s.push .take).take ct s.stack := rfl
      rw [hrun₁] at hstep₁
      have hnext₁ := hnext.next hstep₁
      obtain ⟨s₂, hcomes, hs₂, hread⟩ := received_comes _ hnext₁
      have hget := CHARS_GETCH hempty
      obtain ⟨s', hcomes', hs', hread'⟩ := ih s.readQ.GETCH.CHARS (by omega) (hnext₁.comes hcomes)
        (hs₂.trans hs) (congrArg CHARS hread)
      refine ⟨s', ?_, hs', hread'⟩
      exact ((hcomes.trans hcomes').head hstep₁ (arrivals_none rfl nofun)).head hstep
        (arrivals_none hs nofun)

theorem edited_at_return (ht : s.termios.Edits) (hhand : s.hand = []) (hs : s.stack = .cook :: below)
    (h : Undisturbed ct s) :
    ∃ n, ∃ s' ∈ runs ct s (List.replicate n .run), s'.stack = below ∧
      s'.secondary.content = Editor.edit s.termios s.secondary.content s.readQ.content := by
  obtain ⟨s', ⟨n, hruns, hreceived⟩, hs', hread⟩ := cook_comes _ h hs rfl
  have hpending := (Pending.start rfl hhand).runs ht (h n).1 hruns
  rw [hreceived] at hpending
  have hempty : s'.hand = [] := by
    rw [hand, hs', hand_cons hs rfl, hhand]
  exact ⟨n, s', hruns, hs', hpending.finished hempty hread⟩

end Ends

/-- The queue holds what the editor makes of the characters, as long as no call of `copy_to_cooked`
    takes one while a call below it has one in hand; and a call returns. -/
theorem line_edited {ct : CType} {s : State} (ht : s.termios.Edits) (hhand : s.hand = [])
    (hwaits : s.Waits) :
    (∀ l, EachStep ct Regular s l → Along ct (fun s => ¬s.secondary.FULL) s l →
      ∀ s' ∈ runs ct s l, s'.stack = [] →
        s'.secondary.content = Editor.edit s.termios s.secondary.content
          (s.readQ.content ++ Tty.received ct s l)) ∧
    ∀ below, s.stack = .cook :: below → Undisturbed ct s →
      ∃ n, ∃ s' ∈ runs ct s (List.replicate n .run), s'.stack = below ∧
        s'.secondary.content = Editor.edit s.termios s.secondary.content s.readQ.content :=
  ⟨fun _ hl hroom _ hs hidle => edited_when_idle ht hhand hwaits hl hroom hs hidle,
    fun _ hs h => edited_at_return ht hhand hs h⟩

section Typing

instance : (a : Act) → Decidable (a = .run)
  | .run => .isTrue rfl
  | .interrupt _ => .isFalse nofun
  | .drain => .isFalse nofun
  | .read _ => .isFalse nofun
  | .readOn _ => .isFalse nofun
  | .write _ => .isFalse nofun
  | .writeOn _ => .isFalse nofun
  | .setTermios _ _ => .isFalse nofun
  | .setTermio _ _ => .isFalse nofun

instance (s : State) (a : Act) : Decidable (Takes s a) := inferInstanceAs (Decidable (_ ∧ _))

instance (s : State) : (a : Act) → Decidable (Meanwhile s a)
  | .run => inferInstanceAs (Decidable (_ ≤ _))
  | .interrupt _ => .isTrue trivial
  | .drain => .isTrue trivial
  | .read _ => .isFalse id
  | .readOn _ => .isFalse id
  | .write _ => .isTrue trivial
  | .writeOn _ => .isTrue trivial
  | .setTermios _ _ => .isFalse id
  | .setTermio _ _ => .isFalse id

instance (s : State) (a : Act) : Decidable (Regular s a) :=
  inferInstanceAs (Decidable (_ ∧ (Takes s a → s.hand = [])))

variable {ct : CType} {s : State}

theorem Undisturbed.of_stop (hs : s.stack = []) (hroom : ¬s.secondary.FULL) : Undisturbed ct s := by
  have hstep : step ct s .run = none := by rw [step, if_pos hs]
  intro n
  cases n with
  | zero => exact ⟨trivial, hroom⟩
  | succ n =>
    refine ⟨⟨⟨?_, ?_⟩, ?_⟩, hroom, ?_⟩
    · unfold Meanwhile arrivals
      rw [hs]
      exact Nat.zero_le _
    · intro htakes
      have htop := htakes.2.1
      rw [hs] at htop
      cases htop
    · rw [hstep]
      exact fun _ hnone => absurd hnone.symm (Option.some_ne_none _)
    · rw [hstep]
      exact fun _ hnone => absurd hnone.symm (Option.some_ne_none _)

/-- It is enough to look at the steps up to the end of all calls. -/
theorem Undisturbed.of_runs (n : ℕ)
    (hl : EachStep ct (fun s a => Regular s a ∧ ¬s.secondary.FULL) s (List.replicate n .run))
    (hend : ∀ s' ∈ runs ct s (List.replicate n .run), s'.stack = [] ∧ ¬s'.secondary.FULL) :
    Undisturbed ct s := by
  induction n generalizing s with
  | zero => exact .of_stop (hend s rfl).1 (hend s rfl).2
  | succ n ih =>
    have hnext : ∀ s₁, step ct s .run = some s₁ → Undisturbed ct s₁ := by
      intro s₁ hstep
      refine ih (hl.2 s₁ hstep) fun s' hs' => hend s' ?_
      rw [List.replicate_succ, runs, hstep]
      exact hs'
    intro m
    cases m with
    | zero => exact ⟨trivial, hl.1.2⟩
    | succ m =>
      exact ⟨⟨hl.1.1, fun s₁ hstep => (hnext s₁ hstep m).1⟩, hl.1.2,
        fun s₁ hstep => (hnext s₁ hstep m).2⟩

end Typing

theorem of_any {o : Option State} {s : State} {P : State → Prop} [DecidablePred P]
    (h : (o.any fun s => decide (P s)) = true) (hs : s ∈ o) : P s := by
  rw [Option.mem_def] at hs
  rw [hs, Option.any_some] at h
  exact of_decide_eq_true h

theorem consoleTermios_edits : consoleTermios.Edits := by
  constructor <;> decide

/-- `a`, `b` and an erase, `c` and a newline, `d` and a kill, `e`. -/
def keys : List UInt8 := [97, 98, 127, 99, 10, 100, 21, 101]

/-- They all wait, and `copy_to_cooked` has been called. -/
def keysWait : State := (keys.foldl putRead console0).push .cook

theorem keysWait_runs :
    EachStep .ascii (fun s a => Regular s a ∧ ¬s.secondary.FULL) keysWait (List.replicate 44 .run) ∧
      (runs .ascii keysWait (List.replicate 44 .run)).any
        (fun s => s.stack = [] ∧ ¬s.secondary.FULL) = true := by
  decide +kernel

theorem keysWait_undisturbed : Undisturbed .ascii keysWait :=
  .of_runs 44 keysWait_runs.1 fun _ hs => of_any keysWait_runs.2 hs

theorem keysTyped_runs : EachStep .ascii Regular console0 (typed keys 44) ∧
    EachStep .ascii (fun s _ => ¬s.secondary.FULL) console0 (typed keys 44) ∧
    (runs .ascii console0 (typed keys 44)).any (fun s => s.stack = [] ∧ ¬s.secondary.FULL) = true ∧
    Tty.received .ascii console0 (typed keys 44) = keys := by
  decide +kernel

theorem line_edited_typed :
    (∃ s' ∈ runs .ascii console0 (typed keys 44), s'.secondary.content = [97, 99, 10, 101]) ∧
    ∃ n, ∃ s' ∈ runs .ascii keysWait (List.replicate n .run), s'.stack = [] ∧
      s'.secondary.content = [97, 99, 10, 101] := by
  obtain ⟨hregular, hroom, hend, hreceived⟩ := keysTyped_runs
  obtain ⟨s', hs', h⟩ := (Option.any_eq_true _ _).1 hend
  have hidle := (of_decide_eq_true h).1
  have halong := along_of_each hroom fun s hs => (of_any hend hs).2
  have hedits := consoleTermios_edits
  refine ⟨⟨s', hs', ?_⟩, ?_⟩
  · rw [(line_edited (s := console0) hedits rfl (.inr rfl)).1 _ hregular halong s' hs' hidle,
      hreceived]
    decide
  · obtain ⟨n, s', hs', hstack, hline⟩ := (line_edited (s := keysWait) hedits rfl
      (.inl List.mem_cons_self)).2 [] rfl keysWait_undisturbed
    refine ⟨n, s', hs', hstack, hline.trans ?_⟩
    decide

/-- The echo of 219 ends with ESC, and that of `Z` makes it a question: the answer comes into the line
    before the `Z`. -/
theorem answer_before_letter : ∃ s, runs .ascii console0 (typed [219, 90] 49) = some s ∧
    s.stack = [] ∧ s.readQ.EMPTY ∧ s.secondary.content = [219] ++ RESPONSE ++ [90] ∧
    Tty.received .ascii console0 (typed [219, 90] 49) = [219, 90] ++ RESPONSE ∧
    Editor.edit consoleTermios [] ([219, 90] ++ RESPONSE) = [219, 90] ++ RESPONSE ∧
    s.secondary.content ≠ Editor.edit consoleTermios [] ([219, 90] ++ RESPONSE) ∧
    s.secondary.content ≠ Editor.edit consoleTermios [] [219, 90] := by
  have hrun : (runs .ascii console0 (typed [219, 90] 49)).any (fun s =>
      s.stack = [] ∧ s.readQ.EMPTY ∧ s.secondary.content = [219] ++ RESPONSE ++ [90]) = true := by
    decide +kernel
  have hreceived : Tty.received .ascii console0 (typed [219, 90] 49) = [219, 90] ++ RESPONSE := by
    decide +kernel
  obtain ⟨s, hs, h⟩ := (Option.any_eq_true _ _).1 hrun
  obtain ⟨hstack, hread, hline⟩ := of_decide_eq_true h
  refine ⟨s, hs, hstack, hread, hline, hreceived, by decide, ?_, ?_⟩
  · rw [hline]
    decide
  · rw [hline]
    decide

end Linux011.Tty
