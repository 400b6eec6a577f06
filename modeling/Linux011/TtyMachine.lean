import Linux011.Console
import Linux011.TtyQueues
import Linux011.TtyWrite
import Mathlib

set_option autoImplicit false

/-!
# A terminal (kernel/chr_drv/tty_io.c, tty_ioctl.c, console.c)

`copy_to_cooked`, `con_write` and `respond` call one another, and an interrupt may come between any
two of their steps: the calls that are under way form a stack. `tty_read` and `tty_write` go on when
nothing lies above them. The test of a queue and the `GETCH` that follows it are different steps. An
echo is put into `write_q` together with what comes before it; an interrupt in between does to the
other two queues what one right after it does.
-/
namespace Linux011.Tty
open TtyQueue

/-! ### Settings -/

instance instNeZeroNCCS : NeZero 17 := ⟨by decide⟩

structure Termios where
  iflag : UInt32
  oflag : UInt32
  cflag : UInt32
  lflag : UInt32
  line : UInt8
  cc : Fin 17 → UInt8

def VINTR : Fin 17 := 0
def VQUIT : Fin 17 := 1
def VERASE : Fin 17 := 2
def VKILL : Fin 17 := 3
def VEOF : Fin 17 := 4
def VTIME : Fin 17 := 5
def VMIN : Fin 17 := 6
def VSTART : Fin 17 := 8
def VSTOP : Fin 17 := 9

/-- The older form, with flags of 16 bits and `NCC` control characters. -/
structure Termio where
  iflag : UInt16
  oflag : UInt16
  cflag : UInt16
  lflag : UInt16
  line : UInt8
  cc : Fin 8 → UInt8

/-- `*(unsigned short *)&flag = new` -/
def lowHalf (flag : UInt32) (new : UInt16) : UInt32 := flag / 65536 * 65536 + new.toUInt32

/-- `set_termio` leaves the other half of the flags and the other control characters. -/
def Termios.set_termio (t : Termios) (new : Termio) : Termios where
  iflag := lowHalf t.iflag new.iflag
  oflag := lowHalf t.oflag new.oflag
  cflag := lowHalf t.cflag new.cflag
  lflag := lowHalf t.lflag new.lflag
  line := new.line
  cc := fun i => if h : i.val < 8 then new.cc ⟨i.val, h⟩ else t.cc i

/-- A control character is unsigned, the character compared with it a signed `char`: above 127 they
    are never equal. -/
def Termios.is (t : Termios) (k : Fin 17) (c : UInt8) : Bool := c < 128 && c == t.cc k

/-- `c == 10 || c == EOF_CHAR(tty)` -/
def Termios.ends (t : Termios) (c : UInt8) : Bool := c == LF || t.is VEOF c

/-- `c < 32`, with the characters above 127. -/
def control (c : UInt8) : Bool := c < 32 || 128 ≤ c

/-! ### Characters received -/

variable (ct : CType)

/-- The mapping of carriage return and newline; `none` if the character is dropped. -/
def mapIn (t : Termios) (c : UInt8) : Option UInt8 :=
  let mapped := if c = CR then
      if flag t.iflag ICRNL then some LF else if flag t.iflag IGNCR then none else some CR
    else if c = LF ∧ flag t.iflag INLCR then some CR else some c
  mapped.map fun c => if flag t.iflag IUCLC then ct.tolower c else c

/-- What a character stands for. -/
inductive Key where
  | dropped
  | kill
  | erase
  | stop
  | start
  | intr
  | quit
  | char (c : UInt8)
  deriving DecidableEq

def key (t : Termios) (c : UInt8) : Key :=
  match mapIn ct t c with
  | none => .dropped
  | some c =>
    if flag t.lflag ICANON ∧ t.is VKILL c then .kill
    else if flag t.lflag ICANON ∧ t.is VERASE c then .erase
    else if flag t.lflag ICANON ∧ t.is VSTOP c then .stop
    else if flag t.lflag ICANON ∧ t.is VSTART c then .start
    else if flag t.lflag ISIG ∧ t.is VINTR c then .intr
    else if flag t.lflag ISIG ∧ t.is VQUIT c then .quit
    else .char c

/-- What is echoed for a character. -/
def echoOf (t : Termios) (c : UInt8) : List UInt8 :=
  if c = LF then [LF, CR]
  else if control c then if flag t.lflag ECHOCTL then [94, c + 64] else []
  else [c]

/-- What is echoed for a character that is taken back. -/
def ruboutOf (c : UInt8) : List UInt8 := if control c then [127, 127] else [127]

/-! ### The state -/

/-- A call that is under way, at the place where it goes on. -/
inductive Frame where
  /-- `copy_to_cooked`, at the test of its loop. -/
  | cook
  /-- The test has passed, `GETCH(tty->read_q,c)` comes next. -/
  | take
  /-- The loop that kills a line, at its test. -/
  | kill
  /-- The echo of a character taken back is done, `DEC(tty->secondary.head)` comes next. -/
  | erase (again : Bool)
  /-- The echo is done, `PUTCH(c,tty->secondary)` comes next. -/
  | store (c : UInt8)
  /-- `con_write`, at the test of its loop. -/
  | conWrite (nr : ℕ)
  deriving DecidableEq

/-- `outer` and `inner` are the tests of the two loops, `get` is the `GETCH` after either of them. -/
inductive ReadPoint where
  | outer
  | get
  | inner
  deriving DecidableEq

/-- A call of `tty_read`. -/
structure Reader where
  minimum : ℕ
  nr : ℕ
  /-- What lies between `buf` and `b`. -/
  got : List UInt8
  point : ReadPoint

inductive WritePoint where
  | outer
  | asleep
  | test
  | put
  | flushed
  deriving DecidableEq

/-- A call of `tty_write`. -/
structure Writer where
  rest : List UInt8
  point : WritePoint

/-- `console` tells whether `tty->write` is `con_write` or `rs_write`. The last four fields are the
    history: what the reads have returned, what was put into `write_q`, what `con_write` has made of
    it, and what a `PUTCH` on a full queue has thrown away. -/
structure State where
  termios : Termios
  console : Bool
  stopped : Bool
  readQ : TtyQueue
  writeQ : TtyQueue
  secondary : TtyQueue
  screen : Console.Screen
  stack : List Frame
  reader : Option Reader
  writer : Option Writer
  crFlag : Bool
  returned : List (List UInt8)
  written : List UInt8
  shown : List UInt8
  lost : List UInt8

namespace State

/-- `PUTCH` makes a full queue an empty one. -/
def dropped (q : TtyQueue) : List UInt8 := if q.FULL then q.content else []

def putRead (s : State) (c : UInt8) : State :=
  { s with readQ := s.readQ.PUTCH c, lost := s.lost ++ dropped s.readQ }

def putWrite (s : State) (c : UInt8) : State :=
  { s with
    writeQ := s.writeQ.PUTCH c, written := s.written ++ [c], lost := s.lost ++ dropped s.writeQ }

def putSecondary (s : State) (c : UInt8) : State :=
  { s with secondary := s.secondary.PUTCH c, lost := s.lost ++ dropped s.secondary }

def push (s : State) (f : Frame) : State := { s with stack := f :: s.stack }

/-- `tty->write(tty)`; `rs_write` only lets the line interrupt. -/
def write (s : State) : State := if s.console then s.push (.conWrite s.writeQ.CHARS) else s

/-- An echo, with the call of `tty->write`. The call of `copy_to_cooked` goes on at `next`. -/
def echo (s : State) (l : List UInt8) (next : Frame) : State :=
  if flag s.termios.lflag ECHO then ((l.foldl putWrite s).push next).write else s.push next

/-- Nothing to take back: the queue is empty, or the line before is finished. -/
def lineStart (s : State) : Prop := s.secondary.EMPTY ∨ s.termios.ends s.secondary.LAST = true

instance (s : State) : Decidable s.lineStart := inferInstanceAs (Decidable (_ ∨ _))

def count (s : State) (c : UInt8) : State :=
  if s.termios.ends c then { s with secondary := { s.secondary with data := s.secondary.data + 1 } }
  else s

/-! ### `copy_to_cooked` -/

/-- The rest of the loop, for the character that `GETCH` has taken. -/
def received (s : State) (c : UInt8) : State :=
  match key ct s.termios c with
  | .dropped => s
  | .kill => s.push .kill
  | .erase => if s.lineStart then s else s.echo (ruboutOf s.secondary.LAST) (.erase false)
  | .stop => { s with stopped := true }
  | .start => { s with stopped := false }
  | .intr => s
  | .quit => s
  | .char c => (s.count c).echo (echoOf s.termios c) (.store c)

/-- The topmost call is `copy_to_cooked`, and `below` is what it lies on. -/
def cook (s : State) (below : List Frame) : State :=
  if s.readQ.EMPTY ∨ s.secondary.FULL then { s with stack := below } else s.push .take

def take (s : State) (below : List Frame) : State :=
  { s with readQ := s.readQ.GETCH, stack := below }.received ct s.readQ.front

def kill (s : State) (below : List Frame) : State :=
  if s.lineStart then { s with stack := below }
  else { s with stack := below }.echo (ruboutOf s.secondary.LAST) (.erase true)

def erase (s : State) (again : Bool) (below : List Frame) : State :=
  { s with
    secondary := s.secondary.DEC,
    stack := if again then .kill :: below else below }

def store (s : State) (c : UInt8) (below : List Frame) : State :=
  { s with stack := below }.putSecondary c

/-! ### `con_write` -/

/-- `ESC Z` asks for the type of the terminal. -/
def asks (s : State) : Prop := s.screen.state = 1 ∧ s.writeQ.front = 90

instance (s : State) : Decidable s.asks := inferInstanceAs (Decidable (_ ∧ _))

def RESPONSE : List UInt8 := Console.RESPONSE.map UInt8.ofNat

def respond (s : State) : State := (RESPONSE.foldl putRead s).push .cook

def conWrite (s : State) (nr : ℕ) (below : List Frame) : State :=
  match nr with
  | 0 => { s with stack := below, screen := Console.setCursor s.screen }
  | nr + 1 =>
    let s' := { s with
      stack := .conWrite nr :: below,
      writeQ := s.writeQ.GETCH,
      shown := s.shown ++ [s.writeQ.front],
      screen := Console.putByte (s.termios.cc VERASE).toNat s.screen s.writeQ.front.toNat }
    if s.asks then s'.respond else s'

/-- The topmost call goes on. -/
def run (s : State) : State :=
  match s.stack with
  | [] => s
  | .cook :: below => s.cook below
  | .take :: below => s.take ct below
  | .kill :: below => s.kill below
  | .erase again :: below => s.erase again below
  | .store c :: below => s.store c below
  | .conWrite nr :: below => s.conWrite nr below

/-! ### `tty_read` -/

/-- `minimum` as it is set before the loop. -/
def minimum (t : Termios) (nr : ℕ) : ℕ :=
  let minimum := if t.cc VTIME ≠ 0 ∧ t.cc VMIN = 0 then 1 else (t.cc VMIN).toNat
  if minimum > nr then nr else minimum

def setReader (s : State) (r : Reader) : State := { s with reader := some r }

/-- The call returns. -/
def endRead (s : State) (r : Reader) : State :=
  { s with reader := none, returned := s.returned ++ [r.got] }

def sleeps (s : State) : Prop :=
  s.secondary.EMPTY ∨ flag s.termios.lflag ICANON = true ∧ s.secondary.data = 0 ∧
    s.secondary.LEFT > 20

instance (s : State) : Decidable s.sleeps := inferInstanceAs (Decidable (_ ∨ _))

/-- One turn of the inner loop. -/
def fetch (s : State) (r : Reader) : State :=
  let c := s.secondary.front
  let q := s.secondary.GETCH
  let s' := { s with
    secondary := if s.termios.ends c then { q with data := q.data - 1 } else q }
  if s.termios.is VEOF c ∧ flag s.termios.lflag ICANON then s'.endRead r
  else s'.setReader { r with nr := r.nr - 1, got := r.got ++ [c], point := .inner }

/-- After the inner loop. -/
def readOut (s : State) (r : Reader) : State :=
  if flag s.termios.lflag ICANON then
    if r.got = [] then s.setReader { r with point := .outer } else s.endRead r
  else if r.got.length ≥ r.minimum then s.endRead r
  else s.setReader { r with point := .outer }

/-- `tty_read` goes on; `broken` if a signal or the alarm is there. -/
def readOn (s : State) (r : Reader) (broken : Bool) : State :=
  match r.point with
  | .outer =>
    if r.nr = 0 ∨ broken then s.endRead r
    else if s.sleeps then s
    else s.setReader { r with point := .get }
  | .get => s.fetch r
  | .inner =>
    if r.nr = 0 ∨ s.secondary.EMPTY then s.readOut r else s.setReader { r with point := .get }

/-! ### `tty_write` -/

def setWriter (s : State) (w : Writer) : State := { s with writer := some w }

/-- One character goes into the queue. -/
def writePut (s : State) (w : Writer) : State :=
  match w.rest with
  | [] => s.setWriter { w with point := .test }
  | c :: rest => match TtyWrite.outChar ct s.termios.oflag s.crFlag c with
    | none => { s.putWrite CR with crFlag := true }.setWriter { w with point := .test }
    | some c' => { s.putWrite c' with crFlag := false }.setWriter ⟨rest, .test⟩

def writeOn (s : State) (w : Writer) (signal : Bool) : State :=
  match w.point with
  | .outer =>
    if w.rest = [] then { s with writer := none }
    else if s.writeQ.FULL then s.setWriter { w with point := .asleep }
    else if signal then { s with writer := none }
    else s.setWriter { w with point := .test }
  | .asleep =>
    if signal then { s with writer := none }
    else if s.writeQ.LEFT < 128 then s
    else s.setWriter { w with point := .test }
  | .test =>
    if w.rest = [] ∨ s.writeQ.FULL then (s.setWriter { w with point := .flushed }).write
    else s.setWriter { w with point := .put }
  | .put => s.writePut ct w
  | .flushed => s.setWriter { w with point := .outer }

/-! ### `tty_ioctl` -/

def flush (q : TtyQueue) : TtyQueue := { q with head := q.tail }

/-- `TCSETSF` and `TCSETAF` empty `read_q` first; `wait_until_sent` does nothing. -/
def set (s : State) (t : Termios) (flushed : Bool) : State :=
  { s with termios := t, readQ := if flushed then flush s.readQ else s.readQ }

end State

/-! ### Steps -/

inductive Act where
  /-- The topmost call goes on. -/
  | run
  /-- Characters arrive. The interrupt puts all of them into `read_q`, or none if they do not fit, and
      calls `copy_to_cooked`. -/
  | interrupt (l : List UInt8)
  /-- A serial line has sent a character. -/
  | drain
  | read (nr : ℕ)
  | readOn (broken : Bool)
  | write (buf : List UInt8)
  | writeOn (signal : Bool)
  /-- `TCSETS`, `TCSETSW` and `TCSETSF`. -/
  | setTermios (t : Termios) (flushed : Bool)
  /-- `TCSETA`, `TCSETAW` and `TCSETAF`. -/
  | setTermio (t : Termio) (flushed : Bool)

open State in
/-- `none` if the action is not possible. -/
def step (s : State) : Act → Option State
  | .run => if s.stack = [] then none else some (s.run ct)
  | .interrupt l =>
    some ((if l.length ≤ s.readQ.LEFT then l.foldl putRead s else s).push .cook)
  | .drain =>
    if s.console ∨ s.writeQ.EMPTY then none else some { s with writeQ := s.writeQ.GETCH }
  | .read nr =>
    if s.stack = [] ∧ s.reader.isNone then
      some (s.setReader ⟨minimum s.termios nr, nr, [], .outer⟩)
    else none
  | .readOn broken => if s.stack = [] then s.reader.map fun r => s.readOn r broken else none
  | .write buf =>
    if s.stack = [] ∧ s.writer.isNone then some (s.setWriter ⟨buf, .outer⟩) else none
  | .writeOn signal => if s.stack = [] then s.writer.map fun w => s.writeOn ct w signal else none
  | .setTermios t flushed => if s.stack = [] then some (s.set t flushed) else none
  | .setTermio t flushed =>
    if s.stack = [] then some (s.set (s.termios.set_termio t) flushed) else none

/-- A property of every state of a run, as far as its actions are possible. -/
def Along (P : State → Prop) (s : State) : List Act → Prop
  | [] => P s
  | a :: l => P s ∧ ∀ s', step ct s a = some s' → Along P s' l

/-- A condition on every step of a run. -/
def EachStep (C : State → Act → Prop) (s : State) : List Act → Prop
  | [] => True
  | a :: l => C s a ∧ ∀ s', step ct s a = some s' → EachStep C s' l

theorem eachStep_cons {C : State → Act → Prop} {s : State} {a : Act} {l : List Act} :
    EachStep ct C s (a :: l) ↔ C s a ∧ ∀ s' ∈ step ct s a, EachStep ct C s' l :=
  Iff.rfl

instance decEachStep {C : State → Act → Prop} [∀ s a, Decidable (C s a)] :
    (s : State) → (l : List Act) → Decidable (EachStep ct C s l)
  | _, [] => .isTrue trivial
  | s, a :: l =>
    have := fun s' => decEachStep (C := C) s' l
    decidable_of_iff (C s a ∧ ∀ s' ∈ step ct s a, EachStep ct C s' l) (eachStep_cons ct).symm

variable {ct} {P : State → Prop} {C : State → Act → Prop}

theorem Along.mono {Q : State → Prop} (hpq : ∀ s, P s → Q s) {s : State} {l : List Act}
    (h : Along ct P s l) : Along ct Q s l := by
  induction l generalizing s with
  | nil => exact hpq s h
  | cons a l ih => exact ⟨hpq s h.1, fun s' hs' => ih (h.2 s' hs')⟩

/-- The state at the end of a run. -/
def runs (ct : CType) (s : State) : List Act → Option State
  | [] => some s
  | a :: l => (step ct s a).bind fun s' => runs ct s' l

theorem Along.last {s : State} {l : List Act} (h : Along ct P s l) : ∀ s' ∈ runs ct s l, P s' := by
  intro s' hs
  induction l generalizing s with
  | nil =>
    cases hs
    exact h
  | cons a l ih =>
    obtain ⟨s₁, hstep, hs⟩ := Option.bind_eq_some_iff.mp hs
    exact ih (h.2 s₁ hstep) hs

theorem along_of_each {s : State} {l : List Act} (h : EachStep ct (fun s _ => P s) s l)
    (hlast : ∀ s' ∈ runs ct s l, P s') : Along ct P s l := by
  induction l generalizing s with
  | nil => exact hlast s rfl
  | cons a l ih =>
    refine ⟨h.1, fun s₁ hstep => ih (h.2 s₁ hstep) fun s' hs' => hlast s' ?_⟩
    rw [runs, hstep]
    exact hs'

/-! ### At boot -/

/-- Control characters: `^C`, `^|`, `del`, `^U`, `^D` and so on. -/
def INIT_C_CC : List UInt8 := [3, 28, 127, 21, 4, 0, 1, 0, 17, 19, 26, 0, 18, 15, 23, 22, 0]

def ECHOKE : UInt32 := 0o4000

/-- The settings of the console in `tty_table`. -/
def consoleTermios : Termios where
  iflag := ICRNL
  oflag := OPOST ||| ONLCR
  cflag := 0
  lflag := ISIG ||| ICANON ||| ECHO ||| ECHOCTL ||| ECHOKE
  line := 0
  cc i := INIT_C_CC.getD i.val 0

def emptyQueue : TtyQueue := ⟨0, 0, 0, fun _ => 0⟩

/-- The console after `con_init`, on a color display. -/
def console0 : State where
  termios := consoleTermios
  console := true
  stopped := false
  readQ := emptyQueue
  writeQ := emptyQueue
  secondary := emptyQueue
  screen := Console.conInit ⟨0, 0, 20483, 0⟩ fun _ => 0x720
  stack := []
  reader := none
  writer := none
  crFlag := false
  returned := []
  written := []
  shown := []
  lost := []

end Linux011.Tty
