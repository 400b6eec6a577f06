import Mathlib

set_option autoImplicit false

/-! # The queues and the settings of a terminal -/
namespace Linux011.Tty

instance instNeZeroBuf : NeZero 1024 := ⟨by decide⟩

instance instNeZeroTtys : NeZero 3 := ⟨by decide⟩

/-- `tty_queue`, without the list of sleeping tasks. -/
structure TtyQueue where
  data : UInt32
  head : Fin 1024
  tail : Fin 1024
  buf : Fin 1024 → UInt8

namespace TtyQueue

def EMPTY (q : TtyQueue) : Prop := q.head = q.tail

instance (q : TtyQueue) : Decidable q.EMPTY := inferInstanceAs (Decidable (q.head = q.tail))

def LEFT (q : TtyQueue) : ℕ := (q.tail - q.head - 1).val

def FULL (q : TtyQueue) : Prop := q.LEFT = 0

instance (q : TtyQueue) : Decidable q.FULL := inferInstanceAs (Decidable (q.LEFT = 0))

def CHARS (q : TtyQueue) : ℕ := (q.head - q.tail).val

def LAST (q : TtyQueue) : UInt8 := q.buf (q.head - 1)

def PUTCH (c : UInt8) (q : TtyQueue) : TtyQueue :=
  { q with buf := Function.update q.buf q.head c, head := q.head + 1 }

/-- The character that `GETCH` assigns. -/
def front (q : TtyQueue) : UInt8 := q.buf q.tail

def GETCH (q : TtyQueue) : TtyQueue := { q with tail := q.tail + 1 }

/-- `DEC(q.head)` -/
def DEC (q : TtyQueue) : TtyQueue := { q with head := q.head - 1 }

end TtyQueue

/-! ### Settings -/

/-- The bits of `c_iflag`. -/
def INLCR : UInt32 := 0o100
def IGNCR : UInt32 := 0o200
def ICRNL : UInt32 := 0o400
def IUCLC : UInt32 := 0o1000

/-- The bits of `c_oflag`. -/
def OPOST : UInt32 := 0o1
def OLCUC : UInt32 := 0o2
def ONLCR : UInt32 := 0o4
def OCRNL : UInt32 := 0o10
def ONLRET : UInt32 := 0o40

/-- The bits of `c_lflag`. -/
def ISIG : UInt32 := 0o1
def ICANON : UInt32 := 0o2
def ECHO : UInt32 := 0o10
def ECHOCTL : UInt32 := 0o1000

/-- Whether one of the bits of a flag word is set. -/
def flag (w f : UInt32) : Bool := w &&& f != 0

/-- `isupper` and `islower`. A character above 127 is negative, and for it they read in front of
    the table. -/
structure CType where
  isupper : UInt8 → Bool
  islower : UInt8 → Bool

/-- The letters of ASCII, and none above 127. -/
def CType.ascii : CType := ⟨fun c => 65 ≤ c && c ≤ 90, fun c => 97 ≤ c && c ≤ 122⟩

def CType.tolower (ct : CType) (c : UInt8) : UInt8 := if ct.isupper c then c + 32 else c

def CType.toupper (ct : CType) (c : UInt8) : UInt8 := if ct.islower c then c - 32 else c

def LF : UInt8 := 10

def CR : UInt8 := 13

end Linux011.Tty
