import Mathlib

set_option autoImplicit false

/-!
# The console (kernel/chr_drv/console.c)

`con_write` byte by byte over the video memory, with the cells that have been read or written so
far. An `unsigned long` is a natural number below `2 ^ 32`; the echo of an answer comes back as
further bytes.
-/
namespace Linux011.Console

def NPAR : ℕ := 16

def WORD : ℕ := 4294967296

def addl (a b : ℕ) : ℕ := (a + b) % WORD

def subl (a b : ℕ) : ℕ := (a + (WORD - b)) % WORD

def mull (a b : ℕ) : ℕ := a * b % WORD

theorem addl_eq {a b : ℕ} (h : a + b < WORD) : addl a b = a + b := Nat.mod_eq_of_lt h

theorem mull_eq {a b : ℕ} (h : a * b < WORD) : mull a b = a * b := Nat.mod_eq_of_lt h

theorem subl_eq {a b : ℕ} (hb : b ≤ a) (ha : a < WORD) : subl a b = a - b := by
  rw [subl, show a + (WORD - b) = a - b + WORD by omega, Nat.add_mod_right]
  exact Nat.mod_eq_of_lt (by omega)

attribute [irreducible] addl subl mull WORD

/-! ### Video memory -/

/-- The 16-bit cells, and the addresses of those that were read or written. -/
structure VideoMemory where
  cell : ℕ → ℕ
  touched : List ℕ

namespace VideoMemory

def write (m : VideoMemory) (a v : ℕ) : VideoMemory := ⟨Function.update m.cell a v, a :: m.touched⟩

def read (m : VideoMemory) (a : ℕ) : ℕ × VideoMemory := (m.cell a, { m with touched := a :: m.touched })

/-- The direction flag: `cld` or `std`. -/
def forward (up : Bool) (a n : ℕ) : ℕ := if up then addl a n else subl a n

/-- `rep stosw` with `count` in `ecx`. -/
def stosw (up : Bool) (v : ℕ) : ℕ → ℕ → VideoMemory → VideoMemory
  | 0, _, m => m
  | count + 1, di, m => stosw up v count (forward up di 2) (m.write di v)

/-- `rep movsl`: two cells a turn. The address left in `edi`, and the memory. -/
def movsl (up : Bool) : ℕ → ℕ → ℕ → VideoMemory → ℕ × VideoMemory
  | 0, _, di, m => (di, m)
  | count + 1, si, di, m =>
    let (low, m) := m.read si
    let (high, m) := m.read (addl si 2)
    movsl up count (forward up si 4) (forward up di 4) ((m.write di low).write (addl di 2) high)

/-- The loop of `insert_char`. -/
def insertLoop : ℕ → ℕ → ℕ → VideoMemory → VideoMemory
  | 0, _, _, m => m
  | count + 1, p, old, m =>
    let (tmp, m) := m.read p
    insertLoop count (addl p 2) tmp (m.write p old)

/-- The loop of `delete_char`; the last cell is erased. -/
def deleteLoop (erase : ℕ) : ℕ → ℕ → VideoMemory → VideoMemory
  | 0, p, m => m.write p erase
  | count + 1, p, m =>
    let (next, m) := m.read (addl p 2)
    deleteLoop erase count (addl p 2) (m.write p next)

/-- One byte of a string in every second byte. -/
def showText : List ℕ → ℕ → VideoMemory → VideoMemory
  | [], _, m => m
  | c :: l, p, m =>
    let (old, m) := m.read p
    showText l (addl p 2) (m.write p (old / 256 * 256 + c))

end VideoMemory

inductive VideoType where
  | mda
  | cga
  | egam
  | egac
  deriving DecidableEq

/-- What `con_init` finds out about the display. -/
structure Video where
  type : VideoType
  columns : ℕ
  sizeRow : ℕ
  lines : ℕ
  memStart : ℕ
  memEnd : ℕ
  eraseChar : ℕ

/-- `start` and `cursor` are the two bytes written to the CRT controller, `readQueue` what
    `respond` has put into the read queue. -/
structure Screen where
  video : Video
  origin : ℕ
  scrEnd : ℕ
  pos : ℕ
  x : ℕ
  y : ℕ
  top : ℕ
  bottom : ℕ
  state : ℕ
  npar : ℕ
  par : ℕ → ℕ
  ques : Bool
  attr : ℕ
  savedX : ℕ
  savedY : ℕ
  beepcount : ℕ
  start : ℕ × ℕ
  cursor : ℕ × ℕ
  readQueue : List ℕ
  mem : VideoMemory

def RESPONSE : List ℕ := [27, 91, 63, 49, 59, 50, 99]

def gotoxy (s : Screen) (newX newY : ℕ) : Screen :=
  if newX > s.video.columns ∨ newY ≥ s.video.lines then s
  else { s with
    x := newX, y := newY,
    pos := addl (addl s.origin (mull newY s.video.sizeRow)) (mull newX 2) }

/-- The bytes of an address for the CRT controller. -/
def crt (s : Screen) (a : ℕ) : ℕ × ℕ :=
  (subl a s.video.memStart / 512 % 256, subl a s.video.memStart / 2 % 256)

def setOrigin (s : Screen) : Screen := { s with start := crt s s.origin }

def setCursor (s : Screen) : Screen := { s with cursor := crt s s.pos }

/-- The lines from `top + 1` on move up by one. -/
def scrupLines (s : Screen) : Screen :=
  let moved := s.mem.movsl true (mull (subl (subl s.bottom s.top) 1) s.video.columns / 2)
    (addl s.origin (mull s.video.sizeRow (addl s.top 1))) (addl s.origin (mull s.video.sizeRow s.top))
  { s with mem := moved.2.stosw true s.video.eraseChar s.video.columns moved.1 }

def scrup (s : Screen) : Screen :=
  if s.video.type = .egac ∨ s.video.type = .egam then
    if s.top = 0 ∧ s.bottom = s.video.lines then
      let s := { s with
        origin := addl s.origin s.video.sizeRow,
        pos := addl s.pos s.video.sizeRow,
        scrEnd := addl s.scrEnd s.video.sizeRow }
      if s.scrEnd > s.video.memEnd then
        let moved := s.mem.movsl true (mull (subl s.video.lines 1) s.video.columns / 2) s.origin
          s.video.memStart
        let back := subl s.origin s.video.memStart
        setOrigin { s with
          mem := moved.2.stosw true s.video.eraseChar s.video.columns moved.1,
          scrEnd := subl s.scrEnd back,
          pos := subl s.pos back,
          origin := s.video.memStart }
      else
        setOrigin { s with
          mem := s.mem.stosw true s.video.eraseChar s.video.columns
            (subl s.scrEnd s.video.sizeRow) }
    else scrupLines s
  else scrupLines s

/-- Both kinds of display go the same way here. -/
def scrdown (s : Screen) : Screen :=
  let moved := s.mem.movsl false (mull (subl (subl s.bottom s.top) 1) s.video.columns / 2)
    (subl (addl s.origin (mull s.video.sizeRow (subl s.bottom 1))) 4)
    (subl (addl s.origin (mull s.video.sizeRow s.bottom)) 4)
  { s with mem := moved.2.stosw false s.video.eraseChar s.video.columns (addl moved.1 2) }

def lf (s : Screen) : Screen :=
  if addl s.y 1 < s.bottom then { s with y := addl s.y 1, pos := addl s.pos s.video.sizeRow }
  else scrup s

def ri (s : Screen) : Screen :=
  if s.y > s.top then { s with y := subl s.y 1, pos := subl s.pos s.video.sizeRow }
  else scrdown s

def cr (s : Screen) : Screen := { s with pos := subl s.pos (mull s.x 2), x := 0 }

def del (s : Screen) : Screen :=
  if s.x ≠ 0 then
    { s with
      pos := subl s.pos 2, x := subl s.x 1,
      mem := s.mem.write (subl s.pos 2) s.video.eraseChar }
  else s

def erase (s : Screen) (count start : ℕ) : Screen :=
  { s with mem := s.mem.stosw true s.video.eraseChar count start }

def csiJ (s : Screen) (par : ℕ) : Screen :=
  match par with
  | 0 => erase s (subl s.scrEnd s.pos / 2) s.pos
  | 1 => erase s (subl s.pos s.origin / 2) s.origin
  | 2 => erase s (mull s.video.columns s.video.lines) s.origin
  | _ => s

def csiK (s : Screen) (par : ℕ) : Screen :=
  match par with
  | 0 => if s.x ≥ s.video.columns then s else erase s (subl s.video.columns s.x) s.pos
  | 1 => erase s (if s.x < s.video.columns then s.x else s.video.columns) (subl s.pos (mull s.x 2))
  | 2 => erase s s.video.columns (subl s.pos (mull s.x 2))
  | _ => s

def attrOf (attr : ℕ) : ℕ → ℕ
  | 0 => 7
  | 1 => 15
  | 4 => 15
  | 7 => 112
  | 27 => 7
  | _ => attr

def csim (s : Screen) : Screen :=
  { s with attr := (List.range (s.npar + 1)).foldl (fun a i => attrOf a (s.par i)) s.attr }

def respond (s : Screen) : Screen := { s with readQueue := s.readQueue ++ RESPONSE }

def insertChar (s : Screen) : Screen :=
  { s with mem := s.mem.insertLoop (s.video.columns - s.x) s.pos s.video.eraseChar }

def insertLine (s : Screen) : Screen :=
  { scrdown { s with top := s.y, bottom := s.video.lines } with top := s.top, bottom := s.bottom }

def deleteChar (s : Screen) : Screen :=
  if s.x ≥ s.video.columns then s
  else { s with mem := s.mem.deleteLoop s.video.eraseChar (s.video.columns - s.x - 1) s.pos }

def deleteLine (s : Screen) : Screen :=
  { scrup { s with top := s.y, bottom := s.video.lines } with top := s.top, bottom := s.bottom }

/-- How often `csi_at`, `csi_L`, `csi_P` and `csi_M` do their work. -/
def times (limit nr : ℕ) : ℕ := if nr > limit then limit else if nr = 0 then 1 else nr

def csiAt (s : Screen) (nr : ℕ) : Screen := insertChar^[times s.video.columns nr] s

def csiL (s : Screen) (nr : ℕ) : Screen := insertLine^[times s.video.lines nr] s

def csiP (s : Screen) (nr : ℕ) : Screen := deleteChar^[times s.video.columns nr] s

def csiM (s : Screen) (nr : ℕ) : Screen := deleteLine^[times s.video.lines nr] s

def saveCur (s : Screen) : Screen := { s with savedX := s.x, savedY := s.y }

def restoreCur (s : Screen) : Screen := gotoxy s s.savedX s.savedY

def sysbeep (s : Screen) : Screen := { s with beepcount := 100 / 8 }

/-- `if (!par[i]) par[i]++`. -/
def atLeastOne (n : ℕ) : ℕ := if n = 0 then 1 else n

/-- `if (par[i]) par[i]--`. -/
def fromOne (n : ℕ) : ℕ := if n = 0 then 0 else n - 1

/-! ### `con_write` -/

/-- A line that is full goes on in the next one. -/
def wrap (s : Screen) : Screen :=
  lf { s with x := subl s.x s.video.columns, pos := subl s.pos s.video.sizeRow }

def putChar (s : Screen) (c : ℕ) : Screen :=
  let s := if s.x ≥ s.video.columns then wrap s else s
  { s with
    mem := s.mem.write s.pos (s.attr * 256 + c), pos := addl s.pos 2, x := addl s.x 1 }

def tab (s : Screen) : Screen :=
  let c := 8 - s.x % 8
  let s := { s with x := addl s.x c, pos := addl s.pos (mull c 2) }
  if s.x > s.video.columns then wrap s else s

/-- `c` is a signed char: a byte from 128 on is negative. -/
def plain (eraseKey : ℕ) (s : Screen) (c : ℕ) : Screen :=
  if 31 < c ∧ c < 127 then putChar s c
  else if c = 27 then { s with state := 1 }
  else if c = 10 ∨ c = 11 ∨ c = 12 then lf s
  else if c = 13 then cr s
  else if c = eraseKey ∧ c < 128 then del s
  else if c = 8 then
    if s.x ≠ 0 then { s with x := subl s.x 1, pos := subl s.pos 2 } else s
  else if c = 9 then tab s
  else if c = 7 then sysbeep s
  else s

/-- After an escape; the cursor column, not the character, is compared with `7` and `8`. -/
def escape (s : Screen) (c : ℕ) : Screen :=
  let s := { s with state := 0 }
  if c = 91 then { s with state := 2 }
  else if c = 69 then gotoxy s 0 (addl s.y 1)
  else if c = 77 then ri s
  else if c = 68 then lf s
  else if c = 90 then respond s
  else if s.x = 55 then saveCur s
  else if s.x = 56 then restoreCur s
  else s

def setPar (s : Screen) (i n : ℕ) : Screen := { s with par := Function.update s.par i n }

/-- The parameters of the `r` sequence. -/
def setRegion (s : Screen) : Screen :=
  let s := setPar s 0 (fromOne (s.par 0))
  let s := if s.par 1 = 0 then setPar s 1 s.video.lines else s
  if s.par 0 < s.par 1 ∧ s.par 1 ≤ s.video.lines then { s with top := s.par 0, bottom := s.par 1 }
  else s

/-- The last character of an escape sequence. -/
def csi (s : Screen) (c : ℕ) : Screen :=
  let s := { s with state := 0 }
  let one := setPar s 0 (atLeastOne (s.par 0))
  let zero := setPar s 0 (fromOne (s.par 0))
  match c with
  | 71 | 96 => gotoxy zero (zero.par 0) s.y
  | 65 => gotoxy one s.x (subl s.y (one.par 0))
  | 66 | 101 => gotoxy one s.x (addl s.y (one.par 0))
  | 67 | 97 => gotoxy one (addl s.x (one.par 0)) s.y
  | 68 => gotoxy one (subl s.x (one.par 0)) s.y
  | 69 => gotoxy one 0 (addl s.y (one.par 0))
  | 70 => gotoxy one 0 (subl s.y (one.par 0))
  | 100 => gotoxy zero s.x (zero.par 0)
  | 72 | 102 =>
    let both := setPar zero 1 (fromOne (zero.par 1))
    gotoxy both (both.par 1) (both.par 0)
  | 74 => csiJ s (s.par 0)
  | 75 => csiK s (s.par 0)
  | 76 => csiL s (s.par 0)
  | 77 => csiM s (s.par 0)
  | 80 => csiP s (s.par 0)
  | 64 => csiAt s (s.par 0)
  | 109 => csim s
  | 114 => setRegion s
  | 115 => saveCur s
  | 117 => restoreCur s
  | _ => s

def parameter (s : Screen) (c : ℕ) : Screen :=
  if c = 59 ∧ s.npar < NPAR - 1 then { s with npar := s.npar + 1 }
  else if 48 ≤ c ∧ c ≤ 57 then
    setPar s s.npar (addl (mull 10 (s.par s.npar)) (c - 48))
  else csi s c

def putByte (eraseKey : ℕ) (s : Screen) (c : ℕ) : Screen :=
  match s.state with
  | 0 => plain eraseKey s c
  | 1 => escape s c
  | 2 =>
    let s := { s with par := fun _ => 0, npar := 0, state := 3, ques := c = 63 }
    if c = 63 then s else parameter s c
  | 3 => parameter s c
  | 4 => csi s c
  | _ => s

/-- The bytes in the write queue, and the erase character of the terminal. -/
def conWrite (s : Screen) (chunk : ℕ × List UInt8) : Screen :=
  setCursor (chunk.2.foldl (fun s c => putByte chunk.1 s c.toNat) s)

/-! ### `con_init` -/

/-- What the boot code has left at `0x90000`: the cursor, the video mode with the number of columns,
    and the display information of the BIOS. -/
structure Boot where
  origX : UInt8
  origY : UInt8
  videoMode : UInt16
  egaBx : UInt16

def Boot.columns (b : Boot) : ℕ := b.videoMode.toNat / 256

def ORIG_VIDEO_LINES : ℕ := 25

/-- `0x10` says that there is no EGA. -/
def display (b : Boot) : VideoType × ℕ × ℕ × List ℕ :=
  if b.videoMode.toNat % 256 = 7 then
    if b.egaBx.toNat % 256 ≠ 16 then (.egam, 0xb0000, 0xb8000, [69, 71, 65, 109])
    else (.mda, 0xb0000, 0xb2000, [42, 77, 68, 65])
  else
    if b.egaBx.toNat % 256 ≠ 16 then (.egac, 0xb8000, 0xbc000, [69, 71, 65, 99])
    else (.cga, 0xb8000, 0xba000, [42, 67, 71, 65])

def video (b : Boot) : Video where
  type := (display b).1
  columns := b.columns
  sizeRow := mull b.columns 2
  lines := ORIG_VIDEO_LINES
  memStart := (display b).2.1
  memEnd := (display b).2.2.1
  eraseChar := 0x720

/-- The console before `gotoxy`: `pos` is still `0`. -/
def conStart (b : Boot) (cell : ℕ → ℕ) : Screen where
  video := video b
  origin := (video b).memStart
  scrEnd := addl (video b).memStart (mull (video b).lines (video b).sizeRow)
  pos := 0
  x := 0
  y := 0
  top := 0
  bottom := (video b).lines
  state := 0
  npar := 0
  par := fun _ => 0
  ques := false
  attr := 7
  savedX := 0
  savedY := 0
  beepcount := 0
  start := (0, 0)
  cursor := (0, 0)
  readQueue := []
  mem := VideoMemory.showText (display b).2.2.2 (subl (addl (video b).memStart (video b).sizeRow) 8) ⟨cell, []⟩

def conInit (b : Boot) (cell : ℕ → ℕ) : Screen :=
  gotoxy (conStart b cell) b.origX.toNat b.origY.toNat

end Linux011.Console
