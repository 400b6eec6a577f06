import Linux011.Console
import Mathlib

set_option autoImplicit false

/-!
# The console without addresses

What a user of the console sees: the cells in their order, line by line, with the registers of the
parser. Nothing here knows where the screen begins, or how it is scrolled.
-/
namespace Linux011.Console

/-! ### Ranges of cells -/

/-- `count` cells from `start` on become `v`. -/
def fillCells (start count v : ℕ) (f : ℕ → ℕ) : ℕ → ℕ :=
  fun k => if start ≤ k ∧ k < start + count then v else f k

/-- `count` cells from `dst` on become those from `src` on. -/
def copyCells (src dst count : ℕ) (f : ℕ → ℕ) : ℕ → ℕ :=
  fun k => if dst ≤ k ∧ k < dst + count then f (src + (k - dst)) else f k

/-- The cells from address `o` on. -/
def VideoMemory.cells (m : VideoMemory) (o : ℕ) : ℕ → ℕ := fun k => m.cell (o + 2 * k)

/-- The first `n` cells. -/
def clip (n : ℕ) (f : ℕ → ℕ) : ℕ → ℕ := fun k => if k < n then f k else 0

theorem clip_fill {n start count : ℕ} (v : ℕ) (f : ℕ → ℕ) (h : start + count ≤ n) :
    clip n (fillCells start count v f) = fillCells start count v (clip n f) := by
  funext k
  simp only [clip, fillCells]
  split_ifs <;> first | rfl | omega

theorem clip_copy {n src dst count : ℕ} (f : ℕ → ℕ) (hs : src + count ≤ n) (hd : dst + count ≤ n) :
    clip n (copyCells src dst count f) = copyCells src dst count (clip n f) := by
  funext k
  simp only [clip, copyCells]
  split_ifs <;> first | rfl | omega

theorem fillCells_zero (start v : ℕ) (f : ℕ → ℕ) : fillCells start 0 v f = f := by
  funext k
  unfold fillCells
  split_ifs
  · omega
  · rfl

theorem copyCells_zero (src dst : ℕ) (f : ℕ → ℕ) : copyCells src dst 0 f = f := by
  funext k
  unfold copyCells
  split_ifs
  · omega
  · rfl

/-! ### The console -/

structure Picture where
  columns : ℕ
  lines : ℕ
  eraseChar : ℕ
  x : ℕ
  y : ℕ
  top : ℕ
  bottom : ℕ
  state : ℕ
  npar : ℕ
  par : ℕ → ℕ
  ques : Bool
  attr : ℕ
  savedX : ℕ
  savedY : ℕ
  beepcount : ℕ
  readQueue : List ℕ
  cells : ℕ → ℕ

/-- What is on the screen of a console. -/
def view (s : Screen) : Picture where
  columns := s.video.columns
  lines := s.video.lines
  eraseChar := s.video.eraseChar
  x := s.x
  y := s.y
  top := s.top
  bottom := s.bottom
  state := s.state
  npar := s.npar
  par := s.par
  ques := s.ques
  attr := s.attr
  savedX := s.savedX
  savedY := s.savedY
  beepcount := s.beepcount
  readQueue := s.readQueue
  cells := clip (s.video.lines * s.video.columns) (s.mem.cells s.origin)

namespace Picture

def gotoxy (p : Picture) (newX newY : ℕ) : Picture :=
  if newX > p.columns ∨ newY ≥ p.lines then p else { p with x := newX, y := newY }

/-- The cell of the cursor. -/
def cursor (p : Picture) : ℕ := p.y * p.columns + p.x

def erase (p : Picture) (count start : ℕ) : Picture :=
  { p with cells := fillCells start count p.eraseChar p.cells }

/-- The scrolling region moves up by one line. -/
def scrup (p : Picture) : Picture :=
  let moved := copyCells ((p.top + 1) * p.columns) (p.top * p.columns)
    ((p.bottom - p.top - 1) * p.columns) p.cells
  { p with cells := fillCells ((p.bottom - 1) * p.columns) p.columns p.eraseChar moved }

/-- The scrolling region moves down by one line. -/
def scrdown (p : Picture) : Picture :=
  let moved := copyCells (p.top * p.columns) ((p.top + 1) * p.columns)
    ((p.bottom - p.top - 1) * p.columns) p.cells
  { p with cells := fillCells (p.top * p.columns) p.columns p.eraseChar moved }

def lf (p : Picture) : Picture :=
  if p.y + 1 < p.bottom then { p with y := p.y + 1 } else scrup p

def ri (p : Picture) : Picture := if p.y > p.top then { p with y := p.y - 1 } else scrdown p

def cr (p : Picture) : Picture := { p with x := 0 }

/-- One column to the left. -/
def back (p : Picture) : Picture := { p with x := p.x - 1 }

def del (p : Picture) : Picture := if p.x ≠ 0 then erase (back p) 1 (cursor (back p)) else p

def csiJ (p : Picture) (par : ℕ) : Picture :=
  match par with
  | 0 => erase p (p.lines * p.columns - cursor p) (cursor p)
  | 1 => erase p (cursor p) 0
  | 2 => erase p (p.lines * p.columns) 0
  | _ => p

def csiK (p : Picture) (par : ℕ) : Picture :=
  match par with
  | 0 => if p.x ≥ p.columns then p else erase p (p.columns - p.x) (cursor p)
  | 1 => erase p (if p.x < p.columns then p.x else p.columns) (p.y * p.columns)
  | 2 => erase p p.columns (p.y * p.columns)
  | _ => p

def csim (p : Picture) : Picture :=
  { p with attr := (List.range (p.npar + 1)).foldl (fun a i => attrOf a (p.par i)) p.attr }

def respond (p : Picture) : Picture := { p with readQueue := p.readQueue ++ RESPONSE }

def insertChar (p : Picture) : Picture :=
  if p.x ≥ p.columns then p
  else
    let moved := copyCells (cursor p) (cursor p + 1) (p.columns - p.x - 1) p.cells
    { p with cells := fillCells (cursor p) 1 p.eraseChar moved }

def deleteChar (p : Picture) : Picture :=
  if p.x ≥ p.columns then p
  else
    let moved := copyCells (cursor p + 1) (cursor p) (p.columns - p.x - 1) p.cells
    { p with cells := fillCells (cursor p + (p.columns - p.x - 1)) 1 p.eraseChar moved }

def insertLine (p : Picture) : Picture :=
  { scrdown { p with top := p.y, bottom := p.lines } with top := p.top, bottom := p.bottom }

def deleteLine (p : Picture) : Picture :=
  { scrup { p with top := p.y, bottom := p.lines } with top := p.top, bottom := p.bottom }

def csiAt (p : Picture) (nr : ℕ) : Picture := insertChar^[times p.columns nr] p

def csiL (p : Picture) (nr : ℕ) : Picture := insertLine^[times p.lines nr] p

def csiP (p : Picture) (nr : ℕ) : Picture := deleteChar^[times p.columns nr] p

def csiM (p : Picture) (nr : ℕ) : Picture := deleteLine^[times p.lines nr] p

def saveCur (p : Picture) : Picture := { p with savedX := p.x, savedY := p.y }

def restoreCur (p : Picture) : Picture := gotoxy p p.savedX p.savedY

def sysbeep (p : Picture) : Picture := { p with beepcount := 100 / 8 }

/-- A line that is full goes on in the next one. -/
def wrap (p : Picture) : Picture := lf { p with x := p.x - p.columns }

def putChar (p : Picture) (c : ℕ) : Picture :=
  let p := if p.x ≥ p.columns then wrap p else p
  { p with cells := fillCells (cursor p) 1 (p.attr * 256 + c) p.cells, x := p.x + 1 }

def tab (p : Picture) : Picture :=
  let p := { p with x := p.x + (8 - p.x % 8) }
  if p.x > p.columns then wrap p else p

def plain (eraseKey : ℕ) (p : Picture) (c : ℕ) : Picture :=
  if 31 < c ∧ c < 127 then putChar p c
  else if c = 27 then { p with state := 1 }
  else if c = 10 ∨ c = 11 ∨ c = 12 then lf p
  else if c = 13 then cr p
  else if c = eraseKey ∧ c < 128 then del p
  else if c = 8 then
    if p.x ≠ 0 then back p else p
  else if c = 9 then tab p
  else if c = 7 then sysbeep p
  else p

def escape (p : Picture) (c : ℕ) : Picture :=
  let p := { p with state := 0 }
  if c = 91 then { p with state := 2 }
  else if c = 69 then gotoxy p 0 (addl p.y 1)
  else if c = 77 then ri p
  else if c = 68 then lf p
  else if c = 90 then respond p
  else if p.x = 55 then saveCur p
  else if p.x = 56 then restoreCur p
  else p

def setPar (p : Picture) (i n : ℕ) : Picture := { p with par := Function.update p.par i n }

def setRegion (p : Picture) : Picture :=
  let p := setPar p 0 (fromOne (p.par 0))
  let p := if p.par 1 = 0 then setPar p 1 p.lines else p
  if p.par 0 < p.par 1 ∧ p.par 1 ≤ p.lines then { p with top := p.par 0, bottom := p.par 1 } else p

def csi (p : Picture) (c : ℕ) : Picture :=
  let p := { p with state := 0 }
  let one := setPar p 0 (atLeastOne (p.par 0))
  let zero := setPar p 0 (fromOne (p.par 0))
  match c with
  | 71 | 96 => gotoxy zero (zero.par 0) p.y
  | 65 => gotoxy one p.x (subl p.y (one.par 0))
  | 66 | 101 => gotoxy one p.x (addl p.y (one.par 0))
  | 67 | 97 => gotoxy one (addl p.x (one.par 0)) p.y
  | 68 => gotoxy one (subl p.x (one.par 0)) p.y
  | 69 => gotoxy one 0 (addl p.y (one.par 0))
  | 70 => gotoxy one 0 (subl p.y (one.par 0))
  | 100 => gotoxy zero p.x (zero.par 0)
  | 72 | 102 =>
    let both := setPar zero 1 (fromOne (zero.par 1))
    gotoxy both (both.par 1) (both.par 0)
  | 74 => csiJ p (p.par 0)
  | 75 => csiK p (p.par 0)
  | 76 => csiL p (p.par 0)
  | 77 => csiM p (p.par 0)
  | 80 => csiP p (p.par 0)
  | 64 => csiAt p (p.par 0)
  | 109 => csim p
  | 114 => setRegion p
  | 115 => saveCur p
  | 117 => restoreCur p
  | _ => p

def parameter (p : Picture) (c : ℕ) : Picture :=
  if c = 59 ∧ p.npar < NPAR - 1 then { p with npar := p.npar + 1 }
  else if 48 ≤ c ∧ c ≤ 57 then setPar p p.npar (addl (mull 10 (p.par p.npar)) (c - 48))
  else csi p c

def putByte (eraseKey : ℕ) (p : Picture) (c : ℕ) : Picture :=
  match p.state with
  | 0 => plain eraseKey p c
  | 1 => escape p c
  | 2 =>
    let p := { p with par := fun _ => 0, npar := 0, state := 3, ques := c = 63 }
    if c = 63 then p else parameter p c
  | 3 => parameter p c
  | 4 => csi p c
  | _ => p

end Picture

end Linux011.Console
