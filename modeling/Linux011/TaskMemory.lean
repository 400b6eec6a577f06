import Linux011.MemoryRuns

set_option autoImplicit false

/-!
# Tasks over the page tables

What a task may do to its own slot: fault, store, fork, execute a file, exit, and make
a system call that verifies a user buffer and later stores into it. A system call can
sleep between any two of its steps, so the steps of all tasks interleave freely.
-/
namespace Linux011.TaskMemory
open Memory

/-- The executables: the blocks `bmap` finds (`none` for a hole), and `a_text + a_data`. -/
structure Files where
  block : ℕ → ℕ → Option (ℕ → ℕ)
  endData : ℕ → ℕ

/-- Byte `b` of a page after `bread_page` and the clearing of everything from `end_data` on. -/
def loadByte (files : Files) (inode tmp endData b : ℕ) : ℕ :=
  if endData ≤ tmp + b then 0
  else match files.block inode (1 + tmp / 1024 + b / 1024) with
    | some data => data (b % 1024)
    | none => 0

/-- The page `do_no_page` loads at offset `tmp`, as little-endian words. -/
def loadPage (files : Files) (inode tmp endData w : ℕ) : ℕ :=
  loadByte files inode tmp endData (4 * w) + 256 * loadByte files inode tmp endData (4 * w + 1) +
    65536 * loadByte files inode tmp endData (4 * w + 2) +
    16777216 * loadByte files inode tmp endData (4 * w + 3)

inductive Phase where
  | running
  /-- `do_execve` past the point of no return, its tables not yet freed -/
  | exec
  | exiting
  deriving DecidableEq

structure Proc where
  executable : Option ℕ
  endData : ℕ
  phase : Phase
  /-- linear address and size of the buffer the running system call has verified -/
  verified : Option (ℕ × ℕ)
  /-- the page `do_no_page` is reading in, and the address it is for -/
  loading : Option (ℕ × ℕ)
  deriving DecidableEq

/-- `stale` is a history mark that the code never reads: the entry may be clean and its page
    still differ from the file. -/
structure Kernel where
  held : Finset ℕ
  mm : Mm
  proc : ℕ → Option Proc
  stale : ℕ → ℕ → Bool

def Kernel.setProc (k : Kernel) (s : ℕ) (p : Option Proc) : Kernel :=
  { k with proc := Function.update k.proc s p }

def Kernel.mark (k : Kernel) (d i : ℕ) (b : Bool) : Kernel :=
  { k with stale := fun d' i' => if d' = d ∧ i' = i then b else k.stale d' i' }

inductive Event where
  | noPage (address iCount : ℕ)
  | loaded
  | wpPage (address : ℕ)
  | userStore (address v : ℕ)
  | verifyArea (start size : ℕ)
  | kernelStore (address v : ℕ)
  | sysReturn
  | fork (child size : ℕ)
  | execBegin (inode : ℕ)
  | execEnd (codeLimit dataLimit : ℕ)
  | putArg (page address : ℕ) (words : ℕ → ℕ)
  | exit (codeLimit dataLimit : ℕ)
  | gone
  | getPage
  | freePage (page : ℕ)

/-- How a turn of the kernel ends: it goes on, the task gave up in `oom`, or the kernel stopped. -/
inductive Turn where
  | go (k : Kernel)
  | oom (k : Kernel)
  | halt

def Turn.bind : Turn → (Kernel → Turn) → Turn
  | .go k, f => f k
  | .oom k, _ => .oom k
  | .halt, _ => .halt

def ofRes {α : Type} (k : Kernel) (next : α → Mm → Turn) : Res α → Turn
  | .ok a m => next a m
  | .stop .outOfMemory m | .stop .oom m => .oom { k with mm := m }
  | .stop _ _ => .halt

def Proc.abandon (p : Proc) : Proc := { p with verified := none, loading := none }

/-- A task that runs out of memory leaves its system call for `do_exit`. -/
def Turn.settle (s : ℕ) : Turn → Option Kernel
  | .go k => some k
  | .oom k => some (k.setProc s ((k.proc s).map Proc.abandon))
  | .halt => none

/-- `un_wp_page` copies, rather than hands over. -/
def copies (m : Mm) (e : ℕ) : Prop := ¬ (frame e ≥ LOW_MEM ∧ m.memMap (mapNr (frame e)) = 1)

instance (m : Mm) (e : ℕ) : Decidable (copies m e) := inferInstanceAs (Decidable (¬ _))

/-- The mark after `un_wp_page`: a copy of a dirty page is clean. -/
def unWpMark (k : Kernel) (d i : ℕ) : Bool :=
  if copies k.mm (pte k.mm d i) then decide (dirty (pte k.mm d i)) || k.stale d i
  else k.stale d i

/-- `share_page`, from `LAST_TASK` down: the task shared with, if any. -/
def sharePage (k : Kernel) (s inode tmp : ℕ) : ℕ → Mm → Res (Option ℕ)
  | 0, m => .ok none m
  | t + 1, m =>
    match k.proc (t + 1) with
    | none => sharePage k s inode tmp t m
    | some p =>
      if t + 1 = s ∨ p.executable ≠ some inode then sharePage k s inode tmp t m
      else (tryToShare tmp (slotBase (t + 1)) (slotBase s) m).bind fun shared m =>
        if shared then .ok (some (t + 1)) m else sharePage k s inode tmp t m

/-- `i_count` of the executable tells whether anybody else runs it. -/
def share (k : Kernel) (s inode tmp iCount : ℕ) : Res (Option ℕ) :=
  if iCount < 2 then .ok none k.mm else sharePage k s inode tmp 63 k.mm

def pageOf (address : ℕ) : ℕ := address / 4096 * 4096

def emptyPage (k : Kernel) (address : ℕ) : Turn :=
  ofRes k (fun _ m => .go ({ k with mm := m }.mark (dirIndex address) (tableIndex address) false))
    (getEmptyPage address k.mm)

/-- `do_no_page` up to the point where it sleeps in `bread_page`, or to its end. -/
def noPage (k : Kernel) (s : ℕ) (p : Proc) (address iCount : ℕ) : Turn :=
  let address := pageOf address
  let tmp := address - slotBase s
  match p.executable with
  | none => emptyPage k address
  | some inode =>
    if p.endData ≤ tmp then emptyPage k address
    else ofRes k (fun shared m => match shared with
      | some t => .go ({ k with mm := m }.mark (dirIndex address) (tableIndex address)
          (k.stale (dirIndex tmp + dirIndex (slotBase t)) (tableIndex tmp)))
      | none => match getFreePage m with
        | none => .oom { k with mm := m }
        | some (page, m) =>
          .go ({ k with held := insert page k.held, mm := m }.setProc s
            (some { p with loading := some (page, address) })))
      (share k s inode tmp iCount)

/-- The rest of `do_no_page`. -/
def loaded (files : Files) (k : Kernel) (s : ℕ) (p : Proc) (inode page address : ℕ) : Turn :=
  let m := k.mm.fill page (loadPage files inode (address - slotBase s) p.endData)
  match putPage page address m with
  | .ok _ m =>
    .go (({ k with held := k.held.erase page, mm := m }.mark (dirIndex address)
      (tableIndex address) false).setProc s (some { p with loading := none }))
  | .stop .outOfMemory m =>
    ofRes k (fun _ m => .oom { k with held := k.held.erase page, mm := m }) (freePage page m)
  | _ => .halt

def wpPage (k : Kernel) (address : ℕ) : Turn :=
  ofRes k (fun _ m => .go ({ k with mm := m }.mark (dirIndex address) (tableIndex address)
    (unWpMark k (dirIndex address) (tableIndex address)))) (doWpPage address k.mm)

/-- `write_verify`, with the mark of the entry it may replace. -/
def verifyPage (k : Kernel) (address : ℕ) : Turn :=
  let e := entryAt k.mm address
  ofRes k (fun _ m => .go (if e % 4 = 1 then
      { k with mm := m }.mark (dirIndex address) (tableIndex address)
        (unWpMark k (dirIndex address) (tableIndex address))
    else { k with mm := m })) (writeVerify address k.mm)

/-- The turns of the loop of `verify_area`, whose `size` is an int. -/
def verifyCount (start size : ℕ) : ℕ :=
  let size := (size + start % 4096) % 4294967296
  if size < 2147483648 then (size + 4095) / 4096 else 0

def verifyPages (start : ℕ) : ℕ → Kernel → Turn
  | 0, k => .go k
  | n + 1, k => (verifyPages start n k).bind fun k =>
    verifyPage k ((pageOf start + 4096 * n) % 4294967296)

/-- A store of the kernel's through a user address: write protection is not honoured. The other
    entries of a page that changes become stale. -/
def kernelStore (k : Kernel) (address v : ℕ) : Kernel :=
  let e := entryAt k.mm address
  { k with
    mm := store address v k.mm
    stale := fun d i =>
      if d = dirIndex address ∧ i = tableIndex address then false
      else if mapsTo (pte k.mm d i) (frame e) ∧ k.mm.mem (frame e) (address % 4096 / 4) ≠ v then
        true
      else k.stale d i }

/-- The child has its parent's entries, as far as they were copied. -/
def forkMark (k : Kernel) (s child size : ℕ) : ℕ → ℕ → Bool := fun d i =>
  if d / 16 = child then
    if s ≠ 0 ∧ d % 16 < dirs size ∧ present (pte k.mm (16 * s + d % 16) i) then
      k.stale (16 * s + d % 16) i
    else true
  else k.stale d i

def fork (k : Kernel) (s : ℕ) (p : Proc) (child size : ℕ) : Turn :=
  ofRes k (fun _ m => .go ({ k with mm := m, stale := forkMark k s child size }.setProc child
    (some p))) (copyMem (slotBase s) (slotBase child) size k.mm)

def freeTables (k : Kernel) (s limit : ℕ) : Turn :=
  ofRes k (fun _ m => .go { k with mm := m }) (freePageTables (slotBase s) limit k.mm)

def ownAddress (s address : ℕ) : Prop := 1 ≤ s ∧ s < 64 ∧ address / slotBase 1 = s

instance (s address : ℕ) : Decidable (ownAddress s address) := inferInstanceAs (Decidable (_ ∧ _))

def inVerified (p : Proc) (address : ℕ) : Prop :=
  ∃ r ∈ p.verified, r.1 ≤ address ∧ address < r.1 + r.2

instance (p : Proc) (address : ℕ) : Decidable (inVerified p address) := by
  unfold inVerified
  infer_instance

/-- A task in user mode or in a system call, not asleep in a fault. -/
def awake (p : Proc) : Prop := p.phase = .running ∧ p.loading = none

/-- A task in user mode, or in a system call that has verified nothing. -/
def free (p : Proc) : Prop := awake p ∧ p.verified = none

instance (p : Proc) : Decidable (awake p) := inferInstanceAs (Decidable (_ ∧ _))
instance (p : Proc) : Decidable (free p) := inferInstanceAs (Decidable (_ ∧ _))

/-- The page is being read in for some task. -/
def isLoading (k : Kernel) (page : ℕ) : Prop :=
  ∃ t < 64, ((k.proc t).bind Proc.loading).map Prod.fst = some page

instance (k : Kernel) (page : ℕ) : Decidable (isLoading k page) := by
  unfold isLoading
  infer_instance

/-- One step of the task in slot `s`. -/
def step (files : Files) (k : Kernel) (s : ℕ) (p : Proc) : Event → Turn
  | .noPage address iCount =>
    if awake p ∧ ownAddress s address ∧ ¬ present (entryAt k.mm address) then
      noPage k s p address iCount
    else .halt
  | .loaded => match p.executable, p.loading with
    | some inode, some (page, address) => loaded files k s p inode page address
    | _, _ => .halt
  | .wpPage address =>
    if awake p ∧ ownAddress s address ∧ present (entryAt k.mm address) ∧
        ¬ writable (entryAt k.mm address) then wpPage k address
    else .halt
  | .userStore address v =>
    if free p ∧ ownAddress s address ∧ present (entryAt k.mm address) ∧
        writable (entryAt k.mm address) then
      .go ({ k with mm := store address v k.mm }.mark (dirIndex address) (tableIndex address) false)
    else .halt
  | .verifyArea start size =>
    if free p ∧ start < 4294967296 ∧ size < 2147483648 then
      (verifyPages start (verifyCount start size) k).bind fun k =>
        .go (k.setProc s (some { p with verified := some (start, size) }))
    else .halt
  | .kernelStore address v =>
    if awake p ∧ ownAddress s address ∧ present (entryAt k.mm address) ∧
        (inVerified p address ∨ LOW_MEM ≤ frame (entryAt k.mm address)) then
      .go (kernelStore k address v)
    else .halt
  | .sysReturn => if awake p then .go (k.setProc s (some { p with verified := none })) else .halt
  | .fork child size =>
    if free p ∧ s < 64 ∧ 1 ≤ child ∧ child < 64 ∧ k.proc child = none ∧ dirs size ≤ 16 ∧
        (s = 0 → dirs size ≤ 1) then fork k s p child size
    else .halt
  | .execBegin inode =>
    if free p ∧ 1 ≤ s ∧ files.endData inode ≤ 50331648 then
      .go ({ k with stale := fun d i => if d / 16 = s then true else k.stale d i }.setProc s
        (some { p with executable := some inode, phase := .exec }))
    else .halt
  | .execEnd codeLimit dataLimit => match p.phase, p.executable with
    | .exec, some inode =>
      if 1 ≤ s ∧ s < 64 ∧ dirs codeLimit ≤ 16 ∧ dirs dataLimit ≤ 16 then
        ((freeTables k s codeLimit).bind fun k => freeTables k s dataLimit).bind fun k =>
          .go (k.setProc s (some { p with endData := files.endData inode, phase := .running }))
      else .halt
    | _, _ => .halt
  | .putArg page address words =>
    if awake p ∧ ownAddress s address ∧ ¬ present (entryAt k.mm address) ∧ page ∈ k.held ∧
        ¬ isLoading k page ∧ 66977792 ≤ address - slotBase s then
      match putPage page address (k.mm.fill page words) with
      | .ok _ m => .go ({ k with held := k.held.erase page, mm := m }.mark (dirIndex address)
          (tableIndex address) false)
      | .stop .outOfMemory m => .go { k with mm := m }
      | _ => .halt
    else .halt
  | .exit codeLimit dataLimit =>
    if 1 ≤ s ∧ s < 64 ∧ p.loading = none ∧ dirs codeLimit ≤ 16 ∧ dirs dataLimit ≤ 16 then
      ((freeTables k s codeLimit).bind fun k => freeTables k s dataLimit).bind fun k =>
        .go (k.setProc s (some { p with phase := .exiting, verified := none }))
    else .halt
  | .gone => if p.phase = .exiting ∧ p.loading = none then .go (k.setProc s none) else .halt
  | .getPage =>
    if p.loading = none then match getFreePage k.mm with
      | none => .oom k
      | some (page, m) => .go { k with held := insert page k.held, mm := m }
    else .halt
  | .freePage page =>
    if p.loading = none ∧ page ∈ k.held ∧ ¬ isLoading k page then
      ofRes k (fun _ m => .go { k with held := k.held.erase page, mm := m })
        (Memory.freePage page k.mm)
    else .halt

/-- Steps of any tasks in any order. -/
inductive Run (files : Files) (k₀ : Kernel) : List (Kernel × ℕ × Event) → Kernel → Prop
  | nil : Run files k₀ [] k₀
  | snoc {tr : List (Kernel × ℕ × Event)} {k k' : Kernel} {s : ℕ} {p : Proc} {ev : Event}
      (hr : Run files k₀ tr k) (hp : k.proc s = some p)
      (hs : (step files k s p ev).settle s = some k') : Run files k₀ (tr ++ [(k, s, ev)]) k'

/-- Where runs start: nothing is mapped in any slot. -/
structure Start (lo : ℕ) (files : Files) (k : Kernel) : Prop where
  good : Good lo ⟨k.held, k.mm⟩
  empty : ∀ d ∈ userDirs, ∀ i < 1024, ¬ present (pte k.mm d i)
  slots : ∀ t p, k.proc t = some p → t < 64 ∧ free p ∧ p.phase = .running
  executable : ∀ t p inode, k.proc t = some p → p.executable = some inode →
    p.endData = files.endData inode ∧ files.endData inode ≤ 50331648

end Linux011.TaskMemory
