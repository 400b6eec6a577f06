import Linux011.Execve
import Linux011.ForkUndo
import Linux011.ProcessTree

set_option autoImplicit false

/-!
# fork over the page tables (kernel/fork.c)

The memory of `Memory` together with the task table, `f_count` and `i_count`. The segments of a
task begin at its slot, and only their limits differ. Registers and times are left out.

A limit is what `get_limit` returns. `set_limit` of 0 gives a segment of 4GB, for which `get_limit`
returns 0.
-/
namespace Linux011.Fork
open Memory FiniteCount
open Exec (Header)
open ProcessTree (findPid findSlot)
open Scheduler (NR_TASKS)
open WaitQueue (TaskState)

def NR_OPEN : ℕ := 20

/-- `page` is where the task's own structure is; `info` is what fork, exit and waitpid use of it. -/
structure Task where
  page : ℕ
  info : ProcessTree.Task
  codeLimit : ℕ
  dataLimit : ℕ
  filp : ℕ → Option ℕ
  pwd : Option ℕ
  root : Option ℕ
  executable : Option ℕ

structure Kernel where
  held : Finset ℕ
  mm : Mm
  task : ℕ → Option Task
  lastPid : ℤ
  fCount : ℕ → ℕ
  iCount : ℕ → ℕ

/-- A call comes back with a number, comes back with `-EAGAIN`, or the kernel stops. -/
inductive Outcome where
  | forked (pid : ℤ) (k : Kernel)
  | again (k : Kernel)
  | stopped

/-- One more use of a file or of an inode, both counted in an unsigned short. -/
def grab (count : ℕ → ℕ) : Option ℕ → ℕ → ℕ
  | none => count
  | some i => Function.update count i ((count i + 1) % 65536)

/-- `copy_mem`; the bases of both segments are those of the slots. -/
def copyMem (cur : Task) (s nr : ℕ) (m : Mm) : Option (Res Unit) :=
  if cur.dataLimit < cur.codeLimit then none
  else some (Memory.copyMem (slotBase s) (slotBase nr) cur.dataLimit m)

def copyProcess (k : Kernel) (s : ℕ) (cur : Task) (nr : ℕ) : Outcome :=
  match getFreePage k.mm with
  | none => .again k
  | some (page, m) =>
    let p := { cur with
      page := page
      info := { cur.info with
        state := .uninterruptible, pid := k.lastPid, father := cur.info.pid, signal := 0,
        leader := false } }
    let k := { k with held := insert page k.held, mm := m, task := Function.update k.task nr (some p) }
    match copyMem cur s nr k.mm with
    | some (.ok _ m) =>
      .forked k.lastPid { k with
        mm := m
        fCount := (List.range NR_OPEN).foldl (fun count i => grab count (p.filp i)) k.fCount
        iCount := grab (grab (grab k.iCount cur.pwd) cur.root) cur.executable
        task := Function.update k.task nr
          (some { p with info := { p.info with state := .running } }) }
    | some (.stop .outOfMemory m) =>
      let k := { k with mm := m, task := Function.update k.task nr none }
      match freePage page k.mm with
      | .ok _ m => .again { k with held := k.held.erase page, mm := m }
      | .stop _ _ => .stopped
    | _ => .stopped

def sysFork (k : Kernel) (s : ℕ) (cur : Task) : Outcome :=
  let infos := fun i => (k.task i).map Task.info
  match findPid infos (NR_TASKS + 1) k.lastPid with
  | none => .stopped
  | some pid =>
    let k := { k with lastPid := pid }
    match findSlot infos with
    | none => .again k
    | some nr => copyProcess k s cur nr

/-! ### What else changes the memory of the tasks -/

/-- The two calls of `free_page_tables` in `do_execve` and in `do_exit`. -/
def freeTables (s : ℕ) (cur : Task) (m : Mm) : Res Unit :=
  (freePageTables (slotBase s) cur.codeLimit m).bind fun _ m =>
    freePageTables (slotBase s) cur.dataLimit m

def codeLimitOf (text : ℕ) : ℕ := (text + 4095) % 4294967296 / 4096 * 4096

/-- The end of `do_execve`: `change_ldt` gives 64MB of data. -/
def doExecve (k : Kernel) (s : ℕ) (cur : Task) (text : ℕ) : Option Kernel :=
  match freeTables s cur k.mm with
  | .ok _ m => some { k with
      mm := m
      task := Function.update k.task s (some { cur with
        codeLimit := codeLimitOf text, dataLimit := 67108864 }) }
  | .stop _ _ => none

def doExit (k : Kernel) (s : ℕ) (cur : Task) : Option Kernel :=
  match freeTables s cur k.mm with
  | .ok _ m => some { k with
      mm := m
      task := Function.update k.task s (some { cur with
        info := { cur.info with state := .zombie } }) }
  | .stop _ _ => none

def release (k : Kernel) (s : ℕ) (t : Task) : Option Kernel :=
  match freePage t.page k.mm with
  | .ok _ m => some { k with
      held := k.held.erase t.page, mm := m, task := Function.update k.task s none }
  | .stop _ _ => none

def notTask (k : Kernel) (page : ℕ) : Prop := ∀ i t, 1 ≤ i → k.task i = some t → t.page ≠ page

def Task.reach (t : Task) : ℕ :=
  max t.dataLimit (if t.codeLimit = 0 then 4294967296 else t.codeLimit)

def Task.Reaches (t : Task) (s address : ℕ) : Prop :=
  ∃ offset < t.reach, address = (slotBase s + offset) % 4294967296

/-- Calls for the task in slot `s`, which end at its limits; the pages of the tasks are not the
    caller's, and whole slots are copied and freed by fork, exec and exit. -/
def Task.Calls (t : Task) (k : Kernel) (s : ℕ) : Call → Prop
  | .getFreePage | .doWpPage _ | .writeVerify _ | .userStore _ _ => True
  | .freePage page => notTask k page
  | .getEmptyPage address => t.Reaches s address
  | .putPage page address => t.Reaches s address ∧ notTask k page
  | .tryToShare address _ current => current = s ∧ address < t.reach
  | .copyMem _ _ _ | .freePageTables _ _ => False

def Task.memory (t : Task) : ℕ × ℕ × ℕ × Bool :=
  (t.page, t.codeLimit, t.dataLimit, decide (t.info.state = .zombie))

/-- The code segment of the new program lies in its slot. The test of `do_execve` does not see to
    this: the sum of the sizes wraps, and a program without text gets a segment of 4GB. -/
def Confined (ex : Header) : Prop := 1 ≤ ex.text ∧ ex.text ≤ 67108864

/-- What tasks do, when the headers of the files that are executed have the property `P`. -/
inductive Step (P : Header → Prop) (k : Kernel) : Kernel → Prop
  | page {s : ℕ} {t : Task} {c : Call} {st : State} (ht : k.task s = some t)
      (hz : t.info.state ≠ .zombie) (ho : t.Calls k s c) (hc : c.Allowed ⟨k.held, k.mm⟩)
      (hr : outcome k.held (c.run ⟨k.held, k.mm⟩) = some st) :
      Step P k { k with held := st.held, mm := st.mm }
  | fork {s : ℕ} {t : Task} {pid : ℤ} {k' : Kernel} (ht : k.task s = some t)
      (hz : t.info.state ≠ .zombie) (hr : sysFork k s t = .forked pid k') : Step P k k'
  | again {s : ℕ} {t : Task} {k' : Kernel} (ht : k.task s = some t)
      (hz : t.info.state ≠ .zombie) (hr : sysFork k s t = .again k') : Step P k k'
  | exec {s size : ℕ} {ex : Header} {t : Task} {k' : Kernel} (ht : k.task s = some t)
      (hz : t.info.state ≠ .zombie) (hw : ex.text < 4294967296) (hv : ex.Valid size) (hP : P ex)
      (hr : doExecve k s t ex.text = some k') : Step P k k'
  | exit {s : ℕ} {t : Task} {k' : Kernel} (ht : k.task s = some t)
      (hz : t.info.state ≠ .zombie) (hr : doExit k s t = some k') : Step P k k'
  | release {s : ℕ} {t : Task} {k' : Kernel} (hs : 1 ≤ s) (ht : k.task s = some t)
      (hz : t.info.state = .zombie) (hr : release k s t = some k') : Step P k k'
  /-- everything else: files are opened and closed, tasks sleep and run -/
  | others {k' : Kernel} (hheld : k'.held = k.held) (hmm : k'.mm = k.mm)
      (htask : ∀ i, (k'.task i).map Task.memory = (k.task i).map Task.memory) : Step P k k'

inductive Reachable (P : Header → Prop) (k₀ : Kernel) : Kernel → Prop
  | init : Reachable P k₀ k₀
  | step {k k' : Kernel} (h : Reachable P k₀ k) (hs : Step P k k') : Reachable P k₀ k'

/-- After `mem_init` there is task 0, with the 640kB of `INIT_TASK`. -/
structure Start (startMem endMem : ℕ) (mem : ℕ → ℕ → ℕ) (k : Kernel) : Prop where
  low : LOW_MEM ≤ startMem
  high : endMem ≤ LOW_MEM + PAGING_PAGES
  paging : PagingSetup mem
  held : k.held = ∅
  mm : k.mm = memInit startMem endMem mem
  task : ∀ i t, k.task i = some t →
    i = 0 ∧ t.codeLimit = 655360 ∧ t.dataLimit = 655360 ∧ t.info.state ≠ .zombie

/-- Everything as before, but for the read/write bits of the slot of the caller. -/
structure AsBefore (s : ℕ) (k k' : Kernel) : Prop where
  memMap : ∀ i < PAGING_PAGES, k'.mm.memMap i = k.mm.memMap i
  pgDir : ∀ d < 1024, k'.mm.mem 0 d = k.mm.mem 0 d
  table : ∀ d < 1024, present (k.mm.mem 0 d) → ∀ i < 1024,
    k'.mm.mem (frame (k.mm.mem 0 d)) i = k.mm.mem (frame (k.mm.mem 0 d)) i ∨
    d / 16 = s ∧ k'.mm.mem (frame (k.mm.mem 0 d)) i = clearWrite (k.mm.mem (frame (k.mm.mem 0 d)) i)
  task : k'.task = k.task
  fCount : k'.fCount = k.fCount
  iCount : k'.iCount = k.iCount

end Linux011.Fork
