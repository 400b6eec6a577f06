import Mathlib

set_option autoImplicit false

/-!
# Page tables and page counts (mm/memory.c)

Physical memory is a table of page frames of 1024 words each; page addresses are
frame numbers, an entry is `frame * 4096 + flags`. The page directory is frame 0
(`_pg_dir = 0`) and its first four tables are the kernel's frames 1 to 4. There is
no TLB in the model, so `invalidate()` has nothing to do.
-/
namespace Linux011.Memory

/-- `LOW_MEM >> 12`. -/
@[simp] def LOW_MEM : ℕ := 256
@[simp] def PAGING_PAGES : ℕ := 3840
@[simp] def USED : ℕ := 100

structure Mm where
  mem : ℕ → ℕ → ℕ
  memMap : ℕ → ℕ
  highMemory : ℕ

def mapNr (page : ℕ) : ℕ := page - LOW_MEM

/-! Bits of an entry: 0 present, 1 read/write, 2 user, 5 accessed, 6 dirty. -/

def present (e : ℕ) : Prop := e % 2 = 1
def writable (e : ℕ) : Prop := e / 2 % 2 = 1
def dirty (e : ℕ) : Prop := e / 64 % 2 = 1
def frame (e : ℕ) : ℕ := e / 4096
def clearWrite (e : ℕ) : ℕ := if e / 2 % 2 = 1 then e - 2 else e
def setWrite (e : ℕ) : ℕ := if e / 2 % 2 = 1 then e else e + 2
/-- The processor's mark on the entry of a page it stores into. -/
def setDirty (e : ℕ) : ℕ := if e / 64 % 2 = 1 then e else e + 64
/-- `page | 7`: present, writable, user. -/
def entryOf (page : ℕ) : ℕ := page * 4096 + 7

instance (e : ℕ) : Decidable (present e) := inferInstanceAs (Decidable (_ = _))
instance (e : ℕ) : Decidable (writable e) := inferInstanceAs (Decidable (_ = _))
instance (e : ℕ) : Decidable (dirty e) := inferInstanceAs (Decidable (_ = _))

theorem present_zero : ¬ present 0 := by decide

@[simp] theorem present_entryOf (p : ℕ) : present (entryOf p) := by
  unfold present entryOf
  omega

@[simp] theorem writable_entryOf (p : ℕ) : writable (entryOf p) := by
  unfold writable entryOf
  omega

@[simp] theorem frame_entryOf (p : ℕ) : frame (entryOf p) = p := by
  unfold frame entryOf
  omega

@[simp] theorem dirty_entryOf (p : ℕ) : ¬ dirty (entryOf p) := by
  unfold dirty entryOf
  omega

@[simp] theorem frame_clearWrite (e : ℕ) : frame (clearWrite e) = frame e := by
  unfold frame clearWrite
  split_ifs <;> omega

@[simp] theorem present_clearWrite (e : ℕ) : present (clearWrite e) ↔ present e := by
  unfold present clearWrite
  split_ifs <;> omega

@[simp] theorem writable_clearWrite (e : ℕ) : ¬ writable (clearWrite e) := by
  unfold writable clearWrite
  split_ifs <;> omega

@[simp] theorem dirty_clearWrite (e : ℕ) : dirty (clearWrite e) ↔ dirty e := by
  unfold dirty clearWrite
  split_ifs <;> omega

@[simp] theorem frame_setWrite (e : ℕ) : frame (setWrite e) = frame e := by
  unfold frame setWrite
  split_ifs <;> omega

@[simp] theorem present_setWrite (e : ℕ) : present (setWrite e) ↔ present e := by
  unfold present setWrite
  split_ifs <;> omega

@[simp] theorem writable_setWrite (e : ℕ) : writable (setWrite e) := by
  unfold writable setWrite
  split_ifs <;> omega

@[simp] theorem dirty_setWrite (e : ℕ) : dirty (setWrite e) ↔ dirty e := by
  unfold dirty setWrite
  split_ifs <;> omega

@[simp] theorem frame_setDirty (e : ℕ) : frame (setDirty e) = frame e := by
  unfold frame setDirty
  split_ifs <;> omega

@[simp] theorem present_setDirty (e : ℕ) : present (setDirty e) ↔ present e := by
  unfold present setDirty
  split_ifs <;> omega

@[simp] theorem writable_setDirty (e : ℕ) : writable (setDirty e) ↔ writable e := by
  unfold writable setDirty
  split_ifs <;> omega

@[simp] theorem dirty_setDirty (e : ℕ) : dirty (setDirty e) := by
  unfold dirty setDirty
  split_ifs <;> omega

def dirIndex (address : ℕ) : ℕ := address / 4194304 % 1024
def tableIndex (address : ℕ) : ℕ := address / 4096 % 1024

/-- Why a function did not come back with its result: it returned its error value, it called
    `oom` (which never returns: the task exits), or the kernel stopped. -/
inductive Stop where
  | outOfMemory
  | oom
  | nonexistentPage
  | freeFreePage
  | wrongAlignment
  | swapperMemory
  | alreadyExist
  | toPageExists
  deriving DecidableEq

inductive Res (α : Type) where
  | ok (a : α) (m : Mm)
  | stop (why : Stop) (m : Mm)

def Res.bind {α β : Type} : Res α → (α → Mm → Res β) → Res β
  | .ok a m, f => f a m
  | .stop w m, _ => .stop w m

/-- `for (i = 0; i < n; i++)`, left at the first turn that does not come back. -/
def forUpto (n : ℕ) (body : ℕ → Mm → Res Unit) (m : Mm) : Res Unit :=
  match n with
  | 0 => .ok () m
  | n + 1 => (forUpto n body m).bind fun _ m => body n m

def Mm.write (m : Mm) (page i v : ℕ) : Mm :=
  { m with mem := Function.update m.mem page (Function.update (m.mem page) i v) }

def Mm.fill (m : Mm) (page : ℕ) (words : ℕ → ℕ) : Mm :=
  { m with mem := Function.update m.mem page words }

/-- A store into `mem_map`, an array of unsigned char. -/
def Mm.setMap (m : Mm) (i v : ℕ) : Mm :=
  { m with memMap := Function.update m.memMap i (v % 256) }

section
variable (m : Mm) (page i v : ℕ) (words : ℕ → ℕ)

@[simp] theorem Mm.write_memMap : (m.write page i v).memMap = m.memMap := rfl
@[simp] theorem Mm.write_high : (m.write page i v).highMemory = m.highMemory := rfl
@[simp] theorem Mm.fill_memMap : (m.fill page words).memMap = m.memMap := rfl
@[simp] theorem Mm.fill_high : (m.fill page words).highMemory = m.highMemory := rfl
@[simp] theorem Mm.setMap_mem : (m.setMap i v).mem = m.mem := rfl
@[simp] theorem Mm.setMap_high : (m.setMap i v).highMemory = m.highMemory := rfl

theorem Mm.write_mem_ne {q : ℕ} (h : q ≠ page) : (m.write page i v).mem q = m.mem q :=
  Function.update_of_ne h _ _

theorem Mm.fill_mem_ne {q : ℕ} (h : q ≠ page) : (m.fill page words).mem q = m.mem q :=
  Function.update_of_ne h _ _

@[simp] theorem Mm.fill_mem_self : (m.fill page words).mem page = words :=
  Function.update_self _ _ _

theorem Mm.write_mem_self (j : ℕ) :
    (m.write page i v).mem page j = if j = i then v else m.mem page j := by
  simp only [Mm.write, Function.update_self, Function.update_apply]

theorem Mm.setMap_memMap (j : ℕ) :
    (m.setMap i v).memMap j = if j = i then v % 256 else m.memMap j := by
  simp only [Mm.setMap, Function.update_apply]

end

/-- `repne scasb` from the last byte of `mem_map` down. -/
def findFree (memMap : ℕ → ℕ) : ℕ → Option ℕ
  | 0 => none
  | n + 1 => if memMap n = 0 then some n else findFree memMap n

def getFreePage (m : Mm) : Option (ℕ × Mm) :=
  (findFree m.memMap PAGING_PAGES).map fun i =>
    (LOW_MEM + i, (m.setMap i 1).fill (LOW_MEM + i) fun _ => 0)

def freePage (page : ℕ) (m : Mm) : Res Unit :=
  if page < LOW_MEM then .ok () m
  else if page ≥ m.highMemory then .stop .nonexistentPage m
  else
    let i := mapNr page
    if m.memMap i ≠ 0 then .ok () (m.setMap i (m.memMap i - 1))
    else .stop .freeFreePage (m.setMap i 0)

/-- One turn of the inner loop of `free_page_tables`. -/
def freeEntry (table nr : ℕ) (m : Mm) : Res Unit :=
  (if present (m.mem table nr) then freePage (frame (m.mem table nr)) m else .ok () m).bind
    fun _ m => .ok () (m.write table nr 0)

def freeDir (dir : ℕ) (m : Mm) : Res Unit :=
  if ¬ present (m.mem 0 dir) then .ok () m
  else
    let table := frame (m.mem 0 dir)
    (forUpto 1024 (freeEntry table) m).bind fun _ m =>
      (freePage (frame (m.mem 0 dir)) m).bind fun _ m => .ok () (m.write 0 dir 0)

/-- `(size + 0x3fffff) >> 22`. -/
def dirs (size : ℕ) : ℕ := (size + 4194303) / 4194304

def freePageTables (start size : ℕ) (m : Mm) : Res Unit :=
  if start % 4194304 ≠ 0 then .stop .wrongAlignment m
  else if start = 0 then .stop .swapperMemory m
  else forUpto (dirs size) (fun k => freeDir (dirIndex start + k)) m

/-- One turn of the inner loop of `copy_page_tables`. -/
def copyEntry (fromTable toTable i : ℕ) (m : Mm) : Mm :=
  let thisPage := m.mem fromTable i
  if ¬ present thisPage then m
  else
    let thisPage := clearWrite thisPage
    let m := m.write toTable i thisPage
    if thisPage > LOW_MEM * 4096 then
      let m := m.write fromTable i thisPage
      let nr := (thisPage - LOW_MEM * 4096) / 4096
      m.setMap nr (m.memMap nr + 1)
    else m

def copyDir (fromDir toDir nr : ℕ) (m : Mm) : Res Unit :=
  if present (m.mem 0 toDir) then .stop .alreadyExist m
  else if ¬ present (m.mem 0 fromDir) then .ok () m
  else
    let fromTable := frame (m.mem 0 fromDir)
    match getFreePage m with
    | none => .stop .outOfMemory m
    | some (toTable, m) =>
      forUpto nr (fun i m => .ok () (copyEntry fromTable toTable i m))
        (m.write 0 toDir (entryOf toTable))

/-- Task 0's first fork copies 160 entries only (640kB). -/
def copyPageTables (fromAddr toAddr size : ℕ) (m : Mm) : Res Unit :=
  if fromAddr % 4194304 ≠ 0 ∨ toAddr % 4194304 ≠ 0 then .stop .wrongAlignment m
  else
    let nr := if fromAddr = 0 then 160 else 1024
    forUpto (dirs size) (fun k => copyDir (dirIndex fromAddr + k) (dirIndex toAddr + k) nr) m

/-- `copy_mem`: a copy that ran out of memory is taken back. -/
def copyMem (fromAddr toAddr size : ℕ) (m : Mm) : Res Unit :=
  match copyPageTables fromAddr toAddr size m with
  | .stop .outOfMemory m =>
    (freePageTables toAddr size m).bind fun _ m => .stop .outOfMemory m
  | r => r

/-- The two `printk` warnings of `put_page` change nothing and are left out. -/
def putPage (page address : ℕ) (m : Mm) : Res Unit :=
  let e := m.mem 0 (dirIndex address)
  if present e then .ok () (m.write (frame e) (tableIndex address) (entryOf page))
  else match getFreePage m with
    | none => .stop .outOfMemory m
    | some (tmp, m) =>
      .ok () ((m.write 0 (dirIndex address) (entryOf tmp)).write tmp (tableIndex address)
        (entryOf page))

def unWpPage (table i : ℕ) (m : Mm) : Res Unit :=
  let e := m.mem table i
  let oldPage := frame e
  if oldPage ≥ LOW_MEM ∧ m.memMap (mapNr oldPage) = 1 then .ok () (m.write table i (setWrite e))
  else match getFreePage m with
    | none => .stop .oom m
    | some (newPage, m) =>
      let m := if oldPage ≥ LOW_MEM then
        m.setMap (mapNr oldPage) (m.memMap (mapNr oldPage) + 255) else m
      let m := m.write table i (entryOf newPage)
      .ok () (m.fill newPage (m.mem oldPage))

def doWpPage (address : ℕ) (m : Mm) : Res Unit :=
  unWpPage (frame (m.mem 0 (dirIndex address))) (tableIndex address) m

def writeVerify (address : ℕ) (m : Mm) : Res Unit :=
  let e := m.mem 0 (dirIndex address)
  if ¬ present e then .ok () m
  else if m.mem (frame e) (tableIndex address) % 4 = 1 then
    unWpPage (frame e) (tableIndex address) m
  else .ok () m

def getEmptyPage (address : ℕ) (m : Mm) : Res Unit :=
  match getFreePage m with
  | none => (freePage 0 m).bind fun _ m => .stop .oom m
  | some (tmp, m) =>
    match putPage tmp address m with
    | .stop .outOfMemory m => (freePage tmp m).bind fun _ m => .stop .oom m
    | r => r

/-- `try_to_share`, with `start_code` of the other task and of the current one; `true` when the
    page is now shared. -/
def tryToShare (address pStart start : ℕ) (m : Mm) : Res Bool :=
  let fromDir := dirIndex address + dirIndex pStart
  let toDir := dirIndex address + dirIndex start
  let e := m.mem 0 fromDir
  if ¬ present e then .ok false m
  else
    let fromTable := frame e
    let physAddr := m.mem fromTable (tableIndex address)
    if ¬ (present physAddr ∧ ¬ dirty physAddr) then .ok false m
    else if frame physAddr ≥ m.highMemory ∨ frame physAddr < LOW_MEM then .ok false m
    else
      let r : Res ℕ :=
        if present (m.mem 0 toDir) then .ok (frame (m.mem 0 toDir)) m
        else match getFreePage m with
          | none => .stop .oom m
          | some (tmp, m) => .ok tmp (m.write 0 toDir (entryOf tmp))
      r.bind fun toTable m =>
        if present (m.mem toTable (tableIndex address)) then .stop .toPageExists m
        else
          let shared := clearWrite (m.mem fromTable (tableIndex address))
          let m := m.write fromTable (tableIndex address) shared
          let m := m.write toTable (tableIndex address) (m.mem fromTable (tableIndex address))
          let nr := mapNr (frame physAddr)
          .ok true (m.setMap nr (m.memMap nr + 1))

/-- A store that the processor lets through; it marks the entry dirty. -/
def store (address v : ℕ) (m : Mm) : Mm :=
  let table := frame (m.mem 0 (dirIndex address))
  let e := m.mem table (tableIndex address)
  (m.write table (tableIndex address) (setDirty e)).write (frame e) (address % 4096 / 4) v

/-- `mem_init`, over whatever `setup_paging` left in memory. -/
def memInit (startMem endMem : ℕ) (mem : ℕ → ℕ → ℕ) : Mm where
  mem := mem
  memMap i := if mapNr startMem ≤ i ∧ i < mapNr startMem + (endMem - startMem) then 0 else USED
  highMemory := endMem

section
variable (startMem endMem : ℕ) (mem : ℕ → ℕ → ℕ)

@[simp] theorem memInit_mem : (memInit startMem endMem mem).mem = mem := rfl
@[simp] theorem memInit_high : (memInit startMem endMem mem).highMemory = endMem := rfl

theorem memInit_memMap (i : ℕ) : (memInit startMem endMem mem).memMap i =
    if mapNr startMem ≤ i ∧ i < mapNr startMem + (endMem - startMem) then 0 else USED := by
  unfold memInit
  with_reducible rfl

end

/-- What `setup_paging` builds: four kernel tables that map all memory to itself, and nothing
    beyond them. -/
structure PagingSetup (mem : ℕ → ℕ → ℕ) : Prop where
  kernelDir : ∀ d < 4, mem 0 d = entryOf (d + 1)
  kernelTable : ∀ d < 4, ∀ i < 1024, mem (d + 1) i = entryOf (d * 1024 + i)
  userDir : ∀ d, 4 ≤ d → mem 0 d = 0

/-- The smallest such memory. -/
def setupPaging (page i : ℕ) : ℕ :=
  if page = 0 then if i < 4 then entryOf (i + 1) else 0
  else if page < 5 then entryOf ((page - 1) * 1024 + i)
  else 0

theorem setupPaging_spec : PagingSetup setupPaging := by
  refine ⟨?_, ?_, ?_⟩
  · intro d hd
    simp [setupPaging, hd]
  · intro d hd i _
    simp [setupPaging, show d + 1 < 5 by omega]
  · intro d hd
    simp [setupPaging, show ¬ d < 4 by omega]

end Linux011.Memory
