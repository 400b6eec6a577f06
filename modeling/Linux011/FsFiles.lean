import Linux011.FsPaths

set_option autoImplicit false

/-!
# Open files (fs/open.c, fs/fcntl.c, fs/read_write.c, fs/file_dev.c)

A call gets and returns the numbers of the source, with the negated numbers of errors. What pipes and
devices do is a parameter.
-/
namespace Linux011.Minix
open Outcomes

def NR_OPEN : ℕ := 20
def NR_FILE : ℕ := 64
def BLOCK_SIZE : ℤ := 1024

instance instNeZeroFiles : NeZero NR_FILE := ⟨by decide⟩

def O_APPEND : ℕ := 0o2000

def EIO : ℤ := 5
def EBADF : ℤ := 9
def EINVAL : ℤ := 22
def EMFILE : ℤ := 24
def ESPIPE : ℤ := 29
def ERROR : ℤ := 99

/-- The value of an `int` or a `long`. -/
def int32 (x : ℤ) : ℤ := (x + 2 ^ 31) % 2 ^ 32 - 2 ^ 31

/-- `struct file`. -/
structure File where
  mode : UInt16
  flags : UInt16
  count : ℕ
  inode : Option Slot
  pos : ℤ

/-- The file system, `file_table`, and `filp` and `close_on_exec` of the running task. -/
structure Files where
  fs : Fs
  file : Fin NR_FILE → File
  filp : ℕ → Option (Fin NR_FILE)
  closeOnExec : UInt32

/-- A panic of the file system, or one of the two that are only met here. -/
inductive Halt where
  | fs (why : Panic)
  | fileCount
  | blockNegative
  deriving DecidableEq

abbrev Call (α : Type) := Outcome Halt Files α

/-- A function of the file system. -/
def onFs {α : Type} (f : Fs → Out α) (k : Files) : Call α :=
  match f k.fs with
  | .ok a s => .ok a { k with fs := s }
  | .stop w => .stop (.fs w)

def Files.setFile (k : Files) (f : Fin NR_FILE) (x : File) : Files :=
  { k with file := Function.update k.file f x }

def Files.setPos (k : Files) (f : Fin NR_FILE) (pos : ℤ) : Files :=
  k.setFile f { k.file f with pos := pos }

/-! ### Descriptors -/

/-- `1<<fd`. -/
def fdBit (fd : ℕ) : UInt32 := UInt32.ofNat (2 ^ fd)

def Files.clearClose (k : Files) (fd : ℕ) : Files :=
  { k with closeOnExec := k.closeOnExec &&& ~~~fdBit fd }

def sysClose (fd : ℕ) (k : Files) : Call ℤ :=
  if fd ≥ NR_OPEN then .ok (-EINVAL) k
  else match k.filp fd with
  | none => .ok (-EINVAL) (k.clearClose fd)
  | some f =>
    let filp := k.file f
    let k := { k.clearClose fd with filp := Function.update k.filp fd none }
    if filp.count = 0 then .stop .fileCount
    else
      let k := k.setFile f { filp with count := filp.count - 1 }
      if filp.count - 1 ≠ 0 then .ok 0 k
      else (onFs (iputAny filp.inode) k).bind fun _ k => .ok 0 k

/-- The first free descriptor from `arg` on, of the `n` before `NR_OPEN`. -/
def findFd (filp : ℕ → Option (Fin NR_FILE)) : ℕ → ℕ → ℕ
  | 0, arg => arg
  | n + 1, arg => if (filp arg).isSome then findFd filp n (arg + 1) else arg

/-- The count of a file is an unsigned short. -/
def dupfd (fd arg : ℕ) (k : Files) : Call ℤ :=
  if fd ≥ NR_OPEN then .ok (-EBADF) k
  else match k.filp fd with
  | none => .ok (-EBADF) k
  | some f =>
    if arg ≥ NR_OPEN then .ok (-EINVAL) k
    else
      let arg := findFd k.filp (NR_OPEN - arg) arg
      if arg ≥ NR_OPEN then .ok (-EMFILE) k
      else
        let k := { k.clearClose arg with filp := Function.update k.filp arg (some f) }
        .ok arg (k.setFile f { k.file f with count := ((k.file f).count + 1) % 65536 })

def sysDup2 (oldfd newfd : ℕ) (k : Files) : Call ℤ :=
  (sysClose newfd k).bind fun _ k => dupfd oldfd newfd k

def sysDup (fildes : ℕ) (k : Files) : Call ℤ := dupfd fildes 0 k

/-! ### Positions and data -/

/-- `_bmap` as it is entered: a negative block is a panic too. -/
def enterBmap (create : Bool) (i : Slot) (block : ℤ) (k : Files) : Call ℕ :=
  if block < 0 then .stop .blockNegative else onFs (bmapWith create i block.toNat) k

/-- `IS_SEEKABLE(MAJOR(dev))`. -/
def isSeekable (dev : ℕ) : Prop := 1 ≤ dev / 256 ∧ dev / 256 ≤ 3

instance (dev : ℕ) : Decidable (isSeekable dev) := inferInstanceAs (Decidable (_ ∧ _))

def sysLseek (fd : ℕ) (offset origin : ℤ) (k : Files) : Call ℤ :=
  match if fd ≥ NR_OPEN then none else (k.filp fd) with
  | none => .ok (-EBADF) k
  | some f => match (k.file f).inode with
    | none => .ok (-EBADF) k
    | some i =>
      let pos := (k.file f).pos
      if ¬isSeekable (k.fs.inodes i).dev then .ok (-EBADF) k
      else if (k.fs.inodes i).pipe then .ok (-ESPIPE) k
      else if origin = 0 then
        if offset < 0 then .ok (-EINVAL) k else .ok offset (k.setPos f offset)
      else if origin = 1 then
        if int32 (pos + offset) < 0 then .ok (-EINVAL) k
        else .ok (int32 (pos + offset)) (k.setPos f (int32 (pos + offset)))
      else if origin = 2 then
        let tmp := int32 ((k.fs.inodes i).size.toNat + offset)
        if tmp < 0 then .ok (-EINVAL) k else .ok tmp (k.setPos f tmp)
      else .ok (-EINVAL) k

/-- Some bytes of a block. -/
def slice (b : Block) (nr : ℤ) (chars : ℕ) : List UInt8 :=
  (List.range chars).map fun t => b (nr + t).toNat

/-- The loop of `file_read`: `left` bytes are missing and `got` are there, and as each round reads a
    byte, `left` rounds are enough. -/
def readBlocks (i : Slot) (f : Fin NR_FILE) : ℕ → ℤ → List UInt8 → Files → Call (ℤ × List UInt8)
  | 0, left, got, k => .ok (left, got) k
  | n + 1, left, got, k =>
    if left = 0 then .ok (0, got) k
    else (enterBmap false i (Int.tdiv (k.file f).pos BLOCK_SIZE) k).bind fun block k =>
      let nr := Int.tmod (k.file f).pos BLOCK_SIZE
      let chars := min (BLOCK_SIZE - nr) left
      if block = 0 then
        readBlocks i f n (left - chars) (got ++ List.replicate chars.toNat 0)
          (k.setPos f (int32 ((k.file f).pos + chars)))
      else (onFs (bread (k.fs.inodes i).dev block) k).bind fun bh k => match bh with
        | none => .ok (left, got) k
        | some b =>
          (onFs (brelse bh) (k.setPos f (int32 ((k.file f).pos + chars)))).bind fun _ k =>
          readBlocks i f n (left - chars) (got ++ slice (k.fs.data b) nr chars.toNat) k

/-- `file_read`, and the bytes that it has put into the buffer of the user. -/
def fileRead (i : Slot) (f : Fin NR_FILE) (count : ℤ) (k : Files) : Call (ℤ × List UInt8) :=
  if count ≤ 0 then .ok (0, []) k
  else (readBlocks i f count.toNat count [] k).bind fun r k =>
    .ok (if count - r.1 ≠ 0 then count - r.1 else -ERROR, r.2) k

/-- The loop of `file_write`: `done` of `count` bytes are stored, and the next goes to `pos`. -/
def writeBlocks (i : Slot) (buf : ℕ → UInt8) (count : ℤ) : ℕ → ℤ → ℤ → Files → Call (ℤ × ℤ)
  | 0, done, pos, k => .ok (done, pos) k
  | n + 1, done, pos, k =>
    if done ≥ count then .ok (done, pos) k
    else (enterBmap true i (Int.tdiv pos BLOCK_SIZE) k).bind fun block k =>
      if block = 0 then .ok (done, pos) k
      else (onFs (bread (k.fs.inodes i).dev block) k).bind fun bh k => match bh with
        | none => .ok (done, pos) k
        | some b =>
          let start := Int.tmod pos BLOCK_SIZE
          let c := min (BLOCK_SIZE - start) (count - done)
          let pos := int32 (pos + c)
          let inode := k.fs.inodes i
          let fs := if pos % 2 ^ 32 > inode.size.toNat then
              k.fs.setInode i { inode with size := UInt32.ofNat (pos % 2 ^ 32).toNat, dirt := true }
            else k.fs
          let data : Block := fun o =>
            if start ≤ o ∧ o < start + c then buf (done + (o - start)).toNat else k.fs.data b o
          (onFs (brelse bh) { k with fs := fs.setData b data }).bind fun _ k =>
          writeBlocks i buf count n (done + c) pos k

def fileWrite (i : Slot) (f : Fin NR_FILE) (buf : ℕ → UInt8) (count : ℤ) (k : Files) : Call ℤ :=
  let append := (k.file f).flags.toNat &&& O_APPEND ≠ 0
  let pos := if append then int32 (k.fs.inodes i).size.toNat else (k.file f).pos
  (writeBlocks i buf count count.toNat 0 pos k).bind fun r k =>
  let k := { k with fs := k.fs.setInode i { k.fs.inodes i with mtime := k.fs.time } }
  .ok (if r.1 ≠ 0 then r.1 else -1) (if append then k else k.setPos f r.2)

/-- `read_pipe`, `write_pipe`, `rw_char`, `block_read` and `block_write`. -/
structure Drivers where
  readPipe : Slot → ℤ → Files → Call (ℤ × List UInt8)
  writePipe : Slot → (ℕ → UInt8) → ℤ → Files → Call ℤ
  readChar : ℕ → Fin NR_FILE → ℤ → Files → Call (ℤ × List UInt8)
  writeChar : ℕ → Fin NR_FILE → (ℕ → UInt8) → ℤ → Files → Call ℤ
  blockRead : ℕ → Fin NR_FILE → ℤ → Files → Call (ℤ × List UInt8)
  blockWrite : ℕ → Fin NR_FILE → (ℕ → UInt8) → ℤ → Files → Call ℤ

/-- `sys_read`. A file without an inode is no open file. -/
def sysRead (d : Drivers) (fd : ℕ) (count : ℤ) (k : Files) : Call (ℤ × List UInt8) :=
  match if fd ≥ NR_OPEN ∨ count < 0 then none else k.filp fd with
  | none => .ok (-EINVAL, []) k
  | some f =>
    if count = 0 then .ok (0, []) k
    else match (k.file f).inode with
    | none => .stop (.fs .fault)
    | some i =>
      let inode := k.fs.inodes i
      if inode.pipe then
        if (k.file f).mode &&& 1 ≠ 0 then d.readPipe i count k else .ok (- EIO, []) k
      else if isChr inode.mode then d.readChar (inode.zone 0).toNat f count k
      else if isBlk inode.mode then d.blockRead (inode.zone 0).toNat f count k
      else if isDir inode.mode ∨ isReg inode.mode then
        let pos := (k.file f).pos
        -- `count+file->f_pos` is compared with the size as an unsigned number
        let count := if (count + pos) % 2 ^ 32 > inode.size.toNat then
            int32 (inode.size.toNat - pos)
          else count
        if count ≤ 0 then .ok (0, []) k else fileRead i f count k
      else .ok (-EINVAL, []) k

/-- `sys_write`. -/
def sysWrite (d : Drivers) (fd : ℕ) (buf : ℕ → UInt8) (count : ℤ) (k : Files) : Call ℤ :=
  match if fd ≥ NR_OPEN ∨ count < 0 then none else k.filp fd with
  | none => .ok (-EINVAL) k
  | some f =>
    if count = 0 then .ok 0 k
    else match (k.file f).inode with
    | none => .stop (.fs .fault)
    | some i =>
      let inode := k.fs.inodes i
      if inode.pipe then
        if (k.file f).mode &&& 2 ≠ 0 then d.writePipe i buf count k else .ok (- EIO) k
      else if isChr inode.mode then d.writeChar (inode.zone 0).toNat f buf count k
      else if isBlk inode.mode then d.blockWrite (inode.zone 0).toNat f buf count k
      else if isReg inode.mode then fileWrite i f buf count k
      else .ok (-EINVAL) k

end Linux011.Minix
