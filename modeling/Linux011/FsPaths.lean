import Linux011.FsInodes

set_option autoImplicit false

/-!
# Directories and path names (fs/namei.c)

A path is its bytes before the terminating zero; reading them does not fail.
-/
namespace Linux011.Minix
open Outcomes

abbrev Name := List UInt8

/-- `'/'` and `'.'`. -/
def slash : UInt8 := 47
def dot : UInt8 := 46

def MAY_EXEC : ℕ := 1
def MAY_WRITE : ℕ := 2

def O_ACCMODE : ℕ := 0o3
def O_WRONLY : ℕ := 0o1
def O_CREAT : ℕ := 0o100
def O_EXCL : ℕ := 0o200
def O_TRUNC : ℕ := 0o1000

inductive Errno where
  | EPERM
  | ENOENT
  | EACCES
  | EBUSY
  | EEXIST
  | EISDIR
  | ENOSPC
  | ENOTBLK
  deriving DecidableEq

/-- `ACC_MODE`, the last of which is no mask of permissions. -/
def accMode (flag : ℕ) : ℕ := [0o4, 0o2, 0o6, 0o377].getD (flag &&& O_ACCMODE) 0

def permission (inode : Inode) (mask : ℕ) (task : Task) : Bool :=
  if inode.dev ≠ 0 ∧ inode.nlinks = 0 then false
  else
    let mode :=
      if task.euid = inode.uid.toNat then inode.mode.toNat >>> 6
      else if task.egid = inode.gid.toNat then inode.mode.toNat >>> 3
      else inode.mode.toNat
    decide (mode &&& mask &&& 0o7 = mask) || decide (task.euid = 0)

/-! ### Directory entries -/

/-- The inode number of an entry of a directory block. -/
def entryInode (b : Block) (j : ℕ) : ℕ := (word b (16 * j)).toNat

/-- `match`. -/
def matchEntry (name : Name) (b : Block) (j : ℕ) : Bool :=
  decide (entryInode b j ≠ 0) && decide (name.length ≤ NAME_LEN) &&
    (decide (name.length = NAME_LEN) || decide (b (16 * j + 2 + name.length) = 0)) &&
    (List.range name.length).all fun i => decide (name.getD i 0 = b (16 * j + 2 + i))

/-- The first of `n` entries of a block with a name. -/
def findIn (name : Name) (b : Block) (n : ℕ) : Option ℕ :=
  (List.range n).find? fun j => matchEntry name b j

/-- Block `k` of a directory, if it can be had. -/
def dirBlock (dir : Slot) (k : ℕ) (s : Fs) : Out (Option Buffer) :=
  (bmap dir k s).bind fun block s =>
    if block = 0 then .ok none s else bread (s.inodes dir).dev block s

/-- What is found in the buffer of block `k`, of so many entries of the directory. -/
def findHere (name : Name) (entries k : ℕ) (bh : Option Buffer) (s : Fs) : Option (Buffer × ℕ) :=
  bh.bind fun b =>
    (findIn name (s.data b) (min DIR_ENTRIES_PER_BLOCK (entries - DIR_ENTRIES_PER_BLOCK * k))).map
      fun j => (b, j)

/-- The loop of `find_entry` from block `k` on, which is in `bh` or could not be read; `left` blocks
    are behind it. -/
def scanBlocks (dir : Slot) (name : Name) (entries : ℕ) :
    ℕ → ℕ → Option Buffer → Fs → Out (Option (Buffer × ℕ))
  | left, k, bh, s => match findHere name entries k bh s with
    | some found => .ok (some found) s
    | none => (brelse bh s).bind fun _ s => match left with
      | 0 => .ok none s
      | left + 1 =>
        (dirBlock dir (k + 1) s).bind fun bh s => scanBlocks dir name entries left (k + 1) bh s

/-- `find_entry`, when it is known which directory to look at. -/
def scanDir (dir : Slot) (name : Name) (entries : ℕ) (s : Fs) : Out (Option (Buffer × ℕ)) :=
  if (s.inodes dir).zone 0 = 0 then .ok none s
  else (bread (s.inodes dir).dev ((s.inodes dir).zone 0).toNat s).bind fun bh s => match bh with
    | none => .ok none s
    | some b => scanBlocks dir name entries ((entries + 63) / DIR_ENTRIES_PER_BLOCK - 1) 0 (some b) s

/-- The directory may be exchanged. The number of entries is that of the one that is given. -/
def findEntry (dir : Slot) (name : Name) (s : Fs) : Out (Slot × Option (Buffer × ℕ)) :=
  let name := name.take NAME_LEN
  let entries := (s.inodes dir).size.toNat / 16
  let look := fun (dir : Slot) (name : Name) (s : Fs) =>
    (scanDir dir name entries s).bind fun found s => .ok (dir, found) s
  if name = [] then .ok (dir, none) s
  else if name = [dot, dot] then
    if s.task.root = some dir then look dir [dot] s
    else if (s.inodes dir).num = ROOT_INO then match s.getSuper (s.inodes dir).dev with
      | none => .stop .fault
      | some k => match (s.supers k).imount with
        | none => look dir name s
        | some m => (iput dir s).bind fun _ s => look m name (s.grab m)
    else look dir name s
  else look dir name s

/-- The entry number and the name are stored, the inode number is left at 0. -/
def setName (name : Name) (j : ℕ) (b : Block) : Block := fun o =>
  if 16 * j + 2 ≤ o ∧ o < 16 * j + 16 then name.getD (o - (16 * j + 2)) 0 else b o

/-- The first entry of block `k` that is free or behind the end of the directory. -/
def findRoom (b : Block) (size k : ℕ) : Option ℕ :=
  (List.range DIR_ENTRIES_PER_BLOCK).find? fun j =>
    decide ((DIR_ENTRIES_PER_BLOCK * k + j) * 16 ≥ size) || decide (entryInode b j = 0)

/-- What `add_entry` does with the entry it has found. -/
def takeRoom (dir : Slot) (name : Name) (k : ℕ) (b : Buffer) (j : ℕ) (s : Fs) : Fs :=
  let i := DIR_ENTRIES_PER_BLOCK * k + j
  let s :=
    if i * 16 ≥ (s.inodes dir).size.toNat then
      (s.setData b (setWord (s.data b) (16 * j) 0)).setInode dir
        { s.inodes dir with size := UInt32.ofNat ((i + 1) * 16), dirt := true }
    else s
  (s.setInode dir { s.inodes dir with mtime := s.time }).setData b (setName name j (s.data b))

def roomHere (size k : ℕ) (bh : Option Buffer) (s : Fs) : Option (Buffer × ℕ) :=
  bh.bind fun b => (findRoom (s.data b) size k).map fun j => (b, j)

/-- The loop of `add_entry` from block `k` on. Behind the last block that a file can have,
    `create_block` panics. -/
def addBlocks (dir : Slot) (name : Name) :
    ℕ → ℕ → Option Buffer → Fs → Out (Option (Buffer × ℕ))
  | left, k, bh, s => match roomHere (s.inodes dir).size.toNat k bh s with
    | some found => .ok (some found) (takeRoom dir name k found.1 found.2 s)
    | none => (brelse bh s).bind fun _ s => match left with
      | 0 => .stop .blockTooBig
      | left + 1 =>
        (createBlock dir (k + 1) s).bind fun block s =>
          if block = 0 then .ok none s
          else (bread (s.inodes dir).dev block s).bind fun bh s => addBlocks dir name left (k + 1) bh s

def addEntry (dir : Slot) (name : Name) (s : Fs) : Out (Option (Buffer × ℕ)) :=
  let name := name.take NAME_LEN
  if name = [] then .ok none s
  else if (s.inodes dir).zone 0 = 0 then .ok none s
  else (bread (s.inodes dir).dev ((s.inodes dir).zone 0).toNat s).bind fun bh s => match bh with
    | none => .ok none s
    | some b => addBlocks dir name (7 + 512 + 512 * 512 - 1) 0 (some b) s

/-! ### Paths -/

/-- The test at the top of the loop of `get_dir`. -/
def mayEnter (s : Fs) (inode : Slot) : Prop :=
  isDir (s.inodes inode).mode ∧ permission (s.inodes inode) MAY_EXEC s.task = true

instance (s : Fs) (inode : Slot) : Decidable (mayEnter s inode) := inferInstanceAs (Decidable (_ ∧ _))

/-- The inode of an entry that was found in a directory, which is put. -/
def getEntry (dir : Slot) (found : Buffer × ℕ) (s : Fs) : Out Slot :=
  let inr := entryInode (s.data found.1) found.2
  let idev := (s.inodes dir).dev
  (brelse (some found.1) s).bind fun _ s =>
  (iput dir s).bind fun _ s => iget idev inr s

/-- The loop of `get_dir` in the middle of a name. -/
def walkDir : List UInt8 → Name → Slot → Fs → Out (Option Slot)
  | [], _, inode, s => .ok (some inode) s
  | c :: path, name, inode, s =>
    if c ≠ slash then walkDir path (name ++ [c]) inode s
    else (findEntry inode name s).bind fun r s => match r.2 with
      | none => (iput r.1 s).bind fun _ s => .ok none s
      | some found => (getEntry r.1 found s).bind fun inode s =>
        if mayEnter s inode then walkDir path [] inode s
        else (iput inode s).bind fun _ s => .ok none s

/-- From a directory on. -/
def walkFrom (inode : Slot) (path : List UInt8) (s : Fs) : Out (Option Slot) :=
  let s := s.grab inode
  if mayEnter s inode then walkDir path [] inode s
  else (iput inode s).bind fun _ s => .ok none s

/-- A reference of the task, which has to be one. -/
def taskInode (i : Option Slot) (why : Panic) (s : Fs) : Out Slot :=
  match i with
  | none => .stop why
  | some i => if (s.inodes i).count = 0 then .stop why else .ok i s

def getDir (path : List UInt8) (s : Fs) : Out (Option Slot) :=
  (taskInode s.task.root .noRootInode s).bind fun root s =>
  (taskInode s.task.pwd .noCwdInode s).bind fun pwd s =>
  match path with
  | [] => .ok none s
  | c :: rest => if c = slash then walkFrom root rest s else walkFrom pwd (c :: rest) s

/-- The name behind the last slash. -/
def basename (path : List UInt8) : Name := (path.reverse.takeWhile (· ≠ slash)).reverse

def dirNamei (path : List UInt8) (s : Fs) : Out (Option (Slot × Name)) :=
  (getDir path s).bind fun dir s => .ok (dir.map fun dir => (dir, basename path)) s

def namei (path : List UInt8) (s : Fs) : Out (Option Slot) :=
  (dirNamei path s).bind fun r s => match r with
  | none => .ok none s
  | some (dir, name) =>
    if name = [] then .ok (some dir) s
    else (findEntry dir name s).bind fun r s => match r.2 with
      | none => (iput r.1 s).bind fun _ s => .ok none s
      | some found => (getEntry r.1 found s).bind fun i s =>
        .ok (some i) (s.setInode i { s.inodes i with dirt := true })

/-- The part of `open_namei` that makes a new file. -/
def createFile (dir : Slot) (name : Name) (mode : UInt16) (s : Fs) : Out (Except Errno Slot) :=
  if permission (s.inodes dir) MAY_WRITE s.task = false then
    (iput dir s).bind fun _ s => .ok (.error .EACCES) s
  else (newInode (s.inodes dir).dev s).bind fun inode s => match inode with
    | none => (iput dir s).bind fun _ s => .ok (.error .ENOSPC) s
    | some i =>
      let s := s.setInode i
        { s.inodes i with uid := UInt16.ofNat s.task.euid, mode := mode, dirt := true }
      (addEntry dir name s).bind fun found s => match found with
        | none =>
          let s := s.setInode i { s.inodes i with nlinks := (s.inodes i).nlinks - 1 }
          (iput i s).bind fun _ s => (iput dir s).bind fun _ s => .ok (.error .ENOSPC) s
        | some (b, j) =>
          let s := s.setData b (setWord (s.data b) (16 * j) (UInt16.ofNat (s.inodes i).num))
          (brelse (some b) s).bind fun _ s =>
          (iput dir s).bind fun _ s => .ok (.ok i) s

/-- The part of `open_namei` for a file that is there. -/
def openFile (dir : Slot) (found : Buffer × ℕ) (flag : ℕ) (s : Fs) : Out (Except Errno Slot) :=
  let inr := entryInode (s.data found.1) found.2
  let dev := (s.inodes dir).dev
  (brelse (some found.1) s).bind fun _ s =>
  (iput dir s).bind fun _ s =>
  if flag &&& O_EXCL ≠ 0 then .ok (.error .EEXIST) s
  else (iget dev inr s).bind fun i s =>
    if (isDir (s.inodes i).mode ∧ flag &&& O_ACCMODE ≠ 0) ∨
        permission (s.inodes i) (accMode flag) s.task = false then
      (iput i s).bind fun _ s => .ok (.error .EPERM) s
    else (if flag &&& O_TRUNC ≠ 0 then truncate i s else .ok () s).bind fun _ s => .ok (.ok i) s

def openNamei (path : List UInt8) (flag : ℕ) (mode : ℕ) (s : Fs) : Out (Except Errno Slot) :=
  let flag := if flag &&& O_TRUNC ≠ 0 ∧ flag &&& O_ACCMODE = 0 then flag ||| O_WRONLY else flag
  let mode := UInt16.ofNat mode &&& 0o777 &&& ~~~ UInt16.ofNat s.task.umask ||| 0o100000
  (dirNamei path s).bind fun r s => match r with
  | none => .ok (.error .ENOENT) s
  | some (dir, name) =>
    if name = [] then
      if flag &&& (O_ACCMODE ||| O_CREAT ||| O_TRUNC) = 0 then .ok (.ok dir) s
      else (iput dir s).bind fun _ s => .ok (.error .EISDIR) s
    else (findEntry dir name s).bind fun r s => match r.2 with
      | none =>
        if flag &&& O_CREAT = 0 then (iput r.1 s).bind fun _ s => .ok (.error .ENOENT) s
        else createFile r.1 name mode s
      | some found => openFile r.1 found flag s

end Linux011.Minix
