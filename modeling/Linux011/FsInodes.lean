import Linux011.Outcomes
import Mathlib

set_option autoImplicit false

/-!
# Inodes, blocks and bitmaps of mounted devices (fs/inode.c, fs/bitmap.c, fs/truncate.c)

One task runs, so that no lock is seen and nothing is waited for. A buffer is the block it is of:
`b_count` is kept for each, and `data` is what reading it gives, from the cache or the disk. When
buffers are written is left out, and so are the times that are not on the disk. There is always a
buffer to be had.
-/
namespace Linux011.Minix
open Outcomes

def NR_SUPER : ℕ := 8
def ROOT_INO : ℕ := 1
def NAME_LEN : ℕ := 14
def INODES_PER_BLOCK : ℕ := 32
def DIR_ENTRIES_PER_BLOCK : ℕ := 64
/-- `I_MAP_SLOTS` and `Z_MAP_SLOTS`. -/
def MAP_SLOTS : ℕ := 8
def SUPER_MAGIC : ℕ := 0x137f

/-- An index of `inode_table`. -/
abbrev Slot := Fin 32

abbrev Block := ℕ → UInt8

/-- Device and block number. -/
abbrev Buffer := ℕ × ℕ

/-- An inode has nine zones. -/
instance instNeZeroZones : NeZero 9 := ⟨by decide⟩

instance instNeZeroSlots : NeZero 32 := ⟨by decide⟩

/-- `struct d_inode`. -/
structure DInode where
  mode : UInt16
  uid : UInt16
  size : UInt32
  mtime : UInt32
  gid : UInt8
  nlinks : UInt8
  zone : Fin 9 → UInt16

structure Inode extends DInode where
  dev : ℕ
  num : ℕ
  count : ℕ
  dirt : Bool
  pipe : Bool
  mount : Bool

/-- `memset(inode,0,sizeof(*inode))`. -/
def Inode.empty : Inode := ⟨⟨0, 0, 0, 0, 0, 0, fun _ => 0⟩, 0, 0, 0, false, false, false⟩

structure Super where
  ninodes : ℕ
  nzones : ℕ
  imapBlocks : ℕ
  zmapBlocks : ℕ
  firstdatazone : ℕ
  magic : ℕ
  imap : ℕ → Option Buffer
  zmap : ℕ → Option Buffer
  dev : ℕ
  isup : Option Slot
  imount : Option Slot

/-- What is used of the running task. -/
structure Task where
  root : Option Slot
  pwd : Option Slot
  euid : ℕ
  egid : ℕ
  umask : ℕ

/-- `reads` says which of the next calls of `bread` succeed (all, if it is empty), and `stale` what
    the blocks that are freed next read as later: the disk may be behind the buffer that is dropped. -/
structure Fs where
  inodes : Slot → Inode
  last : Slot
  supers : Fin NR_SUPER → Super
  bcount : Buffer → ℕ
  data : Buffer → Block
  reads : List Bool
  stale : ℕ → Block
  time : UInt32
  task : Task
  rootDev : ℕ

/-- A panic, by its message, the use of a null pointer, or a loop that never ends. -/
inductive Panic where
  | freeFreeBuffer
  | iputFreeInode
  | noFreeInodes
  | igetDevZero
  | readInodeWithoutDev
  | writeInodeWithoutDevice
  | unableToReadInodeBlock
  | blockTooBig
  | freeBlockNonexistentDevice
  | freeBlockNotInDatazone
  | freeBlockAlreadyCleared
  | newBlockNonexistentDevice
  | newBlockAlreadySet
  | newBlockCount
  | freeInodeCount
  | freeInodeLinks
  | freeInodeNonexistentDevice
  | freeInodeNonexistentInode
  | nonexistentImap
  | newInodeUnknownDevice
  | newInodeAlreadySet
  | noRootInode
  | noCwdInode
  | fault
  | hang
  deriving DecidableEq

abbrev Out (α : Type) := Outcome Panic Fs α

/-! ### Bytes -/

/-- A byte of a number, the lowest first. -/
def byteOf (n i : ℕ) : UInt8 := UInt8.ofNat (n / 256 ^ i)

/-- The short at a byte of a block. -/
def word (b : Block) (o : ℕ) : UInt16 := UInt16.ofNat ((b o).toNat + 256 * (b (o + 1)).toNat)

def long (b : Block) (o : ℕ) : UInt32 :=
  UInt32.ofNat ((word b o).toNat + 65536 * (word b (o + 2)).toNat)

def setWord (b : Block) (o : ℕ) (w : UInt16) : Block :=
  fun i => if i = o then byteOf w.toNat 0 else if i = o + 1 then byteOf w.toNat 1 else b i

def testBit (b : Block) (n : ℕ) : Bool := (b (n / 8)).toNat.testBit (n % 8)

def setBit (b : Block) (n : ℕ) : Block :=
  Function.update b (n / 8) (b (n / 8) ||| UInt8.ofNat (2 ^ (n % 8)))

def clearBit (b : Block) (n : ℕ) : Block :=
  Function.update b (n / 8) (b (n / 8) &&& UInt8.ofNat (255 - 2 ^ (n % 8)))

/-- `find_first_zero`: 8192 if there is none. -/
def findFirstZero (b : Block) : ℕ := ((List.range 8192).find? fun n => !testBit b n).getD 8192

/-- An inode in the 32 bytes at `o`. -/
def decode (b : Block) (o : ℕ) : DInode where
  mode := word b o
  uid := word b (o + 2)
  size := long b (o + 4)
  mtime := long b (o + 8)
  gid := b (o + 12)
  nlinks := b (o + 13)
  zone i := word b (o + 14 + 2 * i)

def DInode.byte (d : DInode) (i : ℕ) : UInt8 :=
  if i < 2 then byteOf d.mode.toNat i
  else if i < 4 then byteOf d.uid.toNat (i - 2)
  else if i < 8 then byteOf d.size.toNat (i - 4)
  else if i < 12 then byteOf d.mtime.toNat (i - 8)
  else if i = 12 then d.gid
  else if i = 13 then d.nlinks
  else byteOf (d.zone (Fin.ofNat 9 ((i - 14) / 2))).toNat ((i - 14) % 2)

def encode (d : DInode) (o : ℕ) (b : Block) : Block :=
  fun i => if o ≤ i ∧ i < o + 32 then d.byte (i - o) else b i

/-! ### The state -/

def Fs.setInode (s : Fs) (i : Slot) (x : Inode) : Fs :=
  { s with inodes := Function.update s.inodes i x }

def Fs.setCount (s : Fs) (i : Slot) (n : ℕ) : Fs :=
  s.setInode i { s.inodes i with count := n }

/-- `i_count++`, an unsigned short. -/
def Fs.grab (s : Fs) (i : Slot) : Fs := s.setCount i (((s.inodes i).count + 1) % 65536)

def Fs.setData (s : Fs) (b : Buffer) (x : Block) : Fs :=
  { s with data := Function.update s.data b x }

def Fs.setBcount (s : Fs) (b : Buffer) (n : ℕ) : Fs :=
  { s with bcount := Function.update s.bcount b n }

/-- `get_super`, which gives an index of `super_block`. -/
def Fs.getSuper (s : Fs) (dev : ℕ) : Option (Fin NR_SUPER) :=
  if dev = 0 then none else (List.finRange NR_SUPER).find? fun k => (s.supers k).dev = dev

/-- The count of a buffer is an unsigned char. -/
def bread (dev block : ℕ) (s : Fs) : Out (Option Buffer) :=
  if s.reads.head? = some false then .ok none { s with reads := s.reads.tail }
  else .ok (some (dev, block))
    ({ s with reads := s.reads.tail }.setBcount (dev, block) ((s.bcount (dev, block) + 1) % 256))

def brelse (bh : Option Buffer) (s : Fs) : Out Unit :=
  match bh with
  | none => .ok () s
  | some b => if s.bcount b = 0 then .stop .freeFreeBuffer
    else .ok () (s.setBcount b (s.bcount b - 1))

def isReg (mode : UInt16) : Prop := mode &&& 0o170000 = 0o100000
def isDir (mode : UInt16) : Prop := mode &&& 0o170000 = 0o040000
def isChr (mode : UInt16) : Prop := mode &&& 0o170000 = 0o020000
def isBlk (mode : UInt16) : Prop := mode &&& 0o170000 = 0o060000

instance (m : UInt16) : Decidable (isReg m) := inferInstanceAs (Decidable (_ = _))
instance (m : UInt16) : Decidable (isDir m) := inferInstanceAs (Decidable (_ = _))
instance (m : UInt16) : Decidable (isChr m) := inferInstanceAs (Decidable (_ = _))
instance (m : UInt16) : Decidable (isBlk m) := inferInstanceAs (Decidable (_ = _))

/-! ### Inodes on the disk -/

/-- The block of an inode; numbers start at 1. -/
def Super.inodeBlock (sb : Super) (num : ℕ) : ℕ :=
  2 + sb.imapBlocks + sb.zmapBlocks + (num - 1) / INODES_PER_BLOCK

/-- The first byte of an inode in its block. -/
def inodeOffset (num : ℕ) : ℕ := 32 * ((num - 1) % INODES_PER_BLOCK)

def readInode (i : Slot) (s : Fs) : Out Unit :=
  let inode := s.inodes i
  match s.getSuper inode.dev with
  | none => .stop .readInodeWithoutDev
  | some k =>
    (bread inode.dev ((s.supers k).inodeBlock inode.num) s).bind fun bh s => match bh with
      | none => .stop .unableToReadInodeBlock
      | some b => brelse bh
        (s.setInode i { inode with toDInode := decode (s.data b) (inodeOffset inode.num) })

def writeInode (i : Slot) (s : Fs) : Out Unit :=
  let inode := s.inodes i
  if inode.dirt = false ∨ inode.dev = 0 then .ok () s
  else match s.getSuper inode.dev with
  | none => .stop .writeInodeWithoutDevice
  | some k =>
    (bread inode.dev ((s.supers k).inodeBlock inode.num) s).bind fun bh s => match bh with
      | none => .stop .unableToReadInodeBlock
      | some b => brelse bh
        ((s.setData b (encode inode.toDInode (inodeOffset inode.num) (s.data b))).setInode i
          { inode with dirt := false })

def syncInodes (s : Fs) : Out Unit :=
  Outcome.each (fun i s =>
    if (s.inodes i).dirt = true ∧ (s.inodes i).pipe = false then writeInode i s else .ok () s)
    (List.finRange 32) s

/-! ### Bitmaps -/

/-- The map that a bit is in: an index of the map and the buffer there. -/
def firstFree (map : ℕ → Option Buffer) (s : Fs) : Option (ℕ × Buffer) :=
  (List.range MAP_SLOTS).findSome? fun i =>
    (map i).bind fun b => if findFirstZero (s.data b) < 8192 then some (i, b) else none

def freeBlock (dev block : ℕ) (s : Fs) : Out Unit :=
  match s.getSuper dev with
  | none => .stop .freeBlockNonexistentDevice
  | some k =>
    let sb := s.supers k
    if block < sb.firstdatazone ∨ block ≥ sb.nzones then .stop .freeBlockNotInDatazone
    else if s.bcount (dev, block) ≠ 0 then
      -- the count that `get_hash_table` has raised stays
      .ok () (s.setBcount (dev, block) ((s.bcount (dev, block) + 1) % 256))
    else
      let s := { s.setData (dev, block) (s.stale 0) with stale := fun n => s.stale (n + 1) }
      let bit := block + 1 - sb.firstdatazone
      match (if bit / 8192 < MAP_SLOTS then sb.zmap (bit / 8192) else none) with
      | none => .stop .fault
      | some b =>
        if testBit (s.data b) (bit % 8192) = false then .stop .freeBlockAlreadyCleared
        else .ok () (s.setData b (clearBit (s.data b) (bit % 8192)))

/-- 0 if there is no block. -/
def newBlock (dev : ℕ) (s : Fs) : Out ℕ :=
  match s.getSuper dev with
  | none => .stop .newBlockNonexistentDevice
  | some k =>
    let sb := s.supers k
    match firstFree sb.zmap s with
    | none => .ok 0 s
    | some (i, b) =>
      let bit := findFirstZero (s.data b)
      if testBit (s.data b) bit then .stop .newBlockAlreadySet
      else
        let s := s.setData b (setBit (s.data b) bit)
        let j := bit + i * 8192 + sb.firstdatazone - 1
        if j ≥ sb.nzones then .ok 0 s
        else if s.bcount (dev, j) ≠ 0 then .stop .newBlockCount
        else .ok j (s.setData (dev, j) fun _ => 0)

def freeInode (i : Slot) (s : Fs) : Out Unit :=
  let inode := s.inodes i
  if inode.dev = 0 then .ok () (s.setInode i Inode.empty)
  else if inode.count > 1 then .stop .freeInodeCount
  else if inode.nlinks ≠ 0 then .stop .freeInodeLinks
  else match s.getSuper inode.dev with
  | none => .stop .freeInodeNonexistentDevice
  | some k =>
    let sb := s.supers k
    if inode.num < 1 ∨ inode.num > sb.ninodes then .stop .freeInodeNonexistentInode
    else match sb.imap (inode.num / 8192) with
      | none => .stop .nonexistentImap
      | some b =>
        .ok () ((s.setData b (clearBit (s.data b) (inode.num % 8192))).setInode i Inode.empty)

/-! ### Truncation -/

/-- What the 512 entries of an indirect block name is freed. -/
def freeEntries (free : ℕ → Fs → Out Unit) (b : Buffer) : Fs → Out Unit :=
  Outcome.each (fun i (s : Fs) =>
    if word (s.data b) (2 * i) ≠ 0 then free (word (s.data b) (2 * i)).toNat s else .ok () s)
    (List.range 512)

def freeWith (free : ℕ → Fs → Out Unit) (dev block : ℕ) (s : Fs) : Out Unit :=
  if block = 0 then .ok () s
  else
    (bread dev block s).bind fun bh s =>
    (match bh with
      | none => (.ok () s : Out Unit)
      | some b => (freeEntries free b s).bind fun _ s => brelse bh s).bind fun _ s =>
    freeBlock dev block s

/-- `free_ind`. -/
def freeInd (dev : ℕ) : ℕ → Fs → Out Unit := freeWith (freeBlock dev) dev

/-- `free_dind`. -/
def freeDind (dev : ℕ) : ℕ → Fs → Out Unit := freeWith (freeInd dev) dev

def Fs.setZone (s : Fs) (i : Slot) (z : Fin 9) (w : UInt16) : Fs :=
  s.setInode i { s.inodes i with zone := Function.update (s.inodes i).zone z w }

def truncate (i : Slot) (s : Fs) : Out Unit :=
  if ¬ (isReg (s.inodes i).mode ∨ isDir (s.inodes i).mode) then .ok () s
  else
    (Outcome.each (fun (z : Fin 9) s =>
      if (s.inodes i).zone z ≠ 0 then
        (freeBlock (s.inodes i).dev ((s.inodes i).zone z).toNat s).bind fun _ s =>
          .ok () (s.setZone i z 0)
      else .ok () s) [0, 1, 2, 3, 4, 5, 6] s).bind fun _ s =>
    (freeInd (s.inodes i).dev ((s.inodes i).zone 7).toNat s).bind fun _ s =>
    (freeDind (s.inodes i).dev ((s.inodes i).zone 8).toNat s).bind fun _ s =>
    let s := (s.setZone i 7 0).setZone i 8 0
    .ok () (s.setInode i { s.inodes i with size := 0, dirt := true, mtime := s.time })

/-! ### The inode table -/

/-- `iput`. The page of a pipe is left out. -/
def iput (i : Slot) (s : Fs) : Out Unit :=
  let inode := s.inodes i
  if inode.count = 0 then .stop .iputFreeInode
  else if inode.pipe then
    if inode.count - 1 ≠ 0 then .ok () (s.setCount i (inode.count - 1))
    else .ok () (s.setInode i { inode with count := 0, dirt := false, pipe := false })
  else if inode.dev = 0 then .ok () (s.setCount i (inode.count - 1))
  else
    (if isBlk inode.mode then syncInodes s else .ok () s).bind fun _ s =>
    if (s.inodes i).count > 1 then .ok () (s.setCount i ((s.inodes i).count - 1))
    else if (s.inodes i).nlinks = 0 then (truncate i s).bind fun _ s => freeInode i s
    else (writeInode i s).bind fun _ s => .ok () (s.setCount i ((s.inodes i).count - 1))

/-- `iput` of what may be null. -/
def iputAny (i : Option Slot) (s : Fs) : Out Unit :=
  match i with
  | none => .ok () s
  | some i => iput i s

/-- `for (i = NR_INODE; i ; i--)` of `get_empty_inode`: `last_inode`, which goes round the table, and
    the inode behind it. -/
def findEmpty (s : Fs) : ℕ → Slot → Option Slot → Slot × Option Slot
  | 0, last, inode => (last, inode)
  | left + 1, last, inode =>
    if (s.inodes (last + 1)).count = 0 then
      if (s.inodes (last + 1)).dirt = false then (last + 1, some (last + 1))
      else findEmpty s left (last + 1) (some (last + 1))
    else findEmpty s left (last + 1) inode

def getEmptyInode (s : Fs) : Out Slot :=
  match (findEmpty s 32 s.last none).2 with
  | none => .stop .noFreeInodes
  | some i =>
    let s := { s with last := (findEmpty s 32 s.last none).1 }
    -- a dirty inode of no device is never written
    (if (s.inodes i).dirt = true ∧ (s.inodes i).dev = 0 then .stop .hang
      else writeInode i s).bind fun _ s =>
    .ok i (s.setInode i { Inode.empty with count := 1 })

def Fs.findInode (s : Fs) (dev nr : ℕ) : Option Slot :=
  (List.finRange 32).find? fun i => (s.inodes i).dev = dev ∧ (s.inodes i).num = nr

/-- The entry of `super_block` that is mounted on an inode. -/
def Fs.mountedOn (s : Fs) (i : Slot) : Option (Fin NR_SUPER) :=
  (List.finRange NR_SUPER).find? fun k => (s.supers k).imount = some i

/-- The loop of `iget`, which has `empty` for an inode that is not in the table. It turns for each
    mount it crosses, and does not end if these are more than there are. -/
def igetLoop (empty : Slot) : ℕ → ℕ → ℕ → Fs → Out Slot
  | 0, _, _, _ => .stop .hang
  | left + 1, dev, nr, s => match s.findInode dev nr with
    | some i =>
      let s := s.grab i
      if (s.inodes i).mount then match s.mountedOn i with
        | none => (iput empty s).bind fun _ s => .ok i s
        | some k => (iput i s).bind fun _ s => igetLoop empty left (s.supers k).dev ROOT_INO s
      else (iput empty s).bind fun _ s => .ok i s
    | none =>
      (readInode empty (s.setInode empty { s.inodes empty with dev := dev, num := nr })).bind
        fun _ s => .ok empty s

def iget (dev nr : ℕ) (s : Fs) : Out Slot :=
  if dev = 0 then .stop .igetDevZero
  else (getEmptyInode s).bind fun empty s => igetLoop empty (NR_SUPER + 1) dev nr s

def newInode (dev : ℕ) (s : Fs) : Out (Option Slot) :=
  (getEmptyInode s).bind fun i s => match s.getSuper dev with
    | none => .stop .newInodeUnknownDevice
    | some k =>
      let sb := s.supers k
      match firstFree sb.imap s with
      | none => (iput i s).bind fun _ s => .ok none s
      | some (n, b) =>
        let bit := findFirstZero (s.data b)
        if bit + n * 8192 > sb.ninodes then (iput i s).bind fun _ s => .ok none s
        else if testBit (s.data b) bit then .stop .newInodeAlreadySet
        else .ok (some i) ((s.setData b (setBit (s.data b) bit)).setInode i
          { s.inodes i with
            count := 1, nlinks := 1, dev := dev, uid := UInt16.ofNat s.task.euid,
            gid := UInt8.ofNat s.task.egid, dirt := true, num := bit + n * 8192, mtime := s.time })

/-! ### Blocks of a file -/

/-- A slot of an inode that is filled if the block is to be created. -/
def fillZone (create : Bool) (i : Slot) (z : Fin 9) (s : Fs) : Out ℕ :=
  if create = true ∧ (s.inodes i).zone z = 0 then
    (newBlock (s.inodes i).dev s).bind fun n s =>
      if n ≠ 0 then
        .ok n ((s.setZone i z (UInt16.ofNat n)).setInode i
          { (s.setZone i z (UInt16.ofNat n)).inodes i with dirt := true })
      else .ok 0 s
  else .ok ((s.inodes i).zone z).toNat s

/-- The same for a slot of an indirect block, which is read for it. -/
def fillEntry (create : Bool) (dev block n : ℕ) (s : Fs) : Out ℕ :=
  (bread dev block s).bind fun bh s => match bh with
    | none => .ok 0 s
    | some b =>
      (if create = true ∧ word (s.data b) (2 * n) = 0 then
        (newBlock dev s).bind fun j s =>
          if j ≠ 0 then .ok j (s.setData b (setWord (s.data b) (2 * n) (UInt16.ofNat j)))
          else .ok 0 s
      else .ok (word (s.data b) (2 * n)).toNat s).bind fun j s =>
      (brelse bh s).bind fun _ s => .ok j s

/-- `_bmap`. -/
def bmapWith (create : Bool) (i : Slot) (block : ℕ) (s : Fs) : Out ℕ :=
  if block ≥ 7 + 512 + 512 * 512 then .stop .blockTooBig
  else if block < 7 then fillZone create i (Fin.ofNat 9 block) s
  else if block - 7 < 512 then
    (fillZone create i 7 s).bind fun ind s =>
    if ind = 0 then .ok 0 s else fillEntry create (s.inodes i).dev ind (block - 7) s
  else
    let block := block - 7 - 512
    (fillZone create i 8 s).bind fun dind s =>
    if dind = 0 then .ok 0 s
    else (fillEntry create (s.inodes i).dev dind (block / 512) s).bind fun ind s =>
      if ind = 0 then .ok 0 s else fillEntry create (s.inodes i).dev ind (block % 512) s

def bmap (i : Slot) (block : ℕ) (s : Fs) : Out ℕ := bmapWith false i block s
def createBlock (i : Slot) (block : ℕ) (s : Fs) : Out ℕ := bmapWith true i block s

end Linux011.Minix
