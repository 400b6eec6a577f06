import Linux011.CooperativeTasks
import Mathlib

set_option autoImplicit false

/-!
# The buffer cache and the inode table (fs/buffer.c, fs/inode.c, fs/bitmap.c)

The kernel functions block by block, for any number of tasks that switch where they sleep.
-/
namespace Linux011.Cache
open CooperativeTasks

def NR_HASH : ℕ := 307
def NR_INODE : ℕ := 32
def NR_BLK_DEV : ℕ := 7
def INODES_PER_BLOCK : ℕ := 32
def ROOT_INO : ℕ := 1

/-- `struct d_inode`, 32 bytes. -/
structure DInode where
  mode : ℕ
  uid : ℕ
  size : ℕ
  time : ℕ
  gid : ℕ
  nlinks : ℕ
  zone : Fin 9 → ℕ

/-- The 1024 bytes of a block, as 32 records of 32 bytes. -/
abbrev Data := ℕ → DInode

structure BufferHead where
  data : Data
  dev : ℕ
  blocknr : ℕ
  uptodate : Bool
  dirt : Bool
  count : ℕ
  lock : Bool

/-- `disk` is the part that `struct m_inode` shares with `struct d_inode`. -/
structure Inode where
  disk : DInode
  dev : ℕ
  num : ℕ
  count : ℕ
  lock : Bool
  dirt : Bool
  pipe : Bool
  mount : Bool

inductive Rw where
  | read
  | write
  deriving DecidableEq

/-- `request bh` is the request of a locked buffer in the queue of its device. -/
structure Caches where
  buf : ℕ → BufferHead
  freeList : List ℕ
  hash : ℕ → List ℕ
  request : ℕ → Option Rw
  inode : ℕ → Inode
  lastInode : ℕ
  imap : ℕ → ℕ → Bool
  zmap : ℕ → ℕ → Bool
  disk : ℕ → ℕ → Data

structure Super where
  ninodes : ℕ
  nzones : ℕ
  imapBlocks : ℕ
  zmapBlocks : ℕ
  firstdatazone : ℕ

/-- What a task may do in user mode, or in a part of the kernel that is not modelled. -/
inductive Action where
  | getblk (dev block : ℕ)
  | bread (dev block : ℕ)
  | brelse (bh : ℕ)
  | store (bh : ℕ) (data : Data) (uptodate : Bool)
  | syncDev (dev : ℕ)
  | sysSync
  | iget (dev nr : ℕ)
  | iput (i : ℕ)
  | newInode (dev uid gid : ℕ)
  | getPipeInode
  | setInode (i : ℕ) (disk : DInode)

/-- The number of buffers, the drivers and the mounted file systems (`imount i` is the device
    mounted on inode `i`), what the tasks may do, and whether requests may fail. -/
structure Config where
  nrBuffers : ℕ
  requestFn : ℕ → Bool
  super : ℕ → Option Super
  imount : ℕ → Option ℕ
  may : Caches → Action → Prop
  fails : Bool

def Caches.setBuf (s : Caches) (bh : ℕ) (b : BufferHead) : Caches :=
  { s with buf := Function.update s.buf bh b }

def Caches.setInode (s : Caches) (i : ℕ) (v : Inode) : Caches :=
  { s with inode := Function.update s.inode i v }

/-- `b_count` is an unsigned char. -/
def Caches.holdBuf (s : Caches) (bh : ℕ) : Caches :=
  s.setBuf bh { s.buf bh with count := ((s.buf bh).count + 1) % 256 }

def Caches.dropBuf (s : Caches) (bh : ℕ) : Caches :=
  s.setBuf bh { s.buf bh with
    count := if (s.buf bh).count = 0 then 255 else (s.buf bh).count - 1 }

/-- `i_count` is an unsigned short. -/
def Caches.holdInode (s : Caches) (i : ℕ) : Caches :=
  s.setInode i { s.inode i with count := ((s.inode i).count + 1) % 65536 }

def Caches.dropInode (s : Caches) (i : ℕ) : Caches :=
  s.setInode i { s.inode i with
    count := if (s.inode i).count = 0 then 65535 else (s.inode i).count - 1 }

def Caches.lockInode (s : Caches) (i : ℕ) : Caches :=
  s.setInode i { s.inode i with lock := true }

def Caches.unlockInode (s : Caches) (i : ℕ) : Caches :=
  s.setInode i { s.inode i with lock := false }

/-! ### Looking for a buffer -/

def hashfn (dev block : ℕ) : ℕ := (dev ^^^ block) % NR_HASH

def findBuffer (s : Caches) (dev block : ℕ) : Option ℕ :=
  (s.hash (hashfn dev block)).find? fun bh =>
    (s.buf bh).dev = dev ∧ (s.buf bh).blocknr = block

def badness (b : BufferHead) : ℕ := 2 * b.dirt.toNat + b.lock.toNat

/-- The walk over the free list. -/
def scanFree (buf : ℕ → BufferHead) : List ℕ → Option ℕ → Option ℕ
  | [], bh => bh
  | tmp :: l, bh =>
    if (buf tmp).count ≠ 0 then scanFree buf l bh
    else if bh.all fun b => badness (buf tmp) < badness (buf b) then
      if badness (buf tmp) = 0 then some tmp else scanFree buf l (some tmp)
    else scanFree buf l bh

def removeFromQueues (s : Caches) (bh : ℕ) : Caches :=
  let h := hashfn (s.buf bh).dev (s.buf bh).blocknr
  { s with
    hash := Function.update s.hash h ((s.hash h).erase bh)
    freeList := s.freeList.erase bh }

def insertIntoQueues (s : Caches) (bh : ℕ) : Caches :=
  let h := hashfn (s.buf bh).dev (s.buf bh).blocknr
  { s with
    freeList := s.freeList ++ [bh]
    hash := if (s.buf bh).dev = 0 then s.hash else Function.update s.hash h (bh :: s.hash h) }

/-- The end of `getblk`: the buffer gets a new block. -/
def retarget (s : Caches) (bh dev block : ℕ) : Caches :=
  let s := s.setBuf bh { s.buf bh with count := 1, dirt := false, uptodate := false }
  let s := removeFromQueues s bh
  insertIntoQueues (s.setBuf bh { s.buf bh with dev := dev, blocknr := block }) bh

/-! ### Looking for an inode -/

/-- `++last_inode` with its wrap. -/
def nextInode (last : ℕ) : ℕ := if last + 1 ≥ NR_INODE then 0 else last + 1

/-- The search of `get_empty_inode`: the last place looked at and the inode found. -/
def scanEmpty (inode : ℕ → Inode) : ℕ → ℕ → Option ℕ → ℕ × Option ℕ
  | 0, last, found => (last, found)
  | n + 1, last, found =>
    let last := nextInode last
    if (inode last).count = 0 then
      if (inode last).dirt = false ∧ (inode last).lock = false then (last, some last)
      else scanEmpty inode n last (some last)
    else scanEmpty inode n last found

/-- The first of the `n` entries from `i` on with this device and number. -/
def scanInode (inode : ℕ → Inode) (dev nr : ℕ) : ℕ → ℕ → Option ℕ
  | 0, _ => none
  | n + 1, i => if (inode i).dev = dev ∧ (inode i).num = nr then some i
    else scanInode inode dev nr n (i + 1)

def emptyInode : Inode where
  disk := ⟨0, 0, 0, 0, 0, 0, fun _ => 0⟩
  dev := 0
  num := 0
  count := 0
  lock := false
  dirt := false
  pipe := false
  mount := false

def isBlk (mode : ℕ) : Bool := mode / 4096 % 16 = 6
def isReg (mode : ℕ) : Bool := mode / 4096 % 16 = 8
def isDir (mode : ℕ) : Bool := mode / 4096 % 16 = 4

/-- `find_first_zero` over the eight bitmaps of 8192 bits. -/
def firstZero (bit : ℕ → Bool) : ℕ → ℕ → Option ℕ
  | 0, _ => none
  | n + 1, j => if bit j then firstZero bit n (j + 1) else some j

def inodeBlock (sb : Super) (num : ℕ) : ℕ :=
  2 + sb.imapBlocks + sb.zmapBlocks + (num - 1) / INODES_PER_BLOCK

/-! ### The blocks -/

inductive Value where
  | void
  | buffer (bh : Option ℕ)
  | inode (i : Option ℕ)

/-- What runs when a called function returns. -/
inductive Kont where
  | userBuffer (bufs inodes : List ℕ)
  | userInode (bufs inodes : List ℕ)
  | userPipe (bufs inodes : List ℕ)
  | user (bufs inodes : List ℕ)
  | bread
  | breadRead (bh : ℕ)
  | breadFail
  | getblkSynced (dev block bh : ℕ)
  | syncNext (dev : ℕ) (last : Bool) (i : ℕ)
  | syncLast (dev : ℕ)
  | sysSync (i : ℕ)
  | syncInodes (i : ℕ)
  | writeInode (i : ℕ)
  | writeInodeEnd (i : ℕ)
  | readInode (i : ℕ)
  | readInodeEnd (i : ℕ)
  | iputRepeat (i : ℕ)
  | truncate (i : ℕ) (held : List ℕ)
  | truncateRead (i : ℕ) (held : List ℕ)
  | freeBit (dev block : ℕ)
  | emptyWritten (i : ℕ)
  | iget (dev nr : ℕ)
  | igetCrossed (dev empty : ℕ)
  | igetDone (dev nr i : ℕ)
  | newInode (dev uid gid : ℕ)
  | newInodeFail

/-- `user` holds the buffers and inodes its task has got and not yet released. A block whose
    name begins with `wait` or `lock` sleeps while the buffer or inode is locked. -/
inductive Frame where
  | user (bufs inodes : List ℕ)
  | userPipe (bufs inodes : List ℕ) (i : ℕ)
  | getblk (dev block : ℕ)
  | waitHash (dev block bh : ℕ)
  | waitFree (dev block bh : ℕ)
  | getblkDirty (dev block bh : ℕ)
  | llRwBlock (rw : Rw) (bh : ℕ)
  | lockBuffer (rw : Rw) (bh : ℕ)
  | makeRequest (rw : Rw) (bh : ℕ)
  | waitRelease (bh : ℕ)
  | bread (dev block : ℕ)
  | breadGot (bh : Option ℕ)
  | waitRead (bh : ℕ)
  | breadFail
  | syncDev (dev : ℕ) (last : Bool) (i : ℕ)
  | waitSync (dev : ℕ) (last : Bool) (i : ℕ)
  | sysSyncInodes
  | sysSync (i : ℕ)
  | waitSysSync (i : ℕ)
  | syncInodes (i : ℕ)
  | waitSyncInode (i : ℕ)
  | lockWrite (i : ℕ)
  | writeInodeGot (i : ℕ) (bh : Option ℕ)
  | writeInodeEnd (i : ℕ)
  | lockRead (i : ℕ)
  | readInodeGot (i : ℕ) (bh : Option ℕ)
  | readInodeEnd (i : ℕ)
  | waitPut (i : ℕ)
  | waitPutAgain (i : ℕ)
  | iputRepeat (i : ℕ)
  | truncate (i : ℕ) (held : List ℕ)
  | freeInode (i : ℕ)
  | freeBlock (dev block : ℕ)
  | freeHash (dev block : ℕ)
  | waitFreed (dev block bh : ℕ)
  | freeBit (dev block : ℕ)
  | getEmptyInode
  | waitEmpty (i : ℕ)
  | iget (dev nr : ℕ)
  | igetScan (dev nr empty i : ℕ)
  | waitFound (dev nr empty i : ℕ)
  | igetDone (dev nr i : ℕ)
  | newInodeEnter (dev uid gid : ℕ)
  | newInode (dev uid gid i : ℕ)
  | newInodeFail
  | stuck (k : Kont) (v : Value)

/-- What a property may speak of: a buffer handed out by `getblk`, one that gets a new block,
    an inode handed out by `iget`, and one that is cleared for a new use. -/
inductive Event where
  | quiet
  | got (dev block bh : ℕ) (b : BufferHead)
  | retarget (dev block bh : ℕ) (old b : BufferHead)
  | iget (dev nr i : ℕ) (v : Inode)
  | recycle (i : ℕ) (old : Inode)

abbrev Exit := Ctl Frame Kont Value

def resume : Kont → Value → Frame
  | .userBuffer bufs inodes, .buffer (some bh) => .user (bh :: bufs) inodes
  | .userBuffer bufs inodes, .buffer none => .user bufs inodes
  | .userInode bufs inodes, .inode (some i) => .user bufs (i :: inodes)
  | .userInode bufs inodes, .inode none => .user bufs inodes
  | .userPipe bufs inodes, .inode (some i) => .userPipe bufs inodes i
  | .user bufs inodes, .void => .user bufs inodes
  | .bread, .buffer bh => .breadGot bh
  | .breadRead bh, .void => .waitRead bh
  | .breadFail, .void => .breadFail
  | .getblkSynced dev block bh, .void => .waitFree dev block bh
  | .syncNext dev last i, .void => .syncDev dev last (i + 1)
  | .syncLast dev, .void => .syncDev dev true 0
  | .sysSync i, .void => .sysSync i
  | .syncInodes i, .void => .syncInodes (i + 1)
  | .writeInode i, .buffer bh => .writeInodeGot i bh
  | .writeInodeEnd i, .void => .writeInodeEnd i
  | .readInode i, .buffer bh => .readInodeGot i bh
  | .readInodeEnd i, .void => .readInodeEnd i
  | .iputRepeat i, .void => .waitPutAgain i
  | .truncate i held, .void => .truncate i held
  | .truncateRead i held, .buffer (some bh) => .truncate i (bh :: held)
  | .truncateRead i held, .buffer none => .truncate i held
  | .freeBit dev block, .void => .freeBit dev block
  | .emptyWritten i, .void => .waitEmpty i
  | .iget dev nr, .inode (some empty) => .igetScan dev nr empty 0
  | .igetCrossed dev empty, .void => .igetScan dev ROOT_INO empty 0
  | .igetDone dev nr i, .void => .igetDone dev nr i
  | .newInode dev uid gid, .inode (some i) => .newInode dev uid gid i
  | .newInodeFail, .void => .newInodeFail
  | k, v => .stuck k v

def userStep (s : Caches) (bufs inodes : List ℕ) : Action → Option (Caches × Exit)
  | .getblk dev block => some (s, .call (.getblk dev block) (.userBuffer bufs inodes))
  | .bread dev block => some (s, .call (.bread dev block) (.userBuffer bufs inodes))
  | .brelse bh =>
    if bh ∈ bufs then some (s, .call (.waitRelease bh) (.user (bufs.erase bh) inodes)) else none
  | .store bh data uptodate =>
    if bh ∈ bufs then
      some (s.setBuf bh { s.buf bh with
        data := data, dirt := true, uptodate := (s.buf bh).uptodate || uptodate },
        .goto (.user bufs inodes))
    else none
  | .syncDev dev => some (s, .call (.syncDev dev false 0) (.user bufs inodes))
  | .sysSync => some (s, .call .sysSyncInodes (.user bufs inodes))
  | .iget dev nr => some (s, .call (.iget dev nr) (.userInode bufs inodes))
  | .iput i =>
    if i ∈ inodes then some (s, .call (.waitPut i) (.user bufs (inodes.erase i))) else none
  | .newInode dev uid gid => some (s, .call (.newInodeEnter dev uid gid) (.userInode bufs inodes))
  | .getPipeInode => some (s, .call .getEmptyInode (.userPipe bufs inodes))
  | .setInode i disk =>
    if i ∈ inodes then
      some (s.setInode i { s.inode i with disk := disk, dirt := true }, .goto (.user bufs inodes))
    else none

/-- `getblk` (with `get_hash_table`), `brelse`, `bread`, `sync_dev`, `sys_sync` and `ll_rw_block`. -/
def bufferStep (c : Config) (s : Caches) : Frame → Option (Event × Caches × Exit)
  | .getblk dev block => match findBuffer s dev block with
    | some bh => some (.quiet, s.holdBuf bh, .goto (.waitHash dev block bh))
    | none => match scanFree s.buf s.freeList none with
      | none => some (.quiet, s, .sleep (.getblk dev block))
      | some bh => some (.quiet, s, .goto (.waitFree dev block bh))
  | .waitHash dev block bh =>
    if (s.buf bh).lock then some (.quiet, s, .sleep (.waitHash dev block bh))
    else if (s.buf bh).dev = dev ∧ (s.buf bh).blocknr = block then
      some (.got dev block bh (s.buf bh), s, .ret (.buffer (some bh)))
    else some (.quiet, s.dropBuf bh, .goto (.getblk dev block))
  | .waitFree dev block bh =>
    if (s.buf bh).lock then some (.quiet, s, .sleep (.waitFree dev block bh))
    else if (s.buf bh).count ≠ 0 then some (.quiet, s, .goto (.getblk dev block))
    else some (.quiet, s, .goto (.getblkDirty dev block bh))
  | .getblkDirty dev block bh =>
    if (s.buf bh).dirt then
      some (.quiet, s, .call (.syncDev (s.buf bh).dev false 0) (.getblkSynced dev block bh))
    else match findBuffer s dev block with
      | some _ => some (.quiet, s, .goto (.getblk dev block))
      | none =>
        let s' := retarget s bh dev block
        some (.retarget dev block bh (s.buf bh) (s'.buf bh), s', .ret (.buffer (some bh)))
  | .llRwBlock rw bh =>
    if (s.buf bh).dev / 256 ≥ NR_BLK_DEV ∨ c.requestFn ((s.buf bh).dev / 256) = false then
      some (.quiet, s, .ret .void)
    else some (.quiet, s, .goto (.lockBuffer rw bh))
  | .lockBuffer rw bh =>
    if (s.buf bh).lock then some (.quiet, s, .sleep (.lockBuffer rw bh))
    else if (rw = .write ∧ (s.buf bh).dirt = false) ∨ (rw = .read ∧ (s.buf bh).uptodate = true) then
      some (.quiet, s, .ret .void)
    else some (.quiet, s.setBuf bh { s.buf bh with lock := true }, .goto (.makeRequest rw bh))
  | .makeRequest rw bh =>
    some (.quiet, { s.setBuf bh { s.buf bh with dirt := false } with
      request := Function.update s.request bh (some rw) }, .ret .void)
  | .waitRelease bh =>
    if (s.buf bh).lock then some (.quiet, s, .sleep (.waitRelease bh))
    else if (s.buf bh).count = 0 then some (.quiet, s.dropBuf bh, .panic)
    else some (.quiet, s.dropBuf bh, .ret .void)
  | .bread dev block => some (.quiet, s, .call (.getblk dev block) .bread)
  | .breadGot none => some (.quiet, s, .panic)
  | .breadGot (some bh) =>
    if (s.buf bh).uptodate then some (.quiet, s, .ret (.buffer (some bh)))
    else some (.quiet, s, .call (.llRwBlock .read bh) (.breadRead bh))
  | .waitRead bh =>
    if (s.buf bh).lock then some (.quiet, s, .sleep (.waitRead bh))
    else if (s.buf bh).uptodate then some (.quiet, s, .ret (.buffer (some bh)))
    else some (.quiet, s, .call (.waitRelease bh) .breadFail)
  | .breadFail => some (.quiet, s, .ret (.buffer none))
  | .syncDev dev last i =>
    if i < c.nrBuffers then
      if (s.buf i).dev ≠ dev then some (.quiet, s, .goto (.syncDev dev last (i + 1)))
      else some (.quiet, s, .goto (.waitSync dev last i))
    else if last then some (.quiet, s, .ret .void)
    else some (.quiet, s, .call (.syncInodes 0) (.syncLast dev))
  | .waitSync dev last i =>
    if (s.buf i).lock then some (.quiet, s, .sleep (.waitSync dev last i))
    else if (s.buf i).dev = dev ∧ (s.buf i).dirt = true then
      some (.quiet, s, .call (.llRwBlock .write i) (.syncNext dev last i))
    else some (.quiet, s, .goto (.syncDev dev last (i + 1)))
  | .sysSyncInodes => some (.quiet, s, .call (.syncInodes 0) (.sysSync 0))
  | .sysSync i =>
    if i < c.nrBuffers then some (.quiet, s, .goto (.waitSysSync i))
    else some (.quiet, s, .ret .void)
  | .waitSysSync i =>
    if (s.buf i).lock then some (.quiet, s, .sleep (.waitSysSync i))
    else if (s.buf i).dirt then
      some (.quiet, s, .call (.llRwBlock .write i) (.sysSync (i + 1)))
    else some (.quiet, s, .goto (.sysSync (i + 1)))
  | _ => none

/-- `sync_inodes`, `write_inode` and `read_inode`. -/
def inodeStep (c : Config) (s : Caches) : Frame → Option (Event × Caches × Exit)
  | .syncInodes i =>
    if i < NR_INODE then some (.quiet, s, .goto (.waitSyncInode i))
    else some (.quiet, s, .ret .void)
  | .waitSyncInode i =>
    if (s.inode i).lock then some (.quiet, s, .sleep (.waitSyncInode i))
    else if (s.inode i).dirt = true ∧ (s.inode i).pipe = false then
      some (.quiet, s, .call (.lockWrite i) (.syncInodes i))
    else some (.quiet, s, .goto (.syncInodes (i + 1)))
  | .lockWrite i =>
    if (s.inode i).lock then some (.quiet, s, .sleep (.lockWrite i))
    else if (s.inode i).dirt = false ∨ (s.inode i).dev = 0 then some (.quiet, s, .ret .void)
    else match c.super (s.inode i).dev with
      | none => some (.quiet, s.lockInode i, .panic)
      | some sb => some (.quiet, s.lockInode i,
          .call (.bread (s.inode i).dev (inodeBlock sb (s.inode i).num)) (.writeInode i))
  | .writeInodeGot _ none => some (.quiet, s, .panic)
  | .writeInodeGot i (some bh) =>
    let data := Function.update (s.buf bh).data (((s.inode i).num - 1) % INODES_PER_BLOCK)
      (s.inode i).disk
    some (.quiet, (s.setBuf bh { s.buf bh with data := data, dirt := true }).setInode i
      { s.inode i with dirt := false }, .call (.waitRelease bh) (.writeInodeEnd i))
  | .writeInodeEnd i => some (.quiet, s.unlockInode i, .ret .void)
  | .lockRead i =>
    if (s.inode i).lock then some (.quiet, s, .sleep (.lockRead i))
    else match c.super (s.inode i).dev with
      | none => some (.quiet, s.lockInode i, .panic)
      | some sb => some (.quiet, s.lockInode i,
          .call (.bread (s.inode i).dev (inodeBlock sb (s.inode i).num)) (.readInode i))
  | .readInodeGot _ none => some (.quiet, s, .panic)
  | .readInodeGot i (some bh) =>
    some (.quiet, s.setInode i { s.inode i with
      disk := (s.buf bh).data (((s.inode i).num - 1) % INODES_PER_BLOCK) },
      .call (.waitRelease bh) (.readInodeEnd i))
  | .readInodeEnd i => some (.quiet, s.unlockInode i, .ret .void)
  | _ => none

/-- `iput`, with the end of `truncate`, `free_inode` and `free_block`. -/
def iputStep (c : Config) (s : Caches) : Frame → Option (Event × Caches × Exit)
  | .waitPut i =>
    if (s.inode i).lock then some (.quiet, s, .sleep (.waitPut i))
    else if (s.inode i).count = 0 then some (.quiet, s, .panic)
    else if (s.inode i).pipe then
      if (s.inode i).count ≠ 1 then some (.quiet, s.dropInode i, .ret .void)
      else some (.quiet, s.setInode i { s.inode i with count := 0, dirt := false, pipe := false },
        .ret .void)
    else if (s.inode i).dev = 0 then some (.quiet, s.dropInode i, .ret .void)
    else if isBlk (s.inode i).disk.mode then
      some (.quiet, s, .call (.syncDev ((s.inode i).disk.zone 0) false 0) (.iputRepeat i))
    else some (.quiet, s, .goto (.iputRepeat i))
  | .waitPutAgain i =>
    if (s.inode i).lock then some (.quiet, s, .sleep (.waitPutAgain i))
    else some (.quiet, s, .goto (.iputRepeat i))
  | .iputRepeat i =>
    if (s.inode i).count > 1 then some (.quiet, s.dropInode i, .ret .void)
    else if (s.inode i).disk.nlinks = 0 then
      if isReg (s.inode i).disk.mode || isDir (s.inode i).disk.mode then
        some (.quiet, s, .goto (.truncate i []))
      else some (.quiet, s, .goto (.freeInode i))
    else if (s.inode i).dirt then some (.quiet, s, .call (.lockWrite i) (.iputRepeat i))
    else some (.quiet, s.dropInode i, .ret .void)
  | .truncate i [] =>
    some (.quiet, s.setInode i { s.inode i with
      disk := { (s.inode i).disk with size := 0, zone := fun _ => 0 }, dirt := true },
      .goto (.freeInode i))
  | .truncate i (bh :: held) => some (.quiet, s, .call (.waitRelease bh) (.truncate i held))
  | .freeInode i =>
    if (s.inode i).dev = 0 then some (.quiet, s.setInode i emptyInode, .ret .void)
    else if (s.inode i).count > 1 ∨ (s.inode i).disk.nlinks ≠ 0 then some (.quiet, s, .panic)
    else match c.super (s.inode i).dev with
      | none => some (.quiet, s, .panic)
      | some sb =>
        if (s.inode i).num < 1 ∨ (s.inode i).num > sb.ninodes then some (.quiet, s, .panic)
        else some (.quiet, { s.setInode i emptyInode with
          imap := Function.update s.imap (s.inode i).dev
            (Function.update (s.imap (s.inode i).dev) (s.inode i).num false) }, .ret .void)
  | .freeBlock dev block => match c.super dev with
    | none => some (.quiet, s, .panic)
    | some sb =>
      if block < sb.firstdatazone ∨ block ≥ sb.nzones then some (.quiet, s, .panic)
      else some (.quiet, s, .goto (.freeHash dev block))
  | .freeHash dev block => match findBuffer s dev block with
    | none => some (.quiet, s, .goto (.freeBit dev block))
    | some bh => some (.quiet, s.holdBuf bh, .goto (.waitFreed dev block bh))
  | .waitFreed dev block bh =>
    if (s.buf bh).lock then some (.quiet, s, .sleep (.waitFreed dev block bh))
    else if (s.buf bh).dev ≠ dev ∨ (s.buf bh).blocknr ≠ block then
      some (.quiet, s.dropBuf bh, .goto (.freeHash dev block))
    else if (s.buf bh).count ≠ 1 then some (.quiet, s, .ret .void)
    else some (.quiet, s.setBuf bh { s.buf bh with dirt := false, uptodate := false },
      .call (.waitRelease bh) (.freeBit dev block))
  | .freeBit dev block =>
    if s.zmap dev block then
      some (.quiet, { s with
        zmap := Function.update s.zmap dev (Function.update (s.zmap dev) block false) }, .ret .void)
    else some (.quiet, s, .panic)
  | _ => none

/-- `get_empty_inode`, `iget` and `new_inode`. -/
def igetStep (c : Config) (s : Caches) : Frame → Option (Event × Caches × Exit)
  | .getEmptyInode => match scanEmpty s.inode NR_INODE s.lastInode none with
    | (last, some i) => some (.quiet, { s with lastInode := last }, .goto (.waitEmpty i))
    | (last, none) => some (.quiet, { s with lastInode := last }, .panic)
  | .waitEmpty i =>
    if (s.inode i).lock then some (.quiet, s, .sleep (.waitEmpty i))
    else if (s.inode i).dirt then some (.quiet, s, .call (.lockWrite i) (.emptyWritten i))
    else if (s.inode i).count ≠ 0 then some (.quiet, s, .goto .getEmptyInode)
    else some (.recycle i (s.inode i), s.setInode i { emptyInode with count := 1 },
      .ret (.inode (some i)))
  | .iget dev nr =>
    if dev = 0 then some (.quiet, s, .panic)
    else some (.quiet, s, .call .getEmptyInode (.iget dev nr))
  | .igetScan dev nr empty i => match scanInode s.inode dev nr (NR_INODE - i) i with
    | some i => some (.quiet, s, .goto (.waitFound dev nr empty i))
    | none => some (.quiet, s.setInode empty { s.inode empty with dev := dev, num := nr },
        .call (.lockRead empty) (.igetDone dev nr empty))
  | .waitFound dev nr empty i =>
    if (s.inode i).lock then some (.quiet, s, .sleep (.waitFound dev nr empty i))
    else if (s.inode i).dev ≠ dev ∨ (s.inode i).num ≠ nr then
      some (.quiet, s, .goto (.igetScan dev nr empty 0))
    else if (s.inode i).mount then match c.imount i with
      | none => some (.quiet, s.holdInode i, .call (.waitPut empty) (.igetDone dev nr i))
      | some d => some (.quiet, s.holdInode i, .call (.waitPut i) (.igetCrossed d empty))
    else some (.quiet, s.holdInode i, .call (.waitPut empty) (.igetDone dev nr i))
  | .igetDone dev nr i => some (.iget dev nr i (s.inode i), s, .ret (.inode (some i)))
  | .newInodeEnter dev uid gid => some (.quiet, s, .call .getEmptyInode (.newInode dev uid gid))
  | .newInode dev uid gid i => match c.super dev with
    | none => some (.quiet, s, .panic)
    | some sb => match firstZero (s.imap dev) (8192 * min 8 sb.imapBlocks) 0 with
      | none => some (.quiet, s, .call (.waitPut i) .newInodeFail)
      | some j =>
        if j > sb.ninodes then some (.quiet, s, .call (.waitPut i) .newInodeFail)
        else some (.quiet, { s.setInode i { s.inode i with
            count := 1, dev := dev, num := j, dirt := true,
            disk := { (s.inode i).disk with nlinks := 1, uid := uid, gid := gid } } with
          imap := Function.update s.imap dev (Function.update (s.imap dev) j true) },
          .ret (.inode (some i)))
  | .newInodeFail => some (.quiet, s, .ret (.inode none))
  | _ => none

/-- One block. `full` is a request table without a free slot; `free` and `readIndirect` are the
    blocks `truncate` finds in the zones of the inode. -/
inductive Block (c : Config) : Frame → Caches → Event → Caches → Exit → Prop where
  | yield (s : Caches) (bufs inodes : List ℕ) :
      Block c (.user bufs inodes) s .quiet s (.sleep (.user bufs inodes))
  | act {s s' : Caches} {bufs inodes : List ℕ} {a : Action} {x : Exit} (ha : c.may s a)
      (h : userStep s bufs inodes a = some (s', x)) : Block c (.user bufs inodes) s .quiet s' x
  | pipe (s : Caches) (bufs inodes : List ℕ) (i page : ℕ) (hp : page ≠ 0) :
      Block c (.userPipe bufs inodes i) s .quiet (s.setInode i { s.inode i with
        disk := { (s.inode i).disk with size := page, zone := fun _ => 0 },
        count := 2, pipe := true }) (.goto (.user bufs (i :: i :: inodes)))
  | pipeFail (s : Caches) (bufs inodes : List ℕ) (i : ℕ) :
      Block c (.userPipe bufs inodes i) s .quiet (s.setInode i { s.inode i with count := 0 })
        (.goto (.user bufs inodes))
  | full (s : Caches) (rw : Rw) (bh : ℕ) :
      Block c (.makeRequest rw bh) s .quiet s (.sleep (.makeRequest rw bh))
  | free (s : Caches) (i block : ℕ) (held : List ℕ) :
      Block c (.truncate i held) s .quiet s
        (.call (.freeBlock (s.inode i).dev block) (.truncate i held))
  | readIndirect (s : Caches) (i block : ℕ) (held : List ℕ) :
      Block c (.truncate i held) s .quiet s
        (.call (.bread (s.inode i).dev block) (.truncateRead i held))
  | buffers {f : Frame} {s s' : Caches} {e : Event} {x : Exit}
      (h : bufferStep c s f = some (e, s', x)) : Block c f s e s' x
  | inodes {f : Frame} {s s' : Caches} {e : Event} {x : Exit}
      (h : inodeStep c s f = some (e, s', x)) : Block c f s e s' x
  | put {f : Frame} {s s' : Caches} {e : Event} {x : Exit}
      (h : iputStep c s f = some (e, s', x)) : Block c f s e s' x
  | get {f : Frame} {s s' : Caches} {e : Event} {x : Exit}
      (h : igetStep c s f = some (e, s', x)) : Block c f s e s' x

/-! Only `get_hash_table`, `getblk` and `iget` report an event. -/

theorem inodeStep_quiet {c : Config} {s s' : Caches} {f : Frame} {e : Event} {x : Exit}
    (h : inodeStep c s f = some (e, s', x)) : e = .quiet := by
  revert h
  fun_cases inodeStep c s f <;> intro h
  all_goals simp only [reduceCtorEq, Option.some.injEq, Prod.mk.injEq] at h
  all_goals exact h.1.symm

theorem iputStep_quiet {c : Config} {s s' : Caches} {f : Frame} {e : Event} {x : Exit}
    (h : iputStep c s f = some (e, s', x)) : e = .quiet := by
  revert h
  fun_cases iputStep c s f <;> intro h
  all_goals simp only [reduceCtorEq, Option.some.injEq, Prod.mk.injEq] at h
  all_goals exact h.1.symm

/-- A request is carried out, and the buffer unlocked; a failed one leaves anything behind. -/
def finish (s : Caches) (bh : ℕ) (rw : Rw) (ok : Bool) (block : Data) : Caches :=
  let b := s.buf bh
  let s := { s with request := Function.update s.request bh none }
  match rw with
  | .read => s.setBuf bh { b with data := block, uptodate := ok, lock := false }
  | .write => { s.setBuf bh { b with uptodate := ok, lock := false } with
      disk := Function.update s.disk b.dev (Function.update (s.disk b.dev) b.blocknr block) }

def transferred (s : Caches) (bh : ℕ) : Rw → Data
  | .read => s.disk (s.buf bh).dev (s.buf bh).blocknr
  | .write => (s.buf bh).data

def machine (c : Config) : Machine Caches Frame Kont Value Event where
  block := Block c
  resume := resume
  interrupt s s' := ∃ bh rw ok block, s.request bh = some rw ∧
    (if ok then block = transferred s bh rw else c.fails = true) ∧ s' = finish s bh rw ok block

/-! ### Inode locks held by a call -/

/-- The inode that was locked by the call waiting in this frame. -/
def heldLock : Kont → Option ℕ
  | .writeInode i | .writeInodeEnd i | .readInode i | .readInodeEnd i => some i
  | _ => none

/-- Where a task can be while it runs `bread` or `brelse`. -/
def innerFrame : Frame → Bool
  | .getblk .. | .waitHash .. | .waitFree .. | .getblkDirty .. | .llRwBlock .. | .lockBuffer ..
  | .makeRequest .. | .waitRelease _ | .bread .. | .breadGot _ | .waitRead _ | .breadFail
  | .stuck .. => true
  | _ => false

/-- Whoever locks an inode goes on with `bread` or `brelse`. -/
theorem lock_step {c : Config} {f g : Frame} {k : Kont} {s s' : Caches} {e : Event}
    (h : Block c f s e s' (.call g k)) (hk : heldLock k ≠ none) : innerFrame g = true := by
  cases h with
  | act _ h =>
    revert h
    fun_cases userStep <;> intro h
    all_goals simp only [reduceCtorEq, Option.some.injEq, Prod.mk.injEq, Ctl.call.injEq, and_false] at h
    all_goals obtain ⟨rfl, rfl, rfl⟩ := h
    all_goals exact absurd rfl hk
  | free => exact absurd rfl hk
  | readIndirect => exact absurd rfl hk
  | buffers h =>
    revert h
    fun_cases bufferStep c s f <;> intro h
    all_goals simp only [reduceCtorEq, Option.some.injEq, Prod.mk.injEq, Ctl.call.injEq, and_false] at h
    all_goals obtain ⟨rfl, rfl, rfl, rfl⟩ := h
    all_goals exact absurd rfl hk
  | inodes h =>
    revert h
    fun_cases inodeStep c s f <;> intro h
    all_goals simp only [reduceCtorEq, Option.some.injEq, Prod.mk.injEq, Ctl.call.injEq, and_false] at h
    all_goals obtain ⟨rfl, rfl, rfl, rfl⟩ := h
    all_goals first | rfl | exact absurd rfl hk
  | put h =>
    revert h
    fun_cases iputStep c s f <;> intro h
    all_goals simp only [reduceCtorEq, Option.some.injEq, Prod.mk.injEq, Ctl.call.injEq, and_false] at h
    all_goals obtain ⟨rfl, rfl, rfl, rfl⟩ := h
    all_goals exact absurd rfl hk
  | get h =>
    revert h
    fun_cases igetStep c s f <;> intro h
    all_goals simp only [reduceCtorEq, Option.some.injEq, Prod.mk.injEq, Ctl.call.injEq, and_false] at h
    all_goals obtain ⟨rfl, rfl, rfl, rfl⟩ := h
    all_goals exact absurd rfl hk

end Linux011.Cache
