import Mathlib

set_option autoImplicit false

/-! # Volumes of the contiguous file system aufs

The medium has no read errors: `sb_bread` never fails. Times and the contents of files are left out;
the only directory is the root, and its entries are kept apart from the blocks that hold them. -/
namespace Linux011.Aufs

def aufs_BSIZE : ℕ := 512

def aufs_MAGIC : UInt32 := 0x1BADFAFF

def aufs_ROOT_INO : ℕ := 2

def aufs_VDIR : UInt32 := 2

def aufs_VREG : UInt32 := 1

def aufs_NAMELEN : ℕ := 14

def aufs_MAX_LASTI : ℕ := 513

def S_IFDIR : UInt16 := 0o040000

def S_IFREG : UInt16 := 0o100000

/-- Sums and differences of an `unsigned long`. -/
def add64 (a b : ℕ) : ℕ := (a + b) % 2 ^ 64

def sub64 (a b : ℕ) : ℕ := (a + 2 ^ 64 - b % 2 ^ 64) % 2 ^ 64

/-! ### The disk -/

/-- `struct aufs_inode`. -/
structure DiskInode where
  ino : UInt16
  sblock : UInt32
  eblock : UInt32
  eoffset : UInt32
  vtype : UInt32
  mode : UInt32
  uid : UInt32
  gid : UInt32
  nlink : UInt32

/-- What `memset` makes of an inode on the disk. -/
def DiskInode.zero : DiskInode := ⟨0, 0, 0, 0, 0, 0, 0, 0, 0⟩

def DiskInode.aufs_FILESIZE (d : DiskInode) : UInt32 :=
  if d.sblock = 0 then 0 else d.eoffset + 1 - d.sblock * 512

def DiskInode.aufs_FILEBLOCKS (d : DiskInode) : UInt32 :=
  if d.sblock = 0 then 0 else d.eblock + 1 - d.sblock

/-- `struct aufs_dirent`. -/
structure Dirent where
  ino : UInt16
  name : ℕ → UInt8

/-- The disk: the fields of the super block, the blocks of the device, the inodes by their numbers
    and the entries in the blocks of the root directory. -/
structure Disk where
  magic : UInt32
  start : UInt32
  endByte : UInt32
  deviceBlocks : UInt64
  inode : ℕ → DiskInode
  dirent : ℕ → Dirent

/-! ### The volume in memory -/

/-- An inode in memory; `dirty` is `I_DIRTY`. -/
structure Inode where
  mode : UInt16
  /-- `i_op`: that of directories (`true`) or of files, if it was set. -/
  ops : Option Bool
  uid : UInt32
  gid : UInt32
  nlink : UInt32
  size : ℕ
  blocks : ℕ
  dskIno : ℕ
  sblock : ℕ
  eblock : ℕ
  dirty : Bool

/-- `struct aufs_sb_info`, the inodes in memory and the disk as the buffers have it. -/
structure Vol where
  blocks : ℕ
  freeb : ℕ
  freei : ℕ
  lfEblk : ℕ
  lasti : ℕ
  imap : ℕ → Bool
  memory : ℕ → Option Inode
  disk : Disk
  /-- What `aufs_write_inode` last wrote of an inode. -/
  written : ℕ → Option Inode

inductive Errno where
  | EINVAL
  | EIO
  | ENOENT
  | ENAMETOOLONG
  | ENOSPC
  deriving DecidableEq

/-- The inode in memory that `aufs_iget` makes of one on the disk. -/
def DiskInode.load (d : DiskInode) : Inode where
  mode := d.mode.toUInt16 |||
    (if d.vtype = aufs_VDIR then S_IFDIR else if d.vtype = aufs_VREG then S_IFREG else 0)
  ops := if d.vtype = aufs_VDIR then some true else if d.vtype = aufs_VREG then some false else none
  uid := d.uid
  gid := d.gid
  nlink := d.nlink
  size := d.aufs_FILESIZE.toNat
  blocks := d.aufs_FILEBLOCKS.toNat
  dskIno := d.ino.toNat
  sblock := d.sblock.toNat
  eblock := d.eblock.toNat
  dirty := false

def Vol.setInode (s : Vol) (ino : ℕ) (v : Inode) : Vol :=
  { s with memory := Function.update s.memory ino (some v) }

def Vol.setDisk (s : Vol) (ino : ℕ) (d : DiskInode) : Vol :=
  { s with disk := { s.disk with inode := Function.update s.disk.inode ino d } }

def Vol.setDirent (s : Vol) (k : ℕ) (e : Dirent) : Vol :=
  { s with disk := { s.disk with dirent := Function.update s.disk.dirent k e } }

def aufs_iget (s : Vol) (ino : ℕ) : Except Errno (Inode × Vol) :=
  match s.memory ino with
  | some v => .ok (v, s)
  | none =>
    if ino < aufs_ROOT_INO ∨ s.lasti < ino then .error Errno.EIO
    else
      let v := (s.disk.inode ino).load
      .ok (v, s.setInode ino v)

/-- The inode on the disk that `aufs_write_inode` makes of one in memory. -/
def Inode.store (ino : ℕ) (v : Inode) : DiskInode where
  ino := UInt16.ofNat ino
  sblock := UInt32.ofNat v.sblock
  eblock := UInt32.ofNat v.eblock
  eoffset := UInt32.ofNat (sub64 (v.sblock * aufs_BSIZE + v.size) 1)
  vtype := if ino = aufs_ROOT_INO then aufs_VDIR else aufs_VREG
  mode := v.mode.toUInt32
  uid := v.uid
  gid := v.gid
  nlink := v.nlink

def aufs_write_inode (ino : ℕ) (v : Inode) (s : Vol) : Vol :=
  let v := { v with dirty := false }
  { (s.setDisk ino (v.store ino)).setInode ino v with
    written := Function.update s.written ino (some v) }

/-- An inode with links only leaves the memory. -/
def aufs_evict_inode (ino : ℕ) (v : Inode) (s : Vol) : Vol :=
  let s := { s with memory := Function.update s.memory ino none }
  if v.nlink ≠ 0 then s
  else
    let s := { s.setDisk ino .zero with written := Function.update s.written ino none }
    let s := if v.dskIno ≠ 0 then
        { s with
          freeb := if v.sblock ≠ 0 then add64 s.freeb (sub64 (v.eblock + 1) v.sblock) else s.freeb,
          freei := add64 s.freei 1,
          imap := Function.update s.imap ino false }
      else s
    if s.lfEblk = v.eblock then { s with lfEblk := sub64 v.sblock 1 } else s

/-! ### Mounting -/

/-- The test of `aufs_fill_super` for one inode. -/
def DiskInode.corrupted (d : DiskInode) (blocks : ℕ) (endByte : UInt32) : Prop :=
  blocks < d.sblock.toNat ∨ blocks < d.eblock.toNat ∨ d.eblock < d.sblock ∨
    (d.eoffset ≠ 0xFFFFFFFF ∧ endByte < d.eoffset) ∨
    d.eoffset.toNat < d.sblock.toNat * aufs_BSIZE

instance (d : DiskInode) (blocks : ℕ) (endByte : UInt32) : Decidable (d.corrupted blocks endByte) :=
  inferInstanceAs (Decidable (_ ∨ _ ∨ _ ∨ _ ∨ _))

/-- One turn of the loop over the inodes in `aufs_fill_super`. -/
def scanInode (s : Vol) (i : ℕ) : Except Errno Vol :=
  let d := s.disk.inode i
  if d.corrupted s.blocks s.disk.endByte then .error Errno.EIO
  else if d.ino = 0 then .ok { s with freei := s.freei + 1 }
  else .ok { s with
    imap := Function.update s.imap i true,
    freeb := sub64 s.freeb d.aufs_FILEBLOCKS.toNat,
    lfEblk := max s.lfEblk d.eblock.toNat }

def aufs_fill_super (disk : Disk) : Except Errno Vol :=
  if disk.magic ≠ aufs_MAGIC then .error .EINVAL
  else if disk.endByte < disk.start ∨ disk.start < 512 + 16 then .error .EINVAL
  else
    let lasti := (disk.start - 512).toNat / 64 + aufs_ROOT_INO - 1
    if aufs_MAX_LASTI < lasti then .error .EINVAL
    else
      let s : Vol :=
        { blocks := 0, freeb := 0, freei := 0, lfEblk := 0, lasti := lasti,
          imap := fun i => i < aufs_ROOT_INO, memory := fun _ => none, disk := disk,
          written := fun _ => none }
      match aufs_iget s aufs_ROOT_INO with
      | .error e => .error e
      | .ok (_, s) =>
        let s := { s with
          blocks := (disk.endByte + 1).toNat / 512,
          freeb := (disk.endByte + 1 - disk.start).toNat / 512 }
        -- the last block can be read
        if disk.deviceBlocks.toNat ≤ sub64 s.blocks 1 then .error Errno.EIO
        else (List.range' aufs_ROOT_INO (lasti - 1)).foldlM scanInode s

/-! ### The root directory -/

/-- The entries in the blocks of a directory. -/
def Inode.slots (dir : Inode) : ℕ := (dir.eblock + 1 - dir.sblock) * 32

/-- `aufs_add_entry`, with the directory after it. -/
def aufs_add_entry (dir : Inode) (name : List UInt8) (ino : ℕ) (s : Vol) : Except Errno Vol :=
  if name = [] then .error .ENOENT
  else if aufs_NAMELEN < name.length then .error .ENAMETOOLONG
  else match (List.range dir.slots).find? fun k => (s.disk.dirent k).ino = 0 with
    | none => .error .ENOSPC
    | some k =>
      let dir := if dir.size ≤ k * 16 then { dir with size := dir.size + 16 } else dir
      .ok ((s.setInode aufs_ROOT_INO { dir with dirty := true }).setDirent k
        ⟨UInt16.ofNat ino, fun j => name.getD j 0⟩)

def aufs_namecmp (name : List UInt8) (buffer : ℕ → UInt8) : Prop :=
  (name.length < aufs_NAMELEN → buffer name.length = 0) ∧
    (List.range name.length).map buffer = name

instance (name : List UInt8) (buffer : ℕ → UInt8) : Decidable (aufs_namecmp name buffer) :=
  inferInstanceAs (Decidable ((_ → _) ∧ _))

def aufs_find_entry (dir : Inode) (name : List UInt8) (s : Vol) : Option ℕ :=
  if aufs_NAMELEN < name.length then none
  else (List.range ((dir.size + 15) / 16)).find? fun k =>
    (s.disk.dirent k).ino ≠ 0 ∧ aufs_namecmp name (s.disk.dirent k).name

/-- `aufs_create` in the root directory, with `mode` and the owners as `inode_init_owner` sets
    them. -/
def aufs_create (dir : Inode) (name : List UInt8) (mode : UInt16) (uid gid : UInt32) (s : Vol) :
    Except Errno ℕ × Vol :=
  match (List.range (s.lasti + 1)).find? fun i => !s.imap i with
  | none => (.error .ENOSPC, s)
  | some ino =>
    let v : Inode :=
      { mode := mode, ops := some false, uid := uid, gid := gid, nlink := 1, size := 0, blocks := 0,
        dskIno := ino, sblock := 0, eblock := 0, dirty := true }
    let s := { s with imap := Function.update s.imap ino true, freei := sub64 s.freei 1 }
    let s := s.setInode ino v
    match aufs_add_entry dir name ino s with
    | .error e => (.error e, aufs_evict_inode ino { v with nlink := v.nlink - 1 } s)
    | .ok s => (.ok ino, s)

def aufs_lookup (dir : Inode) (name : List UInt8) (s : Vol) : Except Errno Vol :=
  if aufs_NAMELEN < name.length then .error .ENAMETOOLONG
  else match aufs_find_entry dir name s with
    | none => .ok s
    | some k => (aufs_iget s (s.disk.dirent k).ino.toNat).map Prod.snd

def aufs_link (dir : Inode) (ino : ℕ) (v : Inode) (name : List UInt8) (s : Vol) :
    Except Errno Vol :=
  (aufs_add_entry dir name ino s).map fun s =>
    s.setInode ino { v with nlink := v.nlink + 1, dirty := true }

def aufs_unlink (dir : Inode) (ino : ℕ) (v : Inode) (name : List UInt8) (s : Vol) :
    Except Errno Vol :=
  match aufs_find_entry dir name s with
  | none => .error .ENOENT
  | some k =>
    if (s.disk.dirent k).ino.toNat ≠ ino then .error .ENOENT
    else
      let s := s.setDirent k { s.disk.dirent k with ino := 0 }
      let s := s.setInode aufs_ROOT_INO { dir with dirty := true }
      let nlink := if v.nlink = 0 then 1 else v.nlink
      .ok (s.setInode ino { v with nlink := nlink - 1, dirty := true })

/-! ### Files -/

/-- `aufs_get_block` with `create` set: the block that is mapped. `moved` tells whether
    `aufs_move_blocks` can read the old blocks. -/
def aufs_get_block (ino : ℕ) (bi : Inode) (block : ℕ) (moved : Bool) (s : Vol) :
    Except Errno ℕ × Vol :=
  let phys := add64 bi.sblock block
  if bi.sblock ≠ 0 ∧ phys ≤ bi.eblock then (.ok phys, s)
  else if s.blocks ≤ phys then (.error .ENOSPC, s)
  else if bi.eblock = s.lfEblk then
    (.ok phys,
      { s with freeb := sub64 s.freeb (sub64 phys bi.eblock), lfEblk := phys }.setInode ino
        { bi with eblock := phys, dirty := true })
  else
    let phys := add64 s.lfEblk 1
    if s.blocks ≤ add64 phys block then (.error .ENOSPC, s)
    else if bi.sblock ≠ 0 ∧ !moved then (.error Errno.EIO, s)
    else
      let eblock := add64 phys block
      (.ok eblock,
        { s with
          freeb := sub64 s.freeb (sub64 (add64 (sub64 eblock phys) 1) bi.blocks),
          lfEblk := eblock }.setInode ino
          { bi with sblock := phys, eblock := eblock, dirty := true })

/-! ### Runs -/

inductive Act where
  | create (name : List UInt8) (perm : UInt16) (uid gid : UInt32)
  | lookup (name : List UInt8)
  | link (ino : ℕ) (name : List UInt8)
  | unlink (ino : ℕ) (name : List UInt8)
  | getBlock (ino block : ℕ) (moved : Bool)
  /-- The generic way of setting `i_size`. -/
  | setSize (ino size : ℕ)
  | write (ino : ℕ)
  | evict (ino : ℕ)

/-- The state after a call that may fail. -/
def kept (s : Vol) : Except Errno Vol → Vol
  | .ok s' => s'
  | .error _ => s

/-- The files in memory. -/
def Vol.file (s : Vol) (ino : ℕ) : Option Inode := if ino = aufs_ROOT_INO then none else s.memory ino

/-- `none` for what the VFS does not ask for: anything but the creation of regular files, links to
    the root directory or its data blocks, and the end of an inode that is in use or not written. -/
def step (s : Vol) : Act → Option Vol
  | .create name perm uid gid => do
    let dir ← s.memory aufs_ROOT_INO
    some (aufs_create dir name (perm &&& 0o7777 ||| S_IFREG) uid gid s).2
  | .lookup name => do
    let dir ← s.memory aufs_ROOT_INO
    some (kept s (aufs_lookup dir name s))
  | .link ino name => do
    let dir ← s.memory aufs_ROOT_INO
    let v ← s.file ino
    some (kept s (aufs_link dir ino v name s))
  | .unlink ino name => do
    let dir ← s.memory aufs_ROOT_INO
    let v ← s.file ino
    some (kept s (aufs_unlink dir ino v name s))
  | .getBlock ino block moved => do
    let v ← s.file ino
    some (aufs_get_block ino v block moved s).2
  | .setSize ino size => do
    let v ← s.file ino
    some (s.setInode ino { v with size := size, dirty := true })
  | .write ino => do
    let v ← s.memory ino
    some (aufs_write_inode ino v s)
  | .evict ino => do
    let v ← s.file ino
    if v.nlink ≠ 0 ∧ v.dirty then none else some (aufs_evict_inode ino v s)

def run (s : Vol) (acts : List Act) : Option Vol := acts.foldlM step s

end Linux011.Aufs
