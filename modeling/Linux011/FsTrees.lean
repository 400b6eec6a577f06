import Linux011.FsPaths

set_option autoImplicit false

/-!
# The trees of the mounted devices

What is read from a device through the table of inodes and the blocks: the inode of a number, the
blocks of a file, the entries of a directory. The inodes that belong to a tree are given by `live`.
-/
namespace Linux011.Minix
open Outcomes

/-! ### Bytes -/

theorem byteOf_toNat (n i : ℕ) : (byteOf n i).toNat = n / 256 ^ i % 256 := by
  simp [byteOf]

theorem word_eq {b : Block} {o n : ℕ} (h0 : b o = byteOf n 0) (h1 : b (o + 1) = byteOf n 1) :
    word b o = UInt16.ofNat n := by
  apply UInt16.toNat_inj.mp
  unfold word
  rw [h0, h1, byteOf_toNat, byteOf_toNat, UInt16.toNat_ofNat', UInt16.toNat_ofNat']
  norm_num
  omega

theorem long_eq {b : Block} {o n : ℕ} (h0 : b o = byteOf n 0) (h1 : b (o + 1) = byteOf n 1)
    (h2 : b (o + 2) = byteOf n 2) (h3 : b (o + 3) = byteOf n 3) : long b o = UInt32.ofNat n := by
  apply UInt32.toNat_inj.mp
  unfold long word
  rw [h0, h1, h2, h3, byteOf_toNat, byteOf_toNat, byteOf_toNat, byteOf_toNat, UInt16.toNat_ofNat',
    UInt16.toNat_ofNat', UInt32.toNat_ofNat', UInt32.toNat_ofNat']
  norm_num
  omega

theorem encode_inside (d : DInode) (o : ℕ) (b : Block) {i : ℕ} (h : i < 32) :
    encode d o b (o + i) = d.byte i := by
  unfold encode
  rw [if_pos ⟨by omega, by omega⟩, Nat.add_sub_cancel_left]

theorem encode_outside (d : DInode) {o : ℕ} (b : Block) {i : ℕ} (h : i < o ∨ o + 32 ≤ i) :
    encode d o b i = b i := by
  unfold encode
  rw [if_neg (by omega)]

theorem decode_congr {b b' : Block} {o : ℕ} (h : ∀ i < 32, b (o + i) = b' (o + i)) :
    decode b o = decode b' o := by
  have hw : ∀ k < 31, word b (o + k) = word b' (o + k) := by
    intro k hk
    unfold word
    rw [h k (by omega), Nat.add_assoc, h (k + 1) (by omega)]
  have hl : ∀ k < 29, long b (o + k) = long b' (o + k) := by
    intro k hk
    unfold long
    rw [hw k (by omega), Nat.add_assoc, hw (k + 2) (by omega)]
  have h0 : word b o = word b' o := hw 0 (by omega)
  have hz : ∀ i : Fin 9, word b (o + 14 + 2 * i) = word b' (o + 14 + 2 * i) := by
    intro i
    rw [Nat.add_assoc]
    exact hw _ (by omega)
  unfold decode
  simp only [h0, hw 2 (by omega), hl 4 (by omega), hl 8 (by omega), h 12 (by omega),
    h 13 (by omega), hz]

theorem decode_encode (d : DInode) (o : ℕ) (b : Block) : decode (encode d o b) o = d := by
  have hb : ∀ i < 32, encode d o b (o + i) = d.byte i := fun i h => encode_inside d o b h
  have hzone : ∀ i : Fin 9, word (encode d o b) (o + 14 + 2 * i) = d.zone i := by
    intro i
    have h0 : d.byte (14 + 2 * i) = byteOf (d.zone i).toNat 0 := by
      fin_cases i <;> rfl
    have h1 : d.byte (14 + 2 * i + 1) = byteOf (d.zone i).toNat 1 := by
      fin_cases i <;> rfl
    rw [Nat.add_assoc, word_eq ((hb _ (by omega)).trans h0) ((hb _ (by omega)).trans h1),
      UInt16.ofNat_toNat]
  have h0 : encode d o b o = d.byte 0 := hb 0 (by omega)
  have hmode : word (encode d o b) o = d.mode := by
    rw [word_eq (h0.trans rfl) ((hb 1 (by omega)).trans rfl), UInt16.ofNat_toNat]
  have huid : word (encode d o b) (o + 2) = d.uid := by
    rw [word_eq ((hb 2 (by omega)).trans rfl) ((hb 3 (by omega)).trans rfl), UInt16.ofNat_toNat]
  have hsize : long (encode d o b) (o + 4) = d.size := by
    rw [long_eq ((hb 4 (by omega)).trans rfl) ((hb 5 (by omega)).trans rfl)
      ((hb 6 (by omega)).trans rfl) ((hb 7 (by omega)).trans rfl), UInt32.ofNat_toNat]
  have htime : long (encode d o b) (o + 8) = d.mtime := by
    rw [long_eq ((hb 8 (by omega)).trans rfl) ((hb 9 (by omega)).trans rfl)
      ((hb 10 (by omega)).trans rfl) ((hb 11 (by omega)).trans rfl), UInt32.ofNat_toNat]
  have hgid : encode d o b (o + 12) = d.gid := hb 12 (by omega)
  have hlinks : encode d o b (o + 13) = d.nlinks := hb 13 (by omega)
  unfold decode
  simp only [hmode, huid, hsize, htime, hgid, hlinks, hzone]

/-- Another inode of the block. -/
theorem decode_encode_ne (d : DInode) (b : Block) {nr nr' : ℕ}
    (h : inodeOffset nr ≠ inodeOffset nr') :
    decode (encode d (inodeOffset nr) b) (inodeOffset nr') = decode b (inodeOffset nr') := by
  refine decode_congr fun i hi => encode_outside d b ?_
  unfold inodeOffset at *
  omega

/-- Two numbers have the same place only if they are the same. -/
theorem inode_place {sb : Super} {nr nr' : ℕ} (h : 1 ≤ nr) (h' : 1 ≤ nr')
    (hb : sb.inodeBlock nr = sb.inodeBlock nr') (ho : inodeOffset nr = inodeOffset nr') :
    nr = nr' := by
  unfold Super.inodeBlock inodeOffset INODES_PER_BLOCK at *
  omega

/-! ### Reading a device -/

/-- All but the time of the last change, which is not always written. -/
def DInode.core (d : DInode) : DInode := { d with mtime := 0 }

def Fs.onDisk (s : Fs) (dev nr : ℕ) : DInode :=
  match s.getSuper dev with
  | none => Inode.empty.toDInode
  | some k => decode (s.data (dev, (s.supers k).inodeBlock nr)) (inodeOffset nr)

/-- The inode of a number, from the table if it is there. -/
def Fs.inodeOf (s : Fs) (dev nr : ℕ) : DInode :=
  match s.findInode dev nr with
  | none => (s.onDisk dev nr).core
  | some i => (s.inodes i).core

/-- The entry of `super_block` that is mounted on the inode of a number. -/
def Fs.coveredBy (s : Fs) (dev nr : ℕ) : Option (Fin NR_SUPER) :=
  (s.findInode dev nr).bind fun i => if (s.inodes i).mount then s.mountedOn i else none

/-- An inode, or the root of the device that is mounted on it. -/
def Fs.cross (s : Fs) (dev nr : ℕ) : ℕ × ℕ :=
  match s.coveredBy dev nr with
  | none => (dev, nr)
  | some k => ((s.supers k).dev, ROOT_INO)

/-- The places where an inode names a block. -/
inductive Place where
  | direct (z : Fin 7)
  | single
  | singleEntry (n : Fin 512)
  | double
  | doubleEntry (n : Fin 512)
  | doubleEntryEntry (n m : Fin 512)
  deriving DecidableEq

/-- An entry of an indirect block, if there is one. -/
def entryOf (data : ℕ → Block) (block n : ℕ) : ℕ :=
  if block = 0 then 0 else (word (data block) (2 * n)).toNat

def DInode.blockAt (d : DInode) (data : ℕ → Block) : Place → ℕ
  | .direct z => (d.zone (z.castLE (by decide))).toNat
  | .single => (d.zone 7).toNat
  | .singleEntry n => entryOf data (d.zone 7).toNat n
  | .double => (d.zone 8).toNat
  | .doubleEntry n => entryOf data (d.zone 8).toNat n
  | .doubleEntryEntry n m => entryOf data (entryOf data (d.zone 8).toNat n) m

/-- The place of block `k` of a file. -/
def placeOf (k : ℕ) : Place :=
  if h : k < 7 then .direct ⟨k, h⟩
  else if k - 7 < 512 then .singleEntry (Fin.ofNat 512 (k - 7))
  else .doubleEntryEntry (Fin.ofNat 512 ((k - 7 - 512) / 512)) (Fin.ofNat 512 ((k - 7 - 512) % 512))

def DInode.block (d : DInode) (data : ℕ → Block) (k : ℕ) : ℕ := d.blockAt data (placeOf k)

/-- The first entry of block `k` that matches, if it is among the first `entries` of all. -/
def DInode.findAt (d : DInode) (data : ℕ → Block) (name : Name) (entries k : ℕ) :
    Option (ℕ × ℕ) :=
  if d.block data k = 0 then none
  else (findIn name (data (d.block data k))
    (min DIR_ENTRIES_PER_BLOCK (entries - DIR_ENTRIES_PER_BLOCK * k))).map fun j => (k, j)

/-- What `find_entry` finds: the block and the entry. -/
def DInode.find (d : DInode) (data : ℕ → Block) (name : Name) (entries : ℕ) : Option (ℕ × ℕ) :=
  if d.zone 0 = 0 then none
  else (List.range' 0 ((entries + 63) / DIR_ENTRIES_PER_BLOCK - 1 + 1)).findSome?
    (d.findAt data name entries)

/-- The blocks of a device. -/
def Fs.blocks (s : Fs) (dev : ℕ) : ℕ → Block := fun block => s.data (dev, block)

/-- The inode number of an entry of a directory. -/
def Fs.entryAt (s : Fs) (dev nr : ℕ) (p : ℕ × ℕ) : ℕ :=
  entryInode (s.blocks dev ((s.inodeOf dev nr).block (s.blocks dev) p.1)) p.2

/-- The number of an inode by its name in a directory. -/
def Fs.lookup (s : Fs) (dev nr : ℕ) (name : Name) : Option ℕ :=
  ((s.inodeOf dev nr).find (s.blocks dev) name ((s.inodeOf dev nr).size.toNat / 16)).map
    (s.entryAt dev nr)

def Fs.slotId (s : Fs) (i : Slot) : ℕ × ℕ := ((s.inodes i).dev, (s.inodes i).num)

/-- Where a name of a directory is looked up, and by which name: `..` in the root of the task is
    `.`, and in the root of a mounted device that of the directory it is mounted on. -/
def Fs.redirect (s : Fs) (dev nr : ℕ) (name : Name) : (ℕ × ℕ) × Name :=
  if name ≠ [dot, dot] then ((dev, nr), name)
  else if s.task.root.map s.slotId = some (dev, nr) then ((dev, nr), [dot])
  else if nr ≠ ROOT_INO then ((dev, nr), name)
  else match (s.getSuper dev).bind fun k => (s.supers k).imount with
    | none => ((dev, nr), name)
    | some m => (s.slotId m, name)

/-- The inode that a name of a directory leads to, before it is crossed. -/
def Fs.childEntry (s : Fs) (dev nr : ℕ) (name : Name) : Option (ℕ × ℕ) :=
  if name.take NAME_LEN = [] then none
  else
    let (q, name) := s.redirect dev nr (name.take NAME_LEN)
    (s.lookup q.1 q.2 name).map fun inr => (q.1, inr)

end Linux011.Minix
