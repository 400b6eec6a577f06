import Linux011.Aufs
import Linux011.Extents

set_option autoImplicit false

/-! # What `aufs_fill_super` makes of an image -/
namespace Linux011.Aufs
open Extents

/-- The last inode number of an image. -/
def Disk.lasti (d : Disk) : ℕ := (d.start - 512).toNat / 64 + aufs_ROOT_INO - 1

/-- The inode numbers of an image. -/
def Disk.numbers (d : Disk) : List ℕ := List.range' aufs_ROOT_INO (d.lasti - 1)

def Disk.blocks (d : Disk) : ℕ := (d.endByte + 1).toNat / 512

/-- The data blocks of an image, as `aufs_fill_super` counts them. -/
def Disk.dataBlocks (d : Disk) : ℕ := (d.endByte + 1 - d.start).toNat / 512

/-- What `aufs_fill_super` tests. -/
structure Disk.Accepted (d : Disk) : Prop where
  magic : d.magic = aufs_MAGIC
  super : ¬ (d.endByte < d.start ∨ d.start < 512 + 16)
  lasti : d.lasti ≤ aufs_MAX_LASTI
  root : aufs_ROOT_INO ≤ d.lasti
  last : sub64 d.blocks 1 < d.deviceBlocks.toNat
  inodes : ∀ i ∈ d.numbers, ¬ (d.inode i).corrupted d.blocks d.endByte

/-- The volume before the loop over the inodes. -/
def Disk.opened (d : Disk) : Vol where
  blocks := d.blocks
  freeb := d.dataBlocks
  freei := 0
  lfEblk := 0
  lasti := d.lasti
  imap i := i < aufs_ROOT_INO
  memory := Function.update (fun _ => none) aufs_ROOT_INO (some (d.inode aufs_ROOT_INO).load)
  disk := d
  written _ := none

/-- What one turn of the loop makes of the volume if the inode is not corrupted. -/
def takeInode (s : Vol) (i : ℕ) : Vol :=
  let d := s.disk.inode i
  if d.ino = 0 then { s with freei := s.freei + 1 }
  else { s with
    imap := Function.update s.imap i true,
    freeb := sub64 s.freeb d.aufs_FILEBLOCKS.toNat,
    lfEblk := max s.lfEblk d.eblock.toNat }

def Disk.mounted (d : Disk) : Vol := d.numbers.foldl takeInode d.opened

theorem takeInode_disk (s : Vol) (i : ℕ) :
    (takeInode s i).disk = s.disk ∧ (takeInode s i).blocks = s.blocks := by
  unfold takeInode
  simp only
  split_ifs <;> exact ⟨rfl, rfl⟩

theorem scan_ok (l : List ℕ) (s s' : Vol) : l.foldlM scanInode s = .ok s' ↔
    (∀ i ∈ l, ¬ (s.disk.inode i).corrupted s.blocks s.disk.endByte) ∧ l.foldl takeInode s = s' := by
  induction l generalizing s with
  | nil =>
    constructor
    · intro h
      cases h
      exact ⟨fun _ hi => (nomatch hi), rfl⟩
    · intro h
      rw [← h.2]
      rfl
  | cons i l ih =>
    have hone : scanInode s i = if (s.disk.inode i).corrupted s.blocks s.disk.endByte
        then .error Errno.EIO else .ok (takeInode s i) := by
      unfold scanInode takeInode
      simp only
      split_ifs <;> rfl
    rw [List.foldlM_cons, List.foldl_cons, hone, List.forall_mem_cons]
    obtain ⟨hdisk, hblocks⟩ := takeInode_disk s i
    by_cases hc : (s.disk.inode i).corrupted s.blocks s.disk.endByte
    · rw [if_pos hc]
      constructor
      · intro h
        cases h
      · intro h
        exact absurd hc h.1.1
    · rw [if_neg hc]
      have hih := ih (takeInode s i)
      rw [hdisk, hblocks] at hih
      constructor
      · intro h
        obtain ⟨hl, hs⟩ := hih.mp h
        exact ⟨⟨hc, hl⟩, hs⟩
      · intro h
        exact hih.mpr ⟨h.1.2, h.2⟩

theorem fill_super_ok (d : Disk) (s : Vol) :
    aufs_fill_super d = .ok s ↔ d.Accepted ∧ d.mounted = s := by
  have hlasti : (d.start - 512).toNat / 64 + aufs_ROOT_INO - 1 = d.lasti := rfl
  have hblocks : (d.endByte + 1).toNat / 512 = d.blocks := rfl
  have hnumbers : List.range' aufs_ROOT_INO (d.lasti - 1) = d.numbers := rfl
  unfold aufs_fill_super aufs_iget
  simp only [hlasti, hblocks, hnumbers]
  by_cases hm : d.magic = aufs_MAGIC
  · rw [if_neg (not_not_intro hm)]
    by_cases hs : d.endByte < d.start ∨ d.start < 512 + 16
    · rw [if_pos hs]
      exact ⟨fun h => (nomatch h), fun h => absurd hs h.1.super⟩
    rw [if_neg hs]
    by_cases hl : aufs_MAX_LASTI < d.lasti
    · rw [if_pos hl]
      exact ⟨fun h => (nomatch h), fun h => absurd hl (Nat.not_lt.mpr h.1.lasti)⟩
    rw [if_neg hl]
    by_cases hr : aufs_ROOT_INO < aufs_ROOT_INO ∨ d.lasti < aufs_ROOT_INO
    · rw [if_pos hr]
      refine ⟨fun h => (nomatch h), fun h => ?_⟩
      have := h.1.root
      omega
    rw [if_neg hr]
    simp only
    by_cases hlast : d.deviceBlocks.toNat ≤ sub64 d.blocks 1
    · rw [if_pos hlast]
      exact ⟨fun h => (nomatch h), fun h => absurd hlast (Nat.not_le.mpr h.1.last)⟩
    rw [if_neg hlast]
    have hscan := scan_ok d.numbers d.opened s
    constructor
    · intro h
      obtain ⟨hi, hs'⟩ := hscan.mp h
      exact ⟨⟨hm, hs, by omega, by omega, by omega, hi⟩, hs'⟩
    · intro h
      exact hscan.mpr ⟨h.1.inodes, h.2⟩
  · rw [if_pos hm]
    exact ⟨fun h => (nomatch h), fun h => absurd h.1.magic hm⟩

/-! ### The volume after the loop -/

/-- The inode on the disk is in use. -/
def Disk.Used (d : Disk) (i : ℕ) : Prop := i ∈ d.numbers ∧ (d.inode i).ino ≠ 0

instance (d : Disk) (i : ℕ) : Decidable (d.Used i) := inferInstanceAs (Decidable (_ ∧ _))

/-- The blocks that the loop takes off for an inode. -/
def DiskInode.taken (d : DiskInode) : ℕ := if d.ino = 0 then 0 else d.aufs_FILEBLOCKS.toNat

theorem mem_numbers {d : Disk} {i : ℕ} : i ∈ d.numbers ↔ aufs_ROOT_INO ≤ i ∧ i ≤ d.lasti := by
  unfold Disk.numbers Disk.lasti aufs_ROOT_INO
  rw [List.mem_range'_1]
  omega

theorem nodup_numbers (d : Disk) : d.numbers.Nodup := List.nodup_range'

theorem sub64_sub64 (a b c : ℕ) : sub64 (sub64 a b) c = sub64 a (b + c) := by
  unfold sub64
  omega

/-- The loop leaves alone what it does not count. -/
theorem takes_frame (l : List ℕ) (s : Vol) :
    (l.foldl takeInode s).disk = s.disk ∧ (l.foldl takeInode s).blocks = s.blocks ∧
      (l.foldl takeInode s).lasti = s.lasti ∧ (l.foldl takeInode s).memory = s.memory ∧
      (l.foldl takeInode s).written = s.written := by
  induction l generalizing s with
  | nil => exact ⟨rfl, rfl, rfl, rfl, rfl⟩
  | cons i l ih =>
    have hone : (takeInode s i).disk = s.disk ∧ (takeInode s i).blocks = s.blocks ∧
        (takeInode s i).lasti = s.lasti ∧ (takeInode s i).memory = s.memory ∧
        (takeInode s i).written = s.written := by
      unfold takeInode
      simp only
      split_ifs <;> exact ⟨rfl, rfl, rfl, rfl, rfl⟩
    rw [List.foldl_cons]
    obtain ⟨h₁, h₂, h₃, h₄, h₅⟩ := ih (takeInode s i)
    exact ⟨h₁.trans hone.1, h₂.trans hone.2.1, h₃.trans hone.2.2.1, h₄.trans hone.2.2.2.1,
      h₅.trans hone.2.2.2.2⟩

theorem takes_imap (l : List ℕ) (s : Vol) (j : ℕ) : (l.foldl takeInode s).imap j = true ↔
    s.imap j = true ∨ j ∈ l ∧ (s.disk.inode j).ino ≠ 0 := by
  induction l generalizing s with
  | nil => simp
  | cons i l ih =>
    rw [List.foldl_cons, ih, (takeInode_disk s i).1]
    have hone : (takeInode s i).imap j = true ↔
        s.imap j = true ∨ j = i ∧ (s.disk.inode j).ino ≠ 0 := by
      unfold takeInode
      simp only
      by_cases hj : j = i
      · subst hj
        by_cases h0 : (s.disk.inode j).ino = 0 <;> simp [h0]
      · split_ifs <;> simp [hj]
    rw [hone, List.mem_cons, or_and_right, or_assoc]

theorem takes_freei (l : List ℕ) (s : Vol) : (l.foldl takeInode s).freei =
    s.freei + (l.map fun i => if (s.disk.inode i).ino = 0 then 1 else 0).sum := by
  induction l generalizing s with
  | nil => rfl
  | cons i l ih =>
    rw [List.foldl_cons, ih, (takeInode_disk s i).1, List.map_cons, List.sum_cons]
    unfold takeInode
    simp only
    split_ifs <;> simp only [Nat.zero_add, Nat.add_assoc]

theorem takes_freeb (l : List ℕ) (s : Vol) (h : s.freeb < 2 ^ 64) : (l.foldl takeInode s).freeb =
    sub64 s.freeb (l.map fun i => (s.disk.inode i).taken).sum := by
  induction l generalizing s with
  | nil =>
    change s.freeb = sub64 s.freeb 0
    unfold sub64
    omega
  | cons i l ih =>
    have hone : (takeInode s i).freeb = sub64 s.freeb (s.disk.inode i).taken := by
      unfold takeInode DiskInode.taken
      simp only
      split_ifs
      · unfold sub64
        simp only
        omega
      · rfl
    have hlt : (takeInode s i).freeb < 2 ^ 64 := by
      rw [hone]
      unfold sub64
      omega
    rw [List.foldl_cons, ih _ hlt, (takeInode_disk s i).1, List.map_cons, List.sum_cons, hone,
      sub64_sub64]

theorem takes_lfEblk (l : List ℕ) (s : Vol) : s.lfEblk ≤ (l.foldl takeInode s).lfEblk ∧
    (∀ i ∈ l, (s.disk.inode i).ino ≠ 0 →
      (s.disk.inode i).eblock.toNat ≤ (l.foldl takeInode s).lfEblk) ∧
    ((l.foldl takeInode s).lfEblk = s.lfEblk ∨ ∃ i ∈ l, (s.disk.inode i).ino ≠ 0 ∧
      (l.foldl takeInode s).lfEblk = (s.disk.inode i).eblock.toNat) := by
  induction l generalizing s with
  | nil => exact ⟨le_refl _, (fun _ hi => nomatch hi), .inl rfl⟩
  | cons i l ih =>
    rw [List.foldl_cons]
    obtain ⟨hle, hall, hsome⟩ := ih (takeInode s i)
    rw [(takeInode_disk s i).1] at hall hsome
    by_cases h0 : (s.disk.inode i).ino = 0
    · have hone : (takeInode s i).lfEblk = s.lfEblk := by
        unfold takeInode
        simp only
        rw [if_pos h0]
      rw [hone] at hle hsome
      refine ⟨hle, ?_, ?_⟩
      · intro j hj hu
        cases hj with
        | head => exact absurd h0 hu
        | tail _ hj => exact hall j hj hu
      · exact hsome.imp_right fun ⟨j, hj, hu⟩ => ⟨j, List.mem_cons_of_mem i hj, hu⟩
    · have hone : (takeInode s i).lfEblk = max s.lfEblk (s.disk.inode i).eblock.toNat := by
        unfold takeInode
        simp only
        rw [if_neg h0]
      rw [hone] at hle hsome
      refine ⟨(le_max_left _ _).trans hle, ?_, ?_⟩
      · intro j hj hu
        cases hj with
        | head => exact (le_max_right _ _).trans hle
        | tail _ hj => exact hall j hj hu
      · cases hsome with
        | inl hsome =>
          rw [hsome]
          cases le_total s.lfEblk (s.disk.inode i).eblock.toNat with
          | inl hm => exact .inr ⟨i, List.mem_cons_self, h0, max_eq_right hm⟩
          | inr hm => exact .inl (max_eq_left hm)
        | inr hsome =>
          obtain ⟨j, hj, hu⟩ := hsome
          exact .inr ⟨j, List.mem_cons_of_mem i hj, hu⟩

/-! ### Inodes and extents -/

/-- An inode in use, as it is in memory or else on the disk. -/
def Vol.inode (s : Vol) (i : ℕ) : Option Inode :=
  if aufs_ROOT_INO ≤ i ∧ s.imap i = true then
    some ((s.memory i).getD (s.disk.inode i).load)
  else none

def Inode.extent (v : Inode) : Option (ℕ × ℕ) :=
  if v.sblock = 0 then none else some (v.sblock, v.eblock)

def Vol.layout (s : Vol) : Layout ℕ where
  extent i := (s.inode i).bind Inode.extent
  last := s.lfEblk

/-- The first whole block of the data area. -/
def Disk.dataStart (d : Disk) : ℕ := (d.start.toNat + 511) / 512

/-- The entries in the blocks of the root directory. -/
def Disk.slots (d : Disk) : ℕ := (d.inode aufs_ROOT_INO).load.slots

/-- The entries of the root directory for an inode. -/
def Disk.links (d : Disk) (slots i : ℕ) : ℕ :=
  ∑ k ∈ Finset.range slots, if (d.dirent k).ino.toNat = i then 1 else 0

/-- An image of a file system in order. -/
structure Disk.Consistent (d : Disk) : Prop where
  rootUsed : (d.inode aufs_ROOT_INO).ino ≠ 0
  rootType : (d.inode aufs_ROOT_INO).vtype = aufs_VDIR
  rootBlocks : (d.inode aufs_ROOT_INO).sblock ≠ 0
  rootSize : (d.inode aufs_ROOT_INO).load.size ≤ d.slots * 16
  files : ∀ i, d.Used i → i ≠ aufs_ROOT_INO → (d.inode i).vtype = aufs_VREG
  empty : ∀ i, d.Used i → (d.inode i).sblock = 0 → (d.inode i).eblock = 0
  inside : ∀ i, d.Used i → (d.inode i).sblock ≠ 0 → d.start.toNat ≤ (d.inode i).sblock.toNat * 512 ∧
    ((d.inode i).eblock.toNat + 1) * 512 ≤ d.endByte.toNat + 1
  disjoint : ∀ i j, d.Used i → d.Used j → i ≠ j → (d.inode i).sblock ≠ 0 → (d.inode j).sblock ≠ 0 →
    (d.inode i).eblock < (d.inode j).sblock ∨ (d.inode j).eblock < (d.inode i).sblock
  links : ∀ i, d.Used i → i ≠ aufs_ROOT_INO → (d.inode i).nlink.toNat = d.links d.slots i
  names : ∀ k < d.slots, (d.dirent k).ino ≠ 0 → d.Used (d.dirent k).ino.toNat

theorem Disk.Accepted.endByte {d : Disk} (h : d.Accepted) : d.endByte.toNat + 1 < 2 ^ 32 := by
  by_contra hend
  have hlt := d.endByte.toNat_lt
  have hzero : d.blocks = 0 := by
    unfold Disk.blocks
    rw [UInt32.toNat_add]
    have h1 : (1 : UInt32).toNat = 1 := rfl
    omega
  have hlast := h.last
  rw [hzero] at hlast
  have hdev := d.deviceBlocks.toNat_lt
  unfold sub64 at hlast
  omega

theorem Disk.Accepted.blocks_eq {d : Disk} (h : d.Accepted) :
    d.blocks = (d.endByte.toNat + 1) / 512 := by
  have hend := h.endByte
  have h1 : (1 : UInt32).toNat = 1 := rfl
  unfold Disk.blocks
  rw [UInt32.toNat_add]
  omega

theorem Disk.Accepted.start {d : Disk} (h : d.Accepted) :
    528 ≤ d.start.toNat ∧ d.start.toNat ≤ d.endByte.toNat := by
  have hs := h.super
  rw [not_or, UInt32.not_lt, UInt32.not_lt, UInt32.le_iff_toNat_le, UInt32.le_iff_toNat_le] at hs
  exact ⟨hs.2, hs.1⟩

theorem Disk.Accepted.dataBlocks_eq {d : Disk} (h : d.Accepted) :
    d.dataBlocks = (d.endByte.toNat + 1 - d.start.toNat) / 512 := by
  have hend := h.endByte
  have hstart := h.start
  have h1 : (1 : UInt32).toNat = 1 := rfl
  unfold Disk.dataBlocks
  rw [UInt32.toNat_sub, UInt32.toNat_add]
  omega

/-- Whole blocks of the data area are not more than the data blocks. -/
theorem Disk.Accepted.dataBlocks_ge {d : Disk} (h : d.Accepted) :
    d.blocks - d.dataStart ≤ d.dataBlocks := by
  have hstart := h.start
  rw [h.blocks_eq, h.dataBlocks_eq]
  unfold Disk.dataStart
  omega

/-! ### The mounted volume -/

variable {d : Disk}

theorem mounted_imap (i : ℕ) : d.mounted.imap i = true ↔ i < aufs_ROOT_INO ∨ d.Used i := by
  unfold Disk.mounted
  rw [takes_imap]
  unfold Disk.opened Disk.Used
  simp only [decide_eq_true_eq]

theorem mounted_memory (i : ℕ) : d.mounted.memory i =
    if i = aufs_ROOT_INO then some (d.inode aufs_ROOT_INO).load else none := by
  unfold Disk.mounted
  rw [(takes_frame d.numbers d.opened).2.2.2.1]
  unfold Disk.opened
  simp only
  by_cases hi : i = aufs_ROOT_INO
  · subst hi
    simp
  · simp [hi]

theorem mounted_written (i : ℕ) : d.mounted.written i = none := by
  unfold Disk.mounted
  rw [(takes_frame d.numbers d.opened).2.2.2.2]
  rfl

theorem mounted_disk : d.mounted.disk = d := (takes_frame d.numbers d.opened).1

theorem mounted_inode (i : ℕ) :
    d.mounted.inode i = if d.Used i then some (d.inode i).load else none := by
  have hiff : (aufs_ROOT_INO ≤ i ∧ d.mounted.imap i = true) ↔ d.Used i := by
    rw [mounted_imap]
    constructor
    · intro h
      exact h.2.resolve_left (Nat.not_lt.mpr h.1)
    · intro h
      exact ⟨(mem_numbers.mp h.1).1, .inr h⟩
  unfold Vol.inode
  rw [mounted_memory, mounted_disk]
  by_cases hu : d.Used i
  · rw [if_pos (hiff.mpr hu), if_pos hu]
    split_ifs with hi
    · rw [hi]
      rfl
    · rfl
  · rw [if_neg (fun h => hu (hiff.mp h)), if_neg hu]

theorem load_extent (r : DiskInode) : r.load.extent =
    if r.sblock = 0 then none else some (r.sblock.toNat, r.eblock.toNat) := by
  unfold Inode.extent DiskInode.load
  have hiff : r.sblock.toNat = 0 ↔ r.sblock = 0 := by
    rw [← UInt32.toNat_inj]
    rfl
  simp only [hiff]

theorem mounted_extent {i : ℕ} {p : ℕ × ℕ} : d.mounted.layout.extent i = some p ↔
    d.Used i ∧ (d.inode i).sblock ≠ 0 ∧ ((d.inode i).sblock.toNat, (d.inode i).eblock.toNat) = p := by
  unfold Vol.layout
  simp only [mounted_inode]
  by_cases hu : d.Used i
  · rw [if_pos hu, Option.bind_some, load_extent]
    by_cases h0 : (d.inode i).sblock = 0
    · simp [h0]
    · simp [h0, hu]
  · simp [hu]

/-- The extents of a consistent image lie in the data area and do not overlap. -/
theorem Disk.Consistent.layout (hc : d.Consistent) (ha : d.Accepted) :
    d.mounted.layout.Sound d.dataStart d.blocks := by
  obtain ⟨-, hall, hsome⟩ := takes_lfEblk d.numbers d.opened
  have hinside : ∀ i, d.Used i → (d.inode i).sblock ≠ 0 → d.dataStart ≤ (d.inode i).sblock.toNat ∧
      (d.inode i).eblock.toNat < d.blocks := by
    intro i hu h0
    have hin := hc.inside i hu h0
    rw [ha.blocks_eq]
    unfold Disk.dataStart
    omega
  constructor
  · intro i p hp
    obtain ⟨hu, h0, rfl⟩ := mounted_extent.mp hp
    have hcorrupted := ha.inodes i hu.1
    unfold DiskInode.corrupted at hcorrupted
    rw [not_or, not_or, not_or, UInt32.not_lt, UInt32.le_iff_toNat_le] at hcorrupted
    exact ⟨(hinside i hu h0).1, hcorrupted.2.2.1, hall i hu.1 hu.2⟩
  · intro i j p q hij hp hq
    obtain ⟨hui, hi0, rfl⟩ := mounted_extent.mp hp
    obtain ⟨huj, hj0, rfl⟩ := mounted_extent.mp hq
    exact hc.disjoint i j hui huj hij hi0 hj0
  · have hpos : 0 < d.blocks := by
      have hstart := ha.start
      rw [ha.blocks_eq]
      omega
    change (d.numbers.foldl takeInode d.opened).lfEblk < d.blocks
    cases hsome with
    | inl h0 =>
      rw [h0]
      exact hpos
    | inr h =>
      obtain ⟨i, hi, hu, he⟩ := h
      rw [he]
      change (d.inode i).eblock.toNat < d.blocks
      by_cases h0 : (d.inode i).sblock = 0
      · rw [hc.empty i ⟨hi, hu⟩ h0]
        exact hpos
      · exact (hinside i ⟨hi, hu⟩ h0).2

end Linux011.Aufs
