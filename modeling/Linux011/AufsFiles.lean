import Linux011.AufsMount

set_option autoImplicit false

/-! # What holds of a mounted volume after any calls -/
namespace Linux011.Aufs
open Extents

/-- The type bits of an inode. -/
def typeBits (i : ℕ) : UInt16 := if i = aufs_ROOT_INO then S_IFDIR else S_IFREG

/-- Only the root is a directory, and an inode without a first block has no last one. -/
structure Inode.Proper (i : ℕ) (v : Inode) : Prop where
  mode : v.mode ||| typeBits i = v.mode
  ops : v.ops = some (decide (i = aufs_ROOT_INO))
  dskIno : v.dskIno ≠ 0
  blocks : v.blocks < 2 ^ 32
  empty : v.sblock = 0 → v.eblock = 0

/-- The inode on the disk is what was last written, or as it was when the volume was mounted. -/
structure Vol.OnDisk (s : Vol) (i : ℕ) : Prop where
  written : ∀ w, s.written i = some w → s.disk.inode i = w.store i ∧ w.Proper i ∧
    w.sblock < 2 ^ 32 ∧ w.eblock < 2 ^ 32
  unwritten : s.written i = none → (s.disk.inode i).ino ≠ 0 ∧
    ¬ (s.disk.inode i).corrupted s.blocks s.disk.endByte ∧ (s.disk.inode i).load.Proper i

/-- What holds of each inode number. -/
structure Local (d : Disk) (s : Vol) (i : ℕ) : Prop where
  low : i < aufs_ROOT_INO → s.imap i = true ∧ s.memory i = none
  high : s.imap i = true → i < aufs_ROOT_INO ∨ i ≤ d.lasti
  memory : ∀ v, s.memory i = some v → s.imap i = true
  proper : ∀ v, s.inode i = some v → v.Proper i
  free : i ≤ d.lasti → s.imap i = false → (s.disk.inode i).ino = 0 ∧
    ¬ (s.disk.inode i).corrupted s.blocks s.disk.endByte
  disk : i ∈ d.numbers → s.imap i = true → (∀ v, s.memory i = some v → v.dirty = false) → s.OnDisk i
  agrees : ∀ v, s.memory i = some v → v.dirty = false →
    (s.disk.inode i).load = v ∨ s.written i = some v

/-- The volume without the links to its inodes. -/
structure Base (d : Disk) (s : Vol) : Prop where
  accepted : d.Accepted
  magic : s.disk.magic = d.magic
  start : s.disk.start = d.start
  endByte : s.disk.endByte = d.endByte
  deviceBlocks : s.disk.deviceBlocks = d.deviceBlocks
  blocks : s.blocks = d.blocks
  lasti : s.lasti = d.lasti
  root : ∃ dir, s.memory aufs_ROOT_INO = some dir ∧ dir.sblock ≠ 0 ∧ dir.slots = d.slots ∧
    dir.size ≤ d.slots * 16
  layout : s.layout.Sound d.dataStart d.blocks
  freei : s.freei = ∑ i ∈ d.numbers.toFinset, if s.imap i = true then 0 else 1
  inodes : ∀ i, Local d s i

/-- The link count of an inode in use. -/
def Vol.nlink (s : Vol) (i : ℕ) : Option UInt32 := (s.inode i).map Inode.nlink

/-- Every inode but the root has as many links as there are entries for it, and the entries are
    for inodes in use. -/
structure Linked (d : Disk) (s : Vol) : Prop where
  links : ∀ i n, s.nlink i = some n → i ≠ aufs_ROOT_INO → n.toNat = s.disk.links d.slots i
  names : ∀ k < d.slots, (s.disk.dirent k).ino ≠ 0 →
    (s.nlink (s.disk.dirent k).ino.toNat).isSome = true

structure Sound (d : Disk) (s : Vol) : Prop extends Base d s, Linked d s

variable {d : Disk} {s s' : Vol} {i : ℕ} {v w : Inode}

/-- Two volumes have the same of an inode number. -/
structure SameAt (i : ℕ) (s s' : Vol) : Prop where
  imap : s'.imap i = s.imap i
  memory : s'.memory i = s.memory i
  written : s'.written i = s.written i
  disk : s'.disk.inode i = s.disk.inode i

theorem SameAt.inode (h : SameAt i s s') : s'.inode i = s.inode i := by
  unfold Vol.inode
  rw [h.imap, h.memory, h.disk]

theorem Local.same (hl : Local d s i) (h : SameAt i s s') (hb : s'.blocks = s.blocks)
    (he : s'.disk.endByte = s.disk.endByte) : Local d s' i := by
  constructor
  · rw [h.imap, h.memory]
    exact hl.low
  · rw [h.imap]
    exact hl.high
  · rw [h.imap, h.memory]
    exact hl.memory
  · rw [h.inode]
    exact hl.proper
  · rw [h.imap, h.disk, hb, he]
    exact hl.free
  · intro hi himap hm
    rw [h.imap] at himap
    rw [h.memory] at hm
    obtain ⟨hw, hn⟩ := hl.disk hi himap hm
    constructor
    · rw [h.written, h.disk]
      exact hw
    · rw [h.written, h.disk, hb, he]
      exact hn
  · rw [h.memory, h.disk, h.written]
    exact hl.agrees

theorem Base.number (h : Base d s) (hm : s.memory i = some v) : i ∈ d.numbers := by
  have hi : aufs_ROOT_INO ≤ i := by
    by_contra hlow
    have hn := ((h.inodes i).low (Nat.not_le.mp hlow)).2
    rw [hm] at hn
    cases hn
  have hhigh := (h.inodes i).high ((h.inodes i).memory v hm)
  exact mem_numbers.mpr ⟨hi, hhigh.resolve_left (Nat.not_lt.mpr hi)⟩

theorem Base.inode_memory (h : Base d s) (hm : s.memory i = some v) : s.inode i = some v := by
  unfold Vol.inode
  rw [if_pos ⟨(mem_numbers.mp (h.number hm)).1, (h.inodes i).memory v hm⟩, hm]
  rfl

theorem inode_memory_none (hm : s.memory i = none) (hi : aufs_ROOT_INO ≤ i)
    (himap : s.imap i = true) : s.inode i = some (s.disk.inode i).load := by
  unfold Vol.inode
  rw [if_pos ⟨hi, himap⟩, hm]
  rfl

/-- A change at one inode number. -/
theorem Base.change (h : Base d s) (i : ℕ) (hother : ∀ j ≠ i, SameAt j s s')
    (hdisk : s'.disk = { s.disk with inode := s'.disk.inode, dirent := s'.disk.dirent })
    (hb : s'.blocks = s.blocks) (hlasti : s'.lasti = s.lasti)
    (hroot : ∃ dir, s'.memory aufs_ROOT_INO = some dir ∧ dir.sblock ≠ 0 ∧ dir.slots = d.slots ∧
      dir.size ≤ d.slots * 16)
    (hlayout : s'.layout.Sound d.dataStart d.blocks)
    (hfreei : s'.freei = ∑ i ∈ d.numbers.toFinset, if s'.imap i = true then 0 else 1)
    (hi : Local d s' i) : Base d s' := by
  have hend : s'.disk.endByte = s.disk.endByte := by rw [hdisk]
  constructor
  · exact h.accepted
  · rw [← h.magic, hdisk]
  · rw [← h.start, hdisk]
  · rw [← h.endByte, hdisk]
  · rw [← h.deviceBlocks, hdisk]
  · rw [hb, h.blocks]
  · rw [hlasti, h.lasti]
  · exact hroot
  · exact hlayout
  · exact hfreei
  · intro j
    by_cases hj : j = i
    · rw [hj]
      exact hi
    · exact (h.inodes j).same (hother j hj) hb hend

/-- The layout after a change at one inode number. -/
theorem layout_change (hother : ∀ j ≠ i, SameAt j s s') :
    s'.layout.extent = Function.update s.layout.extent i ((s'.inode i).bind Inode.extent) := by
  funext j
  by_cases hj : j = i
  · subst hj
    rw [Function.update_self]
    rfl
  · rw [Function.update_of_ne hj]
    unfold Vol.layout
    simp only
    rw [(hother j hj).inode]

/-- The layout is as before if the inode has its blocks as before. -/
theorem layout_same (hother : ∀ j ≠ i, SameAt j s s') (hlf : s'.lfEblk = s.lfEblk)
    (hi : (s'.inode i).bind Inode.extent = (s.inode i).bind Inode.extent) :
    s'.layout = s.layout := by
  apply Layout.ext
  · rw [layout_change hother, hi]
    exact Function.update_eq_self i s.layout.extent
  · exact hlf

/-- The root stays if the change is somewhere else. -/
theorem Base.root_same (h : Base d s) (hother : ∀ j ≠ i, SameAt j s s') (hi : i ≠ aufs_ROOT_INO) :
    ∃ dir, s'.memory aufs_ROOT_INO = some dir ∧ dir.sblock ≠ 0 ∧ dir.slots = d.slots ∧
      dir.size ≤ d.slots * 16 := by
  rw [(hother aufs_ROOT_INO (Ne.symm hi)).memory]
  exact h.root

theorem setInode_other (s : Vol) (i : ℕ) (v : Inode) : ∀ j ≠ i, SameAt j s (s.setInode i v) := by
  intro j hj
  unfold Vol.setInode
  exact ⟨rfl, Function.update_of_ne hj _ _, rfl, rfl⟩

@[simp] theorem setInode_self (s : Vol) (i : ℕ) (v : Inode) :
    (s.setInode i v).memory i = some v := by
  simp [Vol.setInode]

/-- An inode that is in memory and dirty. -/
theorem Local.dirty (hi : i ∈ d.numbers) (himap : s.imap i = true) (hm : s.memory i = some v)
    (hv : v.Proper i) (hd : v.dirty = true) : Local d s i := by
  obtain ⟨hlow, hhigh⟩ := mem_numbers.mp hi
  constructor
  · intro hlt
    omega
  · exact fun _ => .inr hhigh
  · exact fun _ _ => himap
  · intro w hw
    unfold Vol.inode at hw
    rw [if_pos ⟨hlow, himap⟩, hm] at hw
    cases hw
    exact hv
  · intro _ hf
    rw [himap] at hf
    cases hf
  · intro _ _ hclean
    have hf := hclean v hm
    rw [hd] at hf
    cases hf
  · intro w hw hclean
    rw [hm] at hw
    cases hw
    rw [hd] at hclean
    cases hclean

/-- An inode in memory is changed, but not the blocks it has. -/
theorem Base.setInode (h : Base d s) (hm : s.memory i = some v) (hv : w.Proper i)
    (hd : w.dirty = true) (hs : w.sblock = v.sblock) (he : w.eblock = v.eblock)
    (hsize : i = aufs_ROOT_INO → w.size ≤ d.slots * 16) : Base d (s.setInode i w) := by
  have himap := (h.inodes i).memory v hm
  have hi := h.number hm
  have hother := setInode_other s i w
  have hinode : (s.setInode i w).inode i = some w := by
    unfold Vol.inode
    rw [if_pos ⟨(mem_numbers.mp hi).1, himap⟩, setInode_self]
    rfl
  apply h.change i hother rfl rfl rfl
  · by_cases hroot : i = aufs_ROOT_INO
    · obtain ⟨dir, hdir, h0, hslots, -⟩ := h.root
      subst hroot
      rw [hm] at hdir
      cases hdir
      refine ⟨w, setInode_self s _ w, by rw [hs]; exact h0, ?_, hsize rfl⟩
      unfold Inode.slots at hslots ⊢
      rw [hs, he, hslots]
    · exact h.root_same hother hroot
  · rw [layout_same hother rfl]
    · exact h.layout
    · rw [hinode, h.inode_memory hm, Option.bind_some, Option.bind_some]
      unfold Inode.extent
      rw [hs, he]
  · exact h.freei
  · exact .dirty hi himap (setInode_self s i w) hv hd

theorem Base.setDirent (h : Base d s) (k : ℕ) (e : Dirent) : Base d (s.setDirent k e) := by
  have hsame : ∀ i, SameAt i s (s.setDirent k e) := fun i => ⟨rfl, rfl, rfl, rfl⟩
  exact h.change 0 (fun j _ => hsame j) rfl rfl rfl h.root h.layout h.freei
    ((h.inodes 0).same (hsame 0) rfl rfl)

/-! ### Between memory and disk -/

/-- What is written can be read again, but for the size. -/
theorem load_store (hv : v.Proper i) (hi : i < 2 ^ 16) (hs : v.sblock < 2 ^ 32)
    (he : v.eblock < 2 ^ 32) : (v.store i).load =
      { v with size := (v.store i).aufs_FILESIZE.toNat, blocks := (v.store i).aufs_FILEBLOCKS.toNat,
               dskIno := i, dirty := false } := by
  have hmode : v.mode.toUInt32.toUInt16 = v.mode := by simp
  have htype : aufs_VREG ≠ aufs_VDIR := by decide
  have hproper := hv.mode
  have hops := hv.ops
  unfold typeBits at hproper
  unfold DiskInode.load
  rw [Inode.mk.injEq]
  refine ⟨?_, ?_, rfl, rfl, rfl, rfl, rfl, ?_, ?_, ?_, rfl⟩
  · unfold Inode.store
    simp only
    rw [hmode]
    by_cases hroot : i = aufs_ROOT_INO
    · simpa [hroot] using hproper
    · simpa [hroot, htype] using hproper
  · rw [hops]
    unfold Inode.store
    simp only
    by_cases hroot : i = aufs_ROOT_INO <;> simp [hroot, htype]
  · exact UInt16.toNat_ofNat_of_lt' hi
  · exact UInt32.toNat_ofNat_of_lt' hs
  · exact UInt32.toNat_ofNat_of_lt' he

theorem Disk.Accepted.number_lt (h : d.Accepted) (hi : i ∈ d.numbers) : i < 2 ^ 16 := by
  have hlast := h.lasti
  have hm := mem_numbers.mp hi
  unfold aufs_MAX_LASTI at hlast
  omega

theorem Inode.Proper.load_store (hv : v.Proper i) (ha : d.Accepted) (hi : i ∈ d.numbers)
    (hs : v.sblock < 2 ^ 32) (he : v.eblock < 2 ^ 32) : (v.store i).load.Proper i := by
  rw [Aufs.load_store hv (ha.number_lt hi) hs he]
  refine ⟨hv.mode, hv.ops, ?_, UInt32.toNat_lt _, hv.empty⟩
  have hm := (mem_numbers.mp hi).1
  unfold aufs_ROOT_INO at hm
  simp only
  omega

theorem Vol.OnDisk.proper (h : s.OnDisk i) (ha : d.Accepted) (hi : i ∈ d.numbers) :
    (s.disk.inode i).load.Proper i := by
  cases hw : s.written i with
  | none => exact (h.unwritten hw).2.2
  | some w =>
    obtain ⟨hstore, hp, hs, he⟩ := h.written w hw
    rw [hstore]
    exact hp.load_store ha hi hs he

theorem Disk.Accepted.blocks_lt (h : d.Accepted) : d.blocks < 2 ^ 32 := by
  have hend := h.endByte
  rw [h.blocks_eq]
  omega

/-- Block numbers of inodes fit in the disk's words. -/
theorem Base.blocks_lt (h : Base d s) (hi : s.inode i = some v) :
    v.sblock < 2 ^ 32 ∧ v.eblock < 2 ^ 32 := by
  by_cases h0 : v.sblock = 0
  · rw [((h.inodes i).proper v hi).empty h0, h0]
    decide
  · have hext : s.layout.extent i = some (v.sblock, v.eblock) := by
      unfold Vol.layout
      simp only
      rw [hi, Option.bind_some]
      unfold Inode.extent
      rw [if_neg h0]
    have hv := h.layout.valid i _ hext
    have hb := h.layout.bound
    have hlt := h.accepted.blocks_lt
    simp only at hv
    omega

/-! ### The ways in which an inode changes -/

/-- A file gets another extent, at the end of all. -/
theorem Base.place (h : Base d s) (hm : s.memory i = some v) (hi : i ≠ aufs_ROOT_INO)
    (hv : w.Proper i) (hd : w.dirty = true) (h0 : w.sblock ≠ 0) (freeb : ℕ)
    (hsound : (s.layout.set i (w.sblock, w.eblock)).Sound d.dataStart d.blocks) :
    ({ s with freeb := freeb, lfEblk := w.eblock }.setInode i w).layout =
        s.layout.set i (w.sblock, w.eblock) ∧
      Base d ({ s with freeb := freeb, lfEblk := w.eblock }.setInode i w) := by
  have himap := (h.inodes i).memory v hm
  have hnum := h.number hm
  have hother : ∀ j ≠ i, SameAt j s
      ({ s with freeb := freeb, lfEblk := w.eblock }.setInode i w) := by
    intro j hj
    exact ⟨rfl, Function.update_of_ne hj _ _, rfl, rfl⟩
  have hself := setInode_self { s with freeb := freeb, lfEblk := w.eblock } i w
  have hinode : ({ s with freeb := freeb, lfEblk := w.eblock }.setInode i w).inode i =
      some w := by
    unfold Vol.inode
    rw [if_pos ⟨(mem_numbers.mp hnum).1, himap⟩, hself]
    rfl
  have hlayout : ({ s with freeb := freeb, lfEblk := w.eblock }.setInode i w).layout =
      s.layout.set i (w.sblock, w.eblock) := by
    apply Layout.ext
    · rw [layout_change hother, hinode, Option.bind_some]
      unfold Inode.extent
      rw [if_neg h0]
      rfl
    · rfl
  refine ⟨hlayout, ?_⟩
  apply h.change i hother rfl rfl rfl (h.root_same hother hi)
  · rw [hlayout]
    exact hsound
  · exact h.freei
  · exact .dirty hnum himap hself hv hd

/-- `aufs_iget` reads an inode from the disk. -/
theorem Base.load (h : Base d s) (hi : i ∈ d.numbers) (himap : s.imap i = true)
    (hm : s.memory i = none) : (s.setInode i (s.disk.inode i).load).layout = s.layout ∧
      Base d (s.setInode i (s.disk.inode i).load) := by
  have hl := h.inodes i
  obtain ⟨hlow, hhigh⟩ := mem_numbers.mp hi
  have hdisk := hl.disk hi himap fun v hv => by
    rw [hm] at hv
    cases hv
  have hother := setInode_other s i (s.disk.inode i).load
  have hself := setInode_self s i (s.disk.inode i).load
  have hroot : i ≠ aufs_ROOT_INO := by
    rintro rfl
    obtain ⟨dir, hdir, -⟩ := h.root
    rw [hm] at hdir
    cases hdir
  have hinode : (s.setInode i (s.disk.inode i).load).inode i = s.inode i := by
    rw [inode_memory_none hm hlow himap]
    unfold Vol.inode
    rw [if_pos ⟨hlow, himap⟩, hself]
    rfl
  have hlayout := layout_same hother rfl (by rw [hinode])
  refine ⟨hlayout, ?_⟩
  apply h.change i hother rfl rfl rfl (h.root_same hother hroot)
  · rw [hlayout]
    exact h.layout
  · exact h.freei
  · constructor
    · intro hlt
      omega
    · exact hl.high
    · exact fun _ _ => himap
    · rw [hinode]
      exact hl.proper
    · exact hl.free
    · exact fun _ _ _ => ⟨hdisk.written, hdisk.unwritten⟩
    · intro w hw _
      rw [hself] at hw
      cases hw
      exact .inl rfl

theorem Base.write (h : Base d s) (hm : s.memory i = some v) :
    (aufs_write_inode i v s).layout = s.layout ∧ Base d (aufs_write_inode i v s) := by
  have hl := h.inodes i
  have himap := hl.memory v hm
  have hi := h.number hm
  have hlow := (mem_numbers.mp hi).1
  have hinode := h.inode_memory hm
  have hv := hl.proper v hinode
  obtain ⟨hs, he⟩ := h.blocks_lt hinode
  have hself : (aufs_write_inode i v s).memory i = some { v with dirty := false } := by
    simp [aufs_write_inode, Vol.setInode, Vol.setDisk]
  have hdisk : (aufs_write_inode i v s).disk.inode i = v.store i := by
    simp [aufs_write_inode, Vol.setInode, Vol.setDisk, Inode.store]
  have hwritten : (aufs_write_inode i v s).written i = some { v with dirty := false } := by
    simp [aufs_write_inode]
  have hother : ∀ j ≠ i, SameAt j s (aufs_write_inode i v s) := by
    intro j hj
    exact ⟨rfl, Function.update_of_ne hj _ _, Function.update_of_ne hj _ _,
      Function.update_of_ne hj _ _⟩
  have hinode' : (aufs_write_inode i v s).inode i = some { v with dirty := false } := by
    unfold Vol.inode
    rw [if_pos ⟨hlow, himap⟩, hself]
    rfl
  have hlayout := layout_same hother rfl (by rw [hinode', hinode]; rfl)
  refine ⟨hlayout, ?_⟩
  apply h.change i hother rfl rfl rfl
  · by_cases hroot : i = aufs_ROOT_INO
    · obtain ⟨dir, hdir, hdir'⟩ := h.root
      subst hroot
      rw [hm] at hdir
      cases hdir
      exact ⟨_, hself, hdir'⟩
    · exact h.root_same hother hroot
  · rw [hlayout]
    exact h.layout
  · exact h.freei
  · constructor
    · intro hlt
      omega
    · exact hl.high
    · exact fun _ _ => himap
    · intro w hw
      rw [hinode'] at hw
      cases hw
      exact ⟨hv.mode, hv.ops, hv.dskIno, hv.blocks, hv.empty⟩
    · intro _ hf
      have hf : s.imap i = false := hf
      rw [himap] at hf
      cases hf
    · intro _ _ _
      constructor
      · intro w hw
        rw [hwritten] at hw
        cases hw
        exact ⟨hdisk, ⟨hv.mode, hv.ops, hv.dskIno, hv.blocks, hv.empty⟩, hs, he⟩
      · intro hw
        rw [hwritten] at hw
        cases hw
    · intro w hw _
      rw [hself] at hw
      cases hw
      exact .inr hwritten

/-- The disk has the blocks and the links of a clean inode. -/
theorem Base.agrees (h : Base d s) (hm : s.memory i = some v) (hd : v.dirty = false) :
    (s.disk.inode i).load.extent = v.extent ∧ (s.disk.inode i).load.nlink = v.nlink := by
  have hl := h.inodes i
  have hi := h.number hm
  cases hl.agrees v hm hd with
  | inl he =>
    rw [he]
    exact ⟨rfl, rfl⟩
  | inr hw =>
    have hdisk := hl.disk hi (hl.memory v hm) fun w hw' => by
      rw [hm] at hw'
      cases hw'
      exact hd
    obtain ⟨hstore, hp, hs, he⟩ := hdisk.written v hw
    rw [hstore, load_store hp (h.accepted.number_lt hi) hs he]
    exact ⟨rfl, rfl⟩

/-- A clean inode leaves the memory. -/
theorem Base.forget (h : Base d s) (hm : s.memory i = some v) (hi : i ≠ aufs_ROOT_INO)
    (hd : v.dirty = false) :
    ({ s with memory := Function.update s.memory i none } : Vol).layout = s.layout ∧
      Base d { s with memory := Function.update s.memory i none } := by
  have hl := h.inodes i
  have himap := hl.memory v hm
  have hnum := h.number hm
  have hlow := (mem_numbers.mp hnum).1
  have hother : ∀ j ≠ i, SameAt j s { s with memory := Function.update s.memory i none } := by
    intro j hj
    exact ⟨rfl, Function.update_of_ne hj _ _, rfl, rfl⟩
  have hself : ({ s with memory := Function.update s.memory i none } : Vol).memory i = none := by
    simp
  have hdisk := hl.disk hnum himap fun w hw => by
    rw [hm] at hw
    cases hw
    exact hd
  have hinode := inode_memory_none hself hlow himap
  have hlayout := layout_same hother rfl (by
    rw [hinode, h.inode_memory hm, Option.bind_some, Option.bind_some]
    exact (h.agrees hm hd).1)
  refine ⟨hlayout, ?_⟩
  apply h.change i hother rfl rfl rfl (h.root_same hother hi)
  · rw [hlayout]
    exact h.layout
  · exact h.freei
  · constructor
    · intro hlt
      omega
    · exact hl.high
    · exact fun _ _ => himap
    · intro w hw
      rw [hinode] at hw
      cases hw
      exact hdisk.proper h.accepted hnum
    · exact hl.free
    · exact fun _ _ _ => ⟨hdisk.written, hdisk.unwritten⟩
    · intro w hw
      rw [hself] at hw
      cases hw

theorem Base.lfEblk_ge (h : Base d s) : 1 ≤ d.dataStart ∧ d.dataStart ≤ s.lfEblk := by
  obtain ⟨dir, hdir, h0, -⟩ := h.root
  have hext : s.layout.extent aufs_ROOT_INO = some (dir.sblock, dir.eblock) := by
    unfold Vol.layout
    simp only
    rw [h.inode_memory hdir, Option.bind_some]
    unfold Inode.extent
    rw [if_neg h0]
  obtain ⟨hlo, hle, hlast⟩ := h.layout.valid _ _ hext
  have hstart := h.accepted.start
  refine ⟨?_, hlo.trans (hle.trans hlast)⟩
  unfold Disk.dataStart
  omega

theorem layout_extent (hi : s.inode i = some v) : s.layout.extent i = v.extent := by
  unfold Vol.layout
  simp only
  rw [hi, Option.bind_some]

theorem Base.freei_le (h : Base d s) : s.freei ≤ 512 := by
  have hcard : d.numbers.toFinset.card ≤ 512 := by
    have hlast := h.accepted.lasti
    rw [List.toFinset_card_of_nodup (nodup_numbers d)]
    unfold Disk.numbers
    rw [List.length_range']
    unfold aufs_MAX_LASTI at hlast
    omega
  rw [h.freei]
  refine le_trans (Finset.sum_le_card_nsmul _ _ 1 ?_) (by simpa using hcard)
  intro j _
  split_ifs <;> omega

/-- An inode without links is freed on the disk, and its blocks with it. -/
theorem evict_unlinked (hn : v.nlink = 0) (hdsk : v.dskIno ≠ 0) : aufs_evict_inode i v s =
    { s with
      memory := Function.update s.memory i none,
      disk := { s.disk with inode := Function.update s.disk.inode i .zero },
      written := Function.update s.written i none,
      freeb := if v.sblock ≠ 0 then add64 s.freeb (sub64 (v.eblock + 1) v.sblock) else s.freeb,
      freei := add64 s.freei 1,
      imap := Function.update s.imap i false,
      lfEblk := if s.lfEblk = v.eblock then sub64 v.sblock 1 else s.lfEblk } := by
  unfold aufs_evict_inode
  simp only
  rw [if_neg (not_not_intro hn), if_pos hdsk]
  unfold Vol.setDisk
  simp only
  split_ifs <;> rfl

theorem zero_fine (blocks : ℕ) (endByte : UInt32) : ¬ DiskInode.zero.corrupted blocks endByte := by
  have h0 : (0 : UInt32).toNat = 0 := rfl
  unfold DiskInode.corrupted DiskInode.zero
  simp only [UInt32.lt_iff_toNat_lt, h0]
  omega

theorem Base.free (h : Base d s) (hm : s.memory i = some v) (hi : i ≠ aufs_ROOT_INO)
    (hn : w.nlink = 0) (hdsk : w.dskIno = v.dskIno) (hs : w.sblock = v.sblock)
    (he : w.eblock = v.eblock) : (aufs_evict_inode i w s).layout = s.layout.remove i ∧
      Base d (aufs_evict_inode i w s) := by
  have hinode := h.inode_memory hm
  have hv := (h.inodes i).proper v hinode
  have hnum := h.number hm
  obtain ⟨hlow, hhigh⟩ := mem_numbers.mp hnum
  have himap := (h.inodes i).memory v hm
  obtain ⟨hlo, hlf⟩ := h.lfEblk_ge
  rw [evict_unlinked hn (by rw [hdsk]; exact hv.dskIno), hs, he]
  generalize hs' : ({ s with
      memory := Function.update s.memory i none,
      disk := { s.disk with inode := Function.update s.disk.inode i .zero },
      written := Function.update s.written i none,
      freeb := if v.sblock ≠ 0 then add64 s.freeb (sub64 (v.eblock + 1) v.sblock) else s.freeb,
      freei := add64 s.freei 1,
      imap := Function.update s.imap i false,
      lfEblk := if s.lfEblk = v.eblock then sub64 v.sblock 1 else s.lfEblk } : Vol) = s'
  have hother : ∀ j ≠ i, SameAt j s s' := by
    intro j hj
    rw [← hs']
    exact ⟨Function.update_of_ne hj _ _, Function.update_of_ne hj _ _,
      Function.update_of_ne hj _ _, Function.update_of_ne hj _ _⟩
  have hfree : s'.imap i = false := by
    rw [← hs']
    exact Function.update_self i false s.imap
  have hgone : s'.memory i = none := by
    rw [← hs']
    exact Function.update_self i none s.memory
  have hzero : s'.disk.inode i = .zero := by
    rw [← hs']
    exact Function.update_self i DiskInode.zero s.disk.inode
  have hnone : s'.inode i = none := by
    unfold Vol.inode
    rw [if_neg fun hc => by rw [hfree] at hc; cases hc.2]
  have hlayout : s'.layout = s.layout.remove i := by
    apply Layout.ext
    · rw [layout_change hother, hnone]
      rfl
    · have hlast : s'.layout.last = if s.lfEblk = v.eblock then sub64 v.sblock 1 else s.lfEblk := by
        rw [← hs']
        rfl
      have hlf' : s.layout.last = s.lfEblk := rfl
      rw [hlast]
      unfold Layout.remove
      rw [layout_extent hinode]
      unfold Inode.extent
      by_cases h0 : v.sblock = 0
      · have he := hv.empty h0
        rw [if_pos h0, if_neg (by omega)]
        rfl
      · rw [if_neg h0]
        simp only
        have hsmall := h.blocks_lt hinode
        by_cases he : s.lfEblk = v.eblock
        · rw [if_pos he, if_pos (by rw [hlf', he])]
          unfold sub64
          omega
        · rw [if_neg he, if_neg (by rw [hlf']; exact fun hc => he hc.symm)]
          rfl
  refine ⟨hlayout, ?_⟩
  apply h.change i hother (by rw [← hs']) (by rw [← hs']) (by rw [← hs']) (h.root_same hother hi)
  · rw [hlayout]
    exact h.layout.remove
  · have hsum := sum_but_one (List.mem_toFinset.mpr hnum) (fun j => if s.imap j = true then 0 else 1)
      (fun j => if s'.imap j = true then 0 else 1) fun j hj => by rw [(hother j hj).imap]
    simp only [himap, hfree, ← h.freei] at hsum
    have hle := h.freei_le
    have hs1 : s'.freei = add64 s.freei 1 := by rw [← hs']
    rw [hs1]
    unfold add64
    simp only [if_true, Bool.false_eq_true, if_false] at hsum
    omega
  · constructor
    · intro hlt
      omega
    · intro hc
      rw [hfree] at hc
      cases hc
    · intro w hw
      rw [hgone] at hw
      cases hw
    · intro w hw
      rw [hnone] at hw
      cases hw
    · intro _ _
      rw [hzero]
      exact ⟨rfl, zero_fine _ _⟩
    · intro _ hc
      rw [hfree] at hc
      cases hc
    · intro w hw
      rw [hgone] at hw
      cases hw

/-- A new inode without blocks. -/
theorem Base.alloc (h : Base d s) (himap : s.imap i = false) (hi : i ≤ d.lasti) (hv : v.Proper i)
    (hd : v.dirty = true) (h0 : v.sblock = 0) :
    ({ s with imap := Function.update s.imap i true,
              freei := sub64 s.freei 1 }.setInode i v).layout = s.layout ∧
      Base d ({ s with imap := Function.update s.imap i true,
                       freei := sub64 s.freei 1 }.setInode i v) := by
  have hlow : aufs_ROOT_INO ≤ i := by
    by_contra hlt
    have hc := ((h.inodes i).low (Nat.not_le.mp hlt)).1
    rw [himap] at hc
    cases hc
  have hnum := mem_numbers.mpr ⟨hlow, hi⟩
  have hroot : i ≠ aufs_ROOT_INO := by
    rintro rfl
    obtain ⟨dir, hdir, -⟩ := h.root
    rw [(h.inodes _).memory dir hdir] at himap
    cases himap
  generalize hs' : ({ s with imap := Function.update s.imap i true,
                             freei := sub64 s.freei 1 } : Vol).setInode i v = s'
  have hother : ∀ j ≠ i, SameAt j s s' := by
    intro j hj
    rw [← hs']
    exact ⟨Function.update_of_ne hj _ _, Function.update_of_ne hj _ _, rfl, rfl⟩
  have hdisk : s'.disk = s.disk := by simp only [← hs', Vol.setInode]
  have hused : s'.imap i = true := by
    rw [← hs']
    exact Function.update_self i true s.imap
  have hself : s'.memory i = some v := by
    rw [← hs']
    exact setInode_self _ i v
  have hinode : s'.inode i = some v := by
    unfold Vol.inode
    rw [if_pos ⟨hlow, hused⟩, hself]
    rfl
  have hnone : s.inode i = none := by
    unfold Vol.inode
    rw [if_neg fun hc => by rw [himap] at hc; cases hc.2]
  have hlayout : s'.layout = s.layout := by
    apply layout_same hother (by simp only [← hs', Vol.setInode])
    rw [hinode, hnone, Option.bind_some, Option.bind_none]
    unfold Inode.extent
    rw [if_pos h0]
  refine ⟨hlayout, ?_⟩
  have hblocks : s'.blocks = s.blocks := by simp only [← hs', Vol.setInode]
  have hlasti : s'.lasti = s.lasti := by simp only [← hs', Vol.setInode]
  apply h.change i hother (by rw [hdisk]) hblocks hlasti (h.root_same hother hroot)
  · rw [hlayout]
    exact h.layout
  · have hsum := sum_but_one (List.mem_toFinset.mpr hnum) (fun j => if s.imap j = true then 0 else 1)
      (fun j => if s'.imap j = true then 0 else 1) fun j hj => by rw [(hother j hj).imap]
    simp only [himap, hused, ← h.freei] at hsum
    have hle := h.freei_le
    have hs1 : s'.freei = sub64 s.freei 1 := by
      rw [← hs']
      rfl
    rw [hs1]
    unfold sub64
    simp only [if_true, Bool.false_eq_true, if_false] at hsum
    omega
  · exact .dirty hnum hused hself hv hd

end Linux011.Aufs
