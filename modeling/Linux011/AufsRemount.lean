import Linux011.AufsVolume

set_option autoImplicit false

/-! # What a volume is after it was unmounted and mounted again -/
namespace Linux011.Aufs
open Extents

variable {d : Disk} {s s' : Vol} {i : ℕ} {v w : Inode}

/-- Type, mode, owners, link count, size and blocks are the same. -/
structure Inode.Same (v w : Inode) : Prop where
  ops : v.ops = w.ops
  mode : v.mode = w.mode
  uid : v.uid = w.uid
  gid : v.gid = w.gid
  nlink : v.nlink = w.nlink
  size : v.size = w.size
  sblock : v.sblock = w.sblock
  eblock : v.eblock = w.eblock

/-- Every inode in memory has been written. -/
def Vol.Saved (s : Vol) : Prop := ∀ i v, s.memory i = some v → v.dirty = false

/-- An inode in use, as it is or as it was last written. -/
def Vol.Had (s : Vol) (i : ℕ) (v : Inode) : Prop :=
  (s.inode i).isSome = true ∧ (s.inode i = some v ∨ s.written i = some v)

/-- The disk can be mounted again, and the inodes are as they were. -/
structure RoundTrip (s s' : Vol) : Prop where
  mount : aufs_fill_super s.disk = .ok s'
  imap : s'.imap = s.imap
  freei : s'.freei = s.freei
  inodes : ∀ i v, s.Had i v → ∃ v' s'', aufs_iget s' i = .ok (v', s'') ∧ v'.Same v

/-- The end of the file can be told from its size, and lies on the volume or just below 4 GiB. -/
def Inode.Storable (endByte : UInt32) (v : Inode) : Prop :=
  v.sblock = 0 ∧ v.size = 0 ∨ v.sblock ≠ 0 ∧ 1 ≤ v.size ∧
    (v.sblock * 512 + v.size - 1 ≤ endByte.toNat ∨ v.sblock * 512 + v.size - 1 = 2 ^ 32 - 1)

instance (endByte : UInt32) (v : Inode) : Decidable (v.Storable endByte) :=
  inferInstanceAs (Decidable (_ ∧ _ ∨ _ ∧ _ ∧ (_ ∨ _)))

theorem Inode.Same.rfl : v.Same v := by
  constructor <;> exact Eq.refl _

/-- The end of a file on the disk. -/
theorem store_eoffset (w : Inode) (i : ℕ) :
    (w.store i).eoffset.toNat = (w.sblock * 512 + w.size + (2 ^ 32 - 1)) % 2 ^ 32 := by
  have he : (w.store i).eoffset = UInt32.ofNat (sub64 (w.sblock * 512 + w.size) 1) := Eq.refl _
  rw [he, UInt32.toNat_ofNat']
  unfold sub64
  omega

/-- What is stored passes the test of the mount and has the size of the inode just if it is
    storable. -/
theorem storable_iff {blocks : ℕ} {endByte : UInt32} (hend : endByte.toNat + 1 < 2 ^ 32)
    (hblocks : blocks = (endByte.toNat + 1) / 512) (hempty : w.sblock = 0 → w.eblock = 0)
    (hextent : w.sblock ≠ 0 → w.sblock ≤ w.eblock ∧ w.eblock < blocks) :
    ¬ (w.store i).corrupted blocks endByte ∧ (w.store i).aufs_FILESIZE.toNat = w.size ↔
      w.Storable endByte := by
  have heoff := store_eoffset w i
  have hlt : w.sblock < 2 ^ 32 ∧ w.eblock < 2 ^ 32 := by
    by_cases h0 : w.sblock = 0
    · have := hempty h0
      omega
    · have := hextent h0
      omega
  have hsb : (w.store i).sblock.toNat = w.sblock := UInt32.toNat_ofNat_of_lt' hlt.1
  have heb : (w.store i).eblock.toNat = w.eblock := UInt32.toNat_ofNat_of_lt' hlt.2
  have hzero : (w.store i).sblock = 0 ↔ w.sblock = 0 := by
    rw [← UInt32.toNat_inj, hsb]
    exact Iff.rfl
  have hmax : (w.store i).eoffset ≠ 0xFFFFFFFF ↔ (w.store i).eoffset.toNat ≠ 2 ^ 32 - 1 := by
    rw [ne_eq, ← UInt32.toNat_inj]
    exact Iff.rfl
  unfold DiskInode.corrupted DiskInode.aufs_FILESIZE Inode.Storable aufs_BSIZE
  rw [hmax, hsb, heb, UInt32.lt_iff_toNat_lt, UInt32.lt_iff_toNat_lt, hsb, heb, heoff]
  by_cases h0 : w.sblock = 0
  · rw [if_pos (hzero.mpr h0)]
    have he := hempty h0
    have h00 : (0 : UInt32).toNat = 0 := Eq.refl _
    rw [h00]
    omega
  · have hx := hextent h0
    rw [if_neg (fun hc => h0 (hzero.mp hc))]
    have h1 : (1 : UInt32).toNat = 1 := Eq.refl _
    have h512 : (512 : UInt32).toNat = 512 := Eq.refl _
    rw [UInt32.toNat_sub, UInt32.toNat_add, UInt32.toNat_mul, hsb, heoff, h1, h512]
    omega

theorem iget_mounted {D : Disk} (hi : i ∈ D.numbers) :
    ∃ s', aufs_iget D.mounted i = .ok ((D.inode i).load, s') := by
  have hlasti : D.mounted.lasti = D.lasti := (takes_frame D.numbers D.opened).2.2.1
  obtain ⟨hlow, hhigh⟩ := mem_numbers.mp hi
  unfold aufs_iget
  rw [mounted_memory, mounted_disk, hlasti]
  by_cases hroot : i = aufs_ROOT_INO
  · rw [if_pos hroot, hroot]
    exact ⟨_, Eq.refl _⟩
  · rw [if_neg hroot]
    simp only
    rw [if_neg (by omega)]
    exact ⟨_, Eq.refl _⟩

theorem isSome_number (h : Base d s) (hi : (s.inode i).isSome = true) :
    i ∈ d.numbers ∧ s.imap i = true := by
  obtain ⟨v, hv⟩ := Option.isSome_iff_exists.mp hi
  unfold Vol.inode at hv
  split_ifs at hv with hx
  have hhigh := (h.inodes i).high hx.2
  exact ⟨mem_numbers.mpr ⟨hx.1, hhigh.resolve_left (Nat.not_lt.mpr hx.1)⟩, hx.2⟩

/-- Nothing but the inodes can keep the disk from being mounted again. -/
theorem Base.accepted_iff (h : Base d s) : s.disk.Accepted ↔
    ∀ i ∈ d.numbers, ¬ (s.disk.inode i).corrupted d.blocks d.endByte := by
  have hlasti : s.disk.lasti = d.lasti := by
    unfold Disk.lasti
    rw [h.start]
  have hnumbers : s.disk.numbers = d.numbers := by
    unfold Disk.numbers
    rw [hlasti]
  have hblocks : s.disk.blocks = d.blocks := by
    unfold Disk.blocks
    rw [h.endByte]
  constructor
  · intro ha
    have hi := ha.inodes
    rw [hnumbers, hblocks, h.endByte] at hi
    exact hi
  · intro hi
    have ha := h.accepted
    constructor
    · rw [h.magic]
      exact ha.magic
    · rw [h.endByte, h.start]
      exact ha.super
    · rw [hlasti]
      exact ha.lasti
    · rw [hlasti]
      exact ha.root
    · rw [hblocks, h.deviceBlocks]
      exact ha.last
    · rw [hnumbers, hblocks, h.endByte]
      exact hi

/-- The mounted volume has the same numbers in use. -/
theorem Base.remount_imap (h : Base d s) (hsaved : s.Saved) : s.disk.mounted.imap = s.imap := by
  have hnumbers : s.disk.numbers = d.numbers := by
    unfold Disk.numbers Disk.lasti
    rw [h.start]
  funext i
  rw [Bool.eq_iff_iff, mounted_imap]
  unfold Disk.Used
  rw [hnumbers]
  have hl := h.inodes i
  constructor
  · intro hx
    cases hx with
    | inl hlow => exact (hl.low hlow).1
    | inr hu =>
      by_contra hfree
      exact hu.2 (hl.free (mem_numbers.mp hu.1).2 (Bool.eq_false_iff.mpr hfree)).1
  · intro himap
    cases hl.high himap with
    | inl hlow => exact .inl hlow
    | inr hhigh =>
      by_cases hlow : i < aufs_ROOT_INO
      · exact .inl hlow
      have hi : i ∈ d.numbers := mem_numbers.mpr ⟨Nat.not_lt.mp hlow, hhigh⟩
      have hon := hl.disk hi himap (hsaved i)
      refine .inr ⟨hi, ?_⟩
      cases hw : s.written i with
      | none => exact (hon.unwritten hw).1
      | some w =>
        rw [(hon.written w hw).1]
        intro h0
        have hn := congrArg UInt16.toNat h0
        change (UInt16.ofNat i).toNat = 0 at hn
        rw [UInt16.toNat_ofNat_of_lt' (h.accepted.number_lt hi)] at hn
        unfold aufs_ROOT_INO at hlow
        omega

theorem Base.remount_freei (h : Base d s) (hsaved : s.Saved) :
    s.disk.mounted.freei = s.freei := by
  have hnumbers : s.disk.numbers = d.numbers := by
    unfold Disk.numbers Disk.lasti
    rw [h.start]
  rw [mounted_freei, h.remount_imap hsaved, hnumbers, h.freei]

/-- What was last written of an inode has the blocks that the inode has now. -/
theorem Base.written_extent (h : Base d s) (hsaved : s.Saved) (hi : i ∈ d.numbers)
    (himap : s.imap i = true) (hw : s.written i = some w) : s.layout.extent i = w.extent := by
  obtain ⟨hstore, hp, hsb, heb⟩ := ((h.inodes i).disk hi himap (hsaved i)).written w hw
  have hload : (s.disk.inode i).load.extent = w.extent := by
    rw [hstore, load_store hp (h.accepted.number_lt hi) hsb heb]
    exact Eq.refl _
  rw [← hload]
  cases hm : s.memory i with
  | none => exact layout_extent (inode_memory_none hm (mem_numbers.mp hi).1 himap)
  | some v =>
    rw [layout_extent (h.inode_memory hm)]
    exact (h.agrees hm (hsaved i v hm)).1.symm

theorem Base.written_storable (h : Base d s) (hsaved : s.Saved) (hi : i ∈ d.numbers)
    (himap : s.imap i = true) (hw : s.written i = some w) :
    ¬ (s.disk.inode i).corrupted d.blocks d.endByte ∧ (s.disk.inode i).load.size = w.size ↔
      w.Storable d.endByte := by
  obtain ⟨hstore, hp, -⟩ := ((h.inodes i).disk hi himap (hsaved i)).written w hw
  rw [hstore]
  refine storable_iff h.accepted.endByte h.accepted.blocks_eq hp.empty fun h0 => ?_
  have hext := h.written_extent hsaved hi himap hw
  unfold Inode.extent at hext
  rw [if_neg h0] at hext
  have hv := h.layout.valid i _ hext
  have hb := h.layout.bound
  simp only at hv
  omega

/-- An inode on the disk that was stored with its size is the same when it is read. -/
theorem Base.loads_same (h : Base d s) (hsaved : s.Saved)
    (hstorable : ∀ i w, (s.inode i).isSome = true → s.written i = some w → w.Storable d.endByte)
    (hv : s.Had i v) : (s.disk.inode i).load.Same v := by
  obtain ⟨hi, himap⟩ := isSome_number h hv.1
  have hl := h.inodes i
  have hwritten : ∀ w, s.written i = some w → (s.disk.inode i).load.Same w := by
    intro w hw
    obtain ⟨hstore, hp, hsb, heb⟩ := (hl.disk hi himap (hsaved i)).written w hw
    have hsize := ((h.written_storable hsaved hi himap hw).mpr (hstorable i w hv.1 hw)).2
    have hload := load_store hp (h.accepted.number_lt hi) hsb heb
    rw [hstore] at hsize ⊢
    rw [hload] at hsize ⊢
    exact ⟨Eq.refl _, Eq.refl _, Eq.refl _, Eq.refl _, Eq.refl _, hsize, Eq.refl _, Eq.refl _⟩
  cases hv.2 with
  | inr hw => exact hwritten v hw
  | inl hinode =>
    cases hm : s.memory i with
    | none =>
      rw [inode_memory_none hm (mem_numbers.mp hi).1 himap] at hinode
      cases hinode
      exact .rfl
    | some v' =>
      rw [h.inode_memory hm] at hinode
      cases hinode
      cases hl.agrees v hm (hsaved i v hm) with
      | inl he =>
        rw [he]
        exact .rfl
      | inr hw => exact hwritten v hw

/-- The volume can be mounted again and is as it was just if every inode was storable when it was
    last written. -/
theorem remount_faithful {s₀ : Vol} (hc : d.Consistent) (hmount : aufs_fill_super d = .ok s₀)
    (acts : List Act) (hrun : run s₀ acts = some s) (hsaved : s.Saved) :
    (∃ s', RoundTrip s s') ↔
      ∀ i w, (s.inode i).isSome = true → s.written i = some w → w.Storable d.endByte := by
  obtain ⟨ha, rfl⟩ := (fill_super_ok d s₀).mp hmount
  have h := (run_sound (mounted_sound hc ha) hrun).toBase
  have hnumbers : s.disk.numbers = d.numbers := by
    unfold Disk.numbers Disk.lasti
    rw [h.start]
  constructor
  · rintro ⟨s', ht⟩ i w hi hw
    obtain ⟨hnum, himap⟩ := isSome_number h hi
    obtain ⟨hacc, rfl⟩ := (fill_super_ok _ _).mp ht.mount
    obtain ⟨v', s'', hget, hsame⟩ := ht.inodes i w ⟨hi, .inr hw⟩
    obtain ⟨s₁, hget'⟩ := iget_mounted (D := s.disk) (by rw [hnumbers]; exact hnum)
    rw [hget'] at hget
    cases hget
    exact (h.written_storable hsaved hnum himap hw).mp
      ⟨h.accepted_iff.mp hacc i hnum, hsame.size⟩
  · intro hstorable
    have hacc : s.disk.Accepted := by
      apply h.accepted_iff.mpr
      intro i hi
      have hl := h.inodes i
      have hhigh := (mem_numbers.mp hi).2
      rw [← h.blocks, ← h.endByte]
      cases himap : s.imap i with
      | false => exact (hl.free hhigh himap).2
      | true =>
        have hon := hl.disk hi himap (hsaved i)
        cases hw : s.written i with
        | none => exact (hon.unwritten hw).2.1
        | some w =>
          have hsome : (s.inode i).isSome = true := by
            unfold Vol.inode
            rw [if_pos ⟨(mem_numbers.mp hi).1, himap⟩]
            exact Eq.refl _
          rw [h.blocks, h.endByte]
          exact ((h.written_storable hsaved hi himap hw).mpr (hstorable i w hsome hw)).1
    refine ⟨s.disk.mounted, (fill_super_ok _ _).mpr ⟨hacc, Eq.refl _⟩, h.remount_imap hsaved,
      h.remount_freei hsaved, ?_⟩
    intro i v hv
    have hi := (isSome_number h hv.1).1
    obtain ⟨s₁, hget⟩ := iget_mounted (D := s.disk) (by rw [hnumbers]; exact hi)
    exact ⟨_, s₁, hget, h.loads_same hsaved hstorable hv⟩

/-- Only the inodes with a number have to be looked at. -/
theorem Base.saved (h : Base d s)
    (hall : d.numbers.all (fun i => (s.memory i).all fun v => !v.dirty) = true) : s.Saved := by
  intro i v hv
  have hi := List.all_eq_true.mp hall i (h.number hv)
  rw [hv] at hi
  simpa using hi

/-- A new file of five bytes, written with the root. -/
theorem remount_faithful_image : ∃ s, run image.mounted
    [.create [65] 0o644 0 0, .getBlock 3 0 true, .setSize 3 5, .write 3, .write 2] = some s ∧
      ∃ s', RoundTrip s s' := by
  obtain ⟨s, hs⟩ : ∃ s, run image.mounted
    [.create [65] 0o644 0 0, .getBlock 3 0 true, .setSize 3 5, .write 3, .write 2] = some s :=
    ⟨_, Eq.refl _⟩
  have h := (run_sound (mounted_sound image_consistent image_accepted) hs).toBase
  have hclean : (run image.mounted [.create [65] 0o644 0 0, .getBlock 3 0 true, .setSize 3 5,
      .write 3, .write 2]).all (fun s => image.numbers.all fun i =>
        (s.memory i).all (fun v => !v.dirty) &&
          (s.written i).all fun w => decide (w.Storable image.endByte)) = true := by
    decide +kernel
  rw [hs, Option.all_some, List.all_eq_true] at hclean
  have hsaved : s.Saved := by
    apply h.saved
    apply List.all_eq_true.mpr
    intro i hi
    exact (Bool.and_eq_true_iff.mp (hclean i hi)).1
  refine ⟨s, hs, (remount_faithful image_consistent
    ((fill_super_ok _ _).mpr ⟨image_accepted, Eq.refl _⟩) _ hs hsaved).mpr fun i w hi hw => ?_⟩
  have hstorable := (Bool.and_eq_true_iff.mp (hclean i (isSome_number h hi).1)).2
  rw [hw] at hstorable
  simpa using hstorable

/-- A file with a block that is cut to nothing keeps the volume from being mounted again. -/
theorem truncated_file_rejected : ∃ s, run image.mounted
    [.create [65] 0o644 0 0, .getBlock 3 0 true, .setSize 3 0, .write 3, .write 2] = some s ∧
      s.Saved ∧ ¬ ∃ s', RoundTrip s s' := by
  obtain ⟨s, hs⟩ : ∃ s, run image.mounted
    [.create [65] 0o644 0 0, .getBlock 3 0 true, .setSize 3 0, .write 3, .write 2] = some s :=
    ⟨_, Eq.refl _⟩
  have h := (run_sound (mounted_sound image_consistent image_accepted) hs).toBase
  have hclean : (run image.mounted [.create [65] 0o644 0 0, .getBlock 3 0 true, .setSize 3 0,
      .write 3, .write 2]).all (fun s => (image.numbers.all fun i =>
        (s.memory i).all fun v => !v.dirty) &&
          decide ((s.disk.inode 3).corrupted image.blocks image.endByte)) = true := by
    decide +kernel
  rw [hs, Option.all_some, Bool.and_eq_true_iff] at hclean
  refine ⟨s, hs, h.saved hclean.1, ?_⟩
  rintro ⟨s', ht⟩
  have hacc := h.accepted_iff.mp ((fill_super_ok _ _).mp ht.mount).1
  exact hacc 3 (by decide) (by simpa using hclean.2)

end Linux011.Aufs
