import Linux011.AufsVolume

set_option autoImplicit false

/-! # The count of free blocks of a volume -/
namespace Linux011.Aufs
open Extents

variable {d : Disk} {s s' : Vol} {i : ℕ} {v : Inode}

/-- The disk when every inode in memory has been written. -/
def Vol.writtenBack (s : Vol) : Disk :=
  { s.disk with inode := fun i => match s.memory i with
      | some v => v.store i
      | none => s.disk.inode i }

/-- Free blocks and blocks of files make up the data blocks, and a fresh mount counts the same. -/
structure Accounted (d : Disk) (s : Vol) : Prop where
  free : s.freeb + s.layout.used d.numbers.toFinset = d.dataBlocks
  fresh : ∀ s', aufs_fill_super s.writtenBack = .ok s' → s'.freeb = s.freeb

/-- A property of every state of a run, as far as its actions are possible. -/
def Along (P : Vol → Prop) (s : Vol) : List Act → Prop
  | [] => P s
  | a :: l => P s ∧ ∀ s', step s a = some s' → Along P s' l

/-- A file that is moved has as many blocks as `i_blocks` says. -/
def Careful (s : Vol) (a : Act) : Prop :=
  ∀ i block moved v, a = .getBlock i block moved → s.file i = some v → Relocates s v block moved →
    v.blocks = size v.extent

def CarefulRun (s : Vol) : List Act → Prop
  | [] => True
  | a :: l => ∀ s', step s a = some s' → Careful s a ∧ CarefulRun s' l

theorem taken_eq {r : DiskInode} (h0 : r.ino ≠ 0)
    (h : r.sblock ≠ 0 → r.sblock.toNat ≤ r.eblock.toNat ∧ r.eblock.toNat + 1 < 2 ^ 32) :
    r.taken = size r.load.extent := by
  unfold DiskInode.taken DiskInode.aufs_FILEBLOCKS
  rw [if_neg h0, load_extent]
  by_cases hs : r.sblock = 0
  · rw [if_pos hs, if_pos hs]
    rfl
  · obtain ⟨hle, hlt⟩ := h hs
    have h1 : (1 : UInt32).toNat = 1 := rfl
    rw [if_neg hs, if_neg hs, UInt32.toNat_sub, UInt32.toNat_add]
    unfold size
    simp only
    omega

theorem Base.extent_lt (h : Base d s) (hi : s.inode i = some v) (h0 : v.sblock ≠ 0) :
    v.sblock ≤ v.eblock ∧ v.eblock + 1 < 2 ^ 32 := by
  have hext : s.layout.extent i = some (v.sblock, v.eblock) := by
    rw [layout_extent hi]
    unfold Inode.extent
    rw [if_neg h0]
  have hv := h.layout.valid i _ hext
  have hb := h.layout.bound
  have hlt := h.accepted.blocks_eq
  have hend := h.accepted.endByte
  simp only at hv
  omega

/-- What a fresh mount takes off for an inode is what the inode has now. -/
theorem Base.taken (h : Base d s) (hi : i ∈ d.numbers) :
    (s.writtenBack.inode i).taken = size (s.layout.extent i) := by
  obtain ⟨hlow, hhigh⟩ := mem_numbers.mp hi
  have hnum := h.accepted.number_lt hi
  have hstored : ∀ w : Inode, (w.store i).ino ≠ 0 := by
    intro w hw
    have hn := congrArg UInt16.toNat hw
    change (UInt16.ofNat i).toNat = 0 at hn
    rw [UInt16.toNat_ofNat_of_lt' hnum] at hn
    unfold aufs_ROOT_INO at hlow
    omega
  cases hm : s.memory i with
  | some v =>
    have hinode := h.inode_memory hm
    have hp := (h.inodes i).proper v hinode
    obtain ⟨hs, he⟩ := h.blocks_lt hinode
    have hload := load_store hp hnum hs he
    have hdisk : s.writtenBack.inode i = v.store i := by
      unfold Vol.writtenBack
      simp only
      rw [hm]
    rw [hdisk, layout_extent hinode, taken_eq (hstored v), hload]
    · rfl
    · intro h0
      have hsb : (v.store i).sblock.toNat = v.sblock := congrArg Inode.sblock hload
      have heb : (v.store i).eblock.toNat = v.eblock := congrArg Inode.eblock hload
      rw [hsb, heb]
      apply h.extent_lt hinode
      intro hz
      rw [hz] at hsb
      exact h0 (UInt32.toNat_inj.mp hsb)
  | none =>
    have hdisk : s.writtenBack.inode i = s.disk.inode i := by
      unfold Vol.writtenBack
      simp only
      rw [hm]
    rw [hdisk]
    cases himap : s.imap i with
    | true =>
      have hinode := inode_memory_none hm hlow himap
      have hon := (h.inodes i).disk hi himap fun w hw => by
        rw [hm] at hw
        cases hw
      rw [layout_extent hinode]
      apply taken_eq
      · cases hw : s.written i with
        | none => exact (hon.unwritten hw).1
        | some w =>
          rw [(hon.written w hw).1]
          exact hstored w
      · intro h0
        apply h.extent_lt hinode
        intro hz
        exact h0 (UInt32.toNat_inj.mp hz)
    | false =>
      have hnone : s.layout.extent i = none := by
        unfold Vol.layout Vol.inode
        simp [himap]
      rw [hnone]
      unfold DiskInode.taken
      rw [if_pos ((h.inodes i).free hhigh himap).1]
      rfl

theorem Base.used_le (h : Base d s) : s.layout.used d.numbers.toFinset ≤ d.dataBlocks :=
  (h.layout.used_le _).trans h.accepted.dataBlocks_ge

theorem Disk.Accepted.dataBlocks_lt (h : d.Accepted) : d.dataBlocks < 2 ^ 32 := by
  have hend := h.endByte
  rw [h.dataBlocks_eq]
  omega

/-- The count of a fresh mount, which is that of the volume if it is right. -/
theorem Base.fresh (h : Base d s) (hs : aufs_fill_super s.writtenBack = .ok s') :
    s'.freeb + s.layout.used d.numbers.toFinset = d.dataBlocks := by
  obtain ⟨-, rfl⟩ := (fill_super_ok _ _).mp hs
  have hnumbers : s.writtenBack.numbers = d.numbers := by
    unfold Disk.numbers Disk.lasti Vol.writtenBack
    simp only
    rw [h.start]
  have hdata : s.writtenBack.dataBlocks = d.dataBlocks := by
    unfold Disk.dataBlocks Vol.writtenBack
    simp only
    rw [h.start, h.endByte]
  have hlt := h.accepted.dataBlocks_lt
  have hle := h.used_le
  have hfreeb := takes_freeb s.writtenBack.numbers s.writtenBack.opened (by
    change s.writtenBack.dataBlocks < 2 ^ 64
    rw [hdata]
    omega)
  have hsum : (s.writtenBack.numbers.map fun i => (s.writtenBack.opened.disk.inode i).taken).sum =
      s.layout.used d.numbers.toFinset := by
    unfold Layout.used
    rw [List.sum_toFinset _ (nodup_numbers d), hnumbers]
    congr 1
    apply List.map_congr_left
    intro i hi
    exact h.taken hi
  change (s.writtenBack.numbers.foldl takeInode s.writtenBack.opened).freeb + _ = _
  rw [hfreeb, hsum]
  change sub64 s.writtenBack.dataBlocks _ + _ = _
  rw [hdata]
  unfold sub64
  omega

theorem Base.accounted (h : Base d s) :
    Accounted d s ↔ s.freeb + s.layout.used d.numbers.toFinset = d.dataBlocks := by
  constructor
  · exact Accounted.free
  · intro hf
    refine ⟨hf, fun s' hs' => ?_⟩
    have hfresh := h.fresh hs'
    omega

/-- A call keeps the count right just when a file that it moves has its blocks counted. -/
theorem step_accounted {a : Act} (h : Sound d s) (hf : Accounted d s) (hs : step s a = some s') :
    Accounted d s' ↔ Careful s a := by
  obtain ⟨hs', hmoves⟩ := step_sound h hs
  have hfree := hf.free
  have hlt := h.accepted.dataBlocks_lt
  have hle := hs'.used_le
  rw [hs'.toBase.accounted]
  cases hmoves with
  | stay hl hfb ha =>
    rw [hl, hfb]
    exact ⟨fun _ i block moved v he hv hr => absurd hr (ha i v block moved he hv), fun _ => hfree⟩
  | extend i e v block moved hi h0 hlast he hl hfb =>
    obtain ⟨-, hm⟩ := file_some.mp hi
    have hinode := h.inode_memory hm
    have hsame : Careful s (.getBlock i block moved) := by
      intro i' block' moved' v' ha hv' hr
      cases ha
      rw [hi] at hv'
      cases hv'
      exact absurd hlast hr.2.2.1
    have hold : size (s.layout.extent i) = v.eblock + 1 - v.sblock := by
      rw [layout_extent hinode]
      unfold Inode.extent
      rw [if_neg h0]
      rfl
    have hsb := (h.extent_lt hinode h0).1
    have hupdate := s.layout.used_update (List.mem_toFinset.mpr (h.number hm)) s'.layout fun j hj => by
      rw [hl]
      exact Function.update_of_ne hj _ _
    have hnew : size (s'.layout.extent i) = e + 1 - v.sblock := by
      rw [hl]
      unfold Layout.set
      simp only
      rw [Function.update_self]
      rfl
    rw [hold, hnew] at hupdate
    refine ⟨fun _ => hsame, fun _ => ?_⟩
    rw [hfb]
    unfold sub64
    omega
  | move i e v block moved hi hr he hl hfb =>
    obtain ⟨-, hm⟩ := file_some.mp hi
    have hinode := h.inode_memory hm
    have hblocks := ((h.inodes i).proper v hinode).blocks
    have hiff : Careful s (.getBlock i block moved) ↔ v.blocks = size v.extent := by
      constructor
      · intro hc
        exact hc i block moved v rfl hi hr
      · intro hv i' block' moved' v' ha hv' _
        cases ha
        rw [hi] at hv'
        cases hv'
        exact hv
    have hupdate := s.layout.used_update (List.mem_toFinset.mpr (h.number hm)) s'.layout fun j hj => by
      rw [hl]
      exact Function.update_of_ne hj _ _
    have hnew : size (s'.layout.extent i) = e - s.lfEblk := by
      rw [hl]
      unfold Layout.set
      simp only
      rw [Function.update_self]
      unfold size
      simp only
      omega
    rw [layout_extent hinode, hnew] at hupdate
    have holdlt : size v.extent ≤ d.dataBlocks := by
      have hused := h.used_le
      have hone := Finset.single_le_sum (f := fun j => size (s.layout.extent j))
        (fun _ _ => Nat.zero_le _) (List.mem_toFinset.mpr (h.number hm))
      simp only [layout_extent hinode] at hone
      exact hone.trans hused
    rw [hiff, hfb]
    unfold sub64
    omega
  | remove i v hi h0 hl hfb =>
    obtain ⟨-, hm⟩ := file_some.mp hi
    have hinode := h.inode_memory hm
    have hold : size (s.layout.extent i) = v.eblock + 1 - v.sblock := by
      rw [layout_extent hinode]
      unfold Inode.extent
      rw [if_neg h0]
      rfl
    have hupdate := s.layout.used_update (List.mem_toFinset.mpr (h.number hm)) s'.layout fun j hj => by
      rw [hl]
      exact Function.update_of_ne hj _ _
    have hnew : size (s'.layout.extent i) = 0 := by
      rw [hl]
      unfold Layout.remove
      simp only
      rw [Function.update_self]
      rfl
    rw [hold, hnew] at hupdate
    refine ⟨fun _ => (fun _ _ _ _ ha => nomatch ha), fun _ => ?_⟩
    rw [hfb]
    unfold add64
    omega

theorem mounted_accounted (hc : d.Consistent) (ha : d.Accepted) : Accounted d d.mounted := by
  have hs := mounted_sound hc ha
  have hlt := ha.dataBlocks_lt
  have hle := hs.used_le
  rw [hs.toBase.accounted]
  have hsum : (d.numbers.map fun i => (d.opened.disk.inode i).taken).sum =
      d.mounted.layout.used d.numbers.toFinset := by
    unfold Layout.used
    rw [List.sum_toFinset _ (nodup_numbers d)]
    congr 1
    apply List.map_congr_left
    intro i hi
    change (d.inode i).taken = _
    by_cases hu : (d.inode i).ino = 0
    · have hnone : d.mounted.layout.extent i = none := by
        unfold Vol.layout
        simp only
        rw [mounted_inode, if_neg fun hx => hx.2 hu]
        rfl
      rw [hnone]
      unfold DiskInode.taken
      rw [if_pos hu]
      rfl
    · have hinode : d.mounted.inode i = some (d.inode i).load := by
        rw [mounted_inode, if_pos ⟨hi, hu⟩]
      rw [layout_extent hinode]
      apply taken_eq hu
      intro h0
      apply hs.extent_lt hinode
      intro hz
      exact h0 (UInt32.toNat_inj.mp hz)
  have hfreeb := takes_freeb d.numbers d.opened (by
    change d.dataBlocks < 2 ^ 64
    omega)
  rw [hsum] at hfreeb
  change (d.numbers.foldl takeInode d.opened).freeb + _ = _
  rw [hfreeb]
  change sub64 d.dataBlocks _ + _ = _
  unfold sub64
  omega

/-- The count of free blocks is right all the time just as long as every file that is moved has its
    blocks counted in `i_blocks`. -/
theorem free_blocks_accounted (hc : d.Consistent) (hmount : aufs_fill_super d = .ok s)
    (acts : List Act) : Along (Accounted d) s acts ↔ CarefulRun s acts := by
  obtain ⟨ha, rfl⟩ := (fill_super_ok d s).mp hmount
  have hs := mounted_sound hc ha
  have hf := mounted_accounted hc ha
  generalize d.mounted = s at hs hf
  clear hmount
  induction acts generalizing s with
  | nil => exact ⟨fun _ => trivial, fun _ => hf⟩
  | cons a acts ih =>
    constructor
    · intro h s' hstep
      have h' := h.2 s' hstep
      have hf' : Accounted d s' := by
        cases acts with
        | nil => exact h'
        | cons _ _ => exact h'.1
      exact ⟨(step_accounted hs hf hstep).mp hf', (ih s' (step_sound hs hstep).1 hf').mp h'⟩
    · intro h
      refine ⟨hf, fun s' hstep => ?_⟩
      obtain ⟨hcareful, hrun⟩ := h s' hstep
      have hf' := (step_accounted hs hf hstep).mpr hcareful
      exact (ih s' (step_sound hs hstep).1 hf').mpr hrun

theorem free_blocks_accounted_image :
    Along (Accounted image) image.mounted [.create [65] 0o644 0 0, .getBlock 3 0 true] := by
  apply (free_blocks_accounted image_consistent
    ((fill_super_ok _ _).mpr ⟨image_accepted, rfl⟩) _).mpr
  intro s₁ h₁
  refine ⟨(fun _ _ _ _ ha => nomatch ha), fun s₂ _ => ⟨?_, trivial⟩⟩
  intro i block moved v ha hv _
  cases ha
  cases h₁
  cases hv
  rfl

/-- A file that gets its second block when another lies behind its first. -/
theorem moved_file_uncounted : ¬ Along (Accounted image) image.mounted
    [.create [65] 0o644 0 0, .getBlock 3 0 true, .create [66] 0o644 0 0, .getBlock 4 0 true,
      .getBlock 3 1 true] := by
  intro h
  have hfree := (((((h.2 _ rfl).2 _ rfl).2 _ rfl).2 _ rfl).2 _ rfl).free
  exact absurd hfree (by decide +kernel)

end Linux011.Aufs
