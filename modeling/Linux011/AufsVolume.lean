import Linux011.AufsFiles

set_option autoImplicit false

/-! # Calls on a volume, and the extents of its files after any of them -/
namespace Linux011.Aufs
open Extents

variable {d : Disk} {s s' : Vol} {i : ℕ} {v w dir : Inode} {name : List UInt8}

/-! ### Links -/

theorem SameAt.nlink (h : SameAt i s s') : s'.nlink i = s.nlink i := by
  unfold Vol.nlink
  rw [h.inode]

theorem nlink_change (hother : ∀ j ≠ i, SameAt j s s') :
    s'.nlink = Function.update s.nlink i (s'.nlink i) := by
  funext j
  by_cases hj : j = i
  · rw [hj, Function.update_self]
  · rw [Function.update_of_ne hj, (hother j hj).nlink]

theorem nlink_same (hother : ∀ j ≠ i, SameAt j s s') (hi : s'.nlink i = s.nlink i) :
    s'.nlink = s.nlink := by
  rw [nlink_change hother, hi, Function.update_eq_self]

theorem Base.nlink_setInode (h : Base d s) (hm : s.memory i = some v) (w : Inode) :
    (s.setInode i w).nlink = Function.update s.nlink i (some w.nlink) := by
  rw [nlink_change (setInode_other s i w)]
  have hinode : (s.setInode i w).inode i = some w := by
    unfold Vol.inode
    rw [if_pos ⟨(mem_numbers.mp (h.number hm)).1, (h.inodes i).memory v hm⟩, setInode_self]
    rfl
  unfold Vol.nlink
  rw [hinode, Option.map_some]

theorem Linked.same (h : Linked d s) (hn : s'.nlink = s.nlink)
    (hd : s'.disk.dirent = s.disk.dirent) : Linked d s' := by
  constructor
  · unfold Disk.links
    rw [hn, hd]
    exact h.links
  · rw [hn, hd]
    exact h.names

theorem Base.nlink_number (h : Base d s) {n : UInt32} (hn : s.nlink i = some n) : i ∈ d.numbers := by
  unfold Vol.nlink at hn
  obtain ⟨v, hv, -⟩ := Option.map_eq_some_iff.mp hn
  unfold Vol.inode at hv
  split_ifs at hv with hc
  have hhigh := (h.inodes i).high hc.2
  exact mem_numbers.mpr ⟨hc.1, hhigh.resolve_left (Nat.not_lt.mpr hc.1)⟩

theorem links_update {disk disk' : Disk} {slots k : ℕ} (hk : k < slots) {e : Dirent}
    (hd : disk'.dirent = Function.update disk.dirent k e) (j : ℕ) :
    disk'.links slots j + (if (disk.dirent k).ino.toNat = j then 1 else 0) =
      disk.links slots j + if e.ino.toNat = j then 1 else 0 := by
  have hsum := sum_but_one (Finset.mem_range.mpr hk)
    (fun k => if (disk.dirent k).ino.toNat = j then 1 else 0)
    (fun k => if (disk'.dirent k).ino.toNat = j then 1 else 0)
    fun k' hk' => by rw [hd, Function.update_of_ne hk']
  rw [hd, Function.update_self] at hsum
  unfold Disk.links
  rw [hd]
  exact hsum

theorem links_le (disk : Disk) (slots j : ℕ) : disk.links slots j ≤ slots := by
  unfold Disk.links
  refine le_trans (Finset.sum_le_card_nsmul _ _ 1 ?_) (by simp)
  intro k _
  split_ifs <;> omega

theorem links_zero {disk : Disk} {slots j k : ℕ} (h : disk.links slots j = 0) (hk : k < slots) :
    (disk.dirent k).ino.toNat ≠ j := by
  intro he
  have h0 := Finset.sum_eq_zero_iff.mp h k (Finset.mem_range.mpr hk)
  rw [if_pos he] at h0
  cases h0

theorem Base.slots_lt (h : Base d s) : d.slots < 2 ^ 31 := by
  obtain ⟨dir, hdir, h0, hslots, -⟩ := h.root
  have hinode := h.inode_memory hdir
  have hext : s.layout.extent aufs_ROOT_INO = some (dir.sblock, dir.eblock) := by
    rw [layout_extent hinode]
    unfold Inode.extent
    rw [if_neg h0]
  have hv := h.layout.valid _ _ hext
  have hb := h.layout.bound
  have hend := h.accepted.endByte
  have hblocks := h.accepted.blocks_eq
  rw [← hslots]
  unfold Inode.slots
  simp only at hv
  omega

/-! ### The root directory -/

theorem add_entry_ok {ino : ℕ} (h : aufs_add_entry dir name ino s = .ok s') :
    ∃ k < dir.slots, (s.disk.dirent k).ino = 0 ∧
      ∃ size, (dir.size ≤ dir.slots * 16 → size ≤ dir.slots * 16) ∧
        s' = (s.setInode aufs_ROOT_INO { dir with size := size, dirty := true }).setDirent k
          ⟨UInt16.ofNat ino, fun j => name.getD j 0⟩ := by
  unfold aufs_add_entry at h
  split_ifs at h
  cases hk : (List.range dir.slots).find? fun k => (s.disk.dirent k).ino = 0 with
  | none =>
    rw [hk] at h
    cases h
  | some k =>
    rw [hk] at h
    have hlt := List.mem_range.mp (List.mem_of_find?_eq_some hk)
    have hfree := List.find?_some hk
    refine ⟨k, hlt, by simpa using hfree, ?_⟩
    simp only at h
    by_cases hsize : dir.size ≤ k * 16
    · rw [if_pos hsize] at h
      cases h
      exact ⟨dir.size + 16, fun _ => by omega, rfl⟩
    · rw [if_neg hsize] at h
      cases h
      exact ⟨dir.size, id, rfl⟩

theorem find_entry_some {k : ℕ} (h : aufs_find_entry dir name s = some k)
    (hsize : dir.size ≤ d.slots * 16) : k < d.slots ∧ (s.disk.dirent k).ino ≠ 0 := by
  unfold aufs_find_entry at h
  split_ifs at h
  have hlt := List.mem_range.mp (List.mem_of_find?_eq_some h)
  have hfound := List.find?_some h
  simp only [decide_eq_true_eq] at hfound
  exact ⟨by omega, hfound.1⟩

/-- What a new entry of the root directory changes. -/
structure Entered (d : Disk) (ino : ℕ) (s s' : Vol) : Prop where
  base : Base d s'
  layout : s'.layout = s.layout
  freeb : s'.freeb = s.freeb
  nlink : s'.nlink = s.nlink
  memory : ∀ j ≠ aufs_ROOT_INO, s'.memory j = s.memory j
  entry : ∃ k < d.slots, ∃ e : Dirent, (s.disk.dirent k).ino = 0 ∧ e.ino = UInt16.ofNat ino ∧
    s'.disk.dirent = Function.update s.disk.dirent k e

/-- The root stays as it is, but for its size. -/
theorem Base.setRoot (h : Base d s) (hdir : s.memory aufs_ROOT_INO = some dir) {size : ℕ}
    (hsize : size ≤ d.slots * 16) :
    Base d (s.setInode aufs_ROOT_INO { dir with size := size, dirty := true }) ∧
    (s.setInode aufs_ROOT_INO { dir with size := size, dirty := true }).layout = s.layout ∧
    (s.setInode aufs_ROOT_INO { dir with size := size, dirty := true }).nlink = s.nlink := by
  have hinode := h.inode_memory hdir
  have hp := (h.inodes _).proper dir hinode
  have hbase := h.setInode hdir (w := { dir with size := size, dirty := true })
    ⟨hp.mode, hp.ops, hp.dskIno, hp.blocks, hp.empty⟩ rfl rfl rfl (fun _ => hsize)
  have hinode' := hbase.inode_memory (setInode_self s aufs_ROOT_INO _)
  refine ⟨hbase, layout_same (setInode_other s _ _) rfl (by rw [hinode', hinode]; rfl), ?_⟩
  apply nlink_same (setInode_other s _ _)
  unfold Vol.nlink
  rw [hinode', hinode]
  rfl

theorem Base.add_entry (h : Base d s) (hdir : s.memory aufs_ROOT_INO = some dir) {ino : ℕ}
    (hok : aufs_add_entry dir name ino s = .ok s') : Entered d ino s s' := by
  obtain ⟨k, hk, hfree, size, hsize, rfl⟩ := add_entry_ok hok
  obtain ⟨dir', hdir', -, hslots, hdsize⟩ := h.root
  rw [hdir] at hdir'
  cases hdir'
  rw [hslots] at hk hsize
  obtain ⟨hbase, hlayout, hnlink⟩ := h.setRoot hdir (hsize hdsize)
  exact ⟨hbase.setDirent k _, hlayout, rfl, hnlink, fun j hj => Function.update_of_ne hj _ _,
    k, hk, _, hfree, rfl, rfl⟩

/-- Entries name inodes in use, so that nothing names another. -/
theorem Linked.unused (h : Linked d s) (hi : i ≠ 0) (hn : s.nlink i = none) :
    s.disk.links d.slots i = 0 := by
  apply Finset.sum_eq_zero
  intro k hk
  rw [if_neg]
  intro he
  have h0 : (s.disk.dirent k).ino ≠ 0 := by
    intro h0
    rw [h0] at he
    exact hi he.symm
  have hsome := h.names k (Finset.mem_range.mp hk) h0
  rw [he, hn] at hsome
  cases hsome

/-- The links are right again when the inode of a new entry has one link more. -/
theorem Linked.entered (h : Linked d s) (hbase : Base d s') {k a n : ℕ} {e : Dirent}
    (hk : k < d.slots) (hfree : (s.disk.dirent k).ino = 0) (he : e.ino.toNat = a)
    (hd : s'.disk.dirent = Function.update s.disk.dirent k e) {m : UInt32}
    (hn : s'.nlink = Function.update s.nlink a (some m)) (hm : m.toNat = n + 1)
    (hold : s.disk.links d.slots a = n) : Linked d s' := by
  constructor
  · intro j c hj hroot
    have hnum := (mem_numbers.mp (hbase.nlink_number hj)).1
    have hcount := links_update hk hd j
    have hzero : (0 : UInt16).toNat ≠ j := by
      unfold aufs_ROOT_INO at hnum
      change 0 ≠ j
      omega
    rw [hfree, if_neg hzero, he] at hcount
    rw [hn] at hj
    by_cases hji : j = a
    · rw [hji, Function.update_self] at hj
      cases hj
      rw [if_pos hji.symm, hji, hold] at hcount
      rw [hji]
      omega
    · rw [Function.update_of_ne hji] at hj
      rw [if_neg (Ne.symm hji)] at hcount
      have hl := h.links j c hj hroot
      omega
  · intro k' hk' h0
    rw [hd] at h0 ⊢
    rw [hn]
    by_cases hkk : k' = k
    · rw [hkk, Function.update_self, he, Function.update_self]
      rfl
    · rw [Function.update_of_ne hkk] at h0 ⊢
      by_cases hji : (s.disk.dirent k').ino.toNat = a
      · rw [hji, Function.update_self]
        rfl
      · rw [Function.update_of_ne hji]
        exact h.names k' hk' h0

/-- An inode without links leaves no entry behind. -/
theorem Linked.freed (h : Linked d s) (hi : i ≠ aufs_ROOT_INO) {n : UInt32}
    (hold : s.nlink i = some n) (h0 : n = 0) (hn : s'.nlink = Function.update s.nlink i none)
    (hd : s'.disk.dirent = s.disk.dirent) : Linked d s' := by
  have hzero := h.links i n hold hi
  rw [h0] at hzero
  constructor
  · intro j c hj hroot
    rw [hn] at hj
    unfold Disk.links
    rw [hd]
    by_cases hji : j = i
    · rw [hji, Function.update_self] at hj
      cases hj
    · rw [Function.update_of_ne hji] at hj
      exact h.links j c hj hroot
  · intro k hk hk0
    rw [hd] at hk0 ⊢
    rw [hn, Function.update_of_ne (links_zero hzero.symm hk)]
    exact h.names k hk hk0

/-- An entry is taken away, and a link with it. -/
theorem Linked.removed (h : Linked d s) (hbase : Base d s') {k : ℕ} {e : Dirent} (hk : k < d.slots)
    (he : (s.disk.dirent k).ino.toNat = i) (hi : i ≠ aufs_ROOT_INO) (h0 : e.ino = 0) {m c : UInt32}
    (hold : s.nlink i = some c) (hm : m.toNat + 1 = c.toNat)
    (hd : s'.disk.dirent = Function.update s.disk.dirent k e)
    (hn : s'.nlink = Function.update s.nlink i (some m)) : Linked d s' := by
  constructor
  · intro j c' hj hroot
    have hnum := (mem_numbers.mp (hbase.nlink_number hj)).1
    have hcount := links_update hk hd j
    have hzero : (0 : UInt16).toNat ≠ j := by
      unfold aufs_ROOT_INO at hnum
      change 0 ≠ j
      omega
    rw [h0, if_neg hzero, he] at hcount
    rw [hn] at hj
    by_cases hji : j = i
    · rw [hji, Function.update_self] at hj
      cases hj
      have hl := h.links i c hold hi
      rw [if_pos hji.symm, hji] at hcount
      rw [hji]
      omega
    · rw [Function.update_of_ne hji] at hj
      have hl := h.links j c' hj hroot
      rw [if_neg (Ne.symm hji)] at hcount
      omega
  · intro k' hk' hk0
    rw [hd] at hk0 ⊢
    rw [hn]
    by_cases hkk : k' = k
    · rw [hkk, Function.update_self, h0] at hk0
      exact absurd rfl hk0
    · rw [Function.update_of_ne hkk] at hk0 ⊢
      by_cases hji : (s.disk.dirent k').ino.toNat = i
      · rw [hji, Function.update_self]
        rfl
      · rw [Function.update_of_ne hji]
        exact h.names k' hk' hk0

/-! ### The ways in which files move -/

/-- `aufs_get_block` moves the file behind the last one. -/
def Relocates (s : Vol) (v : Inode) (block : ℕ) (moved : Bool) : Prop :=
  ¬ (v.sblock ≠ 0 ∧ add64 v.sblock block ≤ v.eblock) ∧ ¬ s.blocks ≤ add64 v.sblock block ∧
    v.eblock ≠ s.lfEblk ∧ ¬ s.blocks ≤ add64 (add64 s.lfEblk 1) block ∧
    ¬ (v.sblock ≠ 0 ∧ !moved)

/-- What a call does to the extents of the files and to the count of free blocks. -/
inductive Moves (s : Vol) : Act → Vol → Prop where
  | stay {a : Act} {s' : Vol} (hl : s'.layout = s.layout) (hf : s'.freeb = s.freeb)
      (ha : ∀ i v block moved, a = .getBlock i block moved → s.file i = some v →
        ¬ Relocates s v block moved) : Moves s a s'
  | extend {s' : Vol} (i e : ℕ) (v : Inode) (block : ℕ) (moved : Bool) (hi : s.file i = some v)
      (h0 : v.sblock ≠ 0) (hlast : v.eblock = s.lfEblk) (he : v.eblock < e)
      (hl : s'.layout = s.layout.set i (v.sblock, e)) (hf : s'.freeb = sub64 s.freeb (e - v.eblock)) :
      Moves s (.getBlock i block moved) s'
  | move {s' : Vol} (i e : ℕ) (v : Inode) (block : ℕ) (moved : Bool) (hi : s.file i = some v)
      (hr : Relocates s v block moved) (he : s.lfEblk < e)
      (hl : s'.layout = s.layout.set i (s.lfEblk + 1, e))
      (hf : s'.freeb = sub64 s.freeb (sub64 (e - s.lfEblk) v.blocks)) :
      Moves s (.getBlock i block moved) s'
  | remove {s' : Vol} (i : ℕ) (v : Inode) (hi : s.file i = some v) (h0 : v.sblock ≠ 0)
      (hl : s'.layout = s.layout.remove i)
      (hf : s'.freeb = add64 s.freeb (v.eblock + 1 - v.sblock)) : Moves s (.evict i) s'

theorem file_some : s.file i = some v ↔ i ≠ aufs_ROOT_INO ∧ s.memory i = some v := by
  unfold Vol.file
  by_cases hi : i = aufs_ROOT_INO <;> simp [hi]

theorem Base.getBlock (h : Base d s) (hi : s.file i = some v) (block : ℕ) (moved : Bool) :
    Moves s (.getBlock i block moved) (aufs_get_block i v block moved s).2 ∧
      Base d (aufs_get_block i v block moved s).2 ∧
      (aufs_get_block i v block moved s).2.nlink = s.nlink ∧
      (aufs_get_block i v block moved s).2.disk = s.disk := by
  obtain ⟨hroot, hm⟩ := file_some.mp hi
  have hinode := h.inode_memory hm
  have hp := (h.inodes i).proper v hinode
  have hblocks : s.blocks < 2 ^ 32 := by
    rw [h.blocks]
    exact h.accepted.blocks_lt
  obtain ⟨hlo, hlf⟩ := h.lfEblk_ge
  have hbound : s.lfEblk < s.blocks := by
    rw [h.blocks]
    exact h.layout.bound
  have hsame : ∀ w : Inode, Relocates s w block moved → s.file i = some w →
      Relocates s v block moved := by
    intro w hr hv'
    rw [hi] at hv'
    cases hv'
    exact hr
  have hstay : ¬ Relocates s v block moved → Moves s (.getBlock i block moved) s := by
    intro hr
    refine .stay rfl rfl fun j w b m ha hw hr' => hr ?_
    cases ha
    exact hsame w hr' hw
  have hnlink : ∀ w : Inode, w.nlink = v.nlink → ∀ (f l : ℕ),
      ({ s with freeb := f, lfEblk := l }.setInode i w).nlink = s.nlink := by
    intro w hv' f l
    have hn := h.nlink_setInode hm w
    rw [hv'] at hn
    have hold : s.nlink i = some v.nlink := by
      unfold Vol.nlink
      rw [hinode, Option.map_some]
    rw [← hold, Function.update_eq_self] at hn
    exact hn
  have hdisk : ∀ (w : Inode) (f l : ℕ),
      ({ s with freeb := f, lfEblk := l }.setInode i w).disk = s.disk := fun _ _ _ => rfl
  unfold aufs_get_block
  simp only
  by_cases hgranted : v.sblock ≠ 0 ∧ add64 v.sblock block ≤ v.eblock
  · rw [if_pos hgranted]
    exact ⟨hstay fun hr => hr.1 hgranted, h, rfl, rfl⟩
  rw [if_neg hgranted]
  by_cases hspace : s.blocks ≤ add64 v.sblock block
  · rw [if_pos hspace]
    exact ⟨hstay fun hr => hr.2.1 hspace, h, rfl, rfl⟩
  rw [if_neg hspace]
  by_cases hlast : v.eblock = s.lfEblk
  · -- the file ends last, and is made longer
    rw [if_pos hlast]
    have h0 : v.sblock ≠ 0 := by
      intro h0
      have he := hp.empty h0
      omega
    have hext : s.layout.extent i = some (v.sblock, v.eblock) := by
      rw [layout_extent hinode]
      unfold Inode.extent
      rw [if_neg h0]
    have he : v.eblock < add64 v.sblock block := by
      by_contra hc
      exact hgranted ⟨h0, Nat.not_lt.mp hc⟩
    have hsound := h.layout.extend hext hlast he.le (by rw [← h.blocks]; omega)
    obtain ⟨hlayout, hbase⟩ := h.place hm hroot
      (w := { v with eblock := add64 v.sblock block, dirty := true })
      ⟨hp.mode, hp.ops, hp.dskIno, hp.blocks, fun hc => absurd hc h0⟩ rfl h0
      (sub64 s.freeb (sub64 (add64 v.sblock block) v.eblock)) hsound
    refine ⟨.extend i _ v block moved hi h0 hlast he hlayout ?_, hbase,
      hnlink { v with eblock := add64 v.sblock block, dirty := true } rfl _ _,
      hdisk _ _ _⟩
    have hsub : sub64 (add64 v.sblock block) v.eblock = add64 v.sblock block - v.eblock := by
      have hb : add64 v.sblock block < 2 ^ 32 := by omega
      unfold sub64
      omega
    change sub64 s.freeb (sub64 (add64 v.sblock block) v.eblock) = _
    rw [hsub]
  rw [if_neg hlast]
  by_cases hspace' : s.blocks ≤ add64 (add64 s.lfEblk 1) block
  · rw [if_pos hspace']
    exact ⟨hstay fun hr => hr.2.2.2.1 hspace', h, rfl, rfl⟩
  rw [if_neg hspace']
  by_cases hmoved : v.sblock ≠ 0 ∧ !moved
  · rw [if_pos hmoved]
    exact ⟨hstay fun hr => hr.2.2.2.2 hmoved, h, rfl, rfl⟩
  -- the file is moved behind the last one
  rw [if_neg hmoved]
  have hphys : add64 s.lfEblk 1 = s.lfEblk + 1 := by
    unfold add64
    omega
  rw [hphys] at hspace' ⊢
  have he : s.lfEblk < add64 (s.lfEblk + 1) block := by
    by_cases h0 : v.sblock = 0
    · rw [h0] at hspace
      unfold add64 at hspace hspace' ⊢
      omega
    · have hg : v.eblock < add64 v.sblock block := by
        by_contra hc
        exact hgranted ⟨h0, Nat.not_lt.mp hc⟩
      have hext : s.layout.extent i = some (v.sblock, v.eblock) := by
        rw [layout_extent hinode]
        unfold Inode.extent
        rw [if_neg h0]
      have hv := h.layout.valid i _ hext
      simp only at hv
      unfold add64 at hg hspace hspace' ⊢
      omega
  have hsound := h.layout.move (i := i) (hlf.trans (Nat.le_succ _)) he (by rw [← h.blocks]; omega)
  obtain ⟨hlayout, hbase⟩ := h.place hm hroot
    (w := { v with sblock := s.lfEblk + 1, eblock := add64 (s.lfEblk + 1) block, dirty := true })
    ⟨hp.mode, hp.ops, hp.dskIno, hp.blocks, fun hc => absurd hc (Nat.succ_ne_zero _)⟩ rfl
    (Nat.succ_ne_zero _)
    (sub64 s.freeb (sub64 (add64 (sub64 (add64 (s.lfEblk + 1) block) (s.lfEblk + 1)) 1) v.blocks))
    hsound
  refine ⟨.move i _ v block moved hi ⟨hgranted, hspace, hlast, by rw [hphys]; exact hspace', hmoved⟩
    he hlayout ?_, hbase, hnlink { v with
      sblock := s.lfEblk + 1, eblock := add64 (s.lfEblk + 1) block, dirty := true } rfl _ _,
    hdisk _ _ _⟩
  have hsub : add64 (sub64 (add64 (s.lfEblk + 1) block) (s.lfEblk + 1)) 1 =
      add64 (s.lfEblk + 1) block - s.lfEblk := by
    have hb : add64 (s.lfEblk + 1) block < 2 ^ 32 := by omega
    generalize add64 (s.lfEblk + 1) block = e at hb he
    unfold sub64 add64
    omega
  change sub64 s.freeb (sub64 (add64 (sub64 (add64 (s.lfEblk + 1) block) (s.lfEblk + 1)) 1)
    v.blocks) = _
  rw [hsub]

/-! ### Calls -/

theorem Base.nlink_memory (h : Base d s) (hm : s.memory i = some v) : s.nlink i = some v.nlink := by
  unfold Vol.nlink
  rw [h.inode_memory hm, Option.map_some]

theorem remove_none {L : Layout ℕ} (h : L.extent i = none) : L.remove i = L := by
  apply Layout.ext
  · unfold Layout.remove
    rw [← h, Function.update_eq_self]
  · unfold Layout.remove
    rw [h]

/-- The link counts after an inode was freed. -/
theorem evict_nlink (hn : v.nlink = 0) (hdsk : v.dskIno ≠ 0) :
    (aufs_evict_inode i v s).nlink = Function.update s.nlink i none := by
  rw [evict_unlinked hn hdsk]
  generalize (if v.sblock ≠ 0 then add64 s.freeb (sub64 (v.eblock + 1) v.sblock) else s.freeb) = f
  generalize add64 s.freei 1 = g
  generalize (if s.lfEblk = v.eblock then sub64 v.sblock 1 else s.lfEblk) = l
  generalize hs' : ({ s with
      memory := Function.update s.memory i none,
      disk := { s.disk with inode := Function.update s.disk.inode i .zero },
      written := Function.update s.written i none, freeb := f, freei := g,
      imap := Function.update s.imap i false, lfEblk := l } : Vol) = s'
  have hother : ∀ j ≠ i, SameAt j s s' := by
    intro j hj
    rw [← hs']
    exact ⟨Function.update_of_ne hj _ _, Function.update_of_ne hj _ _,
      Function.update_of_ne hj _ _, Function.update_of_ne hj _ _⟩
  have hfree : s'.nlink i = none := by
    rw [← hs']
    unfold Vol.nlink Vol.inode
    simp
  rw [nlink_change hother, hfree]

/-- A file that has no entry is taken back, and the volume is as before. -/
theorem Sound.taken_back (h : Sound d s) (hbase : Base d s') (hlayout : s'.layout = s.layout)
    (hfreeb : s'.freeb = s.freeb) (hdirent : s'.disk.dirent = s.disk.dirent)
    (hm : s'.memory i = some v) (hi : i ≠ aufs_ROOT_INO) (h0 : v.sblock = 0)
    (hnone : s.nlink i = none) (hn : s'.nlink = Function.update s.nlink i (some v.nlink))
    (hz : w.nlink = 0) (hdsk : w.dskIno = v.dskIno) (hs : w.sblock = v.sblock)
    (he : w.eblock = v.eblock) : Sound d (aufs_evict_inode i w s') ∧
      (aufs_evict_inode i w s').layout = s.layout ∧ (aufs_evict_inode i w s').freeb = s.freeb := by
  have hinode := hbase.inode_memory hm
  have hdsk0 : w.dskIno ≠ 0 := by
    rw [hdsk]
    exact ((hbase.inodes i).proper v hinode).dskIno
  obtain ⟨hlay, hfree⟩ := hbase.free hm hi hz hdsk hs he
  have hext : s'.layout.extent i = none := by
    rw [layout_extent hinode]
    unfold Inode.extent
    rw [if_pos h0]
  rw [remove_none hext] at hlay
  refine ⟨⟨hfree, h.same ?_ ?_⟩, hlay.trans hlayout, ?_⟩
  · rw [evict_nlink hz hdsk0, hn, Function.update_idem, ← hnone, Function.update_eq_self]
  · rw [evict_unlinked hz hdsk0]
    exact hdirent
  · rw [evict_unlinked hz hdsk0, hs, h0]
    exact hfreeb

theorem Sound.create (h : Sound d s) (hdir : s.memory aufs_ROOT_INO = some dir) (perm : UInt16)
    (uid gid : UInt32) :
    Sound d (aufs_create dir name (perm ||| S_IFREG) uid gid s).2 ∧
      (aufs_create dir name (perm ||| S_IFREG) uid gid s).2.layout = s.layout ∧
      (aufs_create dir name (perm ||| S_IFREG) uid gid s).2.freeb = s.freeb := by
  unfold aufs_create
  cases hino : (List.range (s.lasti + 1)).find? fun i => !s.imap i with
  | none => exact ⟨h, rfl, rfl⟩
  | some ino =>
    simp only
    have hlast := List.mem_range.mp (List.mem_of_find?_eq_some hino)
    have hfree := List.find?_some hino
    have himap : s.imap ino = false := by simpa using hfree
    rw [h.lasti] at hlast
    have hle : ino ≤ d.lasti := by omega
    have hroot : ino ≠ aufs_ROOT_INO := by
      rintro rfl
      rw [(h.inodes _).memory dir hdir] at himap
      cases himap
    have hzero : ino ≠ 0 := by
      rintro rfl
      rw [((h.inodes 0).low (by decide)).1] at himap
      cases himap
    generalize hv : (⟨perm ||| S_IFREG, some false, uid, gid, 1, 0, 0, ino, 0, 0, true⟩ : Inode) = v
    have hproper : v.Proper ino := by
      rw [← hv]
      refine ⟨?_, ?_, hzero, Nat.two_pow_pos 32, fun _ => rfl⟩
      · unfold typeBits
        rw [if_neg hroot]
        simp only
        rw [UInt16.or_assoc, UInt16.or_self]
      · simp [hroot]
    have hdirty : v.dirty = true := by rw [← hv]
    have h0 : v.sblock = 0 := by rw [← hv]
    have hnlink1 : v.nlink = 1 := by rw [← hv]
    obtain ⟨hlayout, hbase⟩ := h.alloc himap hle hproper hdirty h0
    generalize hs₁ : ({ s with imap := Function.update s.imap ino true,
                               freei := sub64 s.freei 1 } : Vol).setInode ino v = s₁ at hlayout hbase ⊢
    have hother : ∀ j ≠ ino, SameAt j s s₁ := by
      intro j hj
      rw [← hs₁]
      exact ⟨Function.update_of_ne hj _ _, Function.update_of_ne hj _ _, rfl, rfl⟩
    have hself : s₁.memory ino = some v := by
      rw [← hs₁]
      exact setInode_self _ ino v
    have hfreeb : s₁.freeb = s.freeb := by simp only [← hs₁, Vol.setInode]
    have hdisk : s₁.disk = s.disk := by simp only [← hs₁, Vol.setInode]
    have hdir₁ : s₁.memory aufs_ROOT_INO = some dir := by
      rw [(hother _ (Ne.symm hroot)).memory, hdir]
    have hn : s₁.nlink = Function.update s.nlink ino (some v.nlink) := by
      rw [nlink_change hother, hbase.nlink_memory hself]
    have hnone : s.nlink ino = none := by
      unfold Vol.nlink Vol.inode
      simp [himap]
    cases hadd : aufs_add_entry dir name ino s₁ with
    | error e =>
      exact h.taken_back (w := ⟨perm ||| S_IFREG, some false, uid, gid, 1 - 1, 0, 0, ino, 0, 0, true⟩)
        hbase hlayout hfreeb (by rw [hdisk]) hself hroot h0 hnone hn rfl (by rw [← hv])
        (by rw [← hv]) (by rw [← hv])
    | ok s₂ =>
      have hent := hbase.add_entry hdir₁ hadd
      obtain ⟨k, hk, e, hfreek, he, hdirent⟩ := hent.entry
      rw [hdisk] at hfreek hdirent
      refine ⟨⟨hent.base, ?_⟩, hent.layout.trans hlayout, hent.freeb.trans hfreeb⟩
      refine h.entered (a := ino) (n := 0) (m := v.nlink) hent.base hk hfreek ?_ hdirent ?_ ?_ ?_
      · rw [he]
        refine UInt16.toNat_ofNat_of_lt' ?_
        have hmax := h.accepted.lasti
        unfold aufs_MAX_LASTI at hmax
        change ino < 65536
        omega
      · rw [hent.nlink, hn]
      · rw [hnlink1]
        rfl
      · exact h.unused hzero hnone

theorem Sound.lookup (h : Sound d s) (hdir : s.memory aufs_ROOT_INO = some dir) :
    Sound d (kept s (aufs_lookup dir name s)) ∧
      (kept s (aufs_lookup dir name s)).layout = s.layout ∧
      (kept s (aufs_lookup dir name s)).freeb = s.freeb := by
  unfold aufs_lookup
  split_ifs
  · exact ⟨h, rfl, rfl⟩
  obtain ⟨dir', hdir', -, -, hsize⟩ := h.root
  rw [hdir] at hdir'
  cases hdir'
  cases hk : aufs_find_entry dir name s with
  | none => exact ⟨h, rfl, rfl⟩
  | some k =>
    simp only
    obtain ⟨hlt, hne⟩ := find_entry_some hk hsize
    generalize hino : (s.disk.dirent k).ino.toNat = ino
    have hsome := h.names k hlt hne
    rw [hino] at hsome
    obtain ⟨n, hn⟩ := Option.isSome_iff_exists.mp hsome
    have hnum := h.nlink_number hn
    obtain ⟨hlow, hhigh⟩ := mem_numbers.mp hnum
    have himap : s.imap ino = true := by
      by_contra hc
      unfold Vol.nlink Vol.inode at hn
      rw [if_neg fun hx => hc hx.2] at hn
      cases hn
    unfold aufs_iget
    cases hm : s.memory ino with
    | some v => exact ⟨h, rfl, rfl⟩
    | none =>
      simp only
      have hlasti := h.lasti
      rw [if_neg (by omega)]
      obtain ⟨hlayout, hbase⟩ := h.load hnum himap hm
      refine ⟨⟨hbase, h.same ?_ rfl⟩, hlayout, rfl⟩
      apply nlink_same (setInode_other s ino _)
      have hself := setInode_self s ino (s.disk.inode ino).load
      unfold Vol.nlink
      rw [hbase.inode_memory hself, inode_memory_none hm hlow himap]

theorem Sound.link (h : Sound d s) (hdir : s.memory aufs_ROOT_INO = some dir)
    (hi : s.file i = some v) : Sound d (kept s (aufs_link dir i v name s)) ∧
      (kept s (aufs_link dir i v name s)).layout = s.layout ∧
      (kept s (aufs_link dir i v name s)).freeb = s.freeb := by
  obtain ⟨hroot, hm⟩ := file_some.mp hi
  unfold aufs_link
  cases hadd : aufs_add_entry dir name i s with
  | error e => exact ⟨h, rfl, rfl⟩
  | ok s₁ =>
    have hent := h.toBase.add_entry hdir hadd
    obtain ⟨k, hk, e, hfree, he, hdirent⟩ := hent.entry
    have hm₁ : s₁.memory i = some v := by rw [hent.memory i hroot, hm]
    have hinode := hent.base.inode_memory hm₁
    have hp := (hent.base.inodes i).proper v hinode
    have hbase := hent.base.setInode hm₁ (w := { v with nlink := v.nlink + 1, dirty := true })
      ⟨hp.mode, hp.ops, hp.dskIno, hp.blocks, hp.empty⟩ rfl rfl rfl (fun hc => absurd hc hroot)
    have hlayout : (s₁.setInode i { v with nlink := v.nlink + 1, dirty := true }).layout =
        s₁.layout := by
      apply layout_same (setInode_other s₁ i _) rfl
      rw [hbase.inode_memory (setInode_self s₁ i _), hinode]
      rfl
    have hlinks := h.links i v.nlink (h.nlink_memory hm) hroot
    have hle := links_le s.disk d.slots i
    have hslots := h.slots_lt
    have hnlink := hent.base.nlink_setInode hm₁ { v with nlink := v.nlink + 1, dirty := true }
    rw [hent.nlink] at hnlink
    refine ⟨⟨hbase, ?_⟩, hlayout.trans hent.layout, hent.freeb⟩
    refine h.entered (a := i) (n := v.nlink.toNat) (m := v.nlink + 1) hbase hk hfree ?_ hdirent
      hnlink ?_ hlinks.symm
    · rw [he]
      exact UInt16.toNat_ofNat_of_lt' (h.accepted.number_lt (h.number hm))
    · have h1 : (1 : UInt32).toNat = 1 := rfl
      rw [UInt32.toNat_add]
      omega

theorem Sound.unlink (h : Sound d s) (hdir : s.memory aufs_ROOT_INO = some dir)
    (hi : s.file i = some v) : Sound d (kept s (aufs_unlink dir i v name s)) ∧
      (kept s (aufs_unlink dir i v name s)).layout = s.layout ∧
      (kept s (aufs_unlink dir i v name s)).freeb = s.freeb := by
  obtain ⟨hroot, hm⟩ := file_some.mp hi
  obtain ⟨dir', hdir', -, -, hsize⟩ := h.root
  rw [hdir] at hdir'
  cases hdir'
  unfold aufs_unlink
  cases hk : aufs_find_entry dir name s with
  | none => exact ⟨h, rfl, rfl⟩
  | some k =>
    simp only
    by_cases hino : (s.disk.dirent k).ino.toNat = i
    · rw [if_neg (not_not_intro hino)]
      obtain ⟨hlt, hne⟩ := find_entry_some hk hsize
      have hlinks := h.links i v.nlink (h.nlink_memory hm) hroot
      have hpos : v.nlink.toNat ≠ 0 := by
        intro h0
        exact links_zero (hlinks.symm.trans h0) hlt hino
      have hne0 : v.nlink ≠ 0 := by
        intro h0
        rw [h0] at hpos
        exact hpos rfl
      rw [if_neg hne0]
      have hbase₁ := h.toBase.setDirent k { s.disk.dirent k with ino := 0 }
      obtain ⟨hbase₂, hlayout₂, hnlink₂⟩ := hbase₁.setRoot hdir hsize
      generalize hs₂ : (s.setDirent k { s.disk.dirent k with ino := 0 }).setInode aufs_ROOT_INO
        { dir with size := dir.size, dirty := true } = s₂ at hbase₂ hlayout₂ hnlink₂
      have hm₂ : s₂.memory i = some v := by
        rw [← hs₂, ← hm]
        exact Function.update_of_ne hroot _ _
      have hinode := hbase₂.inode_memory hm₂
      have hp := (hbase₂.inodes i).proper v hinode
      have hbase := hbase₂.setInode hm₂ (w := { v with nlink := v.nlink - 1, dirty := true })
        ⟨hp.mode, hp.ops, hp.dskIno, hp.blocks, hp.empty⟩ rfl rfl rfl (fun hc => absurd hc hroot)
      have hlayout : (s₂.setInode i { v with nlink := v.nlink - 1, dirty := true }).layout =
          s₂.layout := by
        apply layout_same (setInode_other s₂ i _) rfl
        rw [hbase.inode_memory (setInode_self s₂ i _), hinode]
        rfl
      have hnlink := hbase₂.nlink_setInode hm₂ { v with nlink := v.nlink - 1, dirty := true }
      have hnlink₁ : (s.setDirent k { s.disk.dirent k with ino := 0 }).nlink = s.nlink := rfl
      rw [hnlink₂, hnlink₁] at hnlink
      have hdirent : s₂.disk.dirent =
          Function.update s.disk.dirent k { s.disk.dirent k with ino := 0 } := by
        rw [← hs₂]
        rfl
      have hfreeb : s₂.freeb = s.freeb := by
        rw [← hs₂]
        rfl
      refine ⟨⟨hbase, ?_⟩, hlayout.trans hlayout₂, hfreeb⟩
      refine h.removed (c := v.nlink) hbase hlt hino hroot rfl (h.nlink_memory hm) ?_ hdirent hnlink
      have h1 : (1 : UInt32).toNat = 1 := rfl
      have hle : (1 : UInt32) ≤ v.nlink := by
        rw [UInt32.le_iff_toNat_le]
        omega
      rw [UInt32.toNat_sub_of_le _ _ hle]
      omega
    · rw [if_pos hino]
      exact ⟨h, rfl, rfl⟩

theorem Sound.evict (h : Sound d s) (hi : s.file i = some v)
    (hd : ¬ (v.nlink ≠ 0 ∧ v.dirty = true)) :
    Sound d (aufs_evict_inode i v s) ∧ Moves s (.evict i) (aufs_evict_inode i v s) := by
  obtain ⟨hroot, hm⟩ := file_some.mp hi
  have hinode := h.inode_memory hm
  have hp := (h.inodes i).proper v hinode
  by_cases hn : v.nlink = 0
  · obtain ⟨hlayout, hbase⟩ := h.free hm hroot hn rfl rfl rfl
    have hnlink := evict_nlink (s := s) (i := i) hn hp.dskIno
    refine ⟨⟨hbase, h.freed hroot (h.nlink_memory hm) hn hnlink ?_⟩, ?_⟩
    · rw [evict_unlinked hn hp.dskIno]
    · have hfreeb : (aufs_evict_inode i v s).freeb =
          if v.sblock ≠ 0 then add64 s.freeb (sub64 (v.eblock + 1) v.sblock) else s.freeb := by
        rw [evict_unlinked hn hp.dskIno]
      by_cases h0 : v.sblock = 0
      · have hext : s.layout.extent i = none := by
          rw [layout_extent hinode]
          unfold Inode.extent
          rw [if_pos h0]
        rw [remove_none hext] at hlayout
        rw [if_neg (not_not_intro h0)] at hfreeb
        exact .stay hlayout hfreeb fun _ _ _ _ ha => nomatch ha
      · have hext : s.layout.extent i = some (v.sblock, v.eblock) := by
          rw [layout_extent hinode]
          unfold Inode.extent
          rw [if_neg h0]
        have hv := h.layout.valid i _ hext
        have hlt := h.blocks_lt hinode
        simp only at hv
        have hsub : sub64 (v.eblock + 1) v.sblock = v.eblock + 1 - v.sblock := by
          unfold sub64
          omega
        rw [if_pos h0, hsub] at hfreeb
        exact .remove i v hi h0 hlayout hfreeb
  · have hclean : v.dirty = false := by
      by_contra hc
      exact hd ⟨hn, by simpa using hc⟩
    obtain ⟨hlayout, hbase⟩ := h.forget hm hroot hclean
    have hsame : aufs_evict_inode i v s = { s with memory := Function.update s.memory i none } := by
      unfold aufs_evict_inode
      simp only
      rw [if_pos hn]
    rw [hsame]
    refine ⟨⟨hbase, h.same ?_ rfl⟩, .stay hlayout rfl fun _ _ _ _ ha => nomatch ha⟩
    apply nlink_same (i := i)
    · intro j hj
      exact ⟨rfl, Function.update_of_ne hj _ _, rfl, rfl⟩
    · have hnum := h.number hm
      have hnone : ({ s with memory := Function.update s.memory i none } : Vol).memory i = none :=
        Function.update_self i none s.memory
      unfold Vol.nlink
      rw [inode_memory_none hnone (mem_numbers.mp hnum).1 ((h.inodes i).memory v hm), hinode,
        Option.map_some, Option.map_some]
      exact congrArg some (h.agrees hm hclean).2

/-- Every call keeps what holds of the volume. -/
theorem step_sound {a : Act} (h : Sound d s) (hs : step s a = some s') :
    Sound d s' ∧ Moves s a s' := by
  obtain ⟨dir, hdir, -⟩ := h.root
  have hstay : ∀ {s'' : Vol} (b : Act), (∀ i block moved, b ≠ .getBlock i block moved) →
      Sound d s'' ∧ s''.layout = s.layout ∧ s''.freeb = s.freeb → Sound d s'' ∧ Moves s b s'' := by
    intro s'' b hb hx
    exact ⟨hx.1, .stay hx.2.1 hx.2.2 fun i v block moved he => absurd he (hb i block moved)⟩
  unfold step at hs
  rw [hdir] at hs
  cases a with
  | create name perm uid gid =>
    cases hs
    exact hstay _ (fun _ _ _ he => nomatch he) (h.create hdir _ uid gid)
  | lookup name =>
    cases hs
    exact hstay _ (fun _ _ _ he => nomatch he) (h.lookup hdir)
  | link ino name =>
    obtain ⟨dir', hdir', hs⟩ := Option.bind_eq_some_iff.mp hs
    cases hdir'
    obtain ⟨v, hv, hs⟩ := Option.bind_eq_some_iff.mp hs
    cases hs
    exact hstay _ (fun _ _ _ he => nomatch he) (h.link hdir hv)
  | unlink ino name =>
    obtain ⟨dir', hdir', hs⟩ := Option.bind_eq_some_iff.mp hs
    cases hdir'
    obtain ⟨v, hv, hs⟩ := Option.bind_eq_some_iff.mp hs
    cases hs
    exact hstay _ (fun _ _ _ he => nomatch he) (h.unlink hdir hv)
  | getBlock ino block moved =>
    obtain ⟨v, hv, hs⟩ := Option.bind_eq_some_iff.mp hs
    cases hs
    obtain ⟨hmoves, hbase, hnlink, hdisk⟩ := h.toBase.getBlock hv block moved
    exact ⟨⟨hbase, h.same hnlink (by rw [hdisk])⟩, hmoves⟩
  | setSize ino size =>
    obtain ⟨v, hv, hs⟩ := Option.bind_eq_some_iff.mp hs
    cases hs
    obtain ⟨hroot, hm⟩ := file_some.mp hv
    have hinode := h.inode_memory hm
    have hp := (h.inodes _).proper v hinode
    have hbase := h.setInode hm (w := { v with size := size, dirty := true })
      ⟨hp.mode, hp.ops, hp.dskIno, hp.blocks, hp.empty⟩ rfl rfl rfl (fun hc => absurd hc hroot)
    have hinode' := hbase.inode_memory (setInode_self s ino _)
    refine hstay _ (fun _ _ _ he => nomatch he) ⟨⟨hbase, h.same ?_ rfl⟩, ?_, rfl⟩
    · apply nlink_same (setInode_other s ino _)
      unfold Vol.nlink
      rw [hinode', hinode]
      rfl
    · apply layout_same (setInode_other s ino _) rfl
      rw [hinode', hinode]
      rfl
  | write ino =>
    obtain ⟨v, hm, hs⟩ := Option.bind_eq_some_iff.mp hs
    cases hs
    obtain ⟨hlayout, hbase⟩ := h.toBase.write hm
    have hself : (aufs_write_inode ino v s).memory ino = some { v with dirty := false } :=
      Function.update_self ino _ s.memory
    refine hstay _ (fun _ _ _ he => nomatch he) ⟨⟨hbase, h.same ?_ rfl⟩, hlayout, rfl⟩
    apply nlink_same (i := ino)
    · intro j hj
      exact ⟨rfl, Function.update_of_ne hj _ _, Function.update_of_ne hj _ _,
        Function.update_of_ne hj _ _⟩
    · rw [hbase.nlink_memory hself, h.nlink_memory hm]
  | evict ino =>
    obtain ⟨v, hv, hs⟩ := Option.bind_eq_some_iff.mp hs
    split_ifs at hs with hd
    cases hs
    exact h.evict hv hd

theorem run_sound {acts : List Act} (h : Sound d s) (hs : run s acts = some s') : Sound d s' := by
  induction acts generalizing s with
  | nil =>
    cases hs
    exact h
  | cons a acts ih =>
    obtain ⟨s₁, hstep, hrun⟩ := Option.bind_eq_some_iff.mp hs
    exact ih (step_sound h hstep).1 hrun

theorem load_proper {i : ℕ} (hc : d.Consistent) (hu : d.Used i) : (d.inode i).load.Proper i := by
  have htype : aufs_VREG ≠ aufs_VDIR := by decide
  have hino : (d.inode i).ino.toNat ≠ 0 := by
    intro h0
    exact hu.2 (UInt16.toNat_inj.mp h0)
  have hempty : (d.inode i).load.sblock = 0 → (d.inode i).load.eblock = 0 := by
    intro h0
    change (d.inode i).eblock.toNat = 0
    rw [hc.empty i hu (UInt32.toNat_inj.mp h0)]
    rfl
  by_cases hroot : i = aufs_ROOT_INO
  · subst hroot
    refine ⟨?_, ?_, hino, UInt32.toNat_lt _, hempty⟩
    · unfold typeBits DiskInode.load
      simp only
      rw [hc.rootType, if_pos rfl, if_pos trivial, UInt16.or_assoc, UInt16.or_self]
    · unfold DiskInode.load
      simp only
      rw [hc.rootType, if_pos rfl]
      simp
  · refine ⟨?_, ?_, hino, UInt32.toNat_lt _, hempty⟩
    · unfold typeBits DiskInode.load
      simp only
      rw [hc.files i hu hroot, if_neg htype, if_pos rfl, if_neg hroot, UInt16.or_assoc,
        UInt16.or_self]
    · unfold DiskInode.load
      simp only
      rw [hc.files i hu hroot, if_neg htype, if_pos rfl]
      simp [hroot]

theorem mounted_freei :
    d.mounted.freei = ∑ i ∈ d.numbers.toFinset, if d.mounted.imap i = true then 0 else 1 := by
  have hfreei := takes_freei d.numbers d.opened
  rw [List.sum_toFinset _ (nodup_numbers d)]
  change (d.numbers.foldl takeInode d.opened).freei = _
  rw [hfreei]
  change 0 + _ = _
  rw [Nat.zero_add]
  congr 1
  apply List.map_congr_left
  intro i hi
  have hlow := (mem_numbers.mp hi).1
  have himap := mounted_imap (d := d) i
  change (if (d.inode i).ino = 0 then 1 else 0) = _
  by_cases h0 : (d.inode i).ino = 0
  · rw [if_pos h0, if_neg]
    intro hc
    cases himap.mp hc with
    | inl hlt => omega
    | inr hu => exact hu.2 h0
  · rw [if_neg h0, if_pos (himap.mpr (.inr ⟨hi, h0⟩))]

/-- A consistent image that is mounted. -/
theorem mounted_sound (hc : d.Consistent) (ha : d.Accepted) : Sound d d.mounted := by
  have hframe := takes_frame d.numbers d.opened
  have hroot : d.Used aufs_ROOT_INO := ⟨mem_numbers.mpr ⟨le_refl _, ha.root⟩, hc.rootUsed⟩
  have hblocks : d.mounted.blocks = d.blocks := hframe.2.1
  have hnlink : ∀ i, d.mounted.nlink i = if d.Used i then some (d.inode i).nlink else none := by
    intro i
    unfold Vol.nlink
    rw [mounted_inode]
    split_ifs <;> rfl
  refine ⟨⟨ha, ?_, ?_, ?_, ?_, hblocks, hframe.2.2.1, ?_, hc.layout ha, ?_, ?_⟩, ⟨?_, ?_⟩⟩
  · rw [mounted_disk]
  · rw [mounted_disk]
  · rw [mounted_disk]
  · rw [mounted_disk]
  · refine ⟨(d.inode aufs_ROOT_INO).load, by rw [mounted_memory, if_pos rfl], ?_, rfl, hc.rootSize⟩
    intro h0
    exact hc.rootBlocks (UInt32.toNat_inj.mp h0)
  · exact mounted_freei
  · intro i
    constructor
    · intro hlow
      refine ⟨(mounted_imap i).mpr (.inl hlow), ?_⟩
      rw [mounted_memory, if_neg (Nat.ne_of_lt hlow)]
    · intro himap
      exact ((mounted_imap i).mp himap).imp_right fun hu => (mem_numbers.mp hu.1).2
    · intro v hv
      rw [mounted_memory] at hv
      split_ifs at hv with hi
      rw [hi]
      exact (mounted_imap _).mpr (.inr hroot)
    · intro v hv
      rw [mounted_inode] at hv
      split_ifs at hv with hu
      cases hv
      exact load_proper hc hu
    · intro hi himap
      have hnot : ¬ (i < aufs_ROOT_INO ∨ d.Used i) := by
        rw [← mounted_imap, himap]
        decide
      have hnum : i ∈ d.numbers := mem_numbers.mpr ⟨by omega, hi⟩
      rw [mounted_disk, hblocks]
      refine ⟨?_, ha.inodes i hnum⟩
      by_contra h0
      exact hnot (.inr ⟨hnum, h0⟩)
    · intro hi himap _
      have hu : d.Used i := ((mounted_imap i).mp himap).resolve_left
        (Nat.not_lt.mpr (mem_numbers.mp hi).1)
      constructor
      · intro w hw
        rw [mounted_written] at hw
        cases hw
      · intro _
        rw [mounted_disk, hblocks]
        exact ⟨hu.2, ha.inodes i hi, load_proper hc hu⟩
    · intro v hv _
      rw [mounted_memory] at hv
      split_ifs at hv with hi
      cases hv
      rw [mounted_disk, hi]
      exact .inl rfl
  · intro i n hn hi
    rw [hnlink] at hn
    split_ifs at hn with hu
    cases hn
    rw [mounted_disk]
    exact hc.links i hu hi
  · intro k hk h0
    rw [mounted_disk] at h0 ⊢
    rw [hnlink, if_pos (hc.names k hk h0)]
    rfl

/-- Files never overlap, lie on the volume, and none ends behind the last used block. -/
theorem extents_disjoint {s₀ : Vol} (hc : d.Consistent) (hmount : aufs_fill_super d = .ok s₀)
    (acts : List Act) (h : run s₀ acts = some s) :
    (∀ i j v w, i ≠ j → s.inode i = some v → s.inode j = some w → v.sblock ≠ 0 → w.sblock ≠ 0 →
      v.eblock < w.sblock ∨ w.eblock < v.sblock) ∧
    (∀ i v, s.inode i = some v → v.sblock ≠ 0 →
      v.sblock ≤ v.eblock ∧ v.eblock < s.blocks ∧ v.eblock ≤ s.lfEblk) := by
  obtain ⟨ha, rfl⟩ := (fill_super_ok d s₀).mp hmount
  have hs := run_sound (mounted_sound hc ha) h
  have hext : ∀ i v, s.inode i = some v → v.sblock ≠ 0 →
      s.layout.extent i = some (v.sblock, v.eblock) := by
    intro i v hi h0
    rw [layout_extent hi]
    unfold Inode.extent
    rw [if_neg h0]
  constructor
  · intro i j v w hij hi hj hv hw
    exact hs.layout.disjoint i j _ _ hij (hext i v hi hv) (hext j w hj hw)
  · intro i v hi hv
    obtain ⟨-, hle, hlast⟩ := hs.layout.valid i _ (hext i v hi hv)
    have hb := hs.layout.bound
    rw [hs.blocks]
    exact ⟨hle, lt_of_le_of_lt hlast hb, hlast⟩

/-- An image of 16 blocks with an empty root directory. -/
def image : Disk where
  magic := aufs_MAGIC
  start := 1024
  endByte := 8191
  deviceBlocks := 16
  inode i := if i = aufs_ROOT_INO then ⟨2, 2, 2, 1055, aufs_VDIR, 0o755, 0, 0, 2⟩ else .zero
  dirent k := if k < 2 then ⟨2, fun j => if j ≤ k then 46 else 0⟩ else ⟨0, fun _ => 0⟩

theorem image_accepted : image.Accepted where
  magic := rfl
  super := by decide
  lasti := by decide
  root := by decide
  last := by decide
  inodes := by decide

theorem image_used {i : ℕ} (h : image.Used i) : i = aufs_ROOT_INO := by
  by_contra hi
  apply h.2
  unfold image
  simp only
  rw [if_neg hi]
  rfl

theorem image_consistent : image.Consistent where
  rootUsed := by decide
  rootType := by decide
  rootBlocks := by decide
  rootSize := by decide
  files i hu hi := absurd (image_used hu) hi
  empty i hu h0 := by
    rw [image_used hu] at h0
    exact absurd h0 (by decide)
  inside i hu _ := by
    rw [image_used hu]
    decide
  disjoint i j hi hj hij := absurd ((image_used hi).trans (image_used hj).symm) hij
  links i hu hi := absurd (image_used hu) hi
  names k _ h0 := by
    have hk : k < 2 := by
      by_contra hk
      unfold image at h0
      simp only at h0
      rw [if_neg hk] at h0
      exact h0 rfl
    interval_cases k <;> decide

/-- A new file with a block behind the root directory. -/
theorem extents_disjoint_image : ∃ s, run image.mounted [.create [65] 0o644 0 0, .getBlock 3 0 true] =
    some s ∧ ∀ i v, s.inode i = some v → v.sblock ≠ 0 →
      v.sblock ≤ v.eblock ∧ v.eblock < s.blocks ∧ v.eblock ≤ s.lfEblk :=
  ⟨_, rfl, (extents_disjoint image_consistent ((fill_super_ok _ _).mpr ⟨image_accepted, rfl⟩)
    [.create [65] 0o644 0 0, .getBlock 3 0 true] rfl).2⟩

end Linux011.Aufs
