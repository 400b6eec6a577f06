import Linux011.FsTrees

set_option autoImplicit false

/-!
# What walks along paths leave as it is

`Walk s₀ s held bufs`: since `s₀`, the running code has taken references to the inodes `held` and the
buffers `bufs`, and apart from these all counts are what they were; the trees are the same.
-/
namespace Linux011.Minix
open Outcomes

/-- More references to an inode than the tables of tasks, files and super blocks can hold. -/
def MAX_REFS : ℕ := 60000
/-- More references to a buffer than the maps of the super blocks are. -/
def MAX_MAPS : ℕ := 128

/-- A block of the table of inodes on a device. -/
def Fs.InodeBlock (s : Fs) (b : Buffer) : Prop :=
  ∃ k nr, (s.supers k).dev = b.1 ∧ b.1 ≠ 0 ∧ 1 ≤ nr ∧ nr ≤ (s.supers k).ninodes ∧
    b.2 = (s.supers k).inodeBlock nr

/-- The inode table: an inode is in it once, and what is not dirty is on the disk. Entries of a device
    that is not mounted any more are not in use. -/
structure Table (live : ℕ → ℕ → Prop) (s : Fs) : Prop where
  once : ∀ i j, (s.inodes i).dev ≠ 0 → (s.inodes i).dev = (s.inodes j).dev →
    (s.inodes i).num = (s.inodes j).num → i = j
  clean : ∀ i, live (s.inodes i).dev (s.inodes i).num → (s.inodes i).dirt = false →
    (s.inodes i).core = (s.onDisk (s.inodes i).dev (s.inodes i).num).core
  idle : ∀ i, (s.inodes i).count = 0 → (s.inodes i).dirt = false
  inTree : ∀ i, (s.inodes i).dev ≠ 0 →
    (s.inodes i).count ≠ 0 ∨ s.getSuper (s.inodes i).dev ≠ none →
    live (s.inodes i).dev (s.inodes i).num
  noPipe : ∀ i, (s.inodes i).dev ≠ 0 → (s.inodes i).pipe = false

/-- The mounted devices and their trees, in a state without any call under way. -/
structure Tree (live : ℕ → ℕ → Prop) (s : Fs) : Prop extends Table live s where
  fewRefs : ∀ i, (s.inodes i).count ≤ MAX_REFS
  fewMaps : ∀ b, s.bcount b ≤ MAX_MAPS
  -- the super blocks
  supers : ∀ k k', (s.supers k).dev ≠ 0 → (s.supers k).dev = (s.supers k').dev → k = k'
  layout : ∀ k nr, (s.supers k).dev ≠ 0 → nr ≤ (s.supers k).ninodes →
    (s.supers k).inodeBlock nr < (s.supers k).firstdatazone
  imount : ∀ k m, (s.supers k).imount = some m →
    (s.supers k).dev ≠ 0 ∧ (s.inodes m).dev ≠ 0 ∧ (s.inodes m).count ≠ 0 ∧ isDir (s.inodes m).mode
  mounted : ∀ i, (s.inodes i).mount = true →
    (s.inodes i).count ≠ 0 ∧ (s.inodes i).num ≠ ROOT_INO
  -- the inodes
  device : ∀ dev nr, live dev nr → dev ≠ 0 ∧ ∃ k, (s.supers k).dev = dev ∧
    1 ≤ nr ∧ nr ≤ (s.supers k).ninodes
  root : ∀ k, (s.supers k).dev ≠ 0 → live (s.supers k).dev ROOT_INO ∧
    (s.inodeOf (s.supers k).dev ROOT_INO).nlinks ≠ 0
  task : ∀ i, s.task.root = some i ∨ s.task.pwd = some i →
    (s.inodes i).dev ≠ 0 ∧ (s.inodes i).count ≠ 0
  -- the blocks
  zones : ∀ dev nr k p, live dev nr → (s.supers k).dev = dev →
    isReg (s.inodeOf dev nr).mode ∨ isDir (s.inodeOf dev nr).mode →
    (s.inodeOf dev nr).blockAt (s.blocks dev) p ≠ 0 →
    (s.supers k).firstdatazone ≤ (s.inodeOf dev nr).blockAt (s.blocks dev) p
  -- the directories
  entries : ∀ dev nr k j, live dev nr → isDir (s.inodeOf dev nr).mode →
    (s.inodeOf dev nr).block (s.blocks dev) k ≠ 0 → j < DIR_ENTRIES_PER_BLOCK →
    DIR_ENTRIES_PER_BLOCK * k + j < (s.inodeOf dev nr).size.toNat / 16 →
    entryInode (s.blocks dev ((s.inodeOf dev nr).block (s.blocks dev) k)) j ≠ 0 →
    live dev (entryInode (s.blocks dev ((s.inodeOf dev nr).block (s.blocks dev) k)) j) ∧
    (s.inodeOf dev
      (entryInode (s.blocks dev ((s.inodeOf dev nr).block (s.blocks dev) k)) j)).nlinks ≠ 0
  dots : ∀ dev nr, live dev nr → isDir (s.inodeOf dev nr).mode →
    2 ≤ (s.inodeOf dev nr).size.toNat / 16 ∧ (s.inodeOf dev nr).zone 0 ≠ 0 ∧
    matchEntry [dot] (s.blocks dev ((s.inodeOf dev nr).zone 0).toNat) 0 = true ∧
    entryInode (s.blocks dev ((s.inodeOf dev nr).zone 0).toNat) 0 = nr ∧
    matchEntry [dot, dot] (s.blocks dev ((s.inodeOf dev nr).zone 0).toNat) 1 = true

structure Walk (live : ℕ → ℕ → Prop) (s₀ s : Fs) (held : List Slot) (bufs : List Buffer) : Prop
    extends Table live s where
  count : ∀ i, (s.inodes i).count = (s₀.inodes i).count + held.count i
  bcount : ∀ b, s.bcount b = s₀.bcount b + bufs.count b
  supers : s.supers = s₀.supers
  task : s.task = s₀.task
  rootDev : s.rootDev = s₀.rootDev
  reads : s₀.reads = [] → s.reads = []
  same : ∀ i, (s₀.inodes i).count ≠ 0 → (s.inodes i).dev = (s₀.inodes i).dev ∧
    (s.inodes i).num = (s₀.inodes i).num ∧ (s.inodes i).mount = (s₀.inodes i).mount
  mounts : ∀ i, (s.inodes i).mount = true → (s₀.inodes i).count ≠ 0
  inodeOf : ∀ dev nr, live dev nr → s.inodeOf dev nr = s₀.inodeOf dev nr
  data : ∀ b, ¬ s₀.InodeBlock b → s.data b = s₀.data b

/-- The only reasons for a walk to stop: the inode table is full, an inode cannot be read, or a
    directory has more blocks than a file can have. -/
def Gone : Panic → Prop
  | .noFreeInodes | .unableToReadInodeBlock | .blockTooBig => True
  | _ => False

section
variable {live : ℕ → ℕ → Prop} {s₀ s s' : Fs} {held : List Slot} {bufs : List Buffer}

/-! ### Lookups in the tables -/

theorem findInode_some {dev nr : ℕ} {i : Slot} (h : s.findInode dev nr = some i) :
    (s.inodes i).dev = dev ∧ (s.inodes i).num = nr := by
  simpa using List.find?_some h

theorem findInode_none {dev nr : ℕ} (h : s.findInode dev nr = none) (i : Slot) :
    ¬ ((s.inodes i).dev = dev ∧ (s.inodes i).num = nr) := by
  have hi := List.find?_eq_none.mp h i (List.mem_finRange i)
  simpa using hi

theorem findInode_eq_none {dev nr : ℕ}
    (h : ∀ i, ¬ ((s.inodes i).dev = dev ∧ (s.inodes i).num = nr)) : s.findInode dev nr = none := by
  unfold Fs.findInode
  rw [List.find?_eq_none]
  intro i _
  simpa using h i

theorem Table.findInode (h : Table live s) {i : Slot} (hd : (s.inodes i).dev ≠ 0) :
    s.findInode (s.inodes i).dev (s.inodes i).num = some i := by
  cases hf : s.findInode (s.inodes i).dev (s.inodes i).num with
  | none => exact absurd ⟨rfl, rfl⟩ (findInode_none hf i)
  | some j =>
    obtain ⟨hd', hn'⟩ := findInode_some hf
    rw [h.once i j hd hd'.symm hn'.symm]

theorem inodeOf_none {dev nr : ℕ} (h : s.findInode dev nr = none) :
    s.inodeOf dev nr = (s.onDisk dev nr).core := by
  unfold Fs.inodeOf
  rw [h]

theorem inodeOf_some {dev nr : ℕ} {i : Slot} (h : s.findInode dev nr = some i) :
    s.inodeOf dev nr = (s.inodes i).core := by
  unfold Fs.inodeOf
  rw [h]

theorem Table.inodeOf_slot (h : Table live s) {i : Slot} (hd : (s.inodes i).dev ≠ 0) :
    s.inodeOf (s.inodes i).dev (s.inodes i).num = (s.inodes i).core :=
  inodeOf_some (h.findInode hd)

theorem getSuper_some {dev : ℕ} {k : Fin NR_SUPER} (h : s.getSuper dev = some k) :
    (s.supers k).dev = dev ∧ dev ≠ 0 := by
  unfold Fs.getSuper at h
  split_ifs at h with hd
  exact ⟨by simpa using List.find?_some h, hd⟩

theorem Tree.getSuper (h : Tree live s) {k : Fin NR_SUPER} (hd : (s.supers k).dev ≠ 0) :
    s.getSuper (s.supers k).dev = some k := by
  unfold Fs.getSuper
  rw [if_neg hd]
  cases hf : (List.finRange NR_SUPER).find? fun k' => (s.supers k').dev = (s.supers k).dev with
  | none =>
    have hk := List.find?_eq_none.mp hf k (List.mem_finRange k)
    simp at hk
  | some k' =>
    have hk' : (s.supers k').dev = (s.supers k).dev := by simpa using List.find?_some hf
    rw [h.supers k k' hd hk'.symm]

theorem Fs.getSuper_congr (h : s'.supers = s.supers) (dev : ℕ) :
    s'.getSuper dev = s.getSuper dev := by
  unfold Fs.getSuper
  rw [h]

theorem Walk.getSuper (h : Walk live s₀ s held bufs) (dev : ℕ) :
    s.getSuper dev = s₀.getSuper dev := Fs.getSuper_congr h.supers dev

/-- The device of an inode of a tree. -/
theorem Tree.super (h : Tree live s) {dev nr : ℕ} (hl : live dev nr) :
    dev ≠ 0 ∧ ∃ k, s.getSuper dev = some k ∧ (s.supers k).dev = dev ∧
      1 ≤ nr ∧ nr ≤ (s.supers k).ninodes := by
  obtain ⟨hd, k, rfl, hn⟩ := h.device dev nr hl
  exact ⟨hd, k, h.getSuper hd, rfl, hn⟩

theorem Tree.inodeBlock (h : Tree live s) {dev nr : ℕ} (hl : live dev nr) {k : Fin NR_SUPER}
    (hk : s.getSuper dev = some k) : s.InodeBlock (dev, (s.supers k).inodeBlock nr) := by
  obtain ⟨hd, k', hk', hdev, hn⟩ := h.super hl
  obtain rfl : k = k' := Option.some.inj (hk.symm.trans hk')
  exact ⟨k, nr, hdev, hd, hn.1, hn.2, rfl⟩

/-- The blocks of files are behind the inodes. -/
theorem Tree.not_inodeBlock (h : Tree live s) {dev nr : ℕ} {p : Place} (hl : live dev nr)
    (hm : isReg (s.inodeOf dev nr).mode ∨ isDir (s.inodeOf dev nr).mode)
    (hb : (s.inodeOf dev nr).blockAt (s.blocks dev) p ≠ 0) :
    ¬ s.InodeBlock (dev, (s.inodeOf dev nr).blockAt (s.blocks dev) p) := by
  rintro ⟨k, nr', hk, hd, hn, hn', he⟩
  have hz := h.zones dev nr k p hl hk hm hb
  have hlt := h.layout k nr' (by rw [hk]; exact hd) hn'
  simp only at he
  omega

/-- At the start. -/
theorem Tree.walk (h : Tree live s) : Walk live s s [] [] where
  toTable := h.toTable
  count _ := rfl
  bcount _ := rfl
  supers := rfl
  task := rfl
  rootDev := rfl
  reads hr := hr
  same _ _ := ⟨rfl, rfl, rfl⟩
  mounts i hi := (h.mounted i hi).1
  inodeOf _ _ _ := rfl
  data _ _ := rfl

/-! ### Buffers -/

/-- Counts of buffers, and which reads fail, are all that changes. -/
theorem Walk.withBuffers (h : Walk live s₀ s held bufs) {reads : List Bool} {bcount : Buffer → ℕ}
    {bufs' : List Buffer} (hr : s.reads = [] → reads = [])
    (hc : ∀ b, bcount b = s₀.bcount b + bufs'.count b) :
    Walk live s₀ { s with reads := reads, bcount := bcount } held bufs' :=
  { h with
    once := h.once, clean := h.clean, idle := h.idle, inTree := h.inTree, noPipe := h.noPipe,
    bcount := hc, reads := fun h₀ => hr (h.reads h₀) }

/-- A buffer that is read has one more reference. -/
theorem bread_walk (h₀ : Tree live s₀) (h : Walk live s₀ s held bufs) (hl : bufs.length ≤ 100)
    (dev block : ℕ) : (bread dev block s).Sat
      (fun bh s' => (∃ reads bcount, s' = { s with reads := reads, bcount := bcount }) ∧
        (s₀.reads = [] → bh ≠ none) ∧ (∀ b, bh = some b → b = (dev, block)) ∧
        Walk live s₀ s' held (bh.toList ++ bufs)) Gone := by
  unfold bread
  split_ifs with hr
  · refine ⟨⟨_, _, rfl⟩, fun hc => ?_, (fun b hb => nomatch hb), ?_⟩
    · rw [h.reads hc] at hr
      cases hr
    · exact h.withBuffers (fun hc => by rw [hc]; rfl) h.bcount
  · refine ⟨⟨_, _, rfl⟩, fun _ => Option.some_ne_none _, fun b hb => (Option.some.inj hb).symm, ?_⟩
    refine h.withBuffers (fun hc => by rw [hc]; rfl) fun b => ?_
    have hb := h.bcount b
    have hm := h₀.fewMaps b
    have hle := List.count_le_length (a := b) (l := bufs)
    unfold MAX_MAPS at hm
    by_cases he : b = (dev, block)
    · subst he
      change Function.update s.bcount (dev, block) _ _ = _
      rw [Function.update_self, Option.toList_some, List.singleton_append, List.count_cons_self, hb,
        Nat.mod_eq_of_lt (by omega)]
      omega
    · change Function.update s.bcount (dev, block) _ _ = _
      rw [Function.update_of_ne he, Option.toList_some, List.singleton_append,
        List.count_cons_of_ne (Ne.symm he), hb]

theorem brelse_walk {bh : Option Buffer} (h : Walk live s₀ s held (bh.toList ++ bufs)) :
    (brelse bh s).Sat (fun _ s' => (∃ bcount, s' = { s with bcount := bcount }) ∧
      Walk live s₀ s' held bufs) Gone := by
  unfold brelse
  cases bh with
  | none => exact ⟨⟨_, rfl⟩, h⟩
  | some b =>
    have hb := h.bcount b
    rw [Option.toList_some, List.singleton_append, List.count_cons_self] at hb
    simp only
    rw [if_neg (by omega)]
    refine ⟨⟨_, rfl⟩, h.withBuffers (fun hr => hr) fun b' => ?_⟩
    have hb' := h.bcount b'
    rw [Option.toList_some, List.singleton_append] at hb'
    by_cases he : b' = b
    · subst he
      change Function.update s.bcount b' _ _ = _
      rw [Function.update_self, hb]
      omega
    · change Function.update s.bcount b _ _ = _
      rw [Function.update_of_ne he, hb', List.count_cons_of_ne (Ne.symm he)]

/-! ### One entry of the inode table -/

theorem Fs.setInode_self (s : Fs) (i : Slot) (x : Inode) : (s.setInode i x).inodes i = x :=
  Function.update_self _ _ _

theorem Fs.setInode_ne (s : Fs) {i j : Slot} (x : Inode) (h : j ≠ i) :
    (s.setInode i x).inodes j = s.inodes j :=
  Function.update_of_ne h _ _

/-- An entry keeps what inode it is, and is clean only if it is on the disk. -/
theorem Walk.setSlot (h : Walk live s₀ s held bufs) {held' : List Slot} (i : Slot) (x : Inode)
    (hcore : x.toDInode = (s.inodes i).toDInode) (hdev : x.dev = (s.inodes i).dev)
    (hnum : x.num = (s.inodes i).num) (hpipe : x.pipe = (s.inodes i).pipe)
    (hmount : x.mount = (s.inodes i).mount)
    (hclean : live (s.inodes i).dev (s.inodes i).num → x.dirt = false →
      (s.inodes i).core = (s.onDisk (s.inodes i).dev (s.inodes i).num).core)
    (hlive : (s.inodes i).dev ≠ 0 → x.count ≠ 0 → live (s.inodes i).dev (s.inodes i).num)
    (hidle : x.count = 0 → x.dirt = false)
    (hcount : ∀ j, (if j = i then x.count else (s.inodes j).count) =
      (s₀.inodes j).count + held'.count j) :
    Walk live s₀ (s.setInode i x) held' bufs := by
  have hslot : ∀ j, ((s.setInode i x).inodes j).toDInode = (s.inodes j).toDInode ∧
      ((s.setInode i x).inodes j).dev = (s.inodes j).dev ∧
      ((s.setInode i x).inodes j).num = (s.inodes j).num ∧
      ((s.setInode i x).inodes j).pipe = (s.inodes j).pipe ∧
      ((s.setInode i x).inodes j).mount = (s.inodes j).mount := by
    intro j
    by_cases hj : j = i
    · subst hj
      rw [Fs.setInode_self]
      exact ⟨hcore, hdev, hnum, hpipe, hmount⟩
    · rw [Fs.setInode_ne s x hj]
      exact ⟨rfl, rfl, rfl, rfl, rfl⟩
  have hfind : ∀ dev nr, (s.setInode i x).findInode dev nr = s.findInode dev nr := by
    intro dev nr
    unfold Fs.findInode
    congr 1
    funext j
    rw [(hslot j).2.1, (hslot j).2.2.1]
  refine {
    once := fun j j' => ?_, clean := fun j => ?_, idle := fun j => ?_, inTree := fun j => ?_,
    noPipe := fun j => ?_, count := fun j => ?_, bcount := h.bcount, supers := h.supers,
    task := h.task, rootDev := h.rootDev, reads := h.reads, same := fun j hj => ?_,
    mounts := fun j => ?_, inodeOf := fun dev nr hl => ?_, data := h.data }
  · rw [(hslot j).2.1, (hslot j').2.1, (hslot j).2.2.1, (hslot j').2.2.1]
    exact h.once j j'
  · rw [(hslot j).2.1, (hslot j).2.2.1, (hslot j).1]
    intro hd hdirt
    by_cases hj : j = i
    · subst hj
      rw [Fs.setInode_self] at hdirt
      exact hclean hd hdirt
    · rw [Fs.setInode_ne s x hj] at hdirt
      exact h.clean j hd hdirt
  · by_cases hj : j = i
    · subst hj
      rw [Fs.setInode_self]
      exact hidle
    · rw [Fs.setInode_ne s x hj]
      exact h.idle j
  · rw [(hslot j).2.1, (hslot j).2.2.1]
    intro hd hc
    by_cases hj : j = i
    · subst hj
      rw [Fs.setInode_self] at hc
      exact hc.elim (hlive hd) fun hs => h.inTree j hd (.inr hs)
    · rw [Fs.setInode_ne s x hj] at hc
      exact h.inTree j hd hc
  · rw [(hslot j).2.1, (hslot j).2.2.2.1]
    exact h.noPipe j
  · rw [← hcount j]
    by_cases hj : j = i
    · subst hj
      rw [Fs.setInode_self, if_pos rfl]
    · rw [Fs.setInode_ne s x hj, if_neg hj]
  · rw [(hslot j).2.1, (hslot j).2.2.1, (hslot j).2.2.2.2]
    exact h.same j hj
  · rw [(hslot j).2.2.2.2]
    exact h.mounts j
  · rw [← h.inodeOf dev nr hl]
    unfold Fs.inodeOf
    rw [hfind]
    cases s.findInode dev nr with
    | none => rfl
    | some j =>
      simp only
      rw [(hslot j).1]

/-- A reference is taken. -/
theorem Walk.grab (h₀ : Tree live s₀) (h : Walk live s₀ s held bufs) (hl : held.length ≤ 100)
    {i : Slot} (hlive : (s.inodes i).dev ≠ 0 → live (s.inodes i).dev (s.inodes i).num) : Walk live s₀ (s.grab i) (i :: held) bufs ∧
      (s.grab i).inodes i = { s.inodes i with count := (s.inodes i).count + 1 } := by
  have hc := h.count i
  have hm := h₀.fewRefs i
  have hle := List.count_le_length (a := i) (l := held)
  unfold MAX_REFS at hm
  have hmod : ((s.inodes i).count + 1) % 65536 = (s.inodes i).count + 1 :=
    Nat.mod_eq_of_lt (by omega)
  refine ⟨h.setSlot i _ rfl rfl rfl rfl rfl (h.clean i) (fun hd _ => hlive hd) (fun h0 => ?_)
    fun j => ?_, ?_⟩
  · simp only [hmod] at h0
    omega
  · split_ifs with hj
    · subst hj
      simp only [hmod, List.count_cons_self]
      omega
    · rw [List.count_cons_of_ne (Ne.symm hj)]
      exact h.count j
  · unfold Fs.grab Fs.setCount
    rw [Fs.setInode_self, hmod]

/-- A reference is dropped, the last one of an inode that is clean. -/
theorem Walk.drop {i : Slot} (h : Walk live s₀ s (i :: held) bufs)
    (hclean : (s.inodes i).count = 1 → (s.inodes i).dirt = false) :
    Walk live s₀ (s.setCount i ((s.inodes i).count - 1)) held bufs := by
  have hc := h.count i
  rw [List.count_cons_self] at hc
  refine h.setSlot i _ rfl rfl rfl rfl rfl (h.clean i)
    (fun hd _ => h.inTree i hd (.inl (by omega))) (fun h0 => ?_) fun j => ?_
  · simp only at h0
    exact hclean (by omega)
  · split_ifs with hj
    · subst hj
      simp only
      omega
    · have hcj := h.count j
      rwa [List.count_cons_of_ne (Ne.symm hj)] at hcj

/-- An inode is marked. -/
theorem Walk.mark (h : Walk live s₀ s held bufs) (i : Slot) (hc : (s.inodes i).count ≠ 0) :
    Walk live s₀ (s.setInode i { s.inodes i with dirt := true }) held bufs := by
  refine h.setSlot i _ rfl rfl rfl rfl rfl (fun _ hd => ?_) (fun hd _ => h.inTree i hd (.inl hc))
    (fun h0 => absurd h0 hc) fun j => ?_
  · cases hd
  · split_ifs with hj
    · subst hj
      exact h.count j
    · exact h.count j

/-! ### Writing inodes -/

/-- An entry of the table may become clean. -/
def Settles (x y : Inode) : Prop := y = x ∨ y = { x with dirt := false }

theorem Settles.refl (x : Inode) : Settles x x := .inl rfl

theorem Settles.trans {x y z : Inode} (h : Settles x y) (h' : Settles y z) : Settles x z := by
  rcases h with rfl | rfl
  · exact h'
  · rcases h' with rfl | rfl
    · exact .inr rfl
    · exact .inr rfl

theorem Settles.same {x y : Inode} (h : Settles x y) : y.toDInode = x.toDInode ∧ y.dev = x.dev ∧
    y.num = x.num ∧ y.count = x.count ∧ y.pipe = x.pipe ∧ y.mount = x.mount := by
  rcases h with rfl | rfl
  · exact ⟨rfl, rfl, rfl, rfl, rfl, rfl⟩
  · exact ⟨rfl, rfl, rfl, rfl, rfl, rfl⟩

/-- The inode is stored in its block, and no other one is changed. -/
theorem onDisk_store {dev nr nr' dev' : ℕ} {k : Fin NR_SUPER} {x : DInode}
    (hk : s.getSuper dev = some k) (hn : 1 ≤ nr) (hn' : 1 ≤ nr') (hne : ¬ (dev' = dev ∧ nr' = nr)) :
    (s.setData (dev, (s.supers k).inodeBlock nr)
      (encode x (inodeOffset nr) (s.data (dev, (s.supers k).inodeBlock nr)))).onDisk dev' nr' =
      s.onDisk dev' nr' := by
  unfold Fs.onDisk
  have hg : (s.setData (dev, (s.supers k).inodeBlock nr)
      (encode x (inodeOffset nr) (s.data (dev, (s.supers k).inodeBlock nr)))).getSuper dev' =
      s.getSuper dev' := Fs.getSuper_congr rfl dev'
  rw [hg]
  cases hk' : s.getSuper dev' with
  | none => rfl
  | some k' =>
    simp only [Fs.setData]
    by_cases hb : (dev', (s.supers k').inodeBlock nr') = (dev, (s.supers k).inodeBlock nr)
    · obtain ⟨rfl, hblock⟩ := Prod.mk.inj hb
      obtain rfl : k' = k := Option.some.inj (hk'.symm.trans hk)
      rw [hblock, Function.update_self]
      refine decode_encode_ne x _ fun ho => hne ⟨rfl, ?_⟩
      exact inode_place hn' hn hblock ho.symm
    · rw [Function.update_of_ne hb]

theorem onDisk_stored {dev nr : ℕ} {k : Fin NR_SUPER} {x : DInode} (hk : s.getSuper dev = some k) :
    (s.setData (dev, (s.supers k).inodeBlock nr)
      (encode x (inodeOffset nr) (s.data (dev, (s.supers k).inodeBlock nr)))).onDisk dev nr = x := by
  unfold Fs.onDisk
  have hg : (s.setData (dev, (s.supers k).inodeBlock nr)
      (encode x (inodeOffset nr) (s.data (dev, (s.supers k).inodeBlock nr)))).getSuper dev =
      some k := (Fs.getSuper_congr rfl dev).trans hk
  rw [hg]
  simp only [Fs.setData, Function.update_self]
  exact decode_encode x _ _

/-- The inode is written, and is clean then. -/
theorem Walk.store (h₀ : Tree live s₀) (h : Walk live s₀ s held bufs) {i : Slot}
    {k : Fin NR_SUPER} (hk : s.getSuper (s.inodes i).dev = some k) :
    Walk live s₀ ((s.setData ((s.inodes i).dev, (s.supers k).inodeBlock (s.inodes i).num)
      (encode (s.inodes i).toDInode (inodeOffset (s.inodes i).num)
        (s.data ((s.inodes i).dev, (s.supers k).inodeBlock (s.inodes i).num)))).setInode i
          { s.inodes i with dirt := false }) held bufs := by
  have hd := (getSuper_some hk).2
  have hl := h.inTree i hd (.inr (by rw [hk]; exact Option.some_ne_none k))
  have hn : ∀ {dev nr : ℕ}, live dev nr → 1 ≤ nr := fun hl => (h₀.super hl).2.elim fun _ hk => hk.2.2.1
  -- the disk first: what is in the table is not looked at there
  have hdata : Walk live s₀ (s.setData ((s.inodes i).dev, (s.supers k).inodeBlock (s.inodes i).num)
      (encode (s.inodes i).toDInode (inodeOffset (s.inodes i).num)
        (s.data ((s.inodes i).dev, (s.supers k).inodeBlock (s.inodes i).num)))) held bufs := by
    refine { h with
      once := h.once, clean := fun j hj hdirt => ?_, idle := h.idle, inTree := h.inTree,
      noPipe := h.noPipe, inodeOf := fun dev nr hlive => ?_, data := fun b hb => ?_ }
    · change live (s.inodes j).dev (s.inodes j).num at hj
      change (s.inodes j).core = (Fs.onDisk _ (s.inodes j).dev (s.inodes j).num).core
      by_cases hj' : (s.inodes j).dev = (s.inodes i).dev ∧ (s.inodes j).num = (s.inodes i).num
      · obtain rfl := h.once j i (h₀.super hj).1 hj'.1 hj'.2
        rw [onDisk_stored hk]
      · rw [onDisk_store hk (hn hl) (hn hj) hj']
        exact h.clean j hj hdirt
    · rw [← h.inodeOf dev nr hlive]
      cases hf : s.findInode dev nr with
      | none =>
        rw [inodeOf_none hf, inodeOf_none (s := s.setData _ _) hf,
          onDisk_store hk (hn hl) (hn hlive) fun hc => ?_]
        exact findInode_none hf i ⟨hc.1.symm, hc.2.symm⟩
      | some j => rw [inodeOf_some hf, inodeOf_some (s := s.setData _ _) hf]; rfl
    · rw [← h.data b hb]
      refine Function.update_of_ne (fun hc => hb ?_) _ _
      rw [hc]
      have hk₀ := (h.getSuper (s.inodes i).dev).symm.trans hk
      have hblock := h₀.inodeBlock hl hk₀
      rwa [← h.supers] at hblock
  refine hdata.setSlot i _ rfl rfl rfl rfl rfl (fun _ _ => ?_) (fun _ _ => hl) (fun _ => rfl)
    fun j => ?_
  · change (s.inodes i).core = (Fs.onDisk _ (s.inodes i).dev (s.inodes i).num).core
    rw [onDisk_stored hk]
  · split_ifs with hj
    · subst hj
      exact h.count j
    · exact h.count j

theorem writeInode_walk (h₀ : Tree live s₀) (h : Walk live s₀ s held bufs) (hl : bufs.length ≤ 100)
    (i : Slot) : (writeInode i s).Sat (fun _ s' => Walk live s₀ s' held bufs ∧
      (∀ j, Settles (s.inodes j) (s'.inodes j)) ∧
      ((s.inodes i).dev ≠ 0 → (s'.inodes i).dirt = false)) Gone := by
  unfold writeInode
  simp only
  split_ifs with hd
  · exact ⟨h, fun j => .refl _, fun hdev => hd.resolve_right hdev⟩
  · obtain ⟨-, hdev⟩ := not_or.mp hd
    have hused : (s.inodes i).count ≠ 0 := fun hc => hd (.inl (h.idle i hc))
    obtain ⟨-, k, hk, -⟩ := h₀.super (h.inTree i hdev (.inl hused))
    have hks : s.getSuper (s.inodes i).dev = some k := (h.getSuper _).trans hk
    rw [hks]
    simp only
    refine (bread_walk h₀ h hl _ _).bind fun bh s₁ ⟨⟨reads, bcount, hs₁⟩, _, hbh, h₁⟩ => ?_
    cases bh with
    | none => trivial
    | some b =>
      obtain rfl := hbh b rfl
      subst hs₁
      have hstore := Walk.store h₀ h₁ (i := i) (k := k) ((h₁.getSuper _).trans hk)
      refine (brelse_walk hstore).post fun _ s₂ ⟨⟨bcount', hs₂⟩, h₂⟩ => ?_
      subst hs₂
      refine ⟨h₂, fun j => ?_, fun _ => ?_⟩
      · by_cases hj : j = i
        · subst hj
          exact .inr (Fs.setInode_self _ _ _)
        · exact .inl (Fs.setInode_ne _ _ hj)
      · exact congrArg Inode.dirt (Fs.setInode_self _ _ _)

theorem syncInodes_walk (h₀ : Tree live s₀) (h : Walk live s₀ s held bufs) (hl : bufs.length ≤ 100) :
    (syncInodes s).Sat (fun _ s' => Walk live s₀ s' held bufs ∧
      ∀ j, Settles (s.inodes j) (s'.inodes j)) Gone := by
  unfold syncInodes
  refine Outcome.each_sat ⟨h, fun j => .refl _⟩ fun i _ s₁ ⟨h₁, hset⟩ => ?_
  split_ifs
  · exact (writeInode_walk h₀ h₁ hl i).post fun _ s₂ ⟨h₂, hset₂, _⟩ =>
      ⟨h₂, fun j => (hset j).trans (hset₂ j)⟩
  · exact ⟨h₁, hset⟩

/-! ### Dropping references -/

/-- `iput` of an inode that has links, or other references, or is of no device. -/
theorem iput_walk (h₀ : Tree live s₀) {i : Slot} (h : Walk live s₀ s (i :: held) bufs)
    (hl : bufs.length ≤ 100)
    (hnone : (s.inodes i).dev = 0 → (s.inodes i).pipe = false ∧ (s.inodes i).dirt = false)
    (hlinks : (s.inodes i).dev ≠ 0 → (s.inodes i).count = 1 → (s.inodes i).nlinks ≠ 0) :
    (iput i s).Sat (fun _ s' => Walk live s₀ s' held bufs ∧
      ∀ j, j ≠ i → Settles (s.inodes j) (s'.inodes j)) Gone := by
  have hc := h.count i
  rw [List.count_cons_self] at hc
  have hpipe : (s.inodes i).pipe = false := by
    by_cases hd : (s.inodes i).dev = 0
    · exact (hnone hd).1
    · exact h.noPipe i hd
  -- behind the synchronisation of a block device
  have hrest : ∀ s₁, Walk live s₀ s₁ (i :: held) bufs → (∀ j, Settles (s.inodes j) (s₁.inodes j)) →
      (s.inodes i).dev ≠ 0 →
      (if (s₁.inodes i).count > 1 then (.ok () (s₁.setCount i ((s₁.inodes i).count - 1)) : Out Unit)
        else if (s₁.inodes i).nlinks = 0 then (truncate i s₁).bind fun _ s => freeInode i s
        else (writeInode i s₁).bind fun _ s =>
          .ok () (s.setCount i ((s.inodes i).count - 1))).Sat (fun _ s' =>
        Walk live s₀ s' held bufs ∧ ∀ j, j ≠ i → Settles (s.inodes j) (s'.inodes j)) Gone := by
    intro s₁ h₁ hset hd
    obtain ⟨hcore, hdev, -, hcount, -⟩ := (hset i).same
    split_ifs with hone hz
    · refine ⟨h₁.drop fun h1 => by omega, fun j hj => ?_⟩
      refine (hset j).trans (.inl ?_)
      exact Fs.setInode_ne _ _ hj
    · refine absurd ?_ (hlinks hd (by omega))
      rw [← hcore]
      exact hz
    · refine (writeInode_walk h₀ h₁ hl i).bind fun _ s₂ ⟨h₂, hset₂, hclean⟩ => ?_
      refine ⟨h₂.drop fun _ => hclean (by rw [hdev]; exact hd), fun j hj => ?_⟩
      refine ((hset j).trans (hset₂ j)).trans (.inl ?_)
      exact Fs.setInode_ne _ _ hj
  unfold iput
  simp only
  rw [if_neg (by omega), if_neg (by simp [hpipe])]
  split_ifs with hd hblk
  · exact ⟨h.drop fun _ => (hnone hd).2, fun j hj => .inl (Fs.setInode_ne _ _ hj)⟩
  · exact (syncInodes_walk h₀ h hl).bind fun _ s₁ ⟨h₁, hset⟩ => hrest s₁ h₁ hset hd
  · exact hrest s h (fun j => .refl _) hd

/-! ### Getting inodes -/

theorem findEmpty_idle (n : ℕ) (last : Slot) (inode : Option Slot) {i : Slot}
    (hi : ∀ j, inode = some j → (s.inodes j).count = 0)
    (h : (findEmpty s n last inode).2 = some i) : (s.inodes i).count = 0 := by
  induction n generalizing last inode with
  | zero => exact hi i h
  | succ n ih =>
    unfold findEmpty at h
    split_ifs at h with hc hd
    · obtain rfl := Option.some.inj h
      exact hc
    · exact ih _ _ (fun j hj => by rw [← Option.some.inj hj]; exact hc) h
    · exact ih _ _ hi h

/-- An idle entry is used for nothing yet. -/
theorem Walk.fresh (h₀ : Tree live s₀) (h : Walk live s₀ s held bufs) {i : Slot}
    (hi : (s.inodes i).count = 0) :
    Walk live s₀ (s.setInode i { Inode.empty with count := 1 }) (i :: held) bufs := by
  have hc := h.count i
  have hslot : ∀ j, j ≠ i → (s.setInode i { Inode.empty with count := 1 }).inodes j = s.inodes j :=
    fun j hj => Fs.setInode_ne s _ hj
  have hself := Fs.setInode_self s i { Inode.empty with count := 1 }
  generalize hs' : s.setInode i { Inode.empty with count := 1 } = s' at hslot hself
  have hdisk : ∀ dev nr, s'.onDisk dev nr = s.onDisk dev nr := fun dev nr => by subst hs'; rfl
  have hsuper : ∀ dev, s'.getSuper dev = s.getSuper dev := fun dev => by subst hs'; rfl
  have hne : ∀ j, (s'.inodes j).dev ≠ 0 → j ≠ i := by
    rintro j hd rfl
    rw [hself] at hd
    exact hd rfl
  have htable : Table live s' := by
    refine ⟨fun j j' hd he hn => ?_, fun j hd => ?_, fun j => ?_, fun j hd hc => ?_,
      fun j hd => ?_⟩
    · have hd' : (s'.inodes j').dev ≠ 0 := by rwa [← he]
      have hj := hne j hd
      rw [hslot j hj] at hd he hn
      rw [hslot j' (hne j' hd')] at he hn
      exact h.once j j' hd he hn
    · have hj := hne j (h₀.super hd).1
      rw [hslot j hj] at hd ⊢
      rw [hdisk]
      exact h.clean j hd
    · by_cases hj : j = i
      · rw [hj, hself]
        intro _
        rfl
      · rw [hslot j hj]
        exact h.idle j
    · have hj := hne j hd
      rw [hslot j hj] at hd hc ⊢
      rw [hsuper] at hc
      exact h.inTree j hd hc
    · have hj := hne j hd
      rw [hslot j hj] at hd ⊢
      exact h.noPipe j hd
  refine { h with
    toTable := htable, count := fun j => ?_, same := fun j hj => ?_, mounts := fun j => ?_,
    inodeOf := fun dev nr hl => ?_,
    bcount := by subst hs'; exact h.bcount, supers := by subst hs'; exact h.supers,
    task := by subst hs'; exact h.task, rootDev := by subst hs'; exact h.rootDev,
    reads := by subst hs'; exact h.reads, data := by subst hs'; exact h.data }
  · by_cases hj : j = i
    · rw [hj, hself, List.count_cons_self]
      simp only
      omega
    · rw [hslot j hj, List.count_cons_of_ne (Ne.symm hj)]
      exact h.count j
  · have hji : j ≠ i := by
      rintro rfl
      omega
    rw [hslot j hji]
    exact h.same j hj
  · by_cases hj : j = i
    · rw [hj, hself]
      intro hc
      cases hc
    · rw [hslot j hj]
      exact h.mounts j
  · have hd := (h₀.super hl).1
    rw [← h.inodeOf dev nr hl]
    cases hf : s.findInode dev nr with
    | none =>
      rw [inodeOf_none hf, inodeOf_none (findInode_eq_none fun j hj => ?_), hdisk]
      have hji := hne j (by rw [hj.1]; exact hd)
      rw [hslot j hji] at hj
      exact findInode_none hf j hj
    | some j =>
      obtain ⟨rfl, rfl⟩ := findInode_some hf
      rw [inodeOf_some hf]
      by_cases hj : j = i
      · subst hj
        rw [h.clean j hl (h.idle j hi), inodeOf_none (findInode_eq_none fun j' hj' => ?_), hdisk]
        have hji := hne j' (by rw [hj'.1]; exact hd)
        rw [hslot j' hji] at hj'
        exact hji (h.once j' j (by rw [hj'.1]; exact hd) hj'.1 hj'.2)
      · have hself' := htable.inodeOf_slot (i := j) (by rw [hslot j hj]; exact hd)
        rw [hslot j hj] at hself'
        exact hself'

theorem getEmptyInode_walk (h₀ : Tree live s₀) (h : Walk live s₀ s held bufs) :
    (getEmptyInode s).Sat (fun i s' => Walk live s₀ s' (i :: held) bufs ∧
      (s₀.inodes i).count = 0 ∧ s'.inodes i = { Inode.empty with count := 1 } ∧
      ∀ j, j ≠ i → s'.inodes j = s.inodes j) Gone := by
  unfold getEmptyInode
  cases hf : (findEmpty s 32 s.last none).2 with
  | none => trivial
  | some i =>
    have hi := findEmpty_idle 32 s.last none (fun j hj => nomatch hj) hf
    have hdirt := h.idle i hi
    have hlast : Walk live s₀ { s with last := (findEmpty s 32 s.last none).1 } held bufs :=
      { h with once := h.once, clean := h.clean, idle := h.idle, inTree := h.inTree,
               noPipe := h.noPipe }
    simp only
    rw [if_neg (by simp [hdirt])]
    unfold writeInode
    simp only
    rw [if_pos (.inl hdirt), Outcome.bind_ok]
    have hc := h.count i
    exact ⟨hlast.fresh h₀ hi, by omega, Fs.setInode_self _ _ _, fun j hj => Fs.setInode_ne _ _ hj⟩

theorem Walk.perm (h : Walk live s₀ s held bufs) {held' : List Slot} (hp : held.Perm held') :
    Walk live s₀ s held' bufs :=
  { h with count := fun i => by rw [h.count i, hp.count_eq] }

/-- An entry that was taken for an inode that is not in the table. -/
theorem Walk.load (h₀ : Tree live s₀) (h : Walk live s₀ s held bufs) {e : Slot}
    (he : s.inodes e = { Inode.empty with count := 1 }) (hce : (s₀.inodes e).count = 0) {dev nr : ℕ}
    (hlive : live dev nr) (hnone : s.findInode dev nr = none) :
    Walk live s₀ (s.setInode e
      { s.inodes e with toDInode := s.onDisk dev nr, dev := dev, num := nr }) held bufs := by
  have hd := (h₀.super hlive).1
  have hslot : ∀ j, j ≠ e → (s.setInode e
      { s.inodes e with toDInode := s.onDisk dev nr, dev := dev, num := nr }).inodes j =
      s.inodes j := fun j hj => Fs.setInode_ne s _ hj
  have hself := Fs.setInode_self s e
    { s.inodes e with toDInode := s.onDisk dev nr, dev := dev, num := nr }
  generalize hs' : s.setInode e
    { s.inodes e with toDInode := s.onDisk dev nr, dev := dev, num := nr } = s' at hslot hself
  have hdisk : ∀ dev nr, s'.onDisk dev nr = s.onDisk dev nr := fun dev nr => by subst hs'; rfl
  have hsuper : ∀ dev, s'.getSuper dev = s.getSuper dev := fun dev => by subst hs'; rfl
  have hother : ∀ j, j ≠ e → ¬ ((s'.inodes j).dev = dev ∧ (s'.inodes j).num = nr) := by
    intro j hj
    rw [hslot j hj]
    exact findInode_none hnone j
  have hdev : (s'.inodes e).dev = dev := by rw [hself]
  have hnum : (s'.inodes e).num = nr := by rw [hself]
  have htable : Table live s' := by
    refine ⟨fun j j' hdj hdd hnn => ?_, fun j => ?_, fun j => ?_, fun j => ?_, fun j => ?_⟩
    · by_cases hj : j = e
      · by_cases hj' : j' = e
        · rw [hj, hj']
        · rw [hj, hdev] at hdd
          rw [hj, hnum] at hnn
          exact absurd ⟨hdd.symm, hnn.symm⟩ (hother j' hj')
      · by_cases hj' : j' = e
        · rw [hj', hdev] at hdd
          rw [hj', hnum] at hnn
          exact absurd ⟨hdd, hnn⟩ (hother j hj)
        · rw [hslot j hj] at hdj hdd hnn
          rw [hslot j' hj'] at hdd hnn
          exact h.once j j' hdj hdd hnn
    · by_cases hj : j = e
      · intro _ _
        rw [hj, hdisk, hdev, hnum, hself]
      · rw [hslot j hj, hdisk]
        exact h.clean j
    · by_cases hj : j = e
      · rw [hj, hself, he]
        intro _
        rfl
      · rw [hslot j hj]
        exact h.idle j
    · by_cases hj : j = e
      · rw [hj, hdev, hnum]
        exact fun _ _ => hlive
      · rw [hslot j hj, hsuper]
        exact h.inTree j
    · by_cases hj : j = e
      · rw [hj, hself, he]
        intro _
        rfl
      · rw [hslot j hj]
        exact h.noPipe j
  refine { h with
    toTable := htable, count := fun j => ?_, same := fun j hj => ?_, mounts := fun j => ?_,
    inodeOf := fun dev' nr' hl => ?_,
    bcount := by subst hs'; exact h.bcount, supers := by subst hs'; exact h.supers,
    task := by subst hs'; exact h.task, rootDev := by subst hs'; exact h.rootDev,
    reads := by subst hs'; exact h.reads, data := by subst hs'; exact h.data }
  · rw [← h.count j]
    by_cases hj : j = e
    · rw [hj, hself]
    · rw [hslot j hj]
  · have hji : j ≠ e := fun hc => hj (by rw [hc, hce])
    rw [hslot j hji]
    exact h.same j hj
  · by_cases hj : j = e
    · rw [hj, hself, he]
      intro hc
      cases hc
    · rw [hslot j hj]
      exact h.mounts j
  · rw [← h.inodeOf dev' nr' hl]
    by_cases hc : dev' = dev ∧ nr' = nr
    · obtain ⟨rfl, rfl⟩ := hc
      have hfind := htable.inodeOf_slot (i := e) (by rw [hdev]; exact hd)
      rw [hdev, hnum] at hfind
      rw [hfind, hself, inodeOf_none hnone]
    · have hd' := (h₀.super hl).1
      cases hf : s.findInode dev' nr' with
      | none =>
        rw [inodeOf_none hf, inodeOf_none (findInode_eq_none fun j hj => ?_), hdisk]
        by_cases hji : j = e
        · rw [hji, hdev, hnum] at hj
          exact hc ⟨hj.1.symm, hj.2.symm⟩
        · rw [hslot j hji] at hj
          exact findInode_none hf j hj
      | some j =>
        obtain ⟨rfl, rfl⟩ := findInode_some hf
        have hji : j ≠ e := by
          rintro rfl
          rw [he] at hd'
          exact hd' rfl
        have hfind := htable.inodeOf_slot (i := j) (by rw [hslot j hji]; exact hd')
        rw [hslot j hji] at hfind
        rw [hfind, inodeOf_some hf]

theorem bread_setInode (dev block : ℕ) (i : Slot) (x : Inode) :
    bread dev block (s.setInode i x) =
      (bread dev block s).mapState fun s => s.setInode i x := by
  unfold bread
  change (if s.reads.head? = some false then _ else _) = _
  split_ifs
  · rfl
  · rfl

theorem Fs.setInode_setInode (s : Fs) (i : Slot) (x y : Inode) :
    (s.setInode i x).setInode i y = s.setInode i y := by
  unfold Fs.setInode
  simp only [Function.update_idem]

/-- The end of `iget`, with an entry for an inode that is not in the table. -/
theorem loadInode_walk (h₀ : Tree live s₀) (h : Walk live s₀ s held bufs) (hl : bufs.length ≤ 100)
    {e : Slot} (he : s.inodes e = { Inode.empty with count := 1 })
    (hce : (s₀.inodes e).count = 0) {dev nr : ℕ} (hlive : live dev nr)
    (hnone : s.findInode dev nr = none) :
    (readInode e (s.setInode e { s.inodes e with dev := dev, num := nr })).Sat
      (fun _ s' => Walk live s₀ s' held bufs ∧ (s'.inodes e).dev = dev ∧
        (s'.inodes e).num = nr) Gone := by
  obtain ⟨-, k, hk, -⟩ := h₀.super hlive
  have hks : s.getSuper dev = some k := (h.getSuper dev).trans hk
  unfold readInode
  simp only [Fs.setInode_self]
  have hk' : (s.setInode e { s.inodes e with dev := dev, num := nr }).getSuper dev = some k := hks
  rw [hk']
  simp only
  rw [bread_setInode, Outcome.bind_mapState]
  refine (bread_walk h₀ h hl dev ((s.supers k).inodeBlock nr)).bind
    fun bh s₁ ⟨⟨reads, bcount, hs₁⟩, _, hbh, h₁⟩ => ?_
  cases bh with
  | none => trivial
  | some b =>
    obtain rfl := hbh b rfl
    subst hs₁
    simp only [Fs.setInode_setInode]
    have hload := h₁.load h₀ he hce hlive hnone
    have hdisk : decode (s.data (dev, (s.supers k).inodeBlock nr)) (inodeOffset nr) =
        s.onDisk dev nr := by
      unfold Fs.onDisk
      rw [hks]
    change (brelse _ (Fs.setInode _ e { s.inodes e with
      toDInode := decode (s.data (dev, (s.supers k).inodeBlock nr)) (inodeOffset nr),
      dev := dev, num := nr })).Sat _ _
    rw [hdisk]
    refine (brelse_walk hload).post fun _ s₂ ⟨⟨bcount', hs₂⟩, h₂⟩ => ?_
    subst hs₂
    have hself := Fs.setInode_self { s with reads := reads, bcount := bcount } e
      { s.inodes e with toDInode := s.onDisk dev nr, dev := dev, num := nr }
    exact ⟨h₂, congrArg Inode.dev hself, congrArg Inode.num hself⟩

/-! ### Mounts -/

theorem mountedOn_some {i : Slot} {k : Fin NR_SUPER} (h : s.mountedOn i = some k) :
    (s.supers k).imount = some i := by
  simpa using List.find?_some h

theorem coveredBy_some {dev nr : ℕ} {k : Fin NR_SUPER} (h : s.coveredBy dev nr = some k) :
    ∃ i, s.findInode dev nr = some i ∧ (s.inodes i).mount = true ∧ s.mountedOn i = some k := by
  unfold Fs.coveredBy at h
  cases hf : s.findInode dev nr with
  | none =>
    rw [hf] at h
    cases h
  | some i =>
    rw [hf, Option.bind_some] at h
    split_ifs at h with hm
    exact ⟨i, rfl, hm, h⟩

theorem coveredBy_of {dev nr : ℕ} {i : Slot} (hf : s.findInode dev nr = some i) :
    s.coveredBy dev nr = if (s.inodes i).mount then s.mountedOn i else none := by
  unfold Fs.coveredBy
  rw [hf, Option.bind_some]

/-- The mounts do not change. -/
theorem Walk.coveredBy (h₀ : Tree live s₀) (h : Walk live s₀ s held bufs) {dev nr : ℕ}
    (hd : dev ≠ 0) : s.coveredBy dev nr = s₀.coveredBy dev nr := by
  have hon : ∀ i, s.mountedOn i = s₀.mountedOn i := fun i => by
    unfold Fs.mountedOn
    rw [h.supers]
  -- an inode that something is mounted on is in both tables
  have hto : ∀ i, s.findInode dev nr = some i → (s.inodes i).mount = true →
      s₀.findInode dev nr = some i ∧ (s₀.inodes i).mount = true := by
    intro i hf hm
    obtain ⟨rfl, rfl⟩ := findInode_some hf
    obtain ⟨hdev, hnum, hmount⟩ := h.same i (h.mounts i hm)
    rw [hdev] at hd
    rw [hdev, hnum, h₀.findInode hd]
    exact ⟨rfl, hmount.symm.trans hm⟩
  have hfrom : ∀ i, s₀.findInode dev nr = some i → (s₀.inodes i).mount = true →
      s.findInode dev nr = some i ∧ (s.inodes i).mount = true := by
    intro i hf hm
    obtain ⟨rfl, rfl⟩ := findInode_some hf
    obtain ⟨hdev, hnum, hmount⟩ := h.same i (h₀.mounted i hm).1
    rw [← hdev] at hd
    rw [← hdev, ← hnum, h.findInode hd]
    exact ⟨rfl, hmount.trans hm⟩
  cases hc : s.coveredBy dev nr with
  | some k =>
    obtain ⟨i, hf, hm, hk⟩ := coveredBy_some hc
    obtain ⟨hf', hm'⟩ := hto i hf hm
    rw [coveredBy_of hf', if_pos hm', ← hon, hk]
  | none =>
    cases hc' : s₀.coveredBy dev nr with
    | none => rfl
    | some k =>
      obtain ⟨i, hf, hm, hk⟩ := coveredBy_some hc'
      obtain ⟨hf', hm'⟩ := hfrom i hf hm
      rw [coveredBy_of hf', if_pos hm', hon, hk] at hc
      cases hc

theorem cross_some {dev nr : ℕ} {k : Fin NR_SUPER} (h : s.coveredBy dev nr = some k) :
    s.cross dev nr = ((s.supers k).dev, ROOT_INO) := by
  unfold Fs.cross
  rw [h]

theorem cross_none {dev nr : ℕ} (h : s.coveredBy dev nr = none) : s.cross dev nr = (dev, nr) := by
  unfold Fs.cross
  rw [h]

/-- Nothing is mounted on the root of a device. -/
theorem Tree.coveredBy_root (h : Tree live s) (dev : ℕ) : s.coveredBy dev ROOT_INO = none := by
  cases hc : s.coveredBy dev ROOT_INO with
  | none => rfl
  | some k =>
    obtain ⟨i, hf, hm, -⟩ := coveredBy_some hc
    exact absurd (findInode_some hf).2 (h.mounted i hm).2

theorem Tree.super_of_mountedOn (h : Tree live s) {i : Slot} {k : Fin NR_SUPER}
    (hk : s.mountedOn i = some k) : (s.supers k).dev ≠ 0 :=
  (h.imount k i (mountedOn_some hk)).1

/-- An inode of a tree that has links is crossed to such an inode. -/
theorem Tree.cross (h : Tree live s) {dev nr : ℕ} (hlive : live dev nr)
    (hlinks : (s.inodeOf dev nr).nlinks ≠ 0) : live (s.cross dev nr).1 (s.cross dev nr).2 ∧
      (s.inodeOf (s.cross dev nr).1 (s.cross dev nr).2).nlinks ≠ 0 ∧
      s.coveredBy (s.cross dev nr).1 (s.cross dev nr).2 = none := by
  cases hc : s.coveredBy dev nr with
  | none =>
    rw [cross_none hc]
    exact ⟨hlive, hlinks, hc⟩
  | some k =>
    rw [cross_some hc]
    obtain ⟨i, -, -, hk⟩ := coveredBy_some hc
    obtain ⟨hroot, hl⟩ := h.root k (h.super_of_mountedOn hk)
    exact ⟨hroot, hl, h.coveredBy_root _⟩

/-! ### `iget` -/

/-- An inode that was found is kept, and the empty one put. -/
theorem keepFound_walk (h₀ : Tree live s₀) (hl : bufs.length ≤ 100) {e i : Slot} (hie : i ≠ e)
    (h : Walk live s₀ s (i :: e :: held) bufs) (he : s.inodes e = { Inode.empty with count := 1 }) :
    ((iput e s).bind fun _ s => (.ok i s : Out Slot)).Sat (fun i' s' => i' = i ∧
      Walk live s₀ s' (i :: held) bufs ∧ (s'.inodes i).dev = (s.inodes i).dev ∧
      (s'.inodes i).num = (s.inodes i).num) Gone := by
  have hput := iput_walk h₀ (h.perm (List.Perm.swap e i held)) hl
    (fun _ => by rw [he]; exact ⟨rfl, rfl⟩) fun hd => absurd (by rw [he]; rfl) hd
  refine hput.bind fun _ s₁ ⟨h₁, hset⟩ => ?_
  obtain ⟨-, hdev, hnum, -⟩ := (hset i hie).same
  exact ⟨rfl, h₁, hdev, hnum⟩

theorem igetLoop_walk (h₀ : Tree live s₀) (hl : bufs.length ≤ 100) (hh : held.length ≤ 90)
    {e : Slot} (hce : (s₀.inodes e).count = 0) {left dev nr : ℕ}
    (h : Walk live s₀ s (e :: held) bufs) (he : s.inodes e = { Inode.empty with count := 1 })
    (hlive : live dev nr) (hlinks : (s₀.inodeOf dev nr).nlinks ≠ 0)
    (hleft : s₀.coveredBy dev nr = none ∧ 1 ≤ left ∨ 2 ≤ left) :
    (igetLoop e left dev nr s).Sat (fun i s' => Walk live s₀ s' (i :: held) bufs ∧
      ((s'.inodes i).dev, (s'.inodes i).num) = s₀.cross dev nr) Gone := by
  induction left generalizing dev nr s with
  | zero => omega
  | succ left ih =>
    have hd := (h₀.super hlive).1
    unfold igetLoop
    cases hf : s.findInode dev nr with
    | none =>
      have hcov : s.coveredBy dev nr = s₀.coveredBy dev nr := h.coveredBy h₀ hd
      rw [Fs.coveredBy, hf, Option.bind_none] at hcov
      simp only
      refine (loadInode_walk h₀ h hl he hce hlive hf).bind fun _ s₁ ⟨h₁, hdev, hnum⟩ => ?_
      rw [cross_none hcov.symm]
      exact ⟨h₁, by rw [hdev, hnum]⟩
    | some i =>
      obtain ⟨hdev, hnum⟩ := findInode_some hf
      have hie : i ≠ e := by
        rintro rfl
        rw [he] at hdev
        exact hd hdev.symm
      obtain ⟨hgrab, hself⟩ := h.grab h₀ (by simp only [List.length_cons]; omega)
        fun _ => by rw [hdev, hnum]; exact hlive
      have he' : (s.grab i).inodes e = { Inode.empty with count := 1 } :=
        (Fs.setInode_ne s _ hie.symm).trans he
      have hmount : ((s.grab i).inodes i).mount = (s.inodes i).mount := by rw [hself]
      have hon : (s.grab i).mountedOn i = s.mountedOn i := rfl
      have hcov := (coveredBy_of hf).symm.trans (h.coveredBy h₀ hd)
      -- nothing is mounted here
      have hkeep : s₀.coveredBy dev nr = none →
          ((iput e (s.grab i)).bind fun _ s => (.ok i s : Out Slot)).Sat (fun i s' =>
            Walk live s₀ s' (i :: held) bufs ∧
            ((s'.inodes i).dev, (s'.inodes i).num) = s₀.cross dev nr) Gone := by
        intro hc
        refine (keepFound_walk h₀ hl hie hgrab he').post fun i' s₁ ⟨hi, h₁, hdev₁, hnum₁⟩ => ?_
        subst hi
        rw [cross_none hc, hdev₁, hnum₁, hself]
        exact ⟨h₁, Prod.ext hdev hnum⟩
      simp only
      rw [hmount]
      cases hm : (s.inodes i).mount with
      | false =>
        rw [hm, if_neg Bool.false_ne_true] at hcov
        rw [if_neg Bool.false_ne_true]
        exact hkeep hcov.symm
      | true =>
        rw [hm, if_pos rfl] at hcov
        rw [if_pos rfl, hon]
        cases hk : s.mountedOn i with
        | none => exact hkeep (hcov.symm.trans hk)
        | some k =>
          have hcount := h.mounts i hm
          have hck := hcov.symm.trans hk
          have hk₀ : s₀.mountedOn i = some k := by
            rw [← hk]
            unfold Fs.mountedOn
            rw [h.supers]
          obtain ⟨hroot, hrootLinks⟩ := h₀.root k (h₀.super_of_mountedOn hk₀)
          have hput := iput_walk h₀ hgrab hl (fun h0 => absurd h0 (by rw [hself]; rw [hdev]; exact hd))
            fun _ hone => by
              have hc := hgrab.count i
              rw [List.count_cons_self] at hc
              omega
          simp only
          refine hput.bind fun _ s₁ ⟨h₁, hset⟩ => ?_
          have he₁ : s₁.inodes e = { Inode.empty with count := 1 } := by
            rcases hset e hie.symm with hs | hs
            · rw [hs, he']
            · rw [hs, he']
              rfl
          have hsuper : (s₁.supers k).dev = (s₀.supers k).dev := by rw [h₁.supers]
          rw [hsuper]
          refine (ih h₁ he₁ hroot hrootLinks (.inl ⟨h₀.coveredBy_root _, ?_⟩)).post
            fun i' s₂ ⟨h₂, hi'⟩ => ⟨h₂, ?_⟩
          · rcases hleft with ⟨hc, -⟩ | hleft
            · rw [hc] at hck
              cases hck
            · omega
          · rw [hi', cross_some hck, cross_none (h₀.coveredBy_root _)]

theorem iget_walk (h₀ : Tree live s₀) (h : Walk live s₀ s held bufs) (hl : bufs.length ≤ 100)
    (hh : held.length ≤ 90) {dev nr : ℕ} (hlive : live dev nr)
    (hlinks : (s₀.inodeOf dev nr).nlinks ≠ 0) :
    (iget dev nr s).Sat (fun i s' => Walk live s₀ s' (i :: held) bufs ∧
      ((s'.inodes i).dev, (s'.inodes i).num) = s₀.cross dev nr) Gone := by
  unfold iget
  rw [if_neg (h₀.super hlive).1]
  refine (getEmptyInode_walk h₀ h).bind fun e s₁ ⟨h₁, hce, he, _⟩ => ?_
  exact igetLoop_walk h₀ hl hh hce h₁ he hlive hlinks (.inr (by decide))

end

end Linux011.Minix
