import Linux011.BufferHeads
import Mathlib

set_option autoImplicit false

/-!
# What sys_sync keeps on its way

The walk over the inodes only gathers: a dirty inode moves into the buffer of its block, and a block
that is in no buffer takes a clean one that nobody uses, as long as there is one. The walk over the
buffers then only settles.
-/
namespace Linux011.SysSync
open CooperativeTasks Cache BufferHeads

variable {c : Config}

/-- An inode that `sync_inodes` writes. -/
def Dirty (v : Inode) : Prop := v.dirt = true ∧ v.pipe = false

instance (v : Inode) : Decidable (Dirty v) := inferInstanceAs (Decidable (_ ∧ _))

def Driven (c : Config) (dev : ℕ) : Prop := dev / 256 < NR_BLK_DEV ∧ c.requestFn (dev / 256) = true

/-- The device, the block and the record of an inode. -/
def inodePlace (c : Config) (v : Inode) : Option (ℕ × ℕ × ℕ) :=
  (c.super v.dev).map fun sb => (v.dev, inodeBlock sb v.num, (v.num - 1) % INODES_PER_BLOCK)

/-- The block of an inode on a mounted device. -/
def blockOf (c : Config) (v : Inode) : ℕ × ℕ :=
  (v.dev, (c.super v.dev).elim 0 fun sb => inodeBlock sb v.num)

def blockIn (b : BufferHead) : ℕ × ℕ := (b.dev, b.blocknr)

/-- The caches that `sys_sync` may find: nothing locked, and nothing dirty that has no place
    on a device with a driver. -/
structure Ready (c : Config) (s : Caches) : Prop where
  indexed : Indexed s
  free : ∀ bh ∈ s.freeList, bh < c.nrBuffers
  beyond : ∀ bh, c.nrBuffers ≤ bh → (s.buf bh).dev = 0 ∧ (s.buf bh).dirt = false
  bytes : ∀ bh, (s.buf bh).count < 256
  unlockedBuf : ∀ bh, (s.buf bh).lock = false ∧ s.request bh = none
  unlockedInode : ∀ i, (s.inode i).lock = false
  dirtyBuf : ∀ bh, (s.buf bh).dirt = true → (s.buf bh).uptodate = true ∧ Driven c (s.buf bh).dev
  dirtyInode : ∀ i < NR_INODE, Dirty (s.inode i) →
    1 ≤ (s.inode i).num ∧ c.super (s.inode i).dev ≠ none ∧ Driven c (s.inode i).dev
  distinct : ∀ i < NR_INODE, ∀ j < NR_INODE, Dirty (s.inode i) → Dirty (s.inode j) →
    (s.inode i).dev = (s.inode j).dev → (s.inode i).num = (s.inode j).num → i = j

/-- What a record on the disk has to become. -/
inductive Wanted (c : Config) (s : Caches) : ℕ → ℕ → ℕ → DInode → Prop where
  | inode {i dev block k : ℕ} (hi : i < NR_INODE) (hd : Dirty (s.inode i))
      (hp : inodePlace c (s.inode i) = some (dev, block, k)) :
      Wanted c s dev block k (s.inode i).disk
  | buffer {bh k : ℕ} (hd : (s.buf bh).dirt = true)
      (hno : ∀ i < NR_INODE, Dirty (s.inode i) →
        inodePlace c (s.inode i) ≠ some ((s.buf bh).dev, (s.buf bh).blocknr, k)) :
      Wanted c s (s.buf bh).dev (s.buf bh).blocknr k ((s.buf bh).data k)

theorem inodePlace_eq {v : Inode} {sb : Super} (hsb : c.super v.dev = some sb) :
    inodePlace c v = some (v.dev, inodeBlock sb v.num, (v.num - 1) % INODES_PER_BLOCK) := by
  rw [inodePlace, hsb]
  rfl

theorem blockOf_eq {v : Inode} {dev block k : ℕ} (h : inodePlace c v = some (dev, block, k)) :
    blockOf c v = (dev, block) := by
  obtain ⟨sb, hsb, he⟩ := Option.map_eq_some_iff.mp h
  simp only [Prod.mk.injEq] at he
  rw [blockOf, hsb, he.1]
  exact congrArg (Prod.mk dev) he.2.1

theorem inodePlace_inj {c : Config} {v w : Inode} {p : ℕ × ℕ × ℕ} (hv : inodePlace c v = some p)
    (hw : inodePlace c w = some p) (hv1 : 1 ≤ v.num) (hw1 : 1 ≤ w.num) :
    v.dev = w.dev ∧ v.num = w.num := by
  simp only [inodePlace, Option.map_eq_some_iff] at hv hw
  obtain ⟨sb, hsb, rfl⟩ := hv
  obtain ⟨sb', hsb', he⟩ := hw
  simp only [Prod.mk.injEq, inodeBlock, INODES_PER_BLOCK] at he
  obtain ⟨hdev, hblock, hk⟩ := he
  rw [hdev, hsb, Option.some.injEq] at hsb'
  subst hsb'
  exact ⟨hdev.symm, by omega⟩

/-- A record is wanted with one content. -/
theorem Ready.wanted_unique {s : Caches} (h : Ready c s) (h0 : c.requestFn 0 = false)
    {dev block k : ℕ} {v w : DInode} (hv : Wanted c s dev block k v)
    (hw : Wanted c s dev block k w) : v = w := by
  cases hv with
  | inode hi hd hp =>
    cases hw with
    | inode hj he hq =>
      obtain ⟨hdev, hnum⟩ := inodePlace_inj hp hq (h.dirtyInode _ hi hd).1 (h.dirtyInode _ hj he).1
      rw [h.distinct _ hi _ hj hd he hdev hnum]
    | buffer _ hno => exact absurd hp (hno _ hi hd)
  | @buffer a _ hd hno =>
    generalize hdev : (s.buf a).dev = dev at hw hno
    generalize hnr : (s.buf a).blocknr = block at hw hno
    cases hw with
    | inode hj he hq => exact absurd hq (hno _ hj he)
    | @buffer b _ _ _ =>
      have hne : (s.buf a).dev ≠ 0 := by
        intro hc
        have := (h.dirtyBuf a hd).2.2
        rw [hc, Nat.zero_div, h0] at this
        exact absurd this (by simp)
      rw [h.indexed.unique a b hne hdev hnr]

theorem Driven.ne_zero {dev : ℕ} (h : Driven c dev) (h0 : c.requestFn 0 = false) : dev ≠ 0 := by
  rintro rfl
  have := h.2
  rw [Nat.zero_div, h0] at this
  exact absurd this (by simp)

/-! ### The buffers that are left -/

/-- The clean buffers that nobody uses, but for the one that `sys_sync` holds. -/
def spare (c : Config) (held : Option ℕ) (s : Caches) : Finset ℕ :=
  (Finset.range c.nrBuffers).filter fun bh => held ≠ some bh ∧ bh ∈ s.freeList ∧
    (s.buf bh).count = 0 ∧ (s.buf bh).dirt = false

/-- No buffer has the block, unless a spare one. -/
def Loose (c : Config) (held : Option ℕ) (s : Caches) (p : ℕ × ℕ) : Prop :=
  ∀ bh < c.nrBuffers, blockIn (s.buf bh) = p → bh ∈ spare c held s

instance (held : Option ℕ) (s : Caches) (p : ℕ × ℕ) : Decidable (Loose c held s p) :=
  inferInstanceAs (Decidable (∀ bh < c.nrBuffers, blockIn (s.buf bh) = p → bh ∈ spare c held s))

/-- The blocks of dirty inodes that cost a spare buffer. -/
def needed (c : Config) (held : Option ℕ) (s : Caches) : Finset (ℕ × ℕ) :=
  (((Finset.range NR_INODE).filter fun i => Dirty (s.inode i)).image fun i =>
    blockOf c (s.inode i)).filter fun p => Loose c held s p

/-- The spare buffers are enough for the blocks that cost one, and the count of no buffer with the
    block of a dirty inode is about to wrap. -/
structure Room (c : Config) (s : Caches) : Prop where
  spares : (needed c none s).card ≤ (spare c none s).card
  counts : ∀ i < NR_INODE, Dirty (s.inode i) → ∀ bh < c.nrBuffers,
    blockIn (s.buf bh) = blockOf c (s.inode i) → (s.buf bh).count ≠ 255

section Spare
variable {held : Option ℕ} {s s' : Caches} {bh : ℕ} {p : ℕ × ℕ}

theorem mem_spare : bh ∈ spare c held s ↔ bh < c.nrBuffers ∧ held ≠ some bh ∧ bh ∈ s.freeList ∧
    (s.buf bh).count = 0 ∧ (s.buf bh).dirt = false := by
  simp [spare]

theorem mem_needed : p ∈ needed c held s ↔
    (∃ i < NR_INODE, Dirty (s.inode i) ∧ blockOf c (s.inode i) = p) ∧ Loose c held s p := by
  simp [needed, and_assoc]

theorem needed_congr (hspare : spare c held s' = spare c held s)
    (hblock : ∀ j, blockIn (s'.buf j) = blockIn (s.buf j))
    (hinode : ∀ p, (∃ i < NR_INODE, Dirty (s'.inode i) ∧ blockOf c (s'.inode i) = p) ∧
      Loose c held s p ↔ (∃ i < NR_INODE, Dirty (s.inode i) ∧ blockOf c (s.inode i) = p) ∧
      Loose c held s p) : needed c held s' = needed c held s := by
  ext p
  have hloose : Loose c held s' p ↔ Loose c held s p := by
    unfold Loose
    simp only [hspare, hblock]
  rw [mem_needed, mem_needed, hloose, hinode]

/-- A buffer is taken. -/
theorem spare_hold (hlist : ∀ j, j ∈ s'.freeList ↔ j ∈ s.freeList)
    (hbuf : ∀ j ≠ bh, s'.buf j = s.buf j) : spare c (some bh) s' = (spare c none s).erase bh := by
  ext j
  rw [Finset.mem_erase, mem_spare, mem_spare, hlist]
  by_cases hj : j = bh
  · subst hj
    simp
  · rw [hbuf j hj]
    simp [hj, Ne.symm hj]

/-- Its block is no longer loose. -/
theorem needed_hold (hbh : bh < c.nrBuffers) (hinode : s'.inode = s.inode)
    (hspare : spare c (some bh) s' = (spare c none s).erase bh)
    (hblock : ∀ j ≠ bh, blockIn (s'.buf j) = blockIn (s.buf j))
    (hold : blockIn (s.buf bh) ≠ blockIn (s'.buf bh) → bh ∈ spare c none s) :
    needed c (some bh) s' = (needed c none s).erase (blockIn (s'.buf bh)) := by
  ext p
  rw [Finset.mem_erase, mem_needed, mem_needed, hinode]
  by_cases hp : p = blockIn (s'.buf bh)
  · subst hp
    refine iff_of_false (fun h => ?_) fun h => h.1 rfl
    have hmem := h.2 bh hbh rfl
    rw [hspare] at hmem
    exact Finset.notMem_erase bh _ hmem
  · have hloose : Loose c (some bh) s' p ↔ Loose c none s p := by
      refine forall_congr' fun j => forall_congr' fun hj => ?_
      rw [hspare, Finset.mem_erase]
      by_cases hjb : j = bh
      · subst hjb
        refine iff_of_true (fun h => absurd h.symm hp) fun h => hold ?_
        rw [h]
        exact hp
      · rw [hblock j hjb]
        simp [hjb]
    rw [hloose]
    simp [hp]

theorem card_erase_balance {α β : Type} [DecidableEq α] [DecidableEq β] {A : Finset α}
    {B : Finset β} {a : α} {b : β} (h : a ∈ A ↔ b ∈ B) :
    (A.erase a).card + B.card = (B.erase b).card + A.card := by
  by_cases ha : a ∈ A
  · have hb := h.mp ha
    have h1 := Finset.card_erase_add_one ha
    have h2 := Finset.card_erase_add_one hb
    omega
  · rw [Finset.erase_eq_of_notMem ha, Finset.erase_eq_of_notMem fun hb => ha (h.mpr hb)]
    exact Nat.add_comm _ _

end Spare

/-! ### The walk over the inodes -/

/-- Inode `j` has not been written yet. -/
def Pending (s₀ s : Caches) (j : ℕ) : Prop :=
  Dirty (s.inode j) ∧ Dirty (s₀.inode j) ∧ (s.inode j).disk = (s₀.inode j).disk ∧
    (s.inode j).dev = (s₀.inode j).dev ∧ (s.inode j).num = (s₀.inode j).num

/-- Nothing is going on with the buffer. -/
def Idle (s : Caches) (bh : ℕ) : Prop := (s.buf bh).lock = false ∧ s.request bh = none

/-- Which buffers had 255 references, with one more for the buffer that is held. -/
structure Counts (s₀ : Caches) (held : Option ℕ) (s : Caches) : Prop where
  bytes : ∀ bh, (s.buf bh).count < 256
  rest : ∀ bh, held ≠ some bh → ((s.buf bh).count = 255 ↔ (s₀.buf bh).count = 255)
  used : ∀ bh, held = some bh → ((s.buf bh).count = 0 ↔ (s₀.buf bh).count = 255)
  block : ∀ bh, (s₀.buf bh).count = 255 → blockIn (s.buf bh) = blockIn (s₀.buf bh)

/-- No count of a buffer with the block of one of the first `i` inodes was about to wrap. -/
def Passed (c : Config) (s₀ : Caches) (i : ℕ) : Prop :=
  ∀ j < i, Dirty (s₀.inode j) → ∀ bh < c.nrBuffers,
    blockIn (s₀.buf bh) = blockOf c (s₀.inode j) → (s₀.buf bh).count ≠ 255

/-- The walk over the inodes has come to `i`, with the buffer `held` in hand. -/
structure Gathering (c : Config) (s₀ : Caches) (held : Option ℕ) (s : Caches) (i : ℕ) : Prop where
  indexed : Indexed s
  free : ∀ bh ∈ s.freeList, bh < c.nrBuffers
  beyond : ∀ bh, c.nrBuffers ≤ bh → (s.buf bh).dev = 0 ∧ (s.buf bh).dirt = false
  dirty : ∀ bh, (s.buf bh).dirt = true → (s.buf bh).uptodate = true ∧ Driven c (s.buf bh).dev
  idle : ∀ bh, held ≠ some bh → Idle s bh
  counts : Counts s₀ held s
  slack : (spare c held s).card + (needed c none s₀).card =
    (needed c held s).card + (spare c none s₀).card
  walked : ∀ j < i, j < NR_INODE → ¬ Dirty (s.inode j)
  pending : ∀ j, Dirty (s.inode j) → Pending s₀ s j
  later : ∀ j, i ≤ j → Dirty (s₀.inode j) → Dirty (s.inode j)
  wanted : ∀ dev block k v, Wanted c s₀ dev block k v →
    (∃ j < NR_INODE, Dirty (s.inode j) ∧ inodePlace c (s₀.inode j) = some (dev, block, k) ∧
      v = (s₀.inode j).disk) ∨
    ∃ bh, (s.buf bh).dev = dev ∧ (s.buf bh).blocknr = block ∧ (s.buf bh).data k = v ∧
      (s.buf bh).dirt = true

theorem Ready.gathering {s : Caches} (h : Ready c s) : Gathering c s none s 0 where
  indexed := h.indexed
  free := h.free
  beyond := h.beyond
  dirty := h.dirtyBuf
  idle bh _ := h.unlockedBuf bh
  counts := ⟨h.bytes, fun _ _ => Iff.rfl, fun _ hbh => absurd hbh (by simp), fun _ _ => rfl⟩
  slack := Nat.add_comm _ _
  walked j hj := absurd hj (Nat.not_lt_zero j)
  pending j hj := ⟨hj, hj, rfl, rfl, rfl⟩
  later j _ hj := hj
  wanted dev block k v hw := by
    cases hw with
    | inode hi hd hp => exact .inl ⟨_, hi, hd, hp, rfl⟩
    | buffer hd hno => exact .inr ⟨_, rfl, rfl, rfl, hd⟩

/-- Every dirty buffer keeps its content, every inode all but its lock, and only the buffer that is
    held is read. -/
structure Keeps (held : Option ℕ) (s s' : Caches) : Prop where
  index : SameIndex s s'
  dirt : ∀ bh, (s'.buf bh).dirt = (s.buf bh).dirt
  count : ∀ bh, (s'.buf bh).count = (s.buf bh).count
  buf : ∀ bh, (s.buf bh).dirt = true → (s'.buf bh).data = (s.buf bh).data ∧
    ((s.buf bh).uptodate = true → (s'.buf bh).uptodate = true)
  idle : ∀ bh, held ≠ some bh → Idle s bh → Idle s' bh
  inode : ∀ j, s'.inode j = { s.inode j with lock := (s'.inode j).lock }

section Keeps
variable {held : Option ℕ} {s s' s₀ : Caches} {i : ℕ}

theorem Keeps.dirtyInode (h : Keeps held s s') (j : ℕ) :
    Dirty (s'.inode j) ↔ Dirty (s.inode j) := by
  rw [h.inode j]
  exact Iff.rfl

theorem Keeps.blockIn (h : Keeps held s s') (bh : ℕ) :
    blockIn (s'.buf bh) = blockIn (s.buf bh) :=
  Prod.ext (h.index.block bh).1 (h.index.block bh).2

theorem Keeps.spare (h : Keeps held s s') : spare c held s' = spare c held s := by
  ext bh
  rw [mem_spare, mem_spare, h.index.freeList, h.count, h.dirt]

theorem Keeps.needed (h : Keeps held s s') : needed c held s' = needed c held s := by
  refine needed_congr h.spare h.blockIn fun p => and_congr_left fun _ => ?_
  have hblock : ∀ j, blockOf c (s'.inode j) = blockOf c (s.inode j) := by
    intro j
    rw [h.inode j]
    rfl
  simp only [h.dirtyInode, hblock]

theorem Gathering.keeps (h : Gathering c s₀ held s i) (hk : Keeps held s s') :
    Gathering c s₀ held s' i where
  indexed := h.indexed.same hk.index
  free := by
    rw [hk.index.freeList]
    exact h.free
  beyond bh hbh := by
    rw [(hk.index.block bh).1, hk.dirt]
    exact h.beyond bh hbh
  dirty bh hbh := by
    rw [hk.dirt] at hbh
    rw [(hk.index.block bh).1]
    exact ⟨(hk.buf bh hbh).2 (h.dirty bh hbh).1, (h.dirty bh hbh).2⟩
  idle bh hbh := hk.idle bh hbh (h.idle bh hbh)
  counts := by
    refine ⟨fun bh => ?_, fun bh hbh => ?_, fun bh hbh => ?_, fun bh hbh => ?_⟩
    · rw [hk.count]
      exact h.counts.bytes bh
    · rw [hk.count]
      exact h.counts.rest bh hbh
    · rw [hk.count]
      exact h.counts.used bh hbh
    · rw [hk.blockIn]
      exact h.counts.block bh hbh
  slack := by
    rw [hk.spare, hk.needed]
    exact h.slack
  walked j hj hj' := by
    rw [hk.dirtyInode]
    exact h.walked j hj hj'
  pending j hj := by
    obtain ⟨hd, hd₀, hdisk, hdev, hnum⟩ := h.pending j ((hk.dirtyInode j).mp hj)
    refine ⟨hj, hd₀, ?_⟩
    rw [hk.inode j]
    exact ⟨hdisk, hdev, hnum⟩
  later j hj hd := (hk.dirtyInode j).mpr (h.later j hj hd)
  wanted dev block k v hw := by
    rcases h.wanted dev block k v hw with ⟨j, hj, hd, hp, hv⟩ | ⟨bh, hdev, hnr, hdata, hd⟩
    · exact .inl ⟨j, hj, (hk.dirtyInode j).mpr hd, hp, hv⟩
    · refine .inr ⟨bh, ?_⟩
      rw [(hk.index.block bh).1, (hk.index.block bh).2, (hk.buf bh hd).1, hk.dirt]
      exact ⟨hdev, hnr, hdata, hd⟩

theorem Keeps.setInode {v : Inode} (hv : v = { s.inode i with lock := v.lock }) :
    Keeps held s (s.setInode i v) := by
  refine ⟨.of_buf rfl rfl rfl, fun _ => rfl, fun _ => rfl, fun _ _ => ⟨rfl, fun h => h⟩,
    fun _ _ h => h, fun j => ?_⟩
  by_cases hj : j = i
  · subst hj
    simp only [Caches.setInode, Function.update_self]
    exact hv
  · simp only [Caches.setInode, Function.update_of_ne hj]

theorem Keeps.lockInode (s : Caches) (i : ℕ) : Keeps held s (s.lockInode i) := .setInode rfl

theorem Keeps.unlockInode (s : Caches) (i : ℕ) : Keeps held s (s.unlockInode i) := .setInode rfl

/-- Something happens to the buffer that is held. -/
theorem Keeps.of_held {bh : ℕ} {b : BufferHead} (hbuf : s'.buf = Function.update s.buf bh b)
    (hhash : s'.hash = s.hash) (hfree : s'.freeList = s.freeList) (hinode : s'.inode = s.inode)
    (hdev : b.dev = (s.buf bh).dev) (hnr : b.blocknr = (s.buf bh).blocknr)
    (hdirt : b.dirt = (s.buf bh).dirt) (hcount : b.count = (s.buf bh).count)
    (hb : (s.buf bh).dirt = true → b.data = (s.buf bh).data ∧ b.uptodate = (s.buf bh).uptodate)
    (hreq : ∀ j ≠ bh, s'.request j = s.request j) : Keeps (some bh) s s' := by
  have hother : ∀ j ≠ bh, s'.buf j = s.buf j := by
    intro j hj
    rw [hbuf, Function.update_of_ne hj]
  have hself : s'.buf bh = b := by
    rw [hbuf, Function.update_self]
  refine ⟨.of_update hbuf hhash hfree hdev hnr, fun j => ?_, fun j => ?_, fun j hj => ?_,
    fun j hj hi => ?_, fun j => by rw [hinode]⟩
  · by_cases h : j = bh
    · rw [h, hself, hdirt]
    · rw [hother j h]
  · by_cases h : j = bh
    · rw [h, hself, hcount]
    · rw [hother j h]
  · by_cases h : j = bh
    · subst h
      rw [hself, (hb hj).1, (hb hj).2]
      exact ⟨rfl, fun h => h⟩
    · rw [hother j h]
      exact ⟨rfl, fun h => h⟩
  · have hj : j ≠ bh := fun he => hj (by rw [he])
    unfold Idle
    rw [hother j hj, hreq j hj]
    exact hi

theorem Keeps.lockBuf (s : Caches) (bh : ℕ) :
    Keeps (some bh) s (s.setBuf bh { s.buf bh with lock := true }) :=
  .of_held rfl rfl rfl rfl rfl rfl rfl rfl (fun _ => ⟨rfl, rfl⟩) fun _ _ => rfl

theorem Keeps.request_read {bh : ℕ} (hd : (s.buf bh).dirt = false) :
    Keeps (some bh) s { s.setBuf bh { s.buf bh with dirt := false } with
      request := Function.update s.request bh (some .read) } :=
  .of_held rfl rfl rfl rfl rfl rfl hd.symm rfl (fun _ => ⟨rfl, rfl⟩) fun _ hj =>
    Function.update_of_ne hj _ _

/-- The buffer has been read. -/
theorem Keeps.finish {bh : ℕ} (hd : (s.buf bh).dirt = false) (ok : Bool) (block : Data) :
    Keeps (some bh) s (Cache.finish s bh .read ok block) :=
  .of_held rfl rfl rfl rfl rfl rfl rfl rfl (fun hc => absurd (hd.symm.trans hc) (by simp))
    fun _ hj => Function.update_of_ne hj _ _

end Keeps

section Gathering
variable {s₀ s : Caches} {i bh dev block : ℕ}

theorem Gathering.place_ne (h : Gathering c s₀ none s i) {j : ℕ} (hne : dev ≠ 0)
    (hf : findBuffer s dev block = none) : blockIn (s.buf j) ≠ (dev, block) := by
  intro hc
  simp only [blockIn, Prod.mk.injEq] at hc
  exact h.indexed.find_none hne hf j hc

theorem Gathering.below {held : Option ℕ} (h : Gathering c s₀ held s i)
    (hdev : (s.buf bh).dev ≠ 0) : bh < c.nrBuffers := by
  by_contra hc
  exact hdev (h.beyond bh (by omega)).1

/-- The buffer that `findBuffer` has found is held for the inode. -/
theorem Gathering.hold (h : Gathering c s₀ none s i) (hi : i < NR_INODE) (hd : Dirty (s.inode i))
    (hblock : blockOf c (s.inode i) = blockIn (s.buf bh)) (hne : (s.buf bh).dev ≠ 0) :
    Gathering c s₀ (some bh) (s.holdBuf bh) i := by
  have hbh := h.below hne
  have hself : (s.holdBuf bh).buf bh =
      { s.buf bh with count := ((s.buf bh).count + 1) % 256 } := Function.update_self ..
  have hother : ∀ j, j ≠ bh → (s.holdBuf bh).buf j = s.buf j :=
    fun j hj => Function.update_of_ne hj ..
  have hbuf : ∀ j, (s.holdBuf bh).buf j =
      { s.buf j with count := ((s.holdBuf bh).buf j).count } := by
    intro j
    by_cases hj : j = bh
    · rw [hj, hself]
    · rw [hother j hj]
  have hin : ∀ j, blockIn ((s.holdBuf bh).buf j) = blockIn (s.buf j) := by
    intro j
    rw [hbuf j]
    rfl
  refine ⟨h.indexed.same (.of_update rfl rfl rfl rfl rfl), h.free, ?_, ?_, ?_, ?_, ?_, h.walked,
    h.pending, h.later, ?_⟩
  · intro j
    rw [hbuf j]
    exact h.beyond j
  · intro j
    rw [hbuf j]
    exact h.dirty j
  · intro j hj
    unfold Idle
    rw [hbuf j]
    exact h.idle j (by simp)
  · refine ⟨fun j => ?_, fun j hj => ?_, fun j hj => ?_, fun j hj => ?_⟩
    · by_cases hjb : j = bh
      · rw [hjb, hself]
        exact Nat.mod_lt _ (by decide)
      · rw [hother j hjb]
        exact h.counts.bytes j
    · rw [hother j fun he => hj (by rw [he])]
      exact h.counts.rest j (by simp)
    · obtain rfl : bh = j := Option.some.inj hj
      have hbyte := h.counts.bytes bh
      rw [← h.counts.rest bh (by simp), hself]
      change ((s.buf bh).count + 1) % 256 = 0 ↔ _
      omega
    · rw [hin]
      exact h.counts.block j hj
  · have hspare : spare c (some bh) (s.holdBuf bh) = (spare c none s).erase bh :=
      spare_hold (fun _ => Iff.rfl) hother
    have hneeded : needed c (some bh) (s.holdBuf bh) =
        (needed c none s).erase (blockIn ((s.holdBuf bh).buf bh)) :=
      needed_hold hbh rfl hspare (fun j _ => hin j) fun hc => absurd (hin bh).symm hc
    have hiff : bh ∈ spare c none s ↔ blockIn ((s.holdBuf bh).buf bh) ∈ needed c none s := by
      rw [hin, mem_needed]
      refine ⟨fun hs => ⟨⟨i, hi, hd, hblock⟩, fun j _ hj => ?_⟩, fun hs => hs.2 bh hbh rfl⟩
      -- no other buffer has the block
      have he : (s.buf j).dev = (s.buf bh).dev ∧ (s.buf j).blocknr = (s.buf bh).blocknr := by
        simpa [blockIn] using hj
      rw [h.indexed.unique j bh (by rwa [he.1]) he.1 he.2]
      exact hs
    have hbalance := card_erase_balance hiff
    have hslack := h.slack
    rw [hspare, hneeded]
    omega
  · intro dev' block' k v hw
    rcases h.wanted dev' block' k v hw with hp | ⟨j, hj⟩
    · exact .inl hp
    · refine .inr ⟨j, ?_⟩
      rw [hbuf j]
      exact hj

/-- The buffer of an inode that has been written is released. -/
theorem Gathering.drop (h : Gathering c s₀ (some bh) s i) (hd : (s.buf bh).dirt = true)
    (hcount : (s.buf bh).count ≠ 0) (hidle : Idle s bh) :
    Gathering c s₀ none (s.dropBuf bh) i := by
  have hself : (s.dropBuf bh).buf bh = { s.buf bh with count := (s.buf bh).count - 1 } := by
    have hc : (s.dropBuf bh).buf bh = { s.buf bh with
        count := if (s.buf bh).count = 0 then 255 else (s.buf bh).count - 1 } :=
      Function.update_self ..
    rw [hc, if_neg hcount]
  have hother : ∀ j, j ≠ bh → (s.dropBuf bh).buf j = s.buf j :=
    fun j hj => Function.update_of_ne hj ..
  have hbuf : ∀ j, (s.dropBuf bh).buf j =
      { s.buf j with count := ((s.dropBuf bh).buf j).count } := by
    intro j
    by_cases hj : j = bh
    · rw [hj, hself]
    · rw [hother j hj]
  have hin : ∀ j, blockIn ((s.dropBuf bh).buf j) = blockIn (s.buf j) := by
    intro j
    rw [hbuf j]
    rfl
  refine ⟨h.indexed.same (.of_update rfl rfl rfl rfl rfl), h.free, ?_, ?_, ?_, ?_, ?_, h.walked,
    h.pending, h.later, ?_⟩
  · intro j
    rw [hbuf j]
    exact h.beyond j
  · intro j
    rw [hbuf j]
    exact h.dirty j
  · intro j _
    unfold Idle
    rw [hbuf j]
    by_cases hj : j = bh
    · rw [hj]
      exact hidle
    · exact h.idle j (by simpa using Ne.symm hj)
  · have hbyte := h.counts.bytes bh
    refine ⟨fun j => ?_, fun j _ => ?_, fun j hj => absurd hj (by simp), fun j hj => ?_⟩
    · by_cases hjb : j = bh
      · rw [hjb, hself]
        change (s.buf bh).count - 1 < 256
        omega
      · rw [hother j hjb]
        exact h.counts.bytes j
    · by_cases hjb : j = bh
      · have hused := h.counts.used bh rfl
        rw [hjb, hself, ← hused]
        change (s.buf bh).count - 1 = 255 ↔ _
        omega
      · rw [hother j hjb]
        exact h.counts.rest j (by simpa using Ne.symm hjb)
    · rw [hin]
      exact h.counts.block j hj
  · have hspare : spare c none (s.dropBuf bh) = spare c (some bh) s := by
      ext j
      rw [mem_spare, mem_spare]
      by_cases hj : j = bh
      · subst hj
        simp [hself, hd]
      · rw [hother j hj]
        simp [Ne.symm hj, Caches.dropBuf, Caches.setBuf]
    have hneeded : needed c none (s.dropBuf bh) = needed c (some bh) s := by
      ext p
      have hloose : Loose c none (s.dropBuf bh) p ↔ Loose c (some bh) s p := by
        unfold Loose
        simp only [hspare, hin]
      rw [mem_needed, mem_needed, hloose]
      rfl
    rw [hspare, hneeded]
    exact h.slack
  · intro dev' block' k v hw
    rcases h.wanted dev' block' k v hw with hp | ⟨j, hj⟩
    · exact .inl hp
    · refine .inr ⟨j, ?_⟩
      rw [hbuf j]
      exact hj

theorem mem_retarget_freeList (hmem : bh ∈ s.freeList) (j : ℕ) :
    j ∈ (Cache.retarget s bh dev block).freeList ↔ j ∈ s.freeList := by
  change j ∈ s.freeList.erase bh ++ [bh] ↔ _
  by_cases hj : j = bh
  · simp [hj, hmem]
  · simp [hj, List.mem_erase_of_ne hj]

/-- A spare buffer gets the block of the inode. -/
theorem Gathering.retarget (h : Gathering c s₀ none s i) (hi : i < NR_INODE)
    (hd : Dirty (s.inode i)) (hblock : blockOf c (s.inode i) = (dev, block)) (hne : dev ≠ 0)
    (hspare : bh ∈ spare c none s) (hf : findBuffer s dev block = none) :
    Gathering c s₀ (some bh) (Cache.retarget s bh dev block) i := by
  obtain ⟨hbh, -, hmem, hcount, hclean⟩ := mem_spare.mp hspare
  have hlist : ∀ j, j ∈ (Cache.retarget s bh dev block).freeList ↔ j ∈ s.freeList :=
    mem_retarget_freeList hmem
  have hother : ∀ j, j ≠ bh → (Cache.retarget s bh dev block).buf j = s.buf j :=
    fun j hj => retarget_other s bh dev block hj
  have hself := retarget_self s bh dev block
  refine ⟨h.indexed.retarget hf, fun j hj => h.free j ((hlist j).mp hj), ?_, ?_, ?_, ?_, ?_,
    h.walked, h.pending, h.later, ?_⟩
  · intro j hj
    rw [hother j (by omega)]
    exact h.beyond j hj
  · intro j hj
    by_cases hjb : j = bh
    · rw [hjb, hself] at hj
      exact absurd hj (by simp)
    · rw [hother j hjb] at hj ⊢
      exact h.dirty j hj
  · intro j hj
    unfold Idle
    rw [hother j fun he => hj (by rw [he])]
    exact h.idle j (by simp)
  · have hzero : (s₀.buf bh).count ≠ 255 := by
      rw [Ne, ← h.counts.rest bh (by simp), hcount]
      decide
    refine ⟨fun j => ?_, fun j hj => ?_, fun j hj => ?_, fun j hj => ?_⟩
    · by_cases hjb : j = bh
      · rw [hjb, hself]
        exact Nat.one_lt_ofNat
      · rw [hother j hjb]
        exact h.counts.bytes j
    · rw [hother j fun he => hj (by rw [he])]
      exact h.counts.rest j (by simp)
    · obtain rfl : bh = j := Option.some.inj hj
      rw [hself]
      exact iff_of_false (by simp) hzero
    · rw [hother j fun he => hzero (by rwa [he] at hj)]
      exact h.counts.block j hj
  · have hin : blockIn ((Cache.retarget s bh dev block).buf bh) = (dev, block) := by
      rw [hself]
      rfl
    have hspare' := spare_hold (c := c) hlist hother
    have hneeded : needed c (some bh) (Cache.retarget s bh dev block) =
        (needed c none s).erase (blockIn ((Cache.retarget s bh dev block).buf bh)) :=
      needed_hold hbh rfl hspare' (fun j hj => by rw [hother j hj]) fun _ => hspare
    have hcost : (dev, block) ∈ needed c none s :=
      mem_needed.mpr ⟨⟨i, hi, hd, hblock⟩, fun j _ hj => absurd hj (h.place_ne hne hf)⟩
    have hbalance := card_erase_balance (iff_of_true hspare hcost)
    have hslack := h.slack
    rw [hspare', hneeded, hin]
    omega
  · intro dev' block' k v hw
    rcases h.wanted dev' block' k v hw with hp | ⟨j, hj⟩
    · exact .inl hp
    · refine .inr ⟨j, ?_⟩
      rw [hother j]
      · exact hj
      · rintro rfl
        rw [hj.2.2.2] at hclean
        exact absurd hclean (by simp)

/-- A block that is in no buffer costs one. -/
theorem Gathering.cost (h : Gathering c s₀ none s i) (hi : i < NR_INODE) (hd : Dirty (s.inode i))
    (hblock : blockOf c (s.inode i) = (dev, block)) (hne : dev ≠ 0)
    (hf : findBuffer s dev block = none) (hroom : Room c s₀) : (spare c none s).Nonempty := by
  have hcost : (dev, block) ∈ needed c none s :=
    mem_needed.mpr ⟨⟨i, hi, hd, hblock⟩, fun j _ hj => absurd hj (h.place_ne hne hf)⟩
  have hpos := Finset.card_pos.mpr ⟨_, hcost⟩
  have hslack := h.slack
  have hspares := hroom.spares
  exact Finset.card_pos.mp (by omega)

theorem Gathering.clean {held : Option ℕ} (h : Gathering c s₀ held s i)
    (hi : ¬ Dirty (s.inode i)) : Gathering c s₀ held s (i + 1) :=
  { h with
    walked := fun j hj hj' => by
      rcases Nat.lt_succ_iff_lt_or_eq.mp hj with hj | rfl
      · exact h.walked j hj hj'
      · exact hi
    later := fun j hj => h.later j (by omega) }

/-- `write_inode` puts the inode into the buffer that `bread` has found. -/
def written (s : Caches) (i bh : ℕ) : Caches :=
  (s.setBuf bh { s.buf bh with
    data := Function.update (s.buf bh).data (((s.inode i).num - 1) % INODES_PER_BLOCK)
      (s.inode i).disk
    dirt := true }).setInode i { s.inode i with dirt := false }

theorem written_self (s : Caches) (i bh : ℕ) : (written s i bh).buf bh = { s.buf bh with
    data := Function.update (s.buf bh).data (((s.inode i).num - 1) % INODES_PER_BLOCK)
      (s.inode i).disk
    dirt := true } :=
  Function.update_self ..

theorem written_other (s : Caches) (i : ℕ) {j : ℕ} (hj : j ≠ bh) :
    (written s i bh).buf j = s.buf j :=
  Function.update_of_ne hj ..

theorem written_inode (s : Caches) (bh : ℕ) {j : ℕ} (hj : j ≠ i) :
    (written s i bh).inode j = s.inode j :=
  Function.update_of_ne hj ..

theorem written_clean (s : Caches) (i bh : ℕ) : ¬ Dirty ((written s i bh).inode i) := by
  simp [written, Caches.setInode, Dirty]

theorem ne_of_dirty_written {j : ℕ} (hj : Dirty ((written s i bh).inode j)) : j ≠ i := by
  rintro rfl
  exact written_clean s j bh hj

theorem written_blockIn (s : Caches) (i bh j : ℕ) :
    blockIn ((written s i bh).buf j) = blockIn (s.buf j) := by
  by_cases hj : j = bh
  · rw [hj, written_self]
    rfl
  · rw [written_other s i hj]

theorem written_count (s : Caches) (i bh j : ℕ) :
    ((written s i bh).buf j).count = (s.buf j).count := by
  by_cases hj : j = bh
  · rw [hj, written_self]
  · rw [written_other s i hj]

theorem spare_written (s : Caches) (i bh : ℕ) :
    spare c (some bh) (written s i bh) = spare c (some bh) s := by
  ext j
  rw [mem_spare, mem_spare]
  by_cases hj : j = bh
  · simp [hj]
  · rw [written_other s i hj]
    rfl

/-- The block of inode `i` is in the buffer that is held, so its write needs no other. -/
theorem needed_written (hbh : bh < c.nrBuffers)
    (hin : blockIn (s.buf bh) = blockOf c (s.inode i)) :
    needed c (some bh) (written s i bh) = needed c (some bh) s := by
  refine needed_congr (spare_written s i bh) (written_blockIn s i bh) fun p =>
    and_congr_left fun hloose => ?_
  refine ⟨fun ⟨j, hj, hjd, hjp⟩ => ?_, fun ⟨j, hj, hjd, hjp⟩ => ?_⟩
  · have hji := ne_of_dirty_written hjd
    rw [written_inode s bh hji] at hjd hjp
    exact ⟨j, hj, hjd, hjp⟩
  · have hji : j ≠ i := by
      rintro rfl
      exact (mem_spare.mp (hloose bh hbh (hin.trans hjp))).2.1 rfl
    refine ⟨j, hj, ?_⟩
    rw [written_inode s bh hji]
    exact ⟨hjd, hjp⟩

theorem Gathering.index_eq {j k : ℕ} (h : Gathering c s₀ (some bh) s i) (hd : Dirty (s.inode j))
    (hp : inodePlace c (s₀.inode j) = some (dev, block, k)) :
    ((s.inode j).num - 1) % INODES_PER_BLOCK = k := by
  obtain ⟨-, -, -, -, hnum⟩ := h.pending j hd
  simp only [inodePlace, Option.map_eq_some_iff, Prod.mk.injEq] at hp
  obtain ⟨-, -, -, -, hk⟩ := hp
  rw [hnum]
  exact hk

/-- Every record that is wanted is still in a dirty inode or a dirty buffer. -/
theorem Gathering.wanted_written {k : ℕ} (h : Gathering c s₀ (some bh) s i)
    (hr : Ready c s₀) (h0 : c.requestFn 0 = false) (hi : i < NR_INODE) (hd : Dirty (s.inode i))
    (hp : inodePlace c (s₀.inode i) = some (dev, block, k))
    (hin : blockIn (s.buf bh) = (dev, block)) {dev' block' k' : ℕ} {v : DInode}
    (hw : Wanted c s₀ dev' block' k' v) :
    (∃ j < NR_INODE, Dirty ((written s i bh).inode j) ∧
      inodePlace c (s₀.inode j) = some (dev', block', k') ∧ v = (s₀.inode j).disk) ∨
    ∃ j, ((written s i bh).buf j).dev = dev' ∧ ((written s i bh).buf j).blocknr = block' ∧
      ((written s i bh).buf j).data k' = v ∧ ((written s i bh).buf j).dirt = true := by
  obtain ⟨_, hd₀, hdisk, -⟩ := h.pending i hd
  obtain ⟨hdev, hnr⟩ := Prod.mk.inj hin
  have hself := written_self s i bh
  rw [h.index_eq hd hp, hdisk] at hself
  rcases h.wanted dev' block' k' v hw with ⟨j, hj, hjd, hjp, hv⟩ | ⟨j, hjdev, hjnr, hjdata, hjd⟩
  · by_cases hji : j = i
    · subst hji
      refine .inr ⟨bh, ?_⟩
      rw [hp, Option.some.injEq, Prod.mk.injEq, Prod.mk.injEq] at hjp
      obtain ⟨rfl, rfl, rfl⟩ := hjp
      rw [hself]
      exact ⟨hdev, hnr, by rw [hv]; exact Function.update_self .., rfl⟩
    · refine .inl ⟨j, hj, ?_, hjp, hv⟩
      rwa [written_inode s bh hji]
  · refine .inr ⟨j, ?_⟩
    by_cases hjb : j = bh
    · subst hjb
      rw [hself]
      refine ⟨hjdev, hjnr, ?_, rfl⟩
      by_cases hkk : k' = k
      · -- this record is wanted for the inode that is written
        subst hkk
        rw [hdev] at hjdev
        rw [hnr] at hjnr
        subst hjdev hjnr
        change Function.update (s.buf j).data k' (s₀.inode i).disk k' = v
        rw [Function.update_self]
        exact hr.wanted_unique h0 (.inode hi hd₀ hp) hw
      · change Function.update (s.buf j).data k (s₀.inode i).disk k' = v
        rwa [Function.update_of_ne hkk]
    · rw [written_other s i hjb]
      exact ⟨hjdev, hjnr, hjdata, hjd⟩

theorem Gathering.write {k : ℕ} (h : Gathering c s₀ (some bh) s i)
    (hr : Ready c s₀) (h0 : c.requestFn 0 = false) (hi : i < NR_INODE) (hd : Dirty (s.inode i))
    (hp : inodePlace c (s₀.inode i) = some (dev, block, k)) (hbh : bh < c.nrBuffers)
    (hin : blockIn (s.buf bh) = (dev, block)) (hup : (s.buf bh).uptodate = true) :
    Gathering c s₀ (some bh) (written s i bh) (i + 1) := by
  obtain ⟨_, hd₀, _, hdev₀, hnum⟩ := h.pending i hd
  have hplace : blockIn (s.buf bh) = blockOf c (s.inode i) := by
    rw [hin, ← blockOf_eq hp, blockOf, blockOf, hdev₀, hnum]
  refine ⟨h.indexed.same (.of_update rfl rfl rfl rfl rfl), h.free, ?_, ?_, ?_, ?_, ?_, ?_, ?_, ?_,
    fun _ _ _ _ hw => h.wanted_written hr h0 hi hd hp hin hw⟩
  · intro j hj
    rw [written_other s i (by omega)]
    exact h.beyond j hj
  · intro j hj
    by_cases hjb : j = bh
    · subst hjb
      rw [written_self]
      refine ⟨hup, ?_⟩
      change Driven c (s.buf j).dev
      rw [(Prod.mk.inj hin).1, ← (Prod.mk.inj (blockOf_eq hp)).1]
      exact (hr.dirtyInode i hi hd₀).2.2
    · rw [written_other s i hjb] at hj ⊢
      exact h.dirty j hj
  · intro j hj
    unfold Idle
    rw [written_other s i fun he => hj (by rw [he])]
    exact h.idle j hj
  · refine ⟨fun j => ?_, fun j hj => ?_, fun j hj => ?_, fun j hj => ?_⟩
    · rw [written_count]
      exact h.counts.bytes j
    · rw [written_count]
      exact h.counts.rest j hj
    · rw [written_count]
      exact h.counts.used j hj
    · rw [written_blockIn]
      exact h.counts.block j hj
  · rw [spare_written, needed_written hbh hplace]
    exact h.slack
  · intro j hj hj'
    rcases Nat.lt_succ_iff_lt_or_eq.mp hj with hj | rfl
    · rw [written_inode s bh (by omega)]
      exact h.walked j hj hj'
    · exact written_clean s j bh
  · intro j hj
    have hji := ne_of_dirty_written hj
    unfold Pending
    rw [written_inode s bh hji] at hj ⊢
    exact h.pending j hj
  · intro j hj hjd
    rw [written_inode s bh (by omega)]
    exact h.later j (by omega) hjd

end Gathering

/-! ### The walk over the buffers -/

/-- Every inode is written, and the walk over the buffers has come to `i`; `own` is the buffer that
    `ll_rw_block` has locked and not yet queued. -/
structure Settling (c : Config) (s₀ : Caches) (own : Option ℕ) (s : Caches) (i : ℕ) : Prop where
  room : Room c s₀
  unique : ∀ a b, (s.buf a).dev ≠ 0 → (s.buf a).dev = (s.buf b).dev →
    (s.buf a).blocknr = (s.buf b).blocknr → a = b
  clean : ∀ bh, bh < i ∨ c.nrBuffers ≤ bh → (s.buf bh).dirt = false
  driven : ∀ bh, (s.buf bh).dirt = true → Driven c (s.buf bh).dev
  reads : ∀ bh, s.request bh ≠ some .read
  below : ∀ bh, s.request bh ≠ none → bh < c.nrBuffers
  locked : ∀ bh, own ≠ some bh → (s.buf bh).lock = true → s.request bh ≠ none
  inodes : ∀ j < NR_INODE, ¬ Dirty (s.inode j)
  wanted : ∀ dev block k v, Wanted c s₀ dev block k v → dev ≠ 0 ∧
    ∃ bh, (s.buf bh).dev = dev ∧ (s.buf bh).blocknr = block ∧ (s.buf bh).data k = v ∧
      ((s.buf bh).dirt = true ∨ s.request bh = some .write ∨ s.disk dev block k = v)

section Settling
variable {s₀ s : Caches} {i bh : ℕ} {own : Option ℕ}

/-- All inodes are written, so there was room. -/
theorem Gathering.room (h : Gathering c s₀ none s i) (hi : NR_INODE ≤ i) (hp : Passed c s₀ i) :
    Room c s₀ := by
  refine ⟨?_, fun j hj hd => hp j (by omega) hd⟩
  have hnone : needed c none s = ∅ := by
    refine Finset.eq_empty_of_forall_notMem fun p hp => ?_
    obtain ⟨⟨j, hj, hd, -⟩, -⟩ := mem_needed.mp hp
    exact h.walked j (by omega) hj hd
  have hslack := h.slack
  rw [hnone, Finset.card_empty] at hslack
  omega

theorem Gathering.settling (h : Gathering c s₀ none s i) (h0 : c.requestFn 0 = false)
    (hi : NR_INODE ≤ i) (hp : Passed c s₀ i) : Settling c s₀ none s 0 where
  room := h.room hi hp
  unique := h.indexed.unique
  clean bh hbh := by
    rcases hbh with hbh | hbh
    · exact absurd hbh (Nat.not_lt_zero bh)
    · exact (h.beyond bh hbh).2
  driven bh hd := (h.dirty bh hd).2
  reads bh hr := by
    rw [(h.idle bh (by simp)).2] at hr
    exact absurd hr (by simp)
  below bh hr := absurd (h.idle bh (by simp)).2 hr
  locked bh _ hl := by
    rw [(h.idle bh (by simp)).1] at hl
    exact absurd hl (by simp)
  inodes j hj := h.walked j (by omega) hj
  wanted dev block k v hw := by
    rcases h.wanted dev block k v hw with ⟨j, hj, hd, _⟩ | ⟨bh, hdev, hnr, hdata, hd⟩
    · exact absurd hd (h.walked j (by omega) hj)
    · refine ⟨?_, bh, hdev, hnr, hdata, .inl hd⟩
      rw [← hdev]
      exact (h.dirty bh hd).2.ne_zero h0

theorem Settling.clean_succ (h : Settling c s₀ own s i) (hd : (s.buf i).dirt = false) :
    Settling c s₀ own s (i + 1) :=
  { h with
    clean := fun bh hbh => by
      rcases hbh with hbh | hbh
      · rcases Nat.lt_succ_iff_lt_or_eq.mp hbh with hbh | rfl
        · exact h.clean bh (.inl hbh)
        · exact hd
      · exact h.clean bh (.inr hbh) }

theorem Settling.lock (h : Settling c s₀ none s i) (bh : ℕ) :
    Settling c s₀ (some bh) (s.setBuf bh { s.buf bh with lock := true }) i := by
  have hother : ∀ j, j ≠ bh → (s.setBuf bh { s.buf bh with lock := true }).buf j = s.buf j :=
    fun j hj => Function.update_of_ne hj ..
  have hbuf : ∀ j, (s.setBuf bh { s.buf bh with lock := true }).buf j =
      { s.buf j with lock := ((s.setBuf bh { s.buf bh with lock := true }).buf j).lock } := by
    intro j
    by_cases hj : j = bh
    · subst hj
      simp [Caches.setBuf]
    · rw [hother j hj]
  refine ⟨h.room, ?_, ?_, ?_, h.reads, h.below, fun j hj => ?_, h.inodes, ?_⟩
  · intro a b
    rw [hbuf a, hbuf b]
    exact h.unique a b
  · intro j
    rw [hbuf j]
    exact h.clean j
  · intro j
    rw [hbuf j]
    exact h.driven j
  · rw [hother j fun he => hj (by rw [he])]
    exact h.locked j (by simp)
  · intro dev block k v hw
    obtain ⟨hdev, j, hj⟩ := h.wanted dev block k v hw
    refine ⟨hdev, j, ?_⟩
    rw [hbuf j]
    exact hj

/-- `make_request` clears the dirty bit of the buffer it queues. -/
theorem Settling.write (h : Settling c s₀ (some i) s i) (hi : i < c.nrBuffers) :
    Settling c s₀ none { s.setBuf i { s.buf i with dirt := false } with
      request := Function.update s.request i (some .write) } (i + 1) := by
  have hbuf : ∀ j, (s.setBuf i { s.buf i with dirt := false }).buf j =
      { s.buf j with dirt := if j = i then false else (s.buf j).dirt } := by
    intro j
    by_cases hj : j = i
    · subst hj
      simp [Caches.setBuf]
    · simp [Caches.setBuf, hj]
  refine ⟨h.room, ?_, ?_, ?_, ?_, ?_, ?_, h.inodes, ?_⟩
  · intro a b
    rw [hbuf a, hbuf b]
    exact h.unique a b
  · intro j hj
    rw [hbuf j]
    by_cases hji : j = i
    · exact if_pos hji
    · have := h.clean j (hj.imp (fun _ => by omega) fun h => h)
      simpa [hji] using this
  · intro j
    rw [hbuf j]
    by_cases hji : j = i
    · simp [hji]
    · simpa [hji] using h.driven j
  · intro j
    by_cases hji : j = i
    · simp [hji]
    · simpa only [Function.update_of_ne hji] using h.reads j
  · intro j hj
    by_cases hji : j = i
    · rwa [hji]
    · simp only [Function.update_of_ne hji] at hj
      exact h.below j hj
  · intro j _ hj
    by_cases hji : j = i
    · simp [hji]
    · simp only [Function.update_of_ne hji]
      rw [hbuf j] at hj
      exact h.locked j (by simpa using Ne.symm hji) hj
  · intro dev block k v hw
    obtain ⟨hdev, j, hjdev, hnr, hdata, hj⟩ := h.wanted dev block k v hw
    refine ⟨hdev, j, ?_⟩
    rw [hbuf j]
    refine ⟨hjdev, hnr, hdata, ?_⟩
    by_cases hji : j = i
    · subst hji
      exact .inr (.inl (Function.update_self ..))
    · simp only [if_neg hji, Function.update_of_ne hji]
      exact hj

theorem finish_other (s : Caches) {bh j : ℕ} (rw : Rw) (ok : Bool) (block : Data) (hj : j ≠ bh) :
    (Cache.finish s bh rw ok block).buf j = s.buf j ∧
      (Cache.finish s bh rw ok block).request j = s.request j := by
  cases rw <;> simp [Cache.finish, Caches.setBuf, hj]

theorem finish_self (s : Caches) (bh : ℕ) (rw : Rw) (ok : Bool) (block : Data) :
    ((Cache.finish s bh rw ok block).buf bh).dirt = (s.buf bh).dirt ∧
      Idle (Cache.finish s bh rw ok block) bh := by
  cases rw <;> simp [Cache.finish, Caches.setBuf, Idle]

theorem finish_dirt (s : Caches) (bh j : ℕ) (rw : Rw) (ok : Bool) (block : Data) :
    ((Cache.finish s bh rw ok block).buf j).dirt = (s.buf j).dirt := by
  by_cases hj : j = bh
  · subst hj
    exact (finish_self s j rw ok block).1
  · rw [(finish_other s rw ok block hj).1]

theorem finish_inode (s : Caches) (bh : ℕ) (rw : Rw) (ok : Bool) (block : Data) :
    (Cache.finish s bh rw ok block).inode = s.inode := by
  cases rw <;> rfl

/-- A write that is carried out settles the records of its block. -/
theorem Settling.finish {rw : Rw} (h : Settling c s₀ own s i) (hr : s.request bh = some rw) :
    Settling c s₀ own (Cache.finish s bh rw true (transferred s bh rw)) i := by
  obtain rfl : rw = .write := by
    cases rw with
    | read => exact absurd hr (h.reads bh)
    | write => rfl
  have hblock := (finish_index s bh .write true (transferred s bh .write)).block
  refine ⟨h.room, fun a b => ?_, fun j => ?_, fun j => ?_, fun j hj => ?_, fun j hj => ?_,
    fun j ho hj => ?_, h.inodes, fun dev block k v hw => ?_⟩
  · rw [(hblock a).1, (hblock a).2, (hblock b).1, (hblock b).2]
    exact h.unique a b
  · rw [finish_dirt]
    exact h.clean j
  · rw [finish_dirt, (hblock j).1]
    exact h.driven j
  · by_cases hjb : j = bh
    · rw [hjb, (finish_self s bh .write true _).2.2] at hj
      exact absurd hj (by simp)
    · rw [(finish_other s .write true _ hjb).2] at hj
      exact h.reads j hj
  · by_cases hjb : j = bh
    · rw [hjb]
      exact h.below bh (by simp [hr])
    · rw [(finish_other s .write true _ hjb).2] at hj
      exact h.below j hj
  · by_cases hjb : j = bh
    · rw [hjb, (finish_self s bh .write true _).2.1] at hj
      exact absurd hj (by simp)
    · rw [(finish_other s .write true _ hjb).1] at hj
      rw [(finish_other s .write true _ hjb).2]
      exact h.locked j ho hj
  · obtain ⟨hdev, j, hjdev, hnr, hdata, hj⟩ := h.wanted dev block k v hw
    refine ⟨hdev, j, ?_⟩
    rw [(hblock j).1, (hblock j).2]
    refine ⟨hjdev, hnr, ?_⟩
    by_cases hjb : j = bh
    · subst hjb
      refine ⟨?_, .inr (.inr ?_)⟩
      · simp only [Cache.finish, Caches.setBuf, Function.update_self]
        exact hdata
      · simp only [Cache.finish, hjdev, hnr, Function.update_self, transferred]
        exact hdata
    · rw [(finish_other s .write true _ hjb).1, (finish_other s .write true _ hjb).2]
      refine ⟨hdata, ?_⟩
      rcases hj with hj | hj | hj
      · exact .inl hj
      · exact .inr (.inl hj)
      · refine .inr (.inr ?_)
        -- no other buffer has the block
        simp only [Cache.finish]
        by_cases hb : (s.buf bh).dev = dev
        · by_cases hn : (s.buf bh).blocknr = block
          · exact absurd (h.unique j bh (by rwa [hjdev]) (by rw [hjdev, hb]) (by rw [hnr, hn])) hjb
          · rw [hb, Function.update_self, Function.update_of_ne (Ne.symm hn)]
            exact hj
        · rw [Function.update_of_ne (Ne.symm hb)]
          exact hj

end Settling

end Linux011.SysSync
