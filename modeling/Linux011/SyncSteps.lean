import Linux011.SysSync
import Mathlib

set_option autoImplicit false

/-!
# The frames of sys_sync

A rank for each of them, which all but waiting lowers.
-/
namespace Linux011.SysSync
open CooperativeTasks Cache BufferHeads

variable {c : Config}

/-! ### What a block does -/

/-- The frames whose blocks are those of `bufferStep` alone. -/
def inBuffers : Frame → Bool
  | .getblk .. | .waitHash .. | .waitFree .. | .getblkDirty .. | .llRwBlock .. | .lockBuffer ..
  | .waitRelease _ | .bread .. | .breadGot _ | .waitRead _ | .breadFail | .syncDev .. | .waitSync ..
  | .sysSyncInodes | .sysSync _ | .waitSysSync _ => true
  | _ => false

theorem buffer_block {f : Frame} {s s' : Caches} {e : Event} {x : Exit} (hf : inBuffers f = true)
    (h : Block c f s e s' x) : bufferStep c s f = some (e, s', x) := by
  cases h with
  | buffers h => exact h
  | inodes h => cases f <;> simp [inBuffers] at hf <;> simp [inodeStep] at h
  | put h => cases f <;> simp [inBuffers] at hf <;> simp [iputStep] at h
  | get h => cases f <;> simp [inBuffers] at hf <;> simp [igetStep] at h
  | _ => simp [inBuffers] at hf

def inInodes : Frame → Bool
  | .syncInodes _ | .waitSyncInode _ | .lockWrite _ | .writeInodeGot .. | .writeInodeEnd _ => true
  | _ => false

theorem inode_block {f : Frame} {s s' : Caches} {e : Event} {x : Exit} (hf : inInodes f = true)
    (h : Block c f s e s' x) : inodeStep c s f = some (e, s', x) := by
  cases h with
  | inodes h => exact h
  | buffers h => cases f <;> simp [inInodes] at hf <;> simp [bufferStep] at h
  | put h => cases f <;> simp [inInodes] at hf <;> simp [iputStep] at h
  | get h => cases f <;> simp [inInodes] at hf <;> simp [igetStep] at h
  | _ => simp [inInodes] at hf

theorem make_block {rw : Rw} {bh : ℕ} {s s' : Caches} {e : Event} {x : Exit}
    (h : Block c (.makeRequest rw bh) s e s' x) :
    (s' = s ∧ x = .sleep (.makeRequest rw bh)) ∨
    (s' = { s.setBuf bh { s.buf bh with dirt := false } with
      request := Function.update s.request bh (some rw) } ∧ x = .ret .void) := by
  cases h with
  | full => exact .inl ⟨rfl, rfl⟩
  | buffers h =>
    simp only [bufferStep, Option.some.injEq, Prod.mk.injEq] at h
    exact .inr ⟨h.2.1.symm, h.2.2.symm⟩
  | inodes h => simp [inodeStep] at h
  | put h => simp [iputStep] at h
  | get h => simp [igetStep] at h

/-- The frames of `ll_rw_block`. -/
inductive Flushing (rw : Rw) (bh : ℕ) : Frame → Prop where
  | start : Flushing rw bh (.llRwBlock rw bh)
  | lock : Flushing rw bh (.lockBuffer rw bh)
  | make : Flushing rw bh (.makeRequest rw bh)

/-- What a block of `ll_rw_block` does. -/
inductive FlushStep (c : Config) (s : Caches) (rw : Rw) (bh : ℕ) :
    Frame → Caches → Exit → Prop where
  | stay {f : Frame} (hf : Flushing rw bh f) : FlushStep c s rw bh f s (.sleep f)
  | noDriver (h : ¬ Driven c (s.buf bh).dev) :
      FlushStep c s rw bh (.llRwBlock rw bh) s (.ret .void)
  | enter : FlushStep c s rw bh (.llRwBlock rw bh) s (.goto (.lockBuffer rw bh))
  | nothing (hl : (s.buf bh).lock = false)
      (h : (rw = .write ∧ (s.buf bh).dirt = false) ∨ (rw = .read ∧ (s.buf bh).uptodate = true)) :
      FlushStep c s rw bh (.lockBuffer rw bh) s (.ret .void)
  | lock (hl : (s.buf bh).lock = false) :
      FlushStep c s rw bh (.lockBuffer rw bh) (s.setBuf bh { s.buf bh with lock := true })
        (.goto (.makeRequest rw bh))
  | make : FlushStep c s rw bh (.makeRequest rw bh)
      { s.setBuf bh { s.buf bh with dirt := false } with
        request := Function.update s.request bh (some rw) } (.ret .void)

theorem Flushing.block {rw : Rw} {bh : ℕ} {f : Frame} {s s' : Caches} {e : Event} {x : Exit}
    (hf : Flushing rw bh f) (h : Block c f s e s' x) : FlushStep c s rw bh f s' x := by
  cases hf with
  | start =>
    have h := buffer_block rfl h
    simp only [bufferStep] at h
    split at h
    all_goals simp only [Option.some.injEq, Prod.mk.injEq] at h
    all_goals obtain ⟨rfl, rfl, rfl⟩ := h
    next hd =>
      refine .noDriver fun hc => ?_
      rcases hd with hd | hd
      · exact absurd hc.1 (by omega)
      · rw [hc.2] at hd
        exact absurd hd (by simp)
    next => exact .enter
  | lock =>
    have h := buffer_block rfl h
    simp only [bufferStep] at h
    split at h
    · simp only [Option.some.injEq, Prod.mk.injEq] at h
      obtain ⟨rfl, rfl, rfl⟩ := h
      exact .stay .lock
    · next hl =>
      split at h
      all_goals simp only [Option.some.injEq, Prod.mk.injEq] at h
      all_goals obtain ⟨rfl, rfl, rfl⟩ := h
      next hno => exact .nothing (by simpa using hl) hno
      next => exact .lock (by simpa using hl)
  | make =>
    rcases make_block h with ⟨rfl, rfl⟩ | ⟨rfl, rfl⟩
    · exact .stay .make
    · exact .make

theorem FlushStep.inode {s s' : Caches} {rw : Rw} {bh : ℕ} {f : Frame} {x : Exit}
    (h : FlushStep c s rw bh f s' x) :
    s'.inode = s.inode ∧ ((∃ g, Flushing rw bh g ∧ (x = .goto g ∨ x = .sleep g)) ∨
      x = .ret .void) := by
  cases h with
  | stay hf => exact ⟨rfl, .inl ⟨_, hf, .inr rfl⟩⟩
  | enter => exact ⟨rfl, .inl ⟨_, .lock, .inl rfl⟩⟩
  | lock => exact ⟨rfl, .inl ⟨_, .make, .inl rfl⟩⟩
  | _ => exact ⟨rfl, .inr rfl⟩

/-! ### A dirty buffer is picked -/

/-- `getblk` syncs a device while inode `i` is locked. -/
inductive Syncing (i : ℕ) : Frame → List Kont → Prop where
  | sync (dev j : ℕ) (dev' block bh : ℕ) :
      Syncing i (.syncDev dev false j) [.getblkSynced dev' block bh, .bread, .writeInode i]
  | wait (dev j : ℕ) (dev' block bh : ℕ) :
      Syncing i (.waitSync dev false j) [.getblkSynced dev' block bh, .bread, .writeInode i]
  | flush {f : Frame} (dev j : ℕ) (dev' block bh : ℕ) (h : Flushing .write j f) :
      Syncing i f [.syncNext dev false j, .getblkSynced dev' block bh, .bread, .writeInode i]
  | inodes (dev : ℕ) {j : ℕ} (dev' block bh : ℕ) (hj : j ≤ i) :
      Syncing i (.syncInodes j) [.syncLast dev, .getblkSynced dev' block bh, .bread, .writeInode i]
  | inode (dev : ℕ) {j : ℕ} (dev' block bh : ℕ) (hj : j ≤ i) :
      Syncing i (.waitSyncInode j)
        [.syncLast dev, .getblkSynced dev' block bh, .bread, .writeInode i]

/-- `sys_sync` does not return: it comes to wait for an inode that it has locked. -/
structure Lost (i : ℕ) (rest : List Kont) (s : Caches) (τ : Task Frame Kont) : Prop where
  below : i < NR_INODE
  locked : (s.inode i).lock = true
  walked : ∀ j < i, ¬ Dirty (s.inode j)
  syncing : ∃ ks, τ.conts = ks ++ rest ∧ Syncing i τ.top ks

/-- What is lost stays lost. -/
theorem Lost.step {i : ℕ} {rest : List Kont} {s s' : Caches} {e : Event} {x : Exit}
    {τ τ' : Task Frame Kont} (h : Lost i rest s τ) (hb : Block c τ.top s e s' x)
    (hn : τ.next (machine c) x = some τ') : Lost i rest s' τ' := by
  obtain ⟨hi, hl, hw, ks, hks, h⟩ := h
  obtain ⟨f, l⟩ := τ
  obtain rfl : l = ks ++ rest := hks
  have hsame : s'.inode = s.inode ∧ ∃ ks', τ'.conts = ks' ++ rest ∧ Syncing i τ'.top ks' := by
    cases h with
    | sync dev j dev' block bh =>
      have hb := buffer_block rfl hb
      simp only [bufferStep] at hb
      split at hb
      · split at hb
        all_goals simp only [Option.some.injEq, Prod.mk.injEq] at hb
        all_goals obtain ⟨rfl, rfl, rfl⟩ := hb
        all_goals simp only [Task.next, Option.some.injEq] at hn
        all_goals subst hn
        · exact ⟨rfl, _, rfl, .sync dev (j + 1) dev' block bh⟩
        · exact ⟨rfl, _, rfl, .wait dev j dev' block bh⟩
      · simp only [Bool.false_eq_true, if_false, Option.some.injEq, Prod.mk.injEq] at hb
        obtain ⟨rfl, rfl, rfl⟩ := hb
        simp only [Task.next, Option.some.injEq] at hn
        subst hn
        exact ⟨rfl, _, rfl, .inodes dev dev' block bh (Nat.zero_le i)⟩
    | wait dev j dev' block bh =>
      have hb := buffer_block rfl hb
      simp only [bufferStep] at hb
      split at hb
      · simp only [Option.some.injEq, Prod.mk.injEq] at hb
        obtain ⟨rfl, rfl, rfl⟩ := hb
        simp only [Task.next, Option.some.injEq] at hn
        subst hn
        exact ⟨rfl, _, rfl, .wait dev j dev' block bh⟩
      · split at hb
        all_goals simp only [Option.some.injEq, Prod.mk.injEq] at hb
        all_goals obtain ⟨rfl, rfl, rfl⟩ := hb
        all_goals simp only [Task.next, Option.some.injEq] at hn
        all_goals subst hn
        · exact ⟨rfl, _, rfl, .flush dev j dev' block bh .start⟩
        · exact ⟨rfl, _, rfl, .sync dev (j + 1) dev' block bh⟩
    | flush dev j dev' block bh hf =>
      obtain ⟨hinode, ⟨g, hg, rfl | rfl⟩ | rfl⟩ := (hf.block hb).inode
      all_goals simp only [Task.next, List.cons_append, machine, resume, Option.some.injEq] at hn
      all_goals subst hn
      · exact ⟨hinode, _, rfl, .flush dev j dev' block bh hg⟩
      · exact ⟨hinode, _, rfl, .flush dev j dev' block bh hg⟩
      · exact ⟨hinode, _, rfl, .sync dev (j + 1) dev' block bh⟩
    | @inodes dev j dev' block bh hj =>
      have hb := inode_block rfl hb
      simp only [inodeStep, if_pos (lt_of_le_of_lt hj hi), Option.some.injEq, Prod.mk.injEq] at hb
      obtain ⟨rfl, rfl, rfl⟩ := hb
      simp only [Task.next, Option.some.injEq] at hn
      subst hn
      exact ⟨rfl, _, rfl, .inode dev dev' block bh hj⟩
    | @inode dev j dev' block bh hj =>
      have hb := inode_block rfl hb
      simp only [inodeStep] at hb
      split at hb
      · simp only [Option.some.injEq, Prod.mk.injEq] at hb
        obtain ⟨rfl, rfl, rfl⟩ := hb
        simp only [Task.next, Option.some.injEq] at hn
        subst hn
        exact ⟨rfl, _, rfl, .inode dev dev' block bh hj⟩
      · next hlock =>
        have hlt : j < i := by
          refine lt_of_le_of_ne hj ?_
          rintro rfl
          exact hlock hl
        have hclean : ¬ ((s.inode j).dirt = true ∧ (s.inode j).pipe = false) := hw j hlt
        rw [if_neg hclean, Option.some.injEq, Prod.mk.injEq, Prod.mk.injEq] at hb
        obtain ⟨rfl, rfl, rfl⟩ := hb
        simp only [Task.next, Option.some.injEq] at hn
        subst hn
        exact ⟨rfl, _, rfl, .inodes dev dev' block bh hlt⟩
  refine ⟨hi, ?_, ?_, hsame.2⟩
  · rwa [hsame.1]
  · rwa [hsame.1]

theorem Lost.conts_ne {i : ℕ} {rest : List Kont} {s : Caches} {τ : Task Frame Kont}
    (h : Lost i rest s τ) : τ.conts ≠ [] := by
  obtain ⟨f, l⟩ := τ
  obtain ⟨ks, rfl, h⟩ := h.syncing
  cases h <;> simp

/-! ### Where the task is -/

/-- The frames of `bread` once it has its buffer. -/
inductive Reading (s : Caches) (bh : ℕ) : Frame → List Kont → ℕ → Prop where
  | got (hi : Idle s bh) : Reading s bh (.breadGot (some bh)) [] 9
  | start (hi : Idle s bh) (hd : (s.buf bh).dirt = false) :
      Reading s bh (.llRwBlock .read bh) [.breadRead bh] 8
  | lock (hi : Idle s bh) (hd : (s.buf bh).dirt = false) :
      Reading s bh (.lockBuffer .read bh) [.breadRead bh] 7
  | make (hl : (s.buf bh).lock = true) (hreq : s.request bh = none)
      (hd : (s.buf bh).dirt = false) : Reading s bh (.makeRequest .read bh) [.breadRead bh] 6
  | wait (hr : s.request bh = some .read) (hl : (s.buf bh).lock = true)
      (hd : (s.buf bh).dirt = false) : Reading s bh (.waitRead bh) [] 4
  | done (hi : Idle s bh) (hup : (s.buf bh).uptodate = true) : Reading s bh (.waitRead bh) [] 4

/-- The frames of `bread`, and the buffer that is held in each of them. -/
inductive Fetching (c : Config) (s : Caches) (dev block : ℕ) :
    Option ℕ → Frame → List Kont → ℕ → Prop where
  | bread : Fetching c s dev block none (.bread dev block) [] 13
  | getblk : Fetching c s dev block none (.getblk dev block) [.bread] 12
  | found {bh : ℕ} (hin : blockIn (s.buf bh) = (dev, block)) (hi : Idle s bh) :
      Fetching c s dev block (some bh) (.waitHash dev block bh) [.bread] 11
  | free {bh : ℕ} (hmem : bh ∈ s.freeList) (hcount : (s.buf bh).count = 0)
      (hf : findBuffer s dev block = none) (hpick : (s.buf bh).dirt = true → spare c none s = ∅) :
      Fetching c s dev block none (.waitFree dev block bh) [.bread] 11
  | take {bh : ℕ} (hmem : bh ∈ s.freeList) (hcount : (s.buf bh).count = 0)
      (hf : findBuffer s dev block = none) (hpick : (s.buf bh).dirt = true → spare c none s = ∅) :
      Fetching c s dev block none (.getblkDirty dev block bh) [.bread] 10
  | inner {f : Frame} {ks : List Kont} {bh k : ℕ} (hin : blockIn (s.buf bh) = (dev, block))
      (h : Reading s bh f ks k) : Fetching c s dev block (some bh) f ks k

/-- No inode but `i` is locked. -/
def Alone (s : Caches) (i : ℕ) : Prop := ∀ j ≠ i, (s.inode j).lock = false

def settleRank (c : Config) (i : ℕ) : ℕ := 6 * (c.nrBuffers - i) + 1

def gatherRank (c : Config) (i : ℕ) : ℕ := 16 * (NR_INODE - i) + settleRank c 0 + 1

/-- How far `sys_sync`, called from user mode, has come. -/
inductive At (c : Config) (s₀ : Caches) (bufs inodes : List ℕ) (s : Caches) :
    Frame → List Kont → ℕ → Prop where
  | enter (h : Gathering c s₀ none s 0) (hl : ∀ j, (s.inode j).lock = false) :
      At c s₀ bufs inodes s .sysSyncInodes [.user bufs inodes] (gatherRank c 0 + 1)
  | inodes {i : ℕ} (h : Gathering c s₀ none s i) (hl : ∀ j, (s.inode j).lock = false)
      (hp : Passed c s₀ i) :
      At c s₀ bufs inodes s (.syncInodes i) [.sysSync 0, .user bufs inodes] (gatherRank c i)
  | inode {i : ℕ} (hi : i < NR_INODE) (h : Gathering c s₀ none s i)
      (hl : ∀ j, (s.inode j).lock = false) (hp : Passed c s₀ i) :
      At c s₀ bufs inodes s (.waitSyncInode i) [.sysSync 0, .user bufs inodes]
        (gatherRank c (i + 1) + 15)
  | lock {i : ℕ} (hi : i < NR_INODE) (h : Gathering c s₀ none s i)
      (hl : ∀ j, (s.inode j).lock = false) (hp : Passed c s₀ i) (hd : Dirty (s.inode i)) :
      At c s₀ bufs inodes s (.lockWrite i) [.syncInodes i, .sysSync 0, .user bufs inodes]
        (gatherRank c (i + 1) + 14)
  | fetch {i dev block k r : ℕ} {held : Option ℕ} {f : Frame} {l : List Kont} (hi : i < NR_INODE)
      (h : Gathering c s₀ held s i) (hl : Alone s i ∧ (s.inode i).lock = true)
      (hp : Passed c s₀ i) (hd : Dirty (s.inode i))
      (hplace : inodePlace c (s₀.inode i) = some (dev, block, k))
      (hf : Fetching c s dev block held f l r) :
      At c s₀ bufs inodes s f (l ++ [.writeInode i, .syncInodes i, .sysSync 0, .user bufs inodes])
        (gatherRank c (i + 1) + r)
  | got {i dev block k bh : ℕ} (hi : i < NR_INODE) (h : Gathering c s₀ (some bh) s i)
      (hl : Alone s i) (hp : Passed c s₀ i) (hd : Dirty (s.inode i))
      (hplace : inodePlace c (s₀.inode i) = some (dev, block, k))
      (hin : blockIn (s.buf bh) = (dev, block)) (hup : (s.buf bh).uptodate = true)
      (hidle : Idle s bh) :
      At c s₀ bufs inodes s (.writeInodeGot i (some bh))
        [.syncInodes i, .sysSync 0, .user bufs inodes] (gatherRank c (i + 1) + 3)
  | release {i bh : ℕ} (hi : i < NR_INODE) (h : Gathering c s₀ (some bh) s (i + 1))
      (hl : Alone s i) (hp : Passed c s₀ i) (hd₀ : Dirty (s₀.inode i))
      (hin : blockIn (s.buf bh) = blockOf c (s₀.inode i)) (hd : (s.buf bh).dirt = true)
      (hidle : Idle s bh) :
      At c s₀ bufs inodes s (.waitRelease bh)
        [.writeInodeEnd i, .syncInodes i, .sysSync 0, .user bufs inodes] (gatherRank c (i + 1) + 2)
  | unlock {i : ℕ} (h : Gathering c s₀ none s (i + 1)) (hl : Alone s i) (hp : Passed c s₀ (i + 1)) :
      At c s₀ bufs inodes s (.writeInodeEnd i) [.syncInodes i, .sysSync 0, .user bufs inodes]
        (gatherRank c (i + 1) + 1)
  | buffers {i : ℕ} (h : Settling c s₀ none s i) :
      At c s₀ bufs inodes s (.sysSync i) [.user bufs inodes] (settleRank c i)
  | buffer {i : ℕ} (hi : i < c.nrBuffers) (h : Settling c s₀ none s i) :
      At c s₀ bufs inodes s (.waitSysSync i) [.user bufs inodes] (settleRank c (i + 1) + 5)
  | flush {i : ℕ} (hi : i < c.nrBuffers) (h : Settling c s₀ none s i) :
      At c s₀ bufs inodes s (.llRwBlock .write i) [.sysSync (i + 1), .user bufs inodes]
        (settleRank c (i + 1) + 4)
  | flushLock {i : ℕ} (hi : i < c.nrBuffers) (h : Settling c s₀ none s i) :
      At c s₀ bufs inodes s (.lockBuffer .write i) [.sysSync (i + 1), .user bufs inodes]
        (settleRank c (i + 1) + 3)
  | flushMake {i : ℕ} (hi : i < c.nrBuffers) (h : Settling c s₀ (some i) s i) :
      At c s₀ bufs inodes s (.makeRequest .write i) [.sysSync (i + 1), .user bufs inodes]
        (settleRank c (i + 1) + 2)
  | back {i : ℕ} (hi : c.nrBuffers ≤ i) (h : Settling c s₀ none s i) :
      At c s₀ bufs inodes s (.user bufs inodes) [] 0

/-- The requests that are not yet carried out. -/
def outstanding (c : Config) (s : Caches) : ℕ :=
  ((Finset.range c.nrBuffers).filter fun bh => (s.request bh).isSome).card

theorem outstanding_request {s s' : Caches} {bh : ℕ} {rw : Rw}
    (h : s'.request = Function.update s.request bh (some rw)) :
    outstanding c s' ≤ outstanding c s + 1 := by
  have hsub : ((Finset.range c.nrBuffers).filter fun j => (s'.request j).isSome) ⊆
      insert bh ((Finset.range c.nrBuffers).filter fun j => (s.request j).isSome) := by
    intro j hj
    rw [Finset.mem_filter, h] at hj
    rw [Finset.mem_insert, Finset.mem_filter]
    by_cases hjb : j = bh
    · exact .inl hjb
    · rw [Function.update_of_ne hjb] at hj
      exact .inr hj
  exact (Finset.card_le_card hsub).trans (Finset.card_insert_le _ _)

theorem outstanding_finish {s : Caches} {bh : ℕ} {rw : Rw} (hbh : bh < c.nrBuffers)
    (hr : s.request bh = some rw) (ok : Bool) (block : Data) :
    outstanding c (Cache.finish s bh rw ok block) < outstanding c s := by
  refine Finset.card_lt_card ⟨fun j hj => ?_, fun hc => ?_⟩
  · rw [Finset.mem_filter] at hj ⊢
    by_cases hjb : j = bh
    · rw [hjb, (finish_self s bh rw ok block).2.2] at hj
      exact absurd hj.2 (by simp)
    · rw [(finish_other s rw ok block hjb).2] at hj
      exact hj
  · have hmem := hc (Finset.mem_filter.mpr ⟨Finset.mem_range.mpr hbh, by rw [hr]; rfl⟩)
    rw [Finset.mem_filter, (finish_self s bh rw ok block).2.2] at hmem
    exact absurd hmem.2 (by simp)

/-! ### Steps -/

section Steps
variable {s₀ s s' : Caches} {bufs inodes : List ℕ} {f : Frame} {e : Event} {x : Exit}
  {τ : Task Frame Kont}

theorem scanFree_mem (buf : ℕ → BufferHead) (l : List ℕ) (found : Option ℕ) {bh : ℕ}
    (h : scanFree buf l found = some bh) :
    (bh ∈ l ∧ (buf bh).count = 0) ∨ found = some bh := by
  induction l generalizing found with
  | nil => exact .inr h
  | cons a l ih =>
    simp only [scanFree] at h
    split_ifs at h with hcount hbad hgood
    · exact (ih _ h).imp (fun h => ⟨List.mem_cons_of_mem a h.1, h.2⟩) fun h => h
    · obtain rfl := Option.some.inj h
      exact .inl ⟨List.mem_cons_self, by simpa using hcount⟩
    · rcases ih _ h with h | h
      · exact .inl ⟨List.mem_cons_of_mem a h.1, h.2⟩
      · obtain rfl := Option.some.inj h
        exact .inl ⟨List.mem_cons_self, by simpa using hcount⟩
    · exact (ih _ h).imp (fun h => ⟨List.mem_cons_of_mem a h.1, h.2⟩) fun h => h

/-- The walk over the free list ends with a buffer no worse than any that is free. -/
theorem scanFree_best (buf : ℕ → BufferHead) (l : List ℕ) (found : Option ℕ) :
    (∀ a ∈ l, (buf a).count = 0 → ∃ bh, scanFree buf l found = some bh ∧
      badness (buf bh) ≤ badness (buf a)) ∧
    ∀ a, found = some a → ∃ bh, scanFree buf l found = some bh ∧
      badness (buf bh) ≤ badness (buf a) := by
  induction l generalizing found with
  | nil => exact ⟨fun a ha => absurd ha List.not_mem_nil, fun a ha => ⟨a, ha, le_refl _⟩⟩
  | cons t l ih =>
    simp only [scanFree]
    split_ifs with hcount hbad hgood
    · refine ⟨fun a ha h0 => ?_, (ih found).2⟩
      rcases List.mem_cons.mp ha with rfl | ha
      · exact absurd h0 hcount
      · exact (ih found).1 a ha h0
    · refine ⟨fun a _ _ => ⟨t, rfl, by omega⟩, fun a _ => ⟨t, rfl, by omega⟩⟩
    · refine ⟨fun a ha h0 => ?_, fun a ha => ?_⟩
      · rcases List.mem_cons.mp ha with rfl | ha
        · exact (ih (some a)).2 a rfl
        · exact (ih (some t)).1 a ha h0
      · obtain ⟨bh, hbh, hle⟩ := (ih (some t)).2 t rfl
        have hlt : badness (buf t) < badness (buf a) := by simpa [ha] using hbad
        exact ⟨bh, hbh, by omega⟩
    · refine ⟨fun a ha h0 => ?_, (ih found).2⟩
      rcases List.mem_cons.mp ha with rfl | ha
      · cases hfound : found with
        | none => exact absurd (by simp [hfound]) hbad
        | some b =>
          obtain ⟨bh, hbh, hle⟩ := (ih found).2 b hfound
          have hge : badness (buf b) ≤ badness (buf a) := by simpa [hfound] using hbad
          exact ⟨bh, by rw [← hfound]; exact hbh, by omega⟩
      · exact (ih found).1 a ha h0

/-- A spare buffer is there, so a clean one is picked. -/
theorem scanFree_spare (hspare : (spare c none s).Nonempty) :
    ∃ bh, scanFree s.buf s.freeList none = some bh ∧ (s.buf bh).dirt = false := by
  obtain ⟨a, ha⟩ := hspare
  obtain ⟨-, -, hmem, hcount, hclean⟩ := mem_spare.mp ha
  obtain ⟨bh, hbh, hle⟩ := (scanFree_best s.buf s.freeList none).1 a hmem hcount
  refine ⟨bh, hbh, ?_⟩
  have hlock : (s.buf a).lock.toNat ≤ 1 := Bool.toNat_le _
  unfold badness at hle
  rw [hclean] at hle
  cases hd : (s.buf bh).dirt with
  | false => rfl
  | true =>
    rw [hd] at hle
    simp only [Bool.toNat_true, Bool.toNat_false] at hle
    omega

/-- How far a step of `bread` for inode `i` gets. -/
inductive Fetched (c : Config) (s₀ s' : Caches) (i dev block : ℕ) (rest : List Kont) (n : ℕ) :
    Task Frame Kont → Prop where
  | on {held : Option ℕ} {f : Frame} {l : List Kont} {r : ℕ} (h : Gathering c s₀ held s' i)
      (hf : Fetching c s' dev block held f l r) (hlt : r + outstanding c s' < n) :
      Fetched c s₀ s' i dev block rest n ⟨f, l ++ .writeInode i :: rest⟩
  | got {bh : ℕ} (h : Gathering c s₀ (some bh) s' i) (hin : blockIn (s'.buf bh) = (dev, block))
      (hup : (s'.buf bh).uptodate = true) (hidle : Idle s' bh) (hlt : 3 + outstanding c s' < n) :
      Fetched c s₀ s' i dev block rest n ⟨.writeInodeGot i (some bh), rest⟩
  | lost {f : Frame} {l : List Kont} (hno : ¬ Room c s₀) (h : Syncing i f l) :
      Fetched c s₀ s' i dev block rest n ⟨f, l ++ rest⟩

theorem Reading.step {i dev block bh r : ℕ} {ks rest : List Kont}
    (h : Gathering c s₀ (some bh) s i) (hin : blockIn (s.buf bh) = (dev, block))
    (hdriven : Driven c dev) (hf : Reading s bh f ks r) (hb : Block c f s e s' x)
    (hn : (⟨f, ks ++ .writeInode i :: rest⟩ : Task Frame Kont).next (machine c) x = some τ)
    (hx : x.sleeps = false) :
    s'.inode = s.inode ∧ Fetched c s₀ s' i dev block rest (r + outstanding c s) τ := by
  cases hf with
  | got hi =>
    have hb := buffer_block rfl hb
    simp only [bufferStep] at hb
    split at hb
    · next hup =>
      simp only [Option.some.injEq, Prod.mk.injEq] at hb
      obtain ⟨rfl, rfl, rfl⟩ := hb
      simp only [Task.next, List.nil_append, machine, resume, Option.some.injEq] at hn
      subst hn
      exact ⟨rfl, .got h hin hup hi (by omega)⟩
    · next hup =>
      simp only [Option.some.injEq, Prod.mk.injEq] at hb
      obtain ⟨rfl, rfl, rfl⟩ := hb
      simp only [Task.next, List.nil_append, Option.some.injEq] at hn
      subst hn
      have hd : (s.buf bh).dirt = false := by
        by_contra hc
        exact hup (h.dirty bh (by simpa using hc)).1
      exact ⟨rfl, .on (l := [.breadRead bh]) h (.inner hin (.start hi hd)) (by omega)⟩
  | start hi hd =>
    cases Flushing.start.block hb with
    | stay => exact absurd hx (by simp [Ctl.sleeps])
    | noDriver hno =>
      refine absurd ?_ hno
      rwa [(Prod.mk.inj hin).1]
    | enter =>
      simp only [Task.next, Option.some.injEq] at hn
      subst hn
      exact ⟨rfl, .on (l := [.breadRead bh]) h (.inner hin (.lock hi hd)) (by omega)⟩
  | lock hi hd =>
    cases Flushing.lock.block hb with
    | stay => exact absurd hx (by simp [Ctl.sleeps])
    | nothing _ hno =>
      simp only [Task.next, List.cons_append, machine, resume, Option.some.injEq] at hn
      subst hn
      have hup : (s.buf bh).uptodate = true := by simpa using hno
      exact ⟨rfl, .on (l := []) h (.inner hin (.done hi hup)) (by omega)⟩
    | lock hl =>
      simp only [Task.next, Option.some.injEq] at hn
      subst hn
      have hk := Keeps.lockBuf s bh
      refine ⟨rfl, .on (l := [.breadRead bh]) (h.keeps hk)
        (.inner (by rw [hk.blockIn, hin]) (.make ?_ hi.2 ?_)) (Nat.add_lt_add_right (by decide) _)⟩
      · simp [Caches.setBuf]
      · rw [hk.dirt, hd]
  | make hl hreq hd =>
    cases Flushing.make.block hb with
    | stay => exact absurd hx (by simp [Ctl.sleeps])
    | make =>
      simp only [Task.next, List.cons_append, machine, resume, Option.some.injEq] at hn
      subst hn
      have hk := Keeps.request_read hd
      have hout := @outstanding_request c s { s.setBuf bh { s.buf bh with
        dirt := false } with request := Function.update s.request bh (some .read) } _ _ rfl
      refine ⟨rfl, .on (l := []) (h.keeps hk) (.inner (by rw [hk.blockIn, hin]) (.wait ?_ ?_ ?_))
        (by omega)⟩
      · exact Function.update_self ..
      · simpa [Caches.setBuf] using hl
      · rw [hk.dirt, hd]
  | wait hr hl hd =>
    have hb := buffer_block rfl hb
    simp only [bufferStep, if_pos hl, Option.some.injEq, Prod.mk.injEq] at hb
    obtain ⟨-, -, rfl⟩ := hb
    exact absurd hx (by simp [Ctl.sleeps])
  | done hi hup =>
    have hb := buffer_block rfl hb
    simp only [bufferStep, hi.1, hup, if_true, Bool.false_eq_true, if_false, Option.some.injEq,
      Prod.mk.injEq] at hb
    obtain ⟨rfl, rfl, rfl⟩ := hb
    simp only [Task.next, List.nil_append, machine, resume, Option.some.injEq] at hn
    subst hn
    exact ⟨rfl, .got h hin hup hi (by omega)⟩

/-- `bread` fetches the block of the inode and keeps what is gathered. It gets lost only when there is
    no room. -/
theorem Fetching.step {i dev block r : ℕ} {held : Option ℕ} {ks rest : List Kont}
    (h : Gathering c s₀ held s i) (hi : i < NR_INODE) (hd : Dirty (s.inode i))
    (hblock : blockOf c (s.inode i) = (dev, block)) (hdriven : Driven c dev) (hne : dev ≠ 0)
    (hf : Fetching c s dev block held f ks r) (hb : Block c f s e s' x)
    (hn : (⟨f, ks ++ .writeInode i :: rest⟩ : Task Frame Kont).next (machine c) x = some τ)
    (hx : x.sleeps = false) :
    s'.inode = s.inode ∧ Fetched c s₀ s' i dev block rest (r + outstanding c s) τ := by
  cases hf with
  | bread =>
    have hb := buffer_block rfl hb
    simp only [bufferStep, Option.some.injEq, Prod.mk.injEq] at hb
    obtain ⟨rfl, rfl, rfl⟩ := hb
    simp only [Task.next, List.nil_append, Option.some.injEq] at hn
    subst hn
    exact ⟨rfl, .on (l := [.bread]) h .getblk (by omega)⟩
  | getblk =>
    have hb := buffer_block rfl hb
    simp only [bufferStep] at hb
    split at hb
    · next bh hfind =>
      simp only [Option.some.injEq, Prod.mk.injEq] at hb
      obtain ⟨rfl, rfl, rfl⟩ := hb
      simp only [Task.next, Option.some.injEq] at hn
      subst hn
      obtain ⟨hdev, hnr⟩ := find_some hfind
      have hin : blockIn (s.buf bh) = (dev, block) := Prod.ext hdev hnr
      refine ⟨rfl, .on (l := [.bread]) (h.hold hi hd (hblock.trans hin.symm) (by rwa [hdev]))
        (.found ?_ ?_) (Nat.add_lt_add_right (by decide) _)⟩
      · simpa [Caches.holdBuf, Caches.setBuf, blockIn] using hin
      · simpa [Caches.holdBuf, Caches.setBuf, Idle] using h.idle bh (by simp)
    · next hfind =>
      split at hb
      · simp only [Option.some.injEq, Prod.mk.injEq] at hb
        obtain ⟨-, -, rfl⟩ := hb
        exact absurd hx (by simp [Ctl.sleeps])
      · next bh hscan =>
        simp only [Option.some.injEq, Prod.mk.injEq] at hb
        obtain ⟨rfl, rfl, rfl⟩ := hb
        simp only [Task.next, Option.some.injEq] at hn
        subst hn
        obtain ⟨hmem, hcount⟩ : bh ∈ s.freeList ∧ (s.buf bh).count = 0 := by
          simpa using scanFree_mem s.buf s.freeList none hscan
        refine ⟨rfl, .on (l := [.bread]) h (.free hmem hcount hfind fun hdirt => ?_) (by omega)⟩
        by_contra hc
        obtain ⟨a, ha, hclean⟩ := scanFree_spare (Finset.nonempty_iff_ne_empty.mpr hc)
        obtain rfl : bh = a := Option.some.inj (hscan.symm.trans ha)
        exact absurd (hclean.symm.trans hdirt) (by simp)
  | @found bh hin hidle =>
    have hb := buffer_block rfl hb
    have hsame : (s.buf bh).dev = dev ∧ (s.buf bh).blocknr = block := by simpa [blockIn] using hin
    simp only [bufferStep, hidle.1, Bool.false_eq_true, if_false, if_pos hsame, Option.some.injEq,
      Prod.mk.injEq] at hb
    obtain ⟨rfl, rfl, rfl⟩ := hb
    simp only [Task.next, List.cons_append, machine, resume, Option.some.injEq] at hn
    subst hn
    exact ⟨rfl, .on (l := []) h (.inner hin (.got hidle)) (by omega)⟩
  | @free bh hmem hcount hfind hpick =>
    have hb := buffer_block rfl hb
    simp only [bufferStep, (h.idle bh (by simp)).1, Bool.false_eq_true, if_false, ne_eq, hcount,
      not_true, Option.some.injEq, Prod.mk.injEq] at hb
    obtain ⟨rfl, rfl, rfl⟩ := hb
    simp only [Task.next, Option.some.injEq] at hn
    subst hn
    exact ⟨rfl, .on (l := [.bread]) h (.take hmem hcount hfind hpick) (by omega)⟩
  | @take bh hmem hcount hfind hpick =>
    have hb := buffer_block rfl hb
    simp only [bufferStep] at hb
    split at hb
    · next hdirt =>
      simp only [Option.some.injEq, Prod.mk.injEq] at hb
      obtain ⟨rfl, rfl, rfl⟩ := hb
      simp only [Task.next, Option.some.injEq] at hn
      subst hn
      refine ⟨rfl, .lost (l := [.getblkSynced dev block bh, .bread, .writeInode i]) (fun hroom => ?_)
        (.sync _ 0 dev block bh)⟩
      exact (h.cost hi hd hblock hne hfind hroom).ne_empty (hpick hdirt)
    · next hdirt =>
      rw [hfind] at hb
      simp only [Option.some.injEq, Prod.mk.injEq] at hb
      obtain ⟨rfl, rfl, rfl⟩ := hb
      simp only [Task.next, List.cons_append, machine, resume, Option.some.injEq] at hn
      subst hn
      have hspare : bh ∈ spare c none s :=
        mem_spare.mpr ⟨h.free bh hmem, by simp, hmem, hcount, by simpa using hdirt⟩
      have hself := retarget_self s bh dev block
      refine ⟨rfl, .on (l := []) (h.retarget hi hd hblock hne hspare hfind) (.inner ?_ (.got ?_))
        (Nat.add_lt_add_right (by decide) _)⟩
      · rw [hself]
        rfl
      · refine ⟨?_, (h.idle bh (by simp)).2⟩
        rw [hself]
        exact (h.idle bh (by simp)).1
  | inner hin hf => exact hf.step h hin hdriven hb hn hx

end Steps

/-- A step lowers the rank, or there is no room. -/
inductive Went (c : Config) (s₀ : Caches) (bufs inodes : List ℕ) (n : ℕ) (s : Caches)
    (τ : Task Frame Kont) : Prop where
  | on {r : ℕ} (h : At c s₀ bufs inodes s τ.top τ.conts r) (hlt : r + outstanding c s < n)
  | lost {i : ℕ} {rest : List Kont} (hno : ¬ Room c s₀) (h : Lost i rest s τ)

theorem gatherRank_succ {i : ℕ} (hi : i < NR_INODE) :
    gatherRank c i = gatherRank c (i + 1) + 16 := by
  unfold gatherRank
  omega

theorem settleRank_succ {i : ℕ} (hi : i < c.nrBuffers) :
    settleRank c i = settleRank c (i + 1) + 6 := by
  unfold settleRank
  omega

section Steps
variable {s₀ s s' : Caches} {bufs inodes : List ℕ} {f : Frame} {e : Event} {x : Exit}
  {τ : Task Frame Kont}

/-- `write_inode` locks the inode and asks for its block. -/
theorem At.lock_step (hr : Ready c s₀) (h0 : c.requestFn 0 = false) {i : ℕ} (hi : i < NR_INODE)
    (h : Gathering c s₀ none s i) (hl : ∀ j, (s.inode j).lock = false) (hp : Passed c s₀ i)
    (hd : Dirty (s.inode i)) (hb : Block c (.lockWrite i) s e s' x)
    (hn : (⟨.lockWrite i, [.syncInodes i, .sysSync 0, .user bufs inodes]⟩ :
      Task Frame Kont).next (machine c) x = some τ) :
    Went c s₀ bufs inodes (gatherRank c (i + 1) + 14 + outstanding c s) s' τ := by
  obtain ⟨_, hd₀, _, hdev, hnum⟩ := h.pending i hd
  have hne := (hr.dirtyInode i hi hd₀).2.2.ne_zero h0
  have hno : ¬ ((s.inode i).dirt = false ∨ (s.inode i).dev = 0) := by
    rw [hd.1, hdev]
    simpa using hne
  obtain ⟨sb, hsb⟩ := Option.ne_none_iff_exists'.mp (hr.dirtyInode i hi hd₀).2.1
  have hb := inode_block rfl hb
  simp only [inodeStep, hl i, Bool.false_eq_true, if_false] at hb
  rw [if_neg hno] at hb
  simp only [hdev, hnum, hsb, Option.some.injEq, Prod.mk.injEq] at hb
  obtain ⟨rfl, rfl, rfl⟩ := hb
  simp only [Task.next, Option.some.injEq] at hn
  subst hn
  have hk : Keeps none s (s.lockInode i) := .lockInode s i
  refine .on (.fetch (l := []) hi (h.keeps hk) ⟨fun j hj => ?_, ?_⟩ hp ((hk.dirtyInode i).mpr hd)
    (inodePlace_eq hsb) .bread) (Nat.add_lt_add_right (by omega) _)
  · simpa [Caches.lockInode, Caches.setInode, hj] using hl j
  · simp [Caches.lockInode, Caches.setInode]

/-- `write_inode` has the block of the inode: the buffer is dirty and the inode clean. -/
theorem At.got_step (hr : Ready c s₀) (h0 : c.requestFn 0 = false) {i dev block k bh : ℕ}
    (hi : i < NR_INODE) (h : Gathering c s₀ (some bh) s i) (hl : Alone s i) (hp : Passed c s₀ i)
    (hd : Dirty (s.inode i)) (hplace : inodePlace c (s₀.inode i) = some (dev, block, k))
    (hin : blockIn (s.buf bh) = (dev, block)) (hup : (s.buf bh).uptodate = true)
    (hidle : Idle s bh) (hb : Block c (.writeInodeGot i (some bh)) s e s' x)
    (hn : (⟨.writeInodeGot i (some bh), [.syncInodes i, .sysSync 0, .user bufs inodes]⟩ :
      Task Frame Kont).next (machine c) x = some τ) :
    Went c s₀ bufs inodes (gatherRank c (i + 1) + 3 + outstanding c s) s' τ := by
  have hb := inode_block rfl hb
  simp only [inodeStep, Option.some.injEq, Prod.mk.injEq] at hb
  obtain ⟨rfl, rfl, rfl⟩ := hb
  simp only [Task.next, Option.some.injEq] at hn
  subst hn
  obtain ⟨_, hd₀, _⟩ := h.pending i hd
  have hne : (s.buf bh).dev ≠ 0 := by
    have hdriven := (hr.dirtyInode i hi hd₀).2.2
    rw [(Prod.mk.inj hin).1, ← (Prod.mk.inj (blockOf_eq hplace)).1]
    exact hdriven.ne_zero h0
  have hw := h.write hr h0 hi hd hplace (h.below hne) hin hup
  refine .on (.release hi hw (fun j hj => ?_) hp hd₀ ?_ ?_ ?_) (Nat.add_lt_add_right (by omega) _)
  · exact (congrArg Inode.lock (Function.update_of_ne hj _ _)).trans (hl j hj)
  · rw [blockOf_eq hplace]
    simpa [Caches.setBuf, Caches.setInode, blockIn] using hin
  · simp [Caches.setBuf, Caches.setInode]
  · simpa [Caches.setBuf, Caches.setInode, Idle] using hidle

/-- The buffer of inode `i` is given back, so its count was below 255 at first too. -/
theorem At.release_step (h0 : c.requestFn 0 = false) {i bh : ℕ}
    (h : Gathering c s₀ (some bh) s (i + 1)) (hl : Alone s i) (hp : Passed c s₀ i)
    (hin : blockIn (s.buf bh) = blockOf c (s₀.inode i)) (hd : (s.buf bh).dirt = true)
    (hidle : Idle s bh) (hb : Block c (.waitRelease bh) s e s' x)
    (hn : (⟨.waitRelease bh, [.writeInodeEnd i, .syncInodes i, .sysSync 0, .user bufs inodes]⟩ :
      Task Frame Kont).next (machine c) x = some τ) :
    Went c s₀ bufs inodes (gatherRank c (i + 1) + 2 + outstanding c s) s' τ := by
  have hb := buffer_block rfl hb
  simp only [bufferStep, hidle.1, Bool.false_eq_true, if_false] at hb
  split at hb
  all_goals simp only [Option.some.injEq, Prod.mk.injEq] at hb
  all_goals obtain ⟨rfl, rfl, rfl⟩ := hb
  all_goals simp only [Task.next, machine, resume, reduceCtorEq, Option.some.injEq] at hn
  next hcount =>
    subst hn
    refine .on (.unlock (h.drop hd hcount hidle) hl fun j hj hdj bh' hbh' hplace => ?_)
      (Nat.add_lt_add_right (by omega) _)
    rcases Nat.lt_succ_iff_lt_or_eq.mp hj with hj | rfl
    · exact hp j hj hdj bh' hbh' hplace
    · -- such a buffer would be the one that is held, and its count zero
      intro hfull
      have hsame : blockIn (s.buf bh') = blockIn (s.buf bh) := by
        rw [h.counts.block bh' hfull, hplace, hin]
      obtain ⟨hdev, hnr⟩ := Prod.mk.inj hsame
      have hne : (s.buf bh').dev ≠ 0 := by
        rw [hdev]
        exact (h.dirty bh hd).2.ne_zero h0
      obtain rfl := h.indexed.unique bh' bh hne hdev hnr
      exact hcount ((h.counts.used bh' rfl).mpr hfull)

theorem At.step (hr : Ready c s₀) (h0 : c.requestFn 0 = false) (hu : ∀ s a, ¬ c.may s a)
    {ks : List Kont} {r : ℕ} (h : At c s₀ bufs inodes s f ks r) (hb : Block c f s e s' x)
    (hn : (⟨f, ks⟩ : Task Frame Kont).next (machine c) x = some τ) (hx : x.sleeps = false) :
    Went c s₀ bufs inodes (r + outstanding c s) s' τ := by
  cases h with
  | enter h hl =>
    have hb := buffer_block rfl hb
    simp only [bufferStep, Option.some.injEq, Prod.mk.injEq] at hb
    obtain ⟨rfl, rfl, rfl⟩ := hb
    simp only [Task.next, Option.some.injEq] at hn
    subst hn
    exact .on (.inodes h hl fun j hj => absurd hj (Nat.not_lt_zero j)) (by omega)
  | @inodes i h hl hp =>
    have hb := inode_block rfl hb
    simp only [inodeStep] at hb
    split at hb
    all_goals simp only [Option.some.injEq, Prod.mk.injEq] at hb
    all_goals obtain ⟨rfl, rfl, rfl⟩ := hb
    all_goals simp only [Task.next, machine, resume, Option.some.injEq] at hn
    all_goals subst hn
    next hi =>
      have hrank := gatherRank_succ (c := c) hi
      exact .on (.inode hi h hl hp) (by omega)
    next hi =>
      have hrank : settleRank c 0 < gatherRank c i := by
        unfold gatherRank
        omega
      exact .on (.buffers (h.settling h0 (by omega) hp)) (by omega)
  | @inode i hi h hl hp =>
    have hb := inode_block rfl hb
    simp only [inodeStep, hl i, Bool.false_eq_true, if_false] at hb
    split at hb
    all_goals simp only [Option.some.injEq, Prod.mk.injEq] at hb
    all_goals obtain ⟨rfl, rfl, rfl⟩ := hb
    all_goals simp only [Task.next, Option.some.injEq] at hn
    all_goals subst hn
    next hd => exact .on (.lock hi h hl hp hd) (by omega)
    next hd =>
      refine .on (.inodes (h.clean hd) hl fun j hj hdj => ?_) (by omega)
      rcases Nat.lt_succ_iff_lt_or_eq.mp hj with hj | rfl
      · exact hp j hj hdj
      · exact absurd (h.later j (le_refl j) hdj) hd
  | lock hi h hl hp hd => exact At.lock_step hr h0 hi h hl hp hd hb hn
  | @fetch i dev block k r held _ ks hi h hl hp hd hplace hf =>
    obtain ⟨_, hd₀, _, hdev, hnum⟩ := h.pending i hd
    have hblock : blockOf c (s.inode i) = (dev, block) := by
      rw [← blockOf_eq hplace, blockOf, blockOf, hdev, hnum]
    have hdriven : Driven c dev := by
      rw [← (Prod.mk.inj hblock).1, hdev]
      exact (hr.dirtyInode i hi hd₀).2.2
    obtain ⟨hinode, hτ⟩ := hf.step h hi hd hblock hdriven (hdriven.ne_zero h0) hb hn hx
    unfold Alone at hl
    rw [← hinode] at hd hl
    cases hτ with
    | on h hf hlt => exact .on (.fetch hi h hl hp hd hplace hf) (by omega)
    | got h hin hup hidle hlt => exact .on (.got hi h hl.1 hp hd hplace hin hup hidle) (by omega)
    | lost hno hlost =>
      refine .lost hno ⟨hi, hl.2, fun j hj => ?_, _, rfl, hlost⟩
      rw [hinode]
      exact h.walked j hj (by omega)
  | got hi h hl hp hd hplace hin hup hidle =>
    exact At.got_step hr h0 hi h hl hp hd hplace hin hup hidle hb hn
  | release _ h hl hp _ hin hd hidle => exact At.release_step h0 h hl hp hin hd hidle hb hn
  | @unlock i h hl hp =>
    have hb := inode_block rfl hb
    simp only [inodeStep, Option.some.injEq, Prod.mk.injEq] at hb
    obtain ⟨rfl, rfl, rfl⟩ := hb
    simp only [Task.next, machine, resume, Option.some.injEq] at hn
    subst hn
    refine .on (.inodes (h.keeps (.unlockInode s i)) (fun j => ?_) hp)
      (Nat.add_lt_add_right (by omega) _)
    by_cases hj : j = i
    · simp [Caches.unlockInode, Caches.setInode, hj]
    · simpa [Caches.unlockInode, Caches.setInode, hj] using hl j hj
  | @buffers i h =>
    have hb := buffer_block rfl hb
    simp only [bufferStep] at hb
    split at hb
    all_goals simp only [Option.some.injEq, Prod.mk.injEq] at hb
    all_goals obtain ⟨rfl, rfl, rfl⟩ := hb
    all_goals simp only [Task.next, machine, resume, Option.some.injEq] at hn
    all_goals subst hn
    next hi =>
      have hrank := settleRank_succ (c := c) hi
      exact .on (.buffer hi h) (by omega)
    next hi =>
      have hrank : 0 < settleRank c i := Nat.succ_pos _
      exact .on (.back (by omega) h) (by omega)
  | @buffer i hi h =>
    have hb := buffer_block rfl hb
    simp only [bufferStep] at hb
    split at hb
    · simp only [Option.some.injEq, Prod.mk.injEq] at hb
      obtain ⟨-, -, rfl⟩ := hb
      exact absurd hx (by simp [Ctl.sleeps])
    · split at hb
      all_goals simp only [Option.some.injEq, Prod.mk.injEq] at hb
      all_goals obtain ⟨rfl, rfl, rfl⟩ := hb
      all_goals simp only [Task.next, Option.some.injEq] at hn
      all_goals subst hn
      next hd => exact .on (.flush hi h) (by omega)
      next hd => exact .on (.buffers (h.clean_succ (by simpa using hd))) (by omega)
  | @flush i hi h =>
    cases Flushing.start.block hb with
    | stay => exact absurd hx (by simp [Ctl.sleeps])
    | noDriver hno =>
      simp only [Task.next, machine, resume, Option.some.injEq] at hn
      subst hn
      refine .on (.buffers (h.clean_succ ?_)) (by omega)
      by_contra hc
      exact hno (h.driven i (by simpa using hc))
    | enter =>
      simp only [Task.next, Option.some.injEq] at hn
      subst hn
      exact .on (.flushLock hi h) (by omega)
  | @flushLock i hi h =>
    cases Flushing.lock.block hb with
    | stay => exact absurd hx (by simp [Ctl.sleeps])
    | nothing _ hno =>
      simp only [Task.next, machine, resume, Option.some.injEq] at hn
      subst hn
      rcases hno with ⟨_, hd⟩ | ⟨hrw, _⟩
      · exact .on (.buffers (h.clean_succ hd)) (by omega)
      · exact absurd hrw (by simp)
    | lock hl =>
      simp only [Task.next, Option.some.injEq] at hn
      subst hn
      exact .on (.flushMake hi (h.lock i)) (Nat.add_lt_add_right (by omega) _)
  | @flushMake i hi h =>
    cases Flushing.make.block hb with
    | stay => exact absurd hx (by simp [Ctl.sleeps])
    | make =>
      simp only [Task.next, machine, resume, Option.some.injEq] at hn
      subst hn
      have hout := @outstanding_request c s { s.setBuf i { s.buf i with
        dirt := false } with request := Function.update s.request i (some .write) } _ _ rfl
      exact .on (.buffers (h.write hi)) (by omega)
  | back hi h =>
    cases hb with
    | yield => exact absurd hx (by simp [Ctl.sleeps])
    | act ha _ => exact absurd ha (hu _ _)
    | buffers h => simp [bufferStep] at h
    | inodes h => simp [inodeStep] at h
    | put h => simp [iputStep] at h
    | get h => simp [igetStep] at h

/-- In the walk over the inodes only the buffer that is held is read. -/
theorem Fetching.finish {i dev block j r : ℕ} {held : Option ℕ} {rw : Rw} {ks : List Kont}
    (h : Gathering c s₀ held s i) (hne : dev ≠ 0) (hf : Fetching c s dev block held f ks r)
    (hj : s.request j = some rw) : j < c.nrBuffers ∧
      Gathering c s₀ held (Cache.finish s j rw true (transferred s j rw)) i ∧
      Fetching c (Cache.finish s j rw true (transferred s j rw)) dev block held f ks r := by
  have hbusy : ¬ Idle s j := fun hc => absurd (hc.2.symm.trans hj) (by simp)
  have hheld : held = some j := by
    by_contra hc
    exact hbusy (h.idle j hc)
  subst hheld
  cases hf with
  | found _ hi => exact absurd hi hbusy
  | inner hin hf =>
    cases hf with
    | got hi => exact absurd hi hbusy
    | start hi => exact absurd hi hbusy
    | lock hi => exact absurd hi hbusy
    | make _ hreq => exact absurd (hreq.symm.trans hj) (by simp)
    | done hi => exact absurd hi hbusy
    | wait hr _ hd =>
      obtain rfl : Rw.read = rw := Option.some.inj (hr.symm.trans hj)
      have hk := Keeps.finish hd true (transferred s j .read)
      refine ⟨h.below (by rwa [(Prod.mk.inj hin).1]), h.keeps hk,
        .inner (by rw [hk.blockIn, hin]) (.done (finish_self s j .read true _).2 ?_)⟩
      simp [Cache.finish, Caches.setBuf]

/-- An interrupt lowers the rank. -/
theorem At.finish (hready : Ready c s₀) (h0 : c.requestFn 0 = false) {bh r : ℕ} {rw : Rw}
    {ks : List Kont} (h : At c s₀ bufs inodes s f ks r) (hr : s.request bh = some rw) : bh < c.nrBuffers ∧
      At c s₀ bufs inodes (Cache.finish s bh rw true (transferred s bh rw)) f ks r := by
  have hi := finish_inode s bh rw true (transferred s bh rw)
  have hbusy : ¬ Idle s bh := fun hc => absurd (hc.2.symm.trans hr) (by simp)
  have hgather : ∀ {i : ℕ}, Gathering c s₀ none s i → False :=
    fun h => hbusy (h.idle bh (by simp))
  have hheld : ∀ {i b : ℕ}, Gathering c s₀ (some b) s i → Idle s b → False := by
    intro i b h hidle
    by_cases hb : b = bh
    · exact hbusy (by rwa [← hb])
    · exact hbusy (h.idle bh (by simpa using hb))
  cases h with
  | enter h => exact (hgather h).elim
  | inodes h => exact (hgather h).elim
  | inode _ h => exact (hgather h).elim
  | lock _ h => exact (hgather h).elim
  | @fetch i dev block k _ held _ _ hlt h hl hp hd hplace hf =>
    have hne : dev ≠ 0 := by
      rw [← (Prod.mk.inj (blockOf_eq hplace)).1]
      exact (hready.dirtyInode i hlt (h.pending i hd).2.1).2.2.ne_zero h0
    obtain ⟨hbh, h', hf'⟩ := hf.finish h hne hr
    unfold Alone at hl
    rw [← hi] at hl hd
    exact ⟨hbh, .fetch hlt h' hl hp hd hplace hf'⟩
  | got _ h _ _ _ _ _ _ hidle => exact (hheld h hidle).elim
  | release _ h _ _ _ _ _ hidle => exact (hheld h hidle).elim
  | unlock h => exact (hgather h).elim
  | buffers h => exact ⟨h.below bh (by simp [hr]), .buffers (h.finish hr)⟩
  | buffer hi h => exact ⟨h.below bh (by simp [hr]), .buffer hi (h.finish hr)⟩
  | flush hi h => exact ⟨h.below bh (by simp [hr]), .flush hi (h.finish hr)⟩
  | flushLock hi h => exact ⟨h.below bh (by simp [hr]), .flushLock hi (h.finish hr)⟩
  | flushMake hi h => exact ⟨h.below bh (by simp [hr]), .flushMake hi (h.finish hr)⟩
  | back hi h => exact ⟨h.below bh (by simp [hr]), .back hi (h.finish hr)⟩

end Steps

end Linux011.SysSync
