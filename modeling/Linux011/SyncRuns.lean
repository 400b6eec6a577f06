import Linux011.SyncSteps
import Mathlib

set_option autoImplicit false

/-!
# What sys_sync leaves on the disk

It returns if and only if there is room.
-/
namespace Linux011.SysSync
open CooperativeTasks Cache BufferHeads

variable {c : Config} {s₀ s s' : Caches} {bufs inodes : List ℕ}

/-- The disk has every dirty inode and the content of every dirty block, and nothing is dirty. -/
structure Matches (c : Config) (s₀ s : Caches) : Prop where
  inodes : ∀ i < NR_INODE, Dirty (s₀.inode i) → ∃ dev block k,
    inodePlace c (s₀.inode i) = some (dev, block, k) ∧ s.disk dev block k = (s₀.inode i).disk
  buffers : ∀ bh k, (s₀.buf bh).dirt = true →
    (∀ i < NR_INODE, Dirty (s₀.inode i) →
      inodePlace c (s₀.inode i) ≠ some ((s₀.buf bh).dev, (s₀.buf bh).blocknr, k)) →
    s.disk (s₀.buf bh).dev (s₀.buf bh).blocknr k = (s₀.buf bh).data k
  clean : ∀ bh, (s.buf bh).dirt = false
  written : ∀ i < NR_INODE, ¬ Dirty (s.inode i)

/-- `sys_sync` is back in user mode, the requests are carried out, and the disk matches. -/
def Synced (c : Config) (s₀ : Caches) (bufs inodes : List ℕ) (s : Caches)
    (τ : Task Frame Kont) : Prop :=
  τ = ⟨.user bufs inodes, []⟩ ∧ (∀ bh, s.request bh = none) ∧ Matches c s₀ s

theorem Settling.synced {i : ℕ} (h : Settling c s₀ none s i) (hr : Ready c s₀)
    (hi : c.nrBuffers ≤ i) (hdrained : ∀ bh, s.request bh = none) : Matches c s₀ s := by
  have hclean : ∀ bh, (s.buf bh).dirt = false := fun bh => h.clean bh (by omega)
  have hdisk : ∀ dev block k v, Wanted c s₀ dev block k v → s.disk dev block k = v := by
    intro dev block k v hw
    obtain ⟨_, bh, _, _, _, hd⟩ := h.wanted dev block k v hw
    simpa [hclean bh, hdrained bh] using hd
  refine ⟨fun j hj hd => ?_, fun bh k hd hno => hdisk _ _ _ _ (.buffer hd hno), hclean, h.inodes⟩
  obtain ⟨sb, hsb⟩ := Option.ne_none_iff_exists'.mp (hr.dirtyInode j hj hd).2.1
  exact ⟨_, _, _, inodePlace_eq hsb, hdisk _ _ _ _ (.inode hj hd (inodePlace_eq hsb))⟩

/-! ### Waiting changes nothing -/

theorem block_sleep {f g : Frame} {e : Event} (h : Block c f s e s' (.sleep g)) :
    s' = s ∧ g = f := by
  cases h with
  | yield => exact ⟨rfl, rfl⟩
  | full => exact ⟨rfl, rfl⟩
  | act _ h =>
    revert h
    fun_cases userStep <;> intro h
    all_goals simp only [reduceCtorEq, Option.some.injEq, Prod.mk.injEq, and_false] at h
  | buffers h =>
    revert h
    fun_cases bufferStep c s f <;> intro h
    all_goals simp only [reduceCtorEq, Option.some.injEq, Prod.mk.injEq, Ctl.sleep.injEq,
      and_false] at h
    all_goals exact ⟨h.2.1.symm, h.2.2.symm⟩
  | inodes h =>
    revert h
    fun_cases inodeStep c s f <;> intro h
    all_goals simp only [reduceCtorEq, Option.some.injEq, Prod.mk.injEq, Ctl.sleep.injEq,
      and_false] at h
    all_goals exact ⟨h.2.1.symm, h.2.2.symm⟩
  | put h =>
    revert h
    fun_cases iputStep c s f <;> intro h
    all_goals simp only [reduceCtorEq, Option.some.injEq, Prod.mk.injEq, Ctl.sleep.injEq,
      and_false] at h
    all_goals exact ⟨h.2.1.symm, h.2.2.symm⟩
  | get h =>
    revert h
    fun_cases igetStep c s f <;> intro h
    all_goals simp only [reduceCtorEq, Option.some.injEq, Prod.mk.injEq, Ctl.sleep.injEq,
      and_false] at h
    all_goals exact ⟨h.2.1.symm, h.2.2.symm⟩

/-! ### There is always something to do -/

def Advances (c : Config) (s : Caches) (f : Frame) (ks : List Kont) : Prop :=
  ∃ s' τ', Working (machine c) s ⟨f, ks⟩ s' τ'

theorem Advances.goto {f g : Frame} {ks : List Kont} {e : Event}
    (h : Block c f s e s' (.goto g)) : Advances c s f ks :=
  ⟨s', ⟨g, ks⟩, .block h rfl rfl⟩

theorem Advances.call {f g : Frame} {k : Kont} {ks : List Kont} {e : Event}
    (h : Block c f s e s' (.call g k)) : Advances c s f ks :=
  ⟨s', ⟨g, k :: ks⟩, .block h rfl rfl⟩

theorem Advances.ret {f : Frame} {k : Kont} {ks : List Kont} {e : Event} {v : Value}
    (h : Block c f s e s' (.ret v)) : Advances c s f (k :: ks) :=
  ⟨s', ⟨resume k v, ks⟩, .block h rfl rfl⟩

/-- A request can be carried out. -/
theorem Advances.interrupt {bh : ℕ} {rw : Rw} (h : s.request bh = some rw) (f : Frame)
    (ks : List Kont) : Advances c s f ks :=
  ⟨_, _, .interrupt ⟨bh, rw, true, _, h, rfl, rfl⟩⟩

theorem Flushing.advances {rw : Rw} {bh : ℕ} {f : Frame} {k : Kont} {ks : List Kont}
    (h : Flushing rw bh f) (hl : f = .lockBuffer rw bh → (s.buf bh).lock = false) :
    Advances c s f (k :: ks) := by
  cases h with
  | start =>
    by_cases hd : (s.buf bh).dev / 256 ≥ NR_BLK_DEV ∨ c.requestFn ((s.buf bh).dev / 256) = false
    · exact .ret (.buffers (by rw [bufferStep, if_pos hd]))
    · exact .goto (.buffers (by rw [bufferStep, if_neg hd]))
  | lock =>
    have hlock := hl rfl
    by_cases hd : (rw = .write ∧ (s.buf bh).dirt = false) ∨ (rw = .read ∧ (s.buf bh).uptodate = true)
    · exact .ret (.buffers (by rw [bufferStep, hlock, if_neg (by simp), if_pos hd]))
    · exact .goto (.buffers (by rw [bufferStep, hlock, if_neg (by simp), if_neg hd]))
  | make => exact .ret (.buffers rfl)

theorem Reading.advances {bh r : ℕ} {f : Frame} {ks rest : List Kont} {k : Kont}
    (h : Reading s bh f ks r) : Advances c s f (ks ++ k :: rest) := by
  cases h with
  | got hi =>
    by_cases hup : (s.buf bh).uptodate = true
    · exact .ret (.buffers (by rw [bufferStep, if_pos hup]))
    · exact .call (.buffers (by rw [bufferStep, if_neg hup]))
  | start hi => exact Flushing.start.advances (fun h => absurd h (by simp))
  | lock hi => exact Flushing.lock.advances fun _ => hi.1
  | make => exact Flushing.make.advances (fun h => absurd h (by simp))
  | wait hr => exact .interrupt hr _ _
  | done hi hup =>
    exact .ret (.buffers (by rw [bufferStep, hi.1, if_neg (by simp), if_pos hup]))

/-- With room for the block, `bread` goes on. -/
theorem Fetching.advances {i dev block r : ℕ} {held : Option ℕ} {f : Frame} {ks rest : List Kont}
    {k : Kont} (h : Gathering c s₀ held s i) (hi : i < NR_INODE) (hd : Dirty (s.inode i))
    (hblock : blockOf c (s.inode i) = (dev, block)) (hne : dev ≠ 0) (hroom : Room c s₀)
    (hf : Fetching c s dev block held f ks r) : Advances c s f (ks ++ k :: rest) := by
  cases hf with
  | bread => exact .call (.buffers rfl)
  | getblk =>
    cases hfind : findBuffer s dev block with
    | some bh => exact .goto (.buffers (by rw [bufferStep, hfind]))
    | none =>
      obtain ⟨bh, hscan, -⟩ := scanFree_spare (h.cost hi hd hblock hne hfind hroom)
      exact .goto (.buffers (by rw [bufferStep, hfind, hscan]))
  | found hin hidle =>
    have hsame : (s.buf _).dev = dev ∧ (s.buf _).blocknr = block := Prod.mk.inj hin
    exact .ret (.buffers (by rw [bufferStep, hidle.1, if_neg (by simp), if_pos hsame]))
  | @free bh _ hcount =>
    exact .goto (.buffers (by
      rw [bufferStep, (h.idle bh (by simp)).1, if_neg (by simp), if_neg (by simpa using hcount)]))
  | @take bh _ _ hfind =>
    by_cases hdirt : (s.buf bh).dirt = true
    · exact .call (.buffers (by rw [bufferStep, if_pos hdirt]))
    · exact .ret (.buffers (by rw [bufferStep, if_neg hdirt, hfind]))
  | inner _ hf => exact hf.advances

/-- With room, `sys_sync` goes on until it is back and the requests are carried out. -/
theorem At.advances (hr : Ready c s₀) (h0 : c.requestFn 0 = false) (hroom : Room c s₀) {r : ℕ}
    {f : Frame} {ks : List Kont} (h : At c s₀ bufs inodes s f ks r) :
    Synced c s₀ bufs inodes s ⟨f, ks⟩ ∨ Advances c s f ks := by
  cases h with
  | enter => exact .inr (.call (.buffers rfl))
  | @inodes i =>
    by_cases hi : i < NR_INODE
    · exact .inr (.goto (.inodes (by rw [inodeStep, if_pos hi])))
    · exact .inr (.ret (.inodes (by rw [inodeStep, if_neg hi])))
  | @inode i _ _ hl =>
    by_cases hd : (s.inode i).dirt = true ∧ (s.inode i).pipe = false
    · exact .inr (.call (.inodes (by rw [inodeStep, hl i, if_neg (by simp), if_pos hd])))
    · exact .inr (.goto (.inodes (by rw [inodeStep, hl i, if_neg (by simp), if_neg hd])))
  | @lock i hi h hl _ hd =>
    obtain ⟨_, hd₀, _, hdev, _⟩ := h.pending i hd
    have hne := (hr.dirtyInode i hi hd₀).2.2.ne_zero h0
    obtain ⟨sb, hsb⟩ := Option.ne_none_iff_exists'.mp (hr.dirtyInode i hi hd₀).2.1
    have hno : ¬ ((s.inode i).dirt = false ∨ (s.inode i).dev = 0) := by
      rw [hd.1, hdev]
      simpa using hne
    rw [← hdev] at hsb
    exact .inr (.call (.inodes (by rw [inodeStep, hl i, if_neg (by simp), if_neg hno, hsb])))
  | @fetch i dev block _ _ _ _ _ hi h _ _ hd hplace hf =>
    obtain ⟨_, hd₀, _, hdev, hnum⟩ := h.pending i hd
    have hblock : blockOf c (s.inode i) = (dev, block) := by
      rw [← blockOf_eq hplace, blockOf, blockOf, hdev, hnum]
    have hne : dev ≠ 0 := by
      rw [← (Prod.mk.inj hblock).1, hdev]
      exact (hr.dirtyInode i hi hd₀).2.2.ne_zero h0
    exact .inr (hf.advances h hi hd hblock hne hroom)
  | got => exact .inr (.call (.inodes rfl))
  | @release i bh hi h _ _ hd₀ hin hd hidle =>
    -- a count of zero would be one that has wrapped
    have hcount : (s.buf bh).count ≠ 0 := by
      intro hc
      have hfull := (h.counts.used bh rfl).mp hc
      have hne : (s.buf bh).dev ≠ 0 := (h.dirty bh hd).2.ne_zero h0
      exact hroom.counts i hi hd₀ bh (h.below hne) ((h.counts.block bh hfull).symm.trans hin) hfull
    exact .inr (.ret (.buffers (by
      rw [bufferStep, hidle.1, if_neg (by simp), if_neg hcount])))
  | unlock => exact .inr (.ret (.inodes rfl))
  | @buffers i =>
    by_cases hi : i < c.nrBuffers
    · exact .inr (.goto (.buffers (by rw [bufferStep, if_pos hi])))
    · exact .inr (.ret (.buffers (by rw [bufferStep, if_neg hi])))
  | @buffer i _ h =>
    by_cases hl : (s.buf i).lock = true
    · obtain ⟨rw, hreq⟩ := Option.ne_none_iff_exists'.mp (h.locked i (by simp) hl)
      exact .inr (.interrupt hreq _ _)
    · by_cases hd : (s.buf i).dirt = true
      · exact .inr (.call (.buffers (by rw [bufferStep, if_neg hl, if_pos hd])))
      · exact .inr (.goto (.buffers (by rw [bufferStep, if_neg hl, if_neg hd])))
  | flush => exact .inr (Flushing.start.advances fun h => absurd h (by simp))
  | @flushLock i _ h =>
    by_cases hl : (s.buf i).lock = true
    · obtain ⟨rw, hreq⟩ := Option.ne_none_iff_exists'.mp (h.locked i (by simp) hl)
      exact .inr (.interrupt hreq _ _)
    · exact .inr (Flushing.lock.advances fun _ => by simpa using hl)
  | flushMake => exact .inr (Flushing.make.advances fun h => absurd h (by simp))
  | @back i hi h =>
    by_cases hdrained : ∀ bh, s.request bh = none
    · exact .inl ⟨rfl, hdrained, h.synced hr hi hdrained⟩
    · push Not at hdrained
      obtain ⟨bh, hbh⟩ := hdrained
      obtain ⟨rw, hreq⟩ := Option.ne_none_iff_exists'.mp hbh
      exact .inr (.interrupt hreq _ _)

/-! ### Runs -/

/-- Whatever comes next lowers the rank, or there is no room. -/
theorem At.working (hr : Ready c s₀) (h0 : c.requestFn 0 = false) (hu : ∀ s a, ¬ c.may s a)
    (hf : c.fails = false) {τ τ' : Task Frame Kont} {r : ℕ}
    (h : At c s₀ bufs inodes s τ.top τ.conts r) (hw : Working (machine c) s τ s' τ') :
    Went c s₀ bufs inodes (r + outstanding c s) s' τ' := by
  cases hw with
  | block hb hn hx => exact h.step hr h0 hu hb hn hx
  | interrupt hi =>
    obtain ⟨bh, rw, ok, block, hreq, hok, rfl⟩ := hi
    cases ok with
    | false =>
      rw [hf] at hok
      exact absurd hok (by simp)
    | true =>
      simp only [if_true] at hok
      subst hok
      obtain ⟨hbh, h'⟩ := h.finish hr h0 hreq
      exact .on h' (Nat.add_lt_add_left (outstanding_finish hbh hreq true _) _)

theorem Lost.working {i : ℕ} {rest : List Kont} {τ τ' : Task Frame Kont} (h : Lost i rest s τ)
    (hw : Working (machine c) s τ s' τ') : Lost i rest s' τ' := by
  cases hw with
  | block hb hn _ => exact h.step hb hn
  | interrupt hi =>
    obtain ⟨bh, rw, ok, block, _, _, rfl⟩ := hi
    have hinode := finish_inode s bh rw ok block
    refine ⟨h.below, ?_, ?_, h.syncing⟩
    · rw [hinode]
      exact h.locked
    · rw [hinode]
      exact h.walked

theorem At.room {f : Frame} {ks : List Kont} {r : ℕ} (h : At c s₀ bufs inodes s f ks r)
    (hks : ks = []) : Room c s₀ := by
  cases h with
  | back _ h => exact h.room
  | _ => simp at hks

/-- If `sys_sync` returns at all, there was room. -/
theorem Ready.room (hr : Ready c s₀) (h0 : c.requestFn 0 = false) (hu : ∀ s a, ¬ c.may s a)
    (hf : c.fails = false)
    (h : Ends (machine c) (fun _ τ => τ = ⟨.user bufs inodes, []⟩) s₀
      ⟨.sysSyncInodes, [.user bufs inodes]⟩) : Room c s₀ := by
  have hkeep : ∀ s τ s' τ', ((∃ r, At c s₀ bufs inodes s τ.top τ.conts r) ∨
      ∃ i rest, ¬ Room c s₀ ∧ Lost i rest s τ) → Working (machine c) s τ s' τ' →
      (∃ r, At c s₀ bufs inodes s' τ'.top τ'.conts r) ∨
      ∃ i rest, ¬ Room c s₀ ∧ Lost i rest s' τ' := by
    rintro s τ s' τ' (⟨r, hat⟩ | ⟨i, rest, hno, hlost⟩) hw
    · cases hat.working hr h0 hu hf hw with
      | on h _ => exact .inl ⟨_, h⟩
      | lost hno h => exact .inr ⟨_, _, hno, h⟩
    · exact .inr ⟨i, rest, hno, hlost.working hw⟩
  obtain ⟨s, τ, ⟨r, hat⟩ | ⟨i, rest, -, hlost⟩, rfl⟩ :=
    h.last _ hkeep (.inl ⟨_, .enter hr.gathering hr.unlockedInode⟩)
  · exact hat.room rfl
  · exact absurd rfl hlost.conts_ne

/-- `sys_sync` comes back and leaves a disk that matches if and only if there is room for the blocks
    of the dirty inodes. -/
theorem sys_sync_writes_all_iff (hr : Ready c s₀) (h0 : c.requestFn 0 = false)
    (hu : ∀ s a, ¬ c.may s a) (hf : c.fails = false) :
    Ends (machine c) (Synced c s₀ bufs inodes) s₀ ⟨.sysSyncInodes, [.user bufs inodes]⟩ ↔
      Room c s₀ := by
  refine ⟨fun h => hr.room h0 hu hf (h.mono fun _ _ h => h.1), fun hroom => ?_⟩
  refine Ends.of_rank (fun s τ n => ∃ r, At c s₀ bufs inodes s τ.top τ.conts r ∧
    n = r + outstanding c s) (fun _ _ _ _ _ h => block_sleep h) ?_
    ⟨_, .enter hr.gathering hr.unlockedInode, rfl⟩
  rintro s ⟨f, ks⟩ n ⟨r, hat, rfl⟩
  refine (hat.advances hr h0 hroom).imp_right fun hsome => ⟨hsome, fun s' τ' hw => ?_⟩
  cases hat.working hr h0 hu hf hw with
  | on h hlt => exact ⟨_, hlt, _, h, rfl⟩
  | lost hno _ => exact absurd hroom hno

/-! ### One dirty inode and one dirty buffer -/

/-- A disk with `n` buffers, and a file system on its first partition. -/
def config (n : ℕ) : Config where
  nrBuffers := n
  requestFn m := m = 3
  super _ := some ⟨64, 1000, 1, 1, 6⟩
  imount _ := none
  may _ _ := False
  fails := false

/-- Inode 1, whose block 4 is in no buffer, and a dirty buffer with block 9. All others are clean. -/
def caches (n : ℕ) : Caches where
  buf j := if j = 0 then ⟨fun _ => emptyInode.disk, 769, 9, true, true, 0, false⟩
    else ⟨fun _ => emptyInode.disk, 0, 0, false, false, 0, false⟩
  freeList := List.range n
  hash h := if h = hashfn 769 9 then [0] else []
  request _ := none
  inode j := if j = 0 then
      ⟨⟨33188, 0, 7, 0, 0, 1, fun _ => 0⟩, 769, 1, 1, false, true, false, false⟩
    else emptyInode
  lastInode := 0
  imap _ _ := true
  zmap _ _ := true
  disk _ _ _ := emptyInode.disk

theorem caches_ready {n : ℕ} (hn : 0 < n) : Ready (config n) (caches n) where
  indexed := by
    refine ⟨fun h bh hbh => ?_, fun h => ?_, fun bh hbh => ?_, fun a b ha hdev _ => ?_⟩
    · simp only [caches] at hbh
      split_ifs at hbh with hh
      · obtain rfl := List.mem_singleton.mp hbh
        exact ⟨by simp [caches], by simp [caches, hh]⟩
      · exact absurd hbh List.not_mem_nil
    · simp only [caches]
      split_ifs <;> simp
    · by_cases h0 : bh = 0
      · subst h0
        simp [caches]
      · simp [caches, h0] at hbh
    · by_cases h0 : a = 0
      · by_cases h1 : b = 0
        · rw [h0, h1]
        · simp [caches, h0, h1] at hdev
      · simp [caches, h0] at ha
  free bh hbh := List.mem_range.mp hbh
  beyond bh hbh := by
    have hbh : n ≤ bh := hbh
    have h0 : bh ≠ 0 := by omega
    simp [caches, h0]
  bytes bh := by
    by_cases h0 : bh = 0 <;> simp [caches, h0]
  unlockedBuf bh := by
    by_cases h0 : bh = 0 <;> simp [caches, h0]
  unlockedInode i := by
    by_cases h0 : i = 0 <;> simp [caches, h0, emptyInode]
  dirtyBuf bh hbh := by
    by_cases h0 : bh = 0
    · subst h0
      exact ⟨rfl, by simp [Driven, caches, config, NR_BLK_DEV]⟩
    · simp [caches, h0] at hbh
  dirtyInode i _ hd := by
    by_cases h0 : i = 0
    · subst h0
      exact ⟨le_refl 1, by simp [config], by simp [Driven, caches, config, NR_BLK_DEV]⟩
    · simp [caches, h0, Dirty, emptyInode] at hd
  distinct i _ j _ hi hj _ _ := by
    by_cases h0 : i = 0
    · by_cases h1 : j = 0
      · rw [h0, h1]
      · simp [caches, h1, Dirty, emptyInode] at hj
    · simp [caches, h0, Dirty, emptyInode] at hi

/-- With a second buffer the block of the inode is read, changed and written back. -/
theorem sys_sync_writes_all_two : ∃ s, (∃ τ, Synced (config 2) (caches 2) [] [] s τ) ∧
    s.disk 769 4 0 = ⟨33188, 0, 7, 0, 0, 1, fun _ => 0⟩ := by
  have hroom : Room (config 2) (caches 2) := by
    refine ⟨by decide, fun i _ _ bh _ _ => ?_⟩
    by_cases h0 : bh = 0 <;> simp [caches, h0]
  have h : Ends (machine (config 2)) (Synced (config 2) (caches 2) [] []) (caches 2)
      ⟨.sysSyncInodes, [.user [] []]⟩ :=
    (sys_sync_writes_all_iff (caches_ready (by decide)) rfl (fun _ _ h => h) rfl).mpr hroom
  obtain ⟨s, τ, -, hs⟩ := h.last (fun _ _ => True) (fun _ _ _ _ _ _ => trivial) trivial
  refine ⟨s, ⟨τ, hs⟩, ?_⟩
  obtain ⟨dev, block, k, hp, hdisk⟩ := hs.2.2.inodes 0 (by decide) ⟨rfl, rfl⟩
  obtain ⟨rfl, rfl, rfl⟩ : 769 = dev ∧ 4 = block ∧ 0 = k := by
    simpa [inodePlace, caches, config, inodeBlock, INODES_PER_BLOCK] using hp
  exact hdisk

/-- With the dirty buffer alone `sys_sync` does not come back. -/
theorem sys_sync_stays : Ready (config 1) (caches 1) ∧
    ¬ Ends (machine (config 1)) (Synced (config 1) (caches 1) [] []) (caches 1)
      ⟨.sysSyncInodes, [.user [] []]⟩ := by
  have hr := caches_ready (n := 1) (by decide)
  refine ⟨hr, fun h => ?_⟩
  have hroom := hr.room rfl (fun _ _ h => h) rfl (h.mono fun _ _ h => h.1)
  exact absurd hroom.spares (by decide)

end Linux011.SysSync
