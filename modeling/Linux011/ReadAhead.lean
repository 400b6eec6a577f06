import Linux011.BufferLinks

set_option autoImplicit false

/-!
# Read-ahead (breada of fs/buffer.c)

One task against the devices: while it sleeps, and at any other time, transfers end and `sync_dev`
starts some. Writes do not fail.
-/
namespace Linux011.ReadAhead
open BufferLinks

/-- The devices with a `request_fn`, and the blocks of them that can be transferred. -/
structure Device where
  driver : ℕ → Bool
  works : ℕ → ℕ → Bool
  attached : ∀ dev block, works dev block = true → driver dev = true

/-- What interrupts may do. A read that ends has read the block unless that cannot be done. -/
structure Sleep (d : Device) (s s' : Buffers) : Prop where
  links : SameLinks s s'
  dev : ∀ i, (s'.head i).dev = (s.head i).dev
  blocknr : ∀ i, (s'.head i).blocknr = (s.head i).blocknr
  count : ∀ i, (s'.head i).count = (s.head i).count
  uptodate : ∀ i, (s.head i).uptodate = true → (s'.head i).uptodate = true
  reads : ∀ i, (s'.head i).uptodate = true →
    (s.head i).uptodate = true ∨ d.works (s.head i).dev (s.head i).blocknr = true
  unlocked : ∀ i, (s.head i).lock = true → (s'.head i).lock = false →
    d.works (s.head i).dev (s.head i).blocknr = true → (s'.head i).uptodate = true

/-- A task in `getblk`. -/
inductive Runs (d : Device) : Buffers → Frame → Buffers → Frame → Prop
  | refl {s : Buffers} {f : Frame} : Runs d s f s f
  | turn {s s' : Buffers} {f f' : Frame} (h : Runs d (turn s f).1 (turn s f).2 s' f') :
      Runs d s f s' f'
  | sleep {s s₁ s' : Buffers} {f f' : Frame} (hs : Sleep d s s₁) (h : Runs d s₁ f s' f') :
      Runs d s f s' f'

/-- A call of `getblk` with the buffer it returns. -/
def Getblk (d : Device) (dev block : ℕ) (s : Buffers) (bh : ℕ) (s' : Buffers) : Prop :=
  Runs d s (.getblk dev block) s' (.got bh)

inductive Rw where
  | read
  | reada
  deriving DecidableEq

/-- `make_request` has filled in a request. -/
def submit (s : Buffers) (bh : ℕ) : Buffers :=
  s.store (some bh) fun h => { h with lock := true, dirt := false }

/-- `ll_rw_block(READ,bh)`. -/
inductive LlRead (d : Device) (s : Buffers) (bh : ℕ) : Buffers → Prop
  | noDriver (hd : d.driver (s.head bh).dev = false) : LlRead d s bh s
  | uptodate {s₁ : Buffers} (hd : d.driver (s.head bh).dev = true) (hs : Sleep d s s₁)
      (hl : (s₁.head bh).lock = false) (hu : (s₁.head bh).uptodate = true) : LlRead d s bh s₁
  | submit {s₁ : Buffers} (hd : d.driver (s.head bh).dev = true) (hs : Sleep d s s₁)
      (hl : (s₁.head bh).lock = false) (hu : (s₁.head bh).uptodate = false) :
      LlRead d s bh (submit s₁ bh)

/-- `ll_rw_block(READA,bh)`, which does not sleep. -/
inductive LlReada (d : Device) (s : Buffers) (bh : ℕ) : Buffers → Prop
  | noDriver (hd : d.driver (s.head bh).dev = false) : LlReada d s bh s
  | locked (hd : d.driver (s.head bh).dev = true) (hl : (s.head bh).lock = true) : LlReada d s bh s
  | uptodate (hd : d.driver (s.head bh).dev = true) (hl : (s.head bh).lock = false)
      (hu : (s.head bh).uptodate = true) : LlReada d s bh s
  /-- no request is free -/
  | full (hd : d.driver (s.head bh).dev = true) (hl : (s.head bh).lock = false)
      (hu : (s.head bh).uptodate = false) : LlReada d s bh s
  | submit (hd : d.driver (s.head bh).dev = true) (hl : (s.head bh).lock = false)
      (hu : (s.head bh).uptodate = false) : LlReada d s bh (submit s bh)

/-- The calls of `ll_rw_block` with the buffer of each, and what is returned. `first` is the buffer
    of the first block. -/
structure Outcome where
  first : ℕ
  calls : List (Rw × ℕ)
  result : Option ℕ

/-- `wait_on_buffer`, and then the buffer or, after `brelse`, NULL. -/
inductive Finish (d : Device) (s : Buffers) (bh : ℕ) : Option ℕ → Buffers → Prop
  | found {s₁ : Buffers} (hs : Sleep d s s₁) (hl : (s₁.head bh).lock = false)
      (hu : (s₁.head bh).uptodate = true) : Finish d s bh (some bh) s₁
  | failed {s₁ : Buffers} (hs : Sleep d s s₁) (hl : (s₁.head bh).lock = false)
      (hu : (s₁.head bh).uptodate = false) (hc : (s₁.head bh).count ≠ 0) :
      Finish d s bh none (drop s₁ bh)

inductive Bread (d : Device) (dev block : ℕ) (s : Buffers) : Outcome → Buffers → Prop
  | cached {bh : ℕ} {s₁ : Buffers} (hg : Getblk d dev block s bh s₁)
      (hu : (s₁.head bh).uptodate = true) : Bread d dev block s ⟨bh, [], some bh⟩ s₁
  | read {bh : ℕ} {r : Option ℕ} {s₁ s₂ s' : Buffers} (hg : Getblk d dev block s bh s₁)
      (hu : (s₁.head bh).uptodate = false) (hr : LlRead d s₁ bh s₂) (hf : Finish d s₂ bh r s') :
      Bread d dev block s ⟨bh, [(.read, bh)], r⟩ s'

/-- A further block: its buffer, and whether it was up to date. -/
structure Look where
  buffer : ℕ
  uptodate : Bool

/-- The loop of `breada` over its arguments; `bh` is the buffer of the first block. -/
inductive Ahead (d : Device) (dev bh : ℕ) : List ℤ → Buffers → List Look → List (Rw × ℕ) →
    Buffers → Prop
  | stop {n : ℤ} {args : List ℤ} {s : Buffers} (hn : n < 0) : Ahead d dev bh (n :: args) s [] [] s
  | fresh {n tmp : ℕ} {args : List ℤ} {s s₁ s' : Buffers} {looks : List Look}
      {calls : List (Rw × ℕ)} (hg : Getblk d dev n s tmp s₁) (hu : (s₁.head tmp).uptodate = true)
      (hrest : Ahead d dev bh args (drop s₁ tmp) looks calls s') :
      Ahead d dev bh (n :: args) s (⟨tmp, true⟩ :: looks) calls s'
  | stale {n tmp : ℕ} {args : List ℤ} {s s₁ s₂ s' : Buffers} {looks : List Look}
      {calls : List (Rw × ℕ)} (hg : Getblk d dev n s tmp s₁) (hu : (s₁.head tmp).uptodate = false)
      (hr : LlReada d s₁ bh s₂) (hrest : Ahead d dev bh args (drop s₂ tmp) looks calls s') :
      Ahead d dev bh (n :: args) s (⟨tmp, false⟩ :: looks) ((.reada, bh) :: calls) s'

inductive Breada (d : Device) (dev first : ℕ) (args : List ℤ) (s : Buffers) :
    List Look → Outcome → Buffers → Prop
  | cached {bh : ℕ} {r : Option ℕ} {s₁ s₂ s' : Buffers} {looks : List Look}
      {calls : List (Rw × ℕ)} (hg : Getblk d dev first s bh s₁)
      (hu : (s₁.head bh).uptodate = true) (ha : Ahead d dev bh args s₁ looks calls s₂)
      (hf : Finish d s₂ bh r s') : Breada d dev first args s looks ⟨bh, calls, r⟩ s'
  | read {bh : ℕ} {r : Option ℕ} {s₁ s₂ s₃ s' : Buffers} {looks : List Look}
      {calls : List (Rw × ℕ)} (hg : Getblk d dev first s bh s₁)
      (hu : (s₁.head bh).uptodate = false) (hr : LlRead d s₁ bh s₂)
      (ha : Ahead d dev bh args s₂ looks calls s₃) (hf : Finish d s₃ bh r s') :
      Breada d dev first args s looks ⟨bh, (.read, bh) :: calls, r⟩ s'

/-- A cache with fewer users of each buffer than `b_count` can count. -/
structure Cached (s : Buffers) : Prop where
  queues : ∃ free chain, Queues s free chain
  count : ∀ i < s.nr, (s.head i).count < 254

/-! ### The head of a buffer in use -/

section Later
variable {d : Device} {h h' h'' : BufferHead} {s s' : Buffers} {bh : ℕ}

/-- If the head is not locked, its block has been read where that can be done. -/
def Tried (d : Device) (h : BufferHead) : Prop :=
  h.lock = false → d.works h.dev h.blocknr = true → h.uptodate = true

structure Later (d : Device) (h h' : BufferHead) : Prop where
  dev : h'.dev = h.dev
  blocknr : h'.blocknr = h.blocknr
  uptodate : h.uptodate = true → h'.uptodate = true
  reads : h'.uptodate = true → h.uptodate = true ∨ d.works h.dev h.blocknr = true
  tried : Tried d h → Tried d h'

theorem Later.refl : Later d h h := ⟨rfl, rfl, id, .inl, id⟩

theorem Later.trans (a : Later d h h') (b : Later d h' h'') : Later d h h'' where
  dev := b.dev.trans a.dev
  blocknr := b.blocknr.trans a.blocknr
  uptodate hu := b.uptodate (a.uptodate hu)
  reads hu := by
    have hreads := b.reads hu
    rw [a.dev, a.blocknr] at hreads
    exact hreads.elim a.reads .inr
  tried ht := b.tried (a.tried ht)

theorem later_of_same (hs : SameBlock h h') : Later d h h' where
  dev := hs.dev
  blocknr := hs.blocknr
  uptodate hu := hs.uptodate.trans hu
  reads hu := .inl (hs.uptodate ▸ hu)
  tried ht hl hw := by
    rw [hs.dev, hs.blocknr] at hw
    exact hs.uptodate.trans (ht (hs.lock ▸ hl) hw)

theorem Sleep.later (hs : Sleep d s s') (i : ℕ) : Later d (s.head i) (s'.head i) where
  dev := hs.dev i
  blocknr := hs.blocknr i
  uptodate := hs.uptodate i
  reads := hs.reads i
  tried ht hl hw := by
    rw [hs.dev, hs.blocknr] at hw
    cases hlock : (s.head i).lock with
    | false => exact hs.uptodate i (ht hlock hw)
    | true => exact hs.unlocked i hlock hl hw

theorem Sleep.refl (s : Buffers) : Sleep d s s :=
  ⟨⟨rfl, rfl, rfl, fun _ => rfl, fun _ => rfl, fun _ => rfl, fun _ => rfl⟩, fun _ => rfl,
    fun _ => rfl, fun _ => rfl, fun _ => id, fun _ => .inl,
    fun _ hl hl' => nomatch hl.symm.trans hl'⟩

theorem store_later {p : Option ℕ} {f : BufferHead → BufferHead} (hf : ∀ h, Later d h (f h)) (i : ℕ) :
    Later d (s.head i) ((s.store p f).head i) := by
  rcases store_cases s p f i with h | ⟨-, h⟩ <;> rw [h]
  · exact .refl
  · exact hf _

/-- The count makes no difference. -/
theorem later_count (c : BufferHead → ℕ) (h : BufferHead) : Later d h { h with count := c h } :=
  ⟨rfl, rfl, id, .inl, id⟩

theorem hold_later (i : ℕ) : Later d (s.head i) ((hold s bh).head i) := store_later (later_count _) i

theorem drop_later (i : ℕ) : Later d (s.head i) ((drop s bh).head i) := store_later (later_count _) i

theorem submit_later (i : ℕ) : Later d (s.head i) ((submit s bh).head i) := by
  have hlocked : ∀ h : BufferHead, Later d h { h with lock := true, dirt := false } := fun h =>
    ⟨rfl, rfl, id, .inl, fun _ hl => nomatch hl⟩
  exact store_later hlocked i

end Later

/-! ### Counts -/

section Counts
variable {d : Device} {s s' : Buffers} {free : List ℕ} {chain : ℕ → List ℕ} {c : ℕ → ℕ} {b bh : ℕ}

def Counts (s : Buffers) (c : ℕ → ℕ) : Prop := ∀ i < s.nr, (s.head i).count = c i

/-- One more user of a buffer. -/
def plus (c : ℕ → ℕ) (b : ℕ) : ℕ → ℕ := Function.update c b (c b + 1)

/-- A task in `getblk` uses the buffer it waits for in `get_hash_table`. -/
def frameCounts (c : ℕ → ℕ) : Frame → ℕ → ℕ
  | .waitHash _ _ b => plus c b
  | .got b => plus c b
  | _ => c

/-- In `getblk`, or back from it. -/
def Getting (nr : ℕ) : Frame → Prop
  | .getblk _ _ => True
  | .waitHash _ _ b => b < nr
  | .waitFree _ _ b => b < nr
  | .got b => b < nr
  | _ => False

theorem hold_counts (hc : Counts s c) (hlt : c b < 255) :
    Counts (hold s b) (plus c b) := by
  intro i hi
  unfold hold plus at *
  rw [store_nr] at hi
  rw [store_head _ _ _ hi, Function.update_apply]
  by_cases hib : i = b
  · rw [if_pos (by rw [hib]), if_pos hib]
    change ((s.head i).count + 1) % 256 = c b + 1
    rw [hc i hi, hib]
    omega
  · rw [if_neg (fun h => hib (Option.some.inj h).symm), if_neg hib]
    exact hc i hi

theorem drop_counts (hc : Counts s (plus c b)) (hlt : c b < 255) : Counts (drop s b) c := by
  intro i hi
  unfold drop at *
  rw [store_nr] at hi
  have hcount := hc i hi
  unfold plus at hcount
  rw [Function.update_apply] at hcount
  rw [store_head _ _ _ hi]
  by_cases hib : i = b
  · rw [if_pos (by rw [hib])]
    change ((s.head i).count + 255) % 256 = c i
    rw [if_pos hib] at hcount
    rw [hcount, hib]
    omega
  · rw [if_neg (fun h => hib (Option.some.inj h).symm)]
    rw [if_neg hib] at hcount
    exact hcount

theorem plus_ne_zero (c : ℕ → ℕ) (b : ℕ) : plus c b b ≠ 0 := by
  unfold plus
  rw [Function.update_self]
  omega

theorem plus_of_ne {i : ℕ} (hi : i ≠ b) : plus c b i = c i := Function.update_of_ne hi _ _

/-- The counts go to `c'`, and the buffers that are in use by `c` are left alone. -/
structure Kept (d : Device) (c c' : ℕ → ℕ) (s s' : Buffers) : Prop where
  queues : ∃ free chain, Queues s' free chain
  nr : s'.nr = s.nr
  counts : Counts s' c'
  later : ∀ i < s.nr, c i ≠ 0 → Later d (s.head i) (s'.head i)

theorem Kept.trans {c₁ c₂ : ℕ → ℕ} {s₁ : Buffers} (h₁ : Kept d c c₁ s s₁) (h : Kept d c c₂ s₁ s') :
    Kept d c c₂ s s' where
  queues := h.queues
  nr := h.nr.trans h₁.nr
  counts := h.counts
  later i hi hc := (h₁.later i hi hc).trans (h.later i (h₁.nr.symm ▸ hi) hc)

/-- What does not touch the queues and the counts. -/
structure Quiet (d : Device) (s s' : Buffers) : Prop where
  queues : ∀ {free : List ℕ} {chain : ℕ → List ℕ}, Queues s free chain → Queues s' free chain
  nr : s'.nr = s.nr
  count : ∀ i, (s'.head i).count = (s.head i).count
  later : ∀ i, Later d (s.head i) (s'.head i)

theorem Quiet.refl : Quiet d s s := ⟨id, rfl, fun _ => rfl, fun _ => .refl⟩

theorem Quiet.trans {s₁ : Buffers} (h₁ : Quiet d s s₁) (h : Quiet d s₁ s') : Quiet d s s' where
  queues hq := h.queues (h₁.queues hq)
  nr := h.nr.trans h₁.nr
  count i := (h.count i).trans (h₁.count i)
  later i := (h₁.later i).trans (h.later i)

theorem Quiet.counts (h : Quiet d s s') (hc : Counts s c) : Counts s' c := fun i hi =>
  (h.count i).trans (hc i (h.nr ▸ hi))

theorem Quiet.kept (h : Quiet d s s') (hq : Queues s free chain) {c' : ℕ → ℕ} (hc : Counts s c') :
    Kept d c c' s s' where
  queues := ⟨free, chain, h.queues hq⟩
  nr := h.nr
  counts := h.counts hc
  later i _ _ := h.later i

theorem Sleep.quiet (hs : Sleep d s s') : Quiet d s s' :=
  ⟨fun hq => hq.congr hs.links hs.dev hs.blocknr, hs.links.nr, hs.count, hs.later⟩

theorem submit_quiet : Quiet d s (submit s b) := by
  refine ⟨fun hq => ?_, store_nr .., fun i => ?_, submit_later⟩
  · exact hq.store (fun _ => ⟨rfl, rfl, rfl, rfl⟩) (fun _ => rfl) fun _ => rfl
  · unfold submit
    rcases store_cases s (some b) (fun h => { h with lock := true, dirt := false }) i with h | ⟨-, h⟩
      <;> rw [h]

theorem LlRead.quiet (h : LlRead d s b s') : Quiet d s s' := by
  cases h with
  | noDriver => exact .refl
  | uptodate _ hs => exact hs.quiet
  | submit _ hs => exact hs.quiet.trans submit_quiet

theorem LlReada.quiet (h : LlReada d s b s') : Quiet d s s' := by
  cases h with
  | submit => exact submit_quiet
  | _ => exact .refl

theorem hold_queues (h : Queues s free chain) : Queues (hold s b) free chain :=
  h.store (fun _ => ⟨rfl, rfl, rfl, rfl⟩) (fun _ => rfl) fun _ => rfl

theorem drop_queues (h : Queues s free chain) : Queues (drop s b) free chain :=
  h.store (fun _ => ⟨rfl, rfl, rfl, rfl⟩) (fun _ => rfl) fun _ => rfl

theorem drop_kept (h : Queues s free chain) (hc : Counts s (plus c b)) (hlt : c b < 255) :
    Kept d c c s (drop s b) :=
  ⟨⟨free, chain, drop_queues h⟩, store_nr .., drop_counts hc hlt, fun i _ _ => drop_later i⟩

/-- A turn of `getblk` from counts `frameCounts c f`. -/
def TurnKept (d : Device) (c : ℕ → ℕ) (s : Buffers) (out : Buffers × Frame) : Prop :=
  Kept d c (frameCounts c out.2) s out.1 ∧ Getting s.nr out.2

theorem stay (f : Frame) (h : Queues s free chain) (hf : Getting s.nr f)
    (hc : Counts s (frameCounts c f)) : TurnKept d c s (s, f) :=
  ⟨Quiet.refl.kept h hc, hf⟩

theorem waitHash_kept {dev block : ℕ} (h : Queues s free chain) (hb : b < s.nr) (hlt : c b < 255)
    (hc : Counts s (plus c b)) : TurnKept d c s (waitHash s dev block b) := by
  unfold waitHash
  split_ifs
  · exact stay (.waitHash dev block b) h hb hc
  · exact stay (.got b) h hb hc
  · exact ⟨drop_kept h hc hlt, trivial⟩

theorem waitFree_kept {dev block : ℕ} (h : Queues s free chain) (hb : b < s.nr)
    (hc : Counts s c) : TurnKept d c s (waitFree s dev block b) := by
  unfold waitFree
  split_ifs with hlock hcount hdirt
  · exact stay (.waitFree dev block b) h hb hc
  · exact stay (.getblk dev block) h trivial hc
  · exact stay (.waitFree dev block b) h hb hc
  · obtain ⟨r, hr, -⟩ := h.findBuffer dev block
    rw [hr]
    cases r with
    | some i => exact stay (.getblk dev block) h trivial hc
    | none =>
      obtain ⟨s', hs', hqueues, hnr, -, -, hothers, hone⟩ := h.retarget hb dev block
      have hzero : c b = 0 := (hc b hb).symm.trans (not_not.1 hcount)
      dsimp only
      rw [hs']
      refine ⟨⟨hqueues, hnr, fun i hi => ?_, fun i hi hne => ?_⟩, hb⟩
      · change (s'.head i).count = plus c b i
        change i < s'.nr at hi
        rw [hnr] at hi
        by_cases hib : i = b
        · rw [hib, plus, Function.update_self, hzero]
          exact hone
        · rw [plus_of_ne hib, (hothers i hi hib).count]
          exact hc i hi
      · exact later_of_same (hothers i hi fun hib => hne (hib ▸ hzero))

theorem turn_kept {f : Frame} (h : Queues s free chain) (hf : Getting s.nr f)
    (hlt : ∀ i < s.nr, c i < 255) (hc : Counts s (frameCounts c f)) : TurnKept d c s (turn s f) := by
  cases f with
  | got b => exact stay (.got b) h hf hc
  | waitHash dev block b => exact waitHash_kept h hf (hlt b hf) hc
  | waitFree dev block b => exact waitFree_kept h hf hc
  | getblk dev block =>
    unfold turn
    obtain ⟨r, hr, hmem⟩ := h.findBuffer dev block
    dsimp only
    rw [hr]
    cases r with
    | some b =>
      have hb := hmem b rfl
      have hnr : (hold s b).nr = s.nr := store_nr ..
      have hwait : TurnKept d c (hold s b) (waitHash (hold s b) dev block b) :=
        waitHash_kept (hold_queues h) (hnr.symm ▸ hb) (hlt b hb) (hold_counts hc (hlt b hb))
      obtain ⟨hkept, hgetting⟩ := hwait
      exact ⟨⟨hkept.queues, hkept.nr.trans hnr, hkept.counts,
        fun i hi hne => (hold_later i).trans (hkept.later i (hnr.symm ▸ hi) hne)⟩, hnr ▸ hgetting⟩
    | none =>
      obtain ⟨r, hscan, hmem⟩ := h.scanFree
      dsimp only
      rw [hscan]
      cases r with
      | none => exact stay (.getblk dev block) h trivial hc
      | some b => exact waitFree_kept h (hmem b rfl) hc
  | _ => exact hf.elim

theorem Runs.kept {f f' : Frame} (hr : Runs d s f s' f') (hq : ∃ free chain, Queues s free chain)
    (hf : Getting s.nr f) (hlt : ∀ i < s.nr, c i < 255) (hc : Counts s (frameCounts c f)) :
    Kept d c (frameCounts c f') s s' ∧ Getting s.nr f' := by
  induction hr with
  | refl =>
    obtain ⟨free, chain, h⟩ := hq
    exact stay _ h hf hc
  | turn hrest ih =>
    obtain ⟨free, chain, h⟩ := hq
    obtain ⟨hk, hg⟩ := turn_kept (d := d) h hf hlt hc
    obtain ⟨hk', hg'⟩ := ih hk.queues (hk.nr.symm ▸ hg) (hk.nr.symm ▸ hlt) hk.counts
    exact ⟨hk.trans hk', hk.nr ▸ hg'⟩
  | sleep hs hrest ih =>
    obtain ⟨free, chain, h⟩ := hq
    have hk := hs.quiet.kept (c := c) h hc
    obtain ⟨hk', hg'⟩ := ih hk.queues (hk.nr.symm ▸ hf) (hk.nr.symm ▸ hlt) hk.counts
    exact ⟨hk.trans hk', hk.nr ▸ hg'⟩

theorem getblk_kept {dev block : ℕ} (hg : Getblk d dev block s bh s')
    (hq : ∃ free chain, Queues s free chain) (hlt : ∀ i < s.nr, c i < 255) (hc : Counts s c) :
    Kept d c (plus c bh) s s' ∧ bh < s.nr :=
  Runs.kept hg hq trivial hlt hc

end Counts

/-! ### breada -/

section Ahead
variable {d : Device} {s s₁ s₂ s' : Buffers} {c : ℕ → ℕ} {dev first bh : ℕ} {args : List ℤ}
  {looks : List Look} {calls : List (Rw × ℕ)} {r : Option ℕ} {o : Outcome}

/-- The looks that did not find their block up to date. -/
def unread (looks : List Look) : List Look := looks.filter fun l => !l.uptodate

/-- By induction on the arguments: the buffer of each further block is given back, and the calls are
    all for the buffer of the first. -/
theorem Ahead.kept (h : Ahead d dev bh args s looks calls s') (hq : ∃ free chain, Queues s free chain)
    (hlt : ∀ i < s.nr, c i < 255) (hc : Counts s c) :
    Kept d c c s s' ∧ calls = (unread looks).map fun _ => (.reada, bh) := by
  induction h with
  | stop =>
    obtain ⟨free, chain, h⟩ := hq
    exact ⟨Quiet.refl.kept h hc, rfl⟩
  | fresh hg hu hrest ih =>
    obtain ⟨hk, htmp⟩ := getblk_kept hg hq hlt hc
    obtain ⟨free, chain, hq₁⟩ := hk.queues
    have hk₁ := hk.trans (drop_kept hq₁ hk.counts (hlt _ htmp))
    obtain ⟨hk', hcalls⟩ := ih hk₁.queues (hk₁.nr.symm ▸ hlt) hk₁.counts
    exact ⟨hk₁.trans hk', hcalls⟩
  | stale hg hu hr hrest ih =>
    obtain ⟨hk, htmp⟩ := getblk_kept hg hq hlt hc
    obtain ⟨free, chain, hq₁⟩ := hk.queues
    have hk₁ := hk.trans (hr.quiet.kept (c := c) hq₁ hk.counts)
    obtain ⟨free, chain, hq₂⟩ := hk₁.queues
    have hk₂ := hk₁.trans (drop_kept hq₂ hk₁.counts (hlt _ htmp))
    obtain ⟨hk', hcalls⟩ := ih hk₂.queues (hk₂.nr.symm ▸ hlt) hk₂.counts
    exact ⟨hk₂.trans hk', congrArg (List.cons _) hcalls⟩

/-- A transfer of the buffer ends. -/
def complete (d : Device) (s : Buffers) (bh : ℕ) : Buffers :=
  s.store (some bh) fun h =>
    { h with lock := false, uptodate := h.uptodate || d.works h.dev h.blocknr }

theorem complete_cases (s : Buffers) (bh i : ℕ) : (complete d s bh).head i = s.head i ∨
    (complete d s bh).head i = { s.head i with
      lock := false
      uptodate := (s.head i).uptodate || d.works (s.head i).dev (s.head i).blocknr } := by
  rcases store_cases s (some bh) (fun h =>
    { h with lock := false, uptodate := h.uptodate || d.works h.dev h.blocknr }) i with h | ⟨-, h⟩
  · exact .inl h
  · exact .inr h

theorem complete_sleep (s : Buffers) (bh : ℕ) : Sleep d s (complete d s bh) := by
  refine ⟨store_sameLinks fun _ => ⟨rfl, rfl, rfl, rfl⟩, ?_, ?_, ?_, ?_, ?_, ?_⟩
  · intro i
    rcases complete_cases (d := d) s bh i with h | h <;> rw [h]
  · intro i
    rcases complete_cases (d := d) s bh i with h | h <;> rw [h]
  · intro i
    rcases complete_cases (d := d) s bh i with h | h <;> rw [h]
  · intro i hu
    rcases complete_cases (d := d) s bh i with h | h <;> rw [h]
    · exact hu
    · exact Bool.or_eq_true_iff.2 (.inl hu)
  · intro i hu
    rcases complete_cases (d := d) s bh i with h | h <;> rw [h] at hu
    · exact .inl hu
    · exact Bool.or_eq_true_iff.1 hu
  · intro i hl hl' hw
    rcases complete_cases (d := d) s bh i with h | h <;> rw [h] at hl' ⊢
    · exact nomatch hl.symm.trans hl'
    · exact Bool.or_eq_true_iff.2 (.inr hw)

theorem complete_head (hbh : bh < s.nr) : (complete d s bh).head bh =
    { s.head bh with
      lock := false
      uptodate := (s.head bh).uptodate || d.works (s.head bh).dev (s.head bh).blocknr } := by
  unfold complete
  rw [store_head _ _ _ hbh, if_pos rfl]

/-- After the call for a block that is not up to date, it is locked, or has been read. -/
theorem LlRead.tried (h : LlRead d s bh s') (hbh : bh < s.nr) : Tried d (s'.head bh) := by
  cases h with
  | noDriver hd =>
    intro _ hw
    exact nomatch hd.symm.trans (d.attached _ _ hw)
  | uptodate _ _ _ hu => exact fun _ _ => hu
  | submit _ hs =>
    intro hl
    unfold ReadAhead.submit at hl
    rw [store_head _ _ _ (hs.links.nr ▸ hbh), if_pos rfl] at hl
    exact nomatch hl

theorem Finish.counts (h : Finish d s bh r s') (hc : Counts s (plus c bh)) (hlt : c bh < 255) :
    ∀ i < s.nr, r ≠ some i → (s'.head i).count = c i := by
  intro i hi hne
  cases h with
  | found hs =>
    have hib : i ≠ bh := fun hib => hne (by rw [hib])
    rw [hs.count, hc i hi, plus_of_ne hib]
  | failed hs =>
    have hnr := hs.links.nr
    exact drop_counts (hs.quiet.counts hc) hlt i ((store_nr ..).symm ▸ hnr.symm ▸ hi)

/-- What is returned, when the call has been made for the block or it was up to date. -/
theorem Finish.result (h : Finish d s bh r s') (ht : Tried d (s.head bh)) :
    ((s.head bh).uptodate = true → r = some bh) ∧
      (d.works (s.head bh).dev (s.head bh).blocknr = true → r = some bh) ∧
      (r ≠ none → (s.head bh).uptodate = true ∨
        d.works (s.head bh).dev (s.head bh).blocknr = true) := by
  cases h with
  | found hs hl hu => exact ⟨fun _ => rfl, fun _ => rfl, fun _ => hs.reads bh hu⟩
  | failed hs hl hu =>
    refine ⟨fun hu' => ?_, fun hw => ?_, fun hr => absurd rfl hr⟩
    · exact nomatch hu.symm.trans (hs.uptodate bh hu')
    · have hlater := hs.later (d := d) bh
      have hwas := hlater.tried ht hl (by
        rw [hlater.dev, hlater.blocknr]
        exact hw)
      exact nomatch hu.symm.trans hwas

/-- From the head after `getblk` up to the end of the further blocks. -/
theorem Finish.same (hf : Finish d s₂ bh r s') (ht : Tried d (s₁.head bh))
    (hl : Later d (s₁.head bh) (s₂.head bh)) :
    ((s₁.head bh).uptodate = true ∨ d.works (s₁.head bh).dev (s₁.head bh).blocknr = true →
      r = some bh) ∧
    (¬((s₁.head bh).uptodate = true ∨ d.works (s₁.head bh).dev (s₁.head bh).blocknr = true) →
      r = none) := by
  obtain ⟨hup, hworks, hsome⟩ := hf.result (hl.tried ht)
  rw [hl.dev, hl.blocknr] at hworks hsome
  constructor
  · rintro (hu | hw)
    · exact hup (hl.uptodate hu)
    · exact hworks hw
  · intro hno
    by_contra hr
    obtain hu | hw := hsome hr
    · exact hno (hl.reads hu)
    · exact hno (.inr hw)

/-- `bread` from the same buffer gives the same. -/
theorem bread_same (hg : Getblk d dev first s bh s₁) (hu : (s₁.head bh).uptodate = false)
    (hr : LlRead d s₁ bh s₂) (hbh : bh < s₂.nr) (hcount : (s₂.head bh).count ≠ 0)
    (hsome : (s₂.head bh).uptodate = true ∨ d.works (s₂.head bh).dev (s₂.head bh).blocknr = true →
      r = some bh)
    (hnone : ¬((s₂.head bh).uptodate = true ∨
      d.works (s₂.head bh).dev (s₂.head bh).blocknr = true) → r = none) :
    ∃ s', Bread d dev first s ⟨bh, [(.read, bh)], r⟩ s' := by
  have hs : Sleep d s₂ (complete d s₂ bh) := complete_sleep s₂ bh
  have hhead := complete_head (d := d) hbh
  by_cases hread : (s₂.head bh).uptodate = true ∨
      d.works (s₂.head bh).dev (s₂.head bh).blocknr = true
  · rw [hsome hread]
    refine ⟨_, .read hg hu hr (.found hs ?_ ?_)⟩
    · rw [hhead]
    · rw [hhead]
      exact Bool.or_eq_true_iff.2 hread
  · rw [hnone hread]
    refine ⟨_, .read hg hu hr (.failed hs ?_ ?_ ?_)⟩
    · rw [hhead]
    · rw [hhead]
      exact Bool.eq_false_iff.2 fun hc => hread (Bool.or_eq_true_iff.1 hc)
    · rw [hhead]
      exact hcount

/-- What `breada` is for: the result of `bread`, a request for every further block that is not up to
    date, and no buffer but the result in use that was not in use before. -/
structure ReadsAhead (d : Device) (dev first : ℕ) (s : Buffers) (looks : List Look) (o : Outcome)
    (s' : Buffers) : Prop where
  returns : ∃ calls s'', Bread d dev first s ⟨o.first, calls, o.result⟩ s'' ∧
    o.calls = calls ++ (unread looks).map fun l => (.reada, l.buffer)
  count : ∀ i < s.nr, o.result ≠ some i → (s'.head i).count = (s.head i).count

/-- What holds of every call of `breada`. -/
theorem Breada.spec (hc : Cached s) (h : Breada d dev first args s looks o s') :
    (∃ calls s'', Bread d dev first s ⟨o.first, calls, o.result⟩ s'' ∧
      o.calls = calls ++ (unread looks).map fun _ => (.reada, o.first)) ∧
    ∀ i < s.nr, o.result ≠ some i → (s'.head i).count = (s.head i).count := by
  have hlt : ∀ i < s.nr, (s.head i).count < 255 := fun i hi => (hc.count i hi).trans (by decide)
  have hplus : ∀ bh, ∀ i < s.nr, plus (fun i => (s.head i).count) bh i < 255 := by
    intro bh i hi
    have := hc.count i hi
    unfold plus
    rw [Function.update_apply]
    split_ifs with hib
    · rw [← hib]
      exact Nat.succ_lt_succ this
    · exact this.trans (by decide)
  cases h with
  | @cached bh r s₁ s₂ s' looks calls hg hu ha hf =>
    obtain ⟨hk, hbh⟩ := getblk_kept hg hc.queues hlt fun i _ => rfl
    obtain ⟨hk', hcalls⟩ := ha.kept hk.queues (hk.nr.symm ▸ hplus bh) hk.counts
    have hlater := hk'.later bh (hk.nr.symm ▸ hbh) (plus_ne_zero _ _)
    have hr := (hf.same (fun _ _ => hu) hlater).1 (.inl hu)
    refine ⟨⟨[], s₁, ?_, hcalls⟩, fun i hi hne => ?_⟩
    · rw [hr]
      exact .cached hg hu
    · exact hf.counts hk'.counts (hlt bh hbh) i (hk'.nr.symm ▸ hk.nr.symm ▸ hi) hne
  | @read bh r s₁ s₂ s₃ s' looks calls hg hu hr ha hf =>
    obtain ⟨hk, hbh⟩ := getblk_kept hg hc.queues hlt fun i _ => rfl
    have hnr₂ : s₂.nr = s.nr := hr.quiet.nr.trans hk.nr
    have hcounts := hr.quiet.counts hk.counts
    obtain ⟨free, chain, hq⟩ := hk.queues
    obtain ⟨hk', hcalls⟩ := ha.kept ⟨free, chain, hr.quiet.queues hq⟩ (hnr₂.symm ▸ hplus bh) hcounts
    have hlater := hk'.later bh (hnr₂.symm ▸ hbh) (plus_ne_zero _ _)
    obtain ⟨hsome, hnone⟩ := hf.same (hr.tried (hk.nr.symm ▸ hbh)) hlater
    have hcount : (s₂.head bh).count ≠ 0 := by
      rw [hcounts bh (hnr₂.symm ▸ hbh)]
      exact plus_ne_zero _ _
    obtain ⟨s'', hb⟩ := bread_same hg hu hr (hnr₂.symm ▸ hbh) hcount hsome hnone
    refine ⟨⟨_, s'', hb, congrArg (List.cons _) hcalls⟩, fun i hi hne => ?_⟩
    exact hf.counts hk'.counts (hlt bh hbh) i (hk'.nr.symm ▸ hnr₂.symm ▸ hi) hne

/-- The calls are those that are wanted when each is for the buffer of the first block. -/
theorem unread_calls_iff (looks : List Look) (bh : ℕ) :
    ((unread looks).map fun _ => (Rw.reada, bh)) = (unread looks).map (fun l => (.reada, l.buffer)) ↔
      ∀ l ∈ looks, l.uptodate = true ∨ l.buffer = bh := by
  rw [List.map_inj_left]
  constructor
  · intro h l hl
    by_cases hu : l.uptodate = true
    · exact .inl hu
    · have hmem : l ∈ unread looks := List.mem_filter.2 ⟨hl, by rw [Bool.eq_false_iff.2 hu]; rfl⟩
      exact .inr (Prod.ext_iff.1 (h l hmem)).2.symm
  · intro h l hl
    obtain ⟨hmem, hu⟩ := List.mem_filter.1 hl
    obtain hu' | hb := h l hmem
    · rw [hu'] at hu
      exact nomatch hu
    · rw [hb]

end Ahead

/-- `breada` reads ahead exactly when each further block is up to date, or is the first one again. -/
theorem reads_ahead_iff {d : Device} {dev first : ℕ} {args : List ℤ} {s s' : Buffers}
    {looks : List Look} {o : Outcome} (hc : Cached s)
    (h : Breada d dev first args s looks o s') :
    ReadsAhead d dev first s looks o s' ↔ ∀ l ∈ looks, l.uptodate = true ∨ l.buffer = o.first := by
  obtain ⟨⟨calls, s'', hb, hcalls⟩, hcount⟩ := h.spec hc
  rw [← unread_calls_iff]
  constructor
  · rintro ⟨⟨calls', s₁, hb', hwanted⟩, -⟩
    exact (List.append_inj' (hcalls.symm.trans hwanted) (by rw [List.length_map, List.length_map])).2
  · intro hsame
    exact ⟨⟨calls, s'', hb, hsame ▸ hcalls⟩, hcount⟩

theorem getblk_turn {d : Device} {dev block bh : ℕ} {s : Buffers}
    (h : (turn s (.getblk dev block)).2 = .got bh) :
    Getblk d dev block s bh (turn s (.getblk dev block)).1 := by
  refine .turn ?_
  rw [h]
  exact .refl

/-! ### A cache with two buffers -/

def twoBuffers : Buffers where
  nr := 2
  head i := { emptyHead with prevFree := some (1 - i), nextFree := some (1 - i) }
  hashTable _ := none
  freeList := some 0
  low := emptyHead
  strays := 0

/-- The first disk. -/
def disk : Device where
  driver dev := dev == 0x300
  works dev _ := dev == 0x300
  attached _ _ h := h

theorem twoBuffers_cached : Cached twoBuffers := by
  have hstarted : Started twoBuffers := by
    refine ⟨by decide, fun _ _ => rfl, fun _ _ => ⟨rfl, rfl, rfl⟩, fun _ _ => ⟨rfl, rfl⟩, ?_,
      ⟨rfl, rfl⟩, fun _ => rfl, rfl, rfl⟩
    intro i hi
    have hzero : i = 0 := by
      change i + 1 < 2 at hi
      omega
    rw [hzero]
    exact ⟨rfl, rfl⟩
  exact ⟨⟨_, _, hstarted.queues⟩, fun i _ => Nat.zero_lt_succ 253⟩

/-- After `getblk` and `ll_rw_block(READ,bh)` for block 1. -/
def firstRead : Buffers := submit (turn twoBuffers (.getblk 0x300 1)).1 0

theorem firstRead_read : LlRead disk (turn twoBuffers (.getblk 0x300 1)).1 0 firstRead :=
  .submit (by decide +kernel) (.refl _) (by decide +kernel) (by decide +kernel)

/-- The second block is not read ahead: the request is for the first one. -/
theorem second_block_not_read : ∃ looks o s', Breada disk 0x300 1 [2, -1] twoBuffers looks o s' ∧
    ¬ReadsAhead disk 0x300 1 twoBuffers looks o s' := by
  have hsecond : Getblk disk 0x300 2 firstRead 1 (turn firstRead (.getblk 0x300 2)).1 :=
    getblk_turn (by decide +kernel)
  have hlocked : LlReada disk (turn firstRead (.getblk 0x300 2)).1 0
      (turn firstRead (.getblk 0x300 2)).1 := .locked (by decide +kernel) (by decide +kernel)
  have hend : Finish disk (drop (turn firstRead (.getblk 0x300 2)).1 1) 0 (some 0)
      (complete disk (drop (turn firstRead (.getblk 0x300 2)).1 1) 0) :=
    .found (complete_sleep _ _) (by decide +kernel) (by decide +kernel)
  have hahead : Ahead disk 0x300 0 [(2 : ℕ), -1] firstRead [⟨1, false⟩] [(.reada, 0)] _ :=
    .stale hsecond (by decide +kernel) hlocked (.stop (by decide))
  refine ⟨_, _, _, .read (getblk_turn (by decide +kernel)) (by decide +kernel) firstRead_read hahead
    hend, ?_⟩
  rintro ⟨⟨calls, s'', -, hcalls⟩, -⟩
  have hlast := congrArg List.getLast? hcalls
  simp [unread] at hlast

/-- A further block that is the first one is up to date by the time it is looked up. -/
theorem reads_ahead_iff_again : ∃ looks o s', Breada disk 0x300 1 [1, -1] twoBuffers looks o s' ∧
    ReadsAhead disk 0x300 1 twoBuffers looks o s' := by
  have hagain : Getblk disk 0x300 1 firstRead 0
      (turn (complete disk (turn firstRead (.getblk 0x300 1)).1 0) (.waitHash 0x300 1 0)).1 := by
    have hwait : (turn firstRead (.getblk 0x300 1)).2 = .waitHash 0x300 1 0 := by decide +kernel
    have hgot : (turn (complete disk (turn firstRead (.getblk 0x300 1)).1 0)
        (.waitHash 0x300 1 0)).2 = .got 0 := by decide +kernel
    refine .turn ?_
    rw [hwait]
    refine .sleep (complete_sleep _ 0) (.turn ?_)
    rw [hgot]
    exact .refl
  have hend : Finish disk (drop (turn (complete disk (turn firstRead (.getblk 0x300 1)).1 0)
      (.waitHash 0x300 1 0)).1 0) 0 (some 0) _ :=
    .found (.refl _) (by decide +kernel) (by decide +kernel)
  have hahead : Ahead disk 0x300 0 [(1 : ℕ), -1] firstRead [⟨0, true⟩] [] _ :=
    .fresh hagain (by decide +kernel) (.stop (by decide))
  have hrun : Breada disk 0x300 1 [1, -1] twoBuffers _ _ _ :=
    .read (getblk_turn (by decide +kernel)) (by decide +kernel) firstRead_read hahead hend
  refine ⟨_, _, _, hrun, (reads_ahead_iff twoBuffers_cached hrun).2 fun l hl => .inl ?_⟩
  rw [List.mem_singleton.1 hl]

end Linux011.ReadAhead
