import Linux011.Cache
import Mathlib

set_option autoImplicit false

/-!
# A task that waits for an inode it has locked itself

`read_inode` and `write_inode` keep `i_lock` over `bread`; when every free buffer is dirty,
`getblk` syncs a device and so walks over all inodes again.
-/
namespace Linux011.InodeLocks
open CooperativeTasks Cache

variable {T : Type} [DecidableEq T] {c : Config}

abbrev System (T : Type) := Sys T Caches Frame Kont

/-- The calls of `wait_on_inode`. -/
def waitsFor : Frame → Option ℕ
  | .waitSyncInode i | .waitPut i | .waitPutAgain i | .waitEmpty i => some i
  | .waitFound _ _ _ i => some i
  | _ => none

def Holds (τ : Task Frame Kont) (i : ℕ) : Prop := ∃ k ∈ τ.conts, heldLock k = some i

def WaitsForItself (τ : Task Frame Kont) : Prop := ∃ i, waitsFor τ.top = some i ∧ Holds τ i

/-- A task in `getblk` that holds an inode lock finds the buffer it has picked clean. -/
def PicksClean (σ : System T) : Prop :=
  ∀ t dev block bh i, σ.running = some t → (σ.task t).top = .getblkDirty dev block bh →
    Holds (σ.task t) i → (σ.shared.buf bh).dirt = false

/-- Any caches, every task in user mode. -/
def initial (s : Caches) : System T := ⟨s, fun _ => ⟨.user [] [], []⟩, none⟩

/-! ### What runs while a lock is held -/

def innerKont : Kont → Bool
  | .bread | .breadRead _ | .breadFail => true
  | _ => false

def Unlocked (ks : List Kont) : Prop := ∀ k ∈ ks, heldLock k = none

/-- Exactly one lock, and only `bread` above it. -/
def Guarded : List Kont → Prop
  | [] => False
  | k :: ks => (heldLock k ≠ none ∧ Unlocked ks) ∨ (innerKont k = true ∧ Guarded ks)

def Sound (τ : Task Frame Kont) : Prop :=
  Unlocked τ.conts ∨ (innerFrame τ.top = true ∧ Guarded τ.conts)

theorem Guarded.holds {ks : List Kont} (h : Guarded ks) : ∃ i, ∃ k ∈ ks, heldLock k = some i := by
  induction ks with
  | nil => exact h.elim
  | cons k ks ih =>
    rcases h with ⟨hk, _⟩ | ⟨_, h⟩
    · obtain ⟨i, hi⟩ := Option.ne_none_iff_exists'.mp hk
      exact ⟨i, k, List.mem_cons_self, hi⟩
    · obtain ⟨i, k', hk', hi⟩ := ih h
      exact ⟨i, k', List.mem_cons_of_mem k hk', hi⟩

theorem Sound.not_waitsForItself {τ : Task Frame Kont} (h : Sound τ) : ¬ WaitsForItself τ := by
  rintro ⟨i, hw, k, hk, hi⟩
  rcases h with h | ⟨h, _⟩
  · rw [h k hk] at hi
    exact absurd hi (by simp)
  · cases ht : τ.top <;> rw [ht] at hw h <;> simp [waitsFor, innerFrame] at hw h

/-- The frames below `bread` stay there, unless a dirty buffer has to be synced. -/
def Inner : Exit → Prop
  | .goto f | .sleep f => innerFrame f = true
  | .call g k => innerFrame g = true ∧ innerKont k = true
  | .ret _ | .panic => True

theorem inner_step {f : Frame} {s s' : Caches} {e : Event} {x : Exit}
    (h : Block c f s e s' x) (hf : innerFrame f = true)
    (hclean : ∀ dev block bh, f = .getblkDirty dev block bh → (s.buf bh).dirt = false) :
    Inner x := by
  cases h with
  | full => rfl
  | buffers h =>
    revert h
    fun_cases bufferStep c s f
    all_goals intro h
    all_goals simp only [reduceCtorEq, Option.some.injEq, Prod.mk.injEq] at h
    all_goals obtain ⟨rfl, rfl, rfl⟩ := h
    all_goals simp [Inner, innerFrame, innerKont] at hf ⊢
    next hdirt =>
      rw [hclean _ _ _ rfl] at hdirt
      exact absurd hdirt (by simp)
  | inodes h =>
    cases f <;> simp [innerFrame] at hf <;> simp [inodeStep] at h
  | put h =>
    cases f <;> simp [innerFrame] at hf <;> simp [iputStep] at h
  | get h =>
    cases f <;> simp [innerFrame] at hf <;> simp [igetStep] at h
  | _ => simp [innerFrame] at hf

/-- A call that returns into the frames below `bread`. -/
theorem inner_resume {k : Kont} (v : Value) (hk : innerKont k = true) :
    innerFrame (resume k v) = true := by
  cases k <;> simp [innerKont] at hk
  all_goals cases v <;> rfl

theorem next_sound {τ τ' : Task Frame Kont} {s s' : Caches} {e : Event} {x : Exit}
    (hτ : Sound τ) (hb : Block c τ.top s e s' x) (hn : τ.next (machine c) x = some τ')
    (hclean : ∀ dev block bh i, τ.top = .getblkDirty dev block bh → Holds τ i →
      (s.buf bh).dirt = false) : Sound τ' := by
  have hinner : Guarded τ.conts → innerFrame τ.top = true → Inner x := by
    intro hg hf
    obtain ⟨i, hi⟩ := hg.holds
    exact inner_step hb hf fun dev block bh he => hclean dev block bh i he hi
  cases x with
  | goto f =>
    simp only [Task.next, Option.some.injEq] at hn
    subst hn
    rcases hτ with h | ⟨hf, hg⟩
    · exact .inl h
    · exact .inr ⟨hinner hg hf, hg⟩
  | sleep f =>
    simp only [Task.next, Option.some.injEq] at hn
    subst hn
    rcases hτ with h | ⟨hf, hg⟩
    · exact .inl h
    · exact .inr ⟨hinner hg hf, hg⟩
  | call g k =>
    simp only [Task.next, Option.some.injEq] at hn
    subst hn
    rcases hτ with h | ⟨hf, hg⟩
    · by_cases hk : heldLock k = none
      · left
        intro k' hk'
        rcases List.mem_cons.mp hk' with rfl | hk'
        · exact hk
        · exact h k' hk'
      · exact .inr ⟨lock_step hb hk, .inl ⟨hk, h⟩⟩
    · obtain ⟨hg', hk⟩ := hinner hg hf
      exact .inr ⟨hg', .inr ⟨hk, hg⟩⟩
  | ret v =>
    simp only [Task.next] at hn
    cases hc : τ.conts with
    | nil => simp [hc] at hn
    | cons k ks =>
      simp only [hc, Option.some.injEq] at hn
      subst hn
      rcases hτ with h | ⟨_, hg⟩
      · left
        intro k' hk'
        exact h k' (by rw [hc]; exact List.mem_cons_of_mem k hk')
      · rw [hc] at hg
        rcases hg with ⟨_, hg⟩ | ⟨hk, hg⟩
        · exact .inl hg
        · exact .inr ⟨inner_resume v hk, hg⟩
  | panic => simp [Task.next] at hn

/-- As long as no task with an inode lock picks a dirty buffer, no task waits for an inode that
    it has locked. -/
theorem no_self_deadlock (s : Caches) {tr : List (T × Event)} {σ : System T}
    (h : RunIn (machine c) PicksClean (initial s) tr σ) (t : T) :
    ¬ WaitsForItself (σ.task t) := by
  refine Sound.not_waitsForItself (RunIn.invariant (fun _ σ => ∀ t, Sound (σ.task t)) ?_ ?_ h t)
  · intro t
    left
    intro k hk
    exact absurd hk List.not_mem_nil
  · intro tr σ l σ' hp hσ hs u
    cases hs with
    | dispatch t _ => exact hσ u
    | interrupt s _ => exact hσ u
    | exec t e s x τ hr hb hn =>
      by_cases hut : u = t
      · subst hut
        change Sound (Function.update σ.task u τ u)
        rw [Function.update_self]
        exact next_sound (hσ u) hb hn fun dev block bh i he hi => hp u dev block bh i hr he hi
      · change Sound (Function.update σ.task t τ u)
        rw [Function.update_of_ne hut]
        exact hσ u

/-! ### A cache in which no buffer is in use -/

def Reaches (P : System Unit → Prop) (c : Config) (σ₀ σ : System Unit) : Prop :=
  ∃ tr, RunIn (machine c) P σ₀ tr σ

theorem Reaches.exec {P : System Unit → Prop} {σ₀ : System Unit} {s s' : Caches} {f : Frame}
    {ks : List Kont} {e : Event} {x : Exit} {τ : Task Frame Kont}
    (h : Reaches P c σ₀ (alone s f ks)) (hb : Block c f s e s' x)
    (hn : (⟨f, ks⟩ : Task Frame Kont).next (machine c) x = some τ) (hx : x.sleeps = false)
    (hp : P (alone s' τ.top τ.conts)) : Reaches P c σ₀ (alone s' τ.top τ.conts) := by
  obtain ⟨tr, hr⟩ := h
  exact ⟨_, hr.exec hb hn hx hp⟩

/-- `n` free buffers, one on a device of its own, and a dirty inode on a third one. -/
def unused (dirt : Bool) (n : ℕ) : Caches where
  buf i := ⟨fun _ => emptyInode.disk, if i = 0 then 770 else 771, i, true, dirt, 0, false⟩
  freeList := List.range n
  hash h := (List.range n).filter fun i => hashfn (if i = 0 then 770 else 771) i = h
  request _ := none
  inode i := if i = 0 then
      { emptyInode with
        disk := { emptyInode.disk with nlinks := 1 }, dev := 769, num := 1, count := 1, dirt := true }
    else emptyInode
  lastInode := 0
  imap _ _ := true
  zmap _ _ := true
  disk _ _ _ := emptyInode.disk

/-- One hard disk with a file system on its first partition. -/
def oneDisk (n : ℕ) : Config where
  nrBuffers := n
  requestFn m := m = 3
  super dev := if dev = 769 then some ⟨32, 360, 1, 1, 5⟩ else none
  imount _ := none
  may _ _ := True
  fails := false

theorem scanFree_first {buf : ℕ → BufferHead} {l : List ℕ} {bh : ℕ}
    (h : ∀ tmp ∈ l, badness (buf bh) ≤ badness (buf tmp)) : scanFree buf l (some bh) = some bh := by
  induction l with
  | nil => rfl
  | cons tmp l ih =>
    have hl := ih fun u hu => h u (List.mem_cons_of_mem tmp hu)
    have htmp : ¬ badness (buf tmp) < badness (buf bh) := not_lt.mpr (h tmp List.mem_cons_self)
    rw [scanFree]
    split_ifs with hcount hbad
    · exact hl
    · exact absurd (by simpa using hbad) htmp
    · exact absurd (by simpa using hbad) htmp
    · exact hl

theorem unused_scan (dirt : Bool) {n : ℕ} (hn : 0 < n) :
    scanFree (unused dirt n).buf (unused dirt n).freeList none = some 0 := by
  obtain ⟨n, rfl⟩ := Nat.exists_eq_succ_of_ne_zero (Nat.pos_iff_ne_zero.mp hn)
  change scanFree _ (List.range (n + 1)) none = some 0
  rw [List.range_succ_eq_map]
  cases dirt with
  | false => rfl
  | true => exact scanFree_first fun tmp _ => le_refl _

theorem unused_find (dirt : Bool) (n block : ℕ) : findBuffer (unused dirt n) 769 block = none := by
  refine List.find?_eq_none.mpr fun bh _ => ?_
  simp only [unused]
  split_ifs <;> simp

/-- The calls open while `write_inode` looks for the block of inode 1. -/
def writing : List Kont := [.bread, .writeInode 0, .syncInodes 0, .sysSync 0, .user [] []]

/-- The block of the inode is not in the cache, so `sync` picks a free buffer for it. -/
theorem unused_pick {P : System Unit → Prop} (dirt : Bool) {n : ℕ} (hn : 0 < n)
    (hp₀ : P (initial (unused dirt n)))
    (hp : ∀ s f ks, (∀ dev block bh, f ≠ .getblkDirty dev block bh) → P (alone s f ks)) :
    Reaches P (oneDisk n) (initial (unused dirt n))
      (alone ((unused dirt n).lockInode 0) (.waitFree 769 4 0) writing) := by
  have hlock : Block (oneDisk n) (.lockWrite 0) (unused dirt n) .quiet ((unused dirt n).lockInode 0)
      (.call (.bread 769 4) (.writeInode 0)) := by
    refine .inodes ?_
    simp [inodeStep, unused, oneDisk, inodeBlock, emptyInode]
  have hpick : Block (oneDisk n) (.getblk 769 4) ((unused dirt n).lockInode 0) .quiet
      ((unused dirt n).lockInode 0) (.goto (.waitFree 769 4 0)) := by
    refine .buffers ?_
    have hfind : findBuffer ((unused dirt n).lockInode 0) 769 4 = none := unused_find dirt n 4
    have hscan : scanFree ((unused dirt n).lockInode 0).buf
        ((unused dirt n).lockInode 0).freeList none = some 0 := unused_scan dirt hn
    simp only [bufferStep, hfind, hscan]
  have h : Reaches P (oneDisk n) (initial (unused dirt n))
      (alone (unused dirt n) (.user [] []) []) :=
    ⟨_, (RunIn.start hp₀).step (.dispatch _ () rfl) (hp _ _ _ nofun)⟩
  have h := h.exec (.act (a := .sysSync) trivial rfl) rfl rfl (hp _ _ _ nofun)
  have h := h.exec (.buffers rfl) rfl rfl (hp _ _ _ nofun)
  have h := h.exec (.inodes rfl) rfl rfl (hp _ _ _ nofun)
  have h := h.exec (.inodes rfl) rfl rfl (hp _ _ _ nofun)
  have h := h.exec hlock rfl rfl (hp _ _ _ nofun)
  have h := h.exec (.buffers rfl) rfl rfl (hp _ _ _ nofun)
  exact h.exec hpick rfl rfl (hp _ _ _ nofun)

/-! ### All of them dirty -/

abbrev Any : System Unit → Prop := fun _ => True

/-- The first walk of `sync_dev` writes the one buffer of its device. -/
theorem crowded_walk {n i : ℕ} {s : Caches} {σ₀ : System Unit} {ks : List Kont}
    (hbuf : ∀ j, 0 < j → (s.buf j).dev = 771) (hi : 0 < i) (hin : i ≤ n)
    (h : Reaches Any (oneDisk n) σ₀ (alone s (.syncDev 770 false i) ks)) :
    Reaches Any (oneDisk n) σ₀ (alone s (.syncDev 770 false n) ks) := by
  obtain ⟨d, rfl⟩ := Nat.exists_eq_add_of_le hin
  clear hin
  induction d generalizing i with
  | zero => exact h
  | succ d ih =>
    have hblock : Block (oneDisk (i + (d + 1))) (.syncDev 770 false i) s .quiet s
        (.goto (.syncDev 770 false (i + 1))) := by
      refine .buffers ?_
      have hlt : i < (oneDisk (i + (d + 1))).nrBuffers := by
        change i < i + (d + 1)
        omega
      simp [bufferStep, hlt, hbuf i hi]
    have h' := h.exec hblock rfl rfl trivial
    rw [show i + (d + 1) = i + 1 + d by omega] at h' ⊢
    exact ih (Nat.succ_pos i) h'

theorem crowded_write (n : ℕ) : Block (oneDisk n) (.llRwBlock .write 0)
    ((unused true n).lockInode 0) .quiet ((unused true n).lockInode 0)
    (.goto (.lockBuffer .write 0)) := by
  refine .buffers ?_
  simp [bufferStep, unused, oneDisk, Caches.lockInode, Caches.setInode, NR_BLK_DEV]

theorem crowded_written {n : ℕ} (hn : 0 < n) : ∃ s : Caches, (∀ j, 0 < j → (s.buf j).dev = 771) ∧
    Reaches Any (oneDisk n) (initial (unused true n)) (alone s (.syncDev 770 false 1)
      (.getblkSynced 769 4 0 :: writing)) := by
  have hfirst : Block (oneDisk n) (.syncDev 770 false 0) ((unused true n).lockInode 0) .quiet
      ((unused true n).lockInode 0) (.goto (.waitSync 770 false 0)) := by
    refine .buffers ?_
    have hn : 0 < (oneDisk n).nrBuffers := hn
    have hdev : (((unused true n).lockInode 0).buf 0).dev = 770 := rfl
    simp only [bufferStep, hn, hdev, if_true, ne_eq, not_true, if_false]
  have h := unused_pick (P := Any) true hn trivial fun _ _ _ _ => trivial
  have h := h.exec (.buffers rfl) rfl rfl trivial
  have h := h.exec (.buffers rfl) rfl rfl trivial
  have h := h.exec hfirst rfl rfl trivial
  have h := h.exec (.buffers rfl) rfl rfl trivial
  have h := h.exec (crowded_write n) rfl rfl trivial
  have h := h.exec (.buffers rfl) rfl rfl trivial
  refine ⟨_, fun j hj => ?_, h.exec (.buffers rfl) rfl rfl trivial⟩
  have hj0 : j ≠ 0 := by omega
  dsimp only [Caches.setBuf, Caches.lockInode, Caches.setInode]
  rw [Function.update_of_ne hj0, Function.update_of_ne hj0]
  exact if_neg hj0

/-- With any number of buffers, `sync` comes to wait for the inode it is writing. -/
theorem sync_waits {n : ℕ} (hn : 0 < n) : ∃ s : Caches,
    Reaches Any (oneDisk n) (initial (unused true n)) (alone s (.waitSyncInode 0)
      (.syncLast 770 :: .getblkSynced 769 4 0 :: writing)) := by
  obtain ⟨s, hs, h⟩ := crowded_written hn
  have hend : Block (oneDisk n) (.syncDev 770 false n) s .quiet s
      (.call (.syncInodes 0) (.syncLast 770)) := by
    refine .buffers ?_
    simp [bufferStep, oneDisk]
  have h := (crowded_walk hs Nat.one_pos hn h).exec hend rfl rfl trivial
  exact ⟨s, h.exec (.inodes rfl) rfl rfl trivial⟩

theorem waits_for_itself : ¬ ∀ (c : Config) (s : Caches) (tr : List (Unit × Event))
    (σ : System Unit), Run (machine c) (initial s) tr σ → ∀ t, ¬ WaitsForItself (σ.task t) := by
  intro hall
  obtain ⟨s, tr, hr⟩ := sync_waits (n := 3000) (by decide)
  refine hall _ _ tr _ hr.run () ⟨0, rfl, .writeInode 0, ?_, rfl⟩
  change Kont.writeInode 0 ∈ Kont.syncLast 770 :: Kont.getblkSynced 769 4 0 :: writing
  simp [writing]

/-- With clean buffers, the same call picks one while it holds the lock. -/
theorem no_self_deadlock_clean : ∃ (tr : List (Unit × Event)) (σ : System Unit),
    RunIn (machine (oneDisk 3000)) PicksClean (initial (unused false 3000)) tr σ ∧
    (σ.task ()).top = .getblkDirty 769 4 0 ∧ Holds (σ.task ()) 0 ∧
    ¬ WaitsForItself (σ.task ()) := by
  have hquiet : ∀ s f ks, (∀ dev block bh, f ≠ .getblkDirty dev block bh) →
      PicksClean (alone s f ks) := by
    intro s f ks hf t dev block bh i _ htop
    exact absurd htop (hf dev block bh)
  have h := unused_pick (P := PicksClean) false (n := 3000) (by decide)
    (by intro t dev block bh i hr; exact absurd hr (by simp [initial])) hquiet
  have hclean : PicksClean (alone ((unused false 3000).lockInode 0) (.getblkDirty 769 4 0)
      writing) := fun _ _ _ _ _ _ _ _ => rfl
  obtain ⟨tr, hr⟩ := h.exec (.buffers rfl) rfl rfl hclean
  exact ⟨tr, _, hr, rfl, ⟨.writeInode 0, by simp [alone, writing], rfl⟩,
    no_self_deadlock _ hr ()⟩

end Linux011.InodeLocks
