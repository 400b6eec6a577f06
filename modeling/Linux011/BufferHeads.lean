import Linux011.Cache
import Mathlib

set_option autoImplicit false

/-!
# One buffer head for a block

`getblk` looks for the block again right before it gives a free buffer to it, so no two buffers
ever have the same one; and the counts are the references that the tasks hold.
-/
namespace Linux011.BufferHeads
open CooperativeTasks Cache

variable {c : Config}

/-! ### The hash chains -/

/-- Every buffer of a device is in its own hash chain, and no other one has its block. -/
structure Indexed (s : Caches) : Prop where
  chain : ∀ h bh, bh ∈ s.hash h →
    (s.buf bh).dev ≠ 0 ∧ hashfn (s.buf bh).dev (s.buf bh).blocknr = h
  nodup : ∀ h, (s.hash h).Nodup
  hashed : ∀ bh, (s.buf bh).dev ≠ 0 → bh ∈ s.hash (hashfn (s.buf bh).dev (s.buf bh).blocknr)
  unique : ∀ a b, (s.buf a).dev ≠ 0 → (s.buf a).dev = (s.buf b).dev →
    (s.buf a).blocknr = (s.buf b).blocknr → a = b

/-- The blocks that the buffers stand for, and the ways to find them, are the same. -/
structure SameIndex (s s' : Caches) : Prop where
  hash : s'.hash = s.hash
  freeList : s'.freeList = s.freeList
  block : ∀ bh, (s'.buf bh).dev = (s.buf bh).dev ∧ (s'.buf bh).blocknr = (s.buf bh).blocknr

theorem SameIndex.of_buf {s s' : Caches} (hbuf : s'.buf = s.buf) (hhash : s'.hash = s.hash)
    (hfree : s'.freeList = s.freeList) : SameIndex s s' :=
  ⟨hhash, hfree, fun bh => by rw [hbuf]; exact ⟨rfl, rfl⟩⟩

theorem SameIndex.of_update {s s' : Caches} {bh : ℕ} {b : BufferHead}
    (hbuf : s'.buf = Function.update s.buf bh b) (hhash : s'.hash = s.hash)
    (hfree : s'.freeList = s.freeList) (hdev : b.dev = (s.buf bh).dev)
    (hnr : b.blocknr = (s.buf bh).blocknr) : SameIndex s s' := by
  refine ⟨hhash, hfree, fun j => ?_⟩
  rw [hbuf]
  by_cases hj : j = bh
  · subst hj
    rw [Function.update_self]
    exact ⟨hdev, hnr⟩
  · rw [Function.update_of_ne hj]
    exact ⟨rfl, rfl⟩

theorem Indexed.same {s s' : Caches} (h : Indexed s) (hs : SameIndex s s') : Indexed s' := by
  refine ⟨?_, ?_, ?_, ?_⟩
  · intro k bh hbh
    rw [hs.hash] at hbh
    rw [(hs.block bh).1, (hs.block bh).2]
    exact h.chain k bh hbh
  · intro k
    rw [hs.hash]
    exact h.nodup k
  · intro bh hbh
    rw [(hs.block bh).1] at hbh
    rw [(hs.block bh).1, (hs.block bh).2, hs.hash]
    exact h.hashed bh hbh
  · intro a b ha hdev hnr
    rw [(hs.block a).1] at ha hdev
    rw [(hs.block b).1] at hdev
    rw [(hs.block a).2, (hs.block b).2] at hnr
    exact h.unique a b ha hdev hnr

theorem Indexed.find_none {s : Caches} (h : Indexed s) {dev block : ℕ} (hdev : dev ≠ 0)
    (hf : findBuffer s dev block = none) (bh : ℕ) :
    ¬ ((s.buf bh).dev = dev ∧ (s.buf bh).blocknr = block) := by
  rintro ⟨rfl, rfl⟩
  have := List.find?_eq_none.mp hf bh (h.hashed bh hdev)
  simp at this

theorem find_some {s : Caches} {dev block bh : ℕ} (hf : findBuffer s dev block = some bh) :
    (s.buf bh).dev = dev ∧ (s.buf bh).blocknr = block := by
  simpa using List.find?_some hf

theorem retarget_self (s : Caches) (bh dev block : ℕ) :
    (retarget s bh dev block).buf bh = { s.buf bh with
      dev := dev, blocknr := block, uptodate := false, dirt := false, count := 1 } := by
  simp [retarget, insertIntoQueues, removeFromQueues, Caches.setBuf]

theorem retarget_other (s : Caches) (bh dev block : ℕ) {j : ℕ} (hj : j ≠ bh) :
    (retarget s bh dev block).buf j = s.buf j := by
  simp [retarget, insertIntoQueues, removeFromQueues, Caches.setBuf, hj]

/-- The chains after the move: the buffer leaves its old one and heads the new one. -/
theorem mem_retarget {s : Caches} (h : Indexed s) (bh dev block k j : ℕ) :
    j ∈ (retarget s bh dev block).hash k ↔
      (j ≠ bh ∧ j ∈ s.hash k) ∨ (j = bh ∧ dev ≠ 0 ∧ k = hashfn dev block) := by
  have herase : ∀ k, j ∈ Function.update s.hash (hashfn (s.buf bh).dev (s.buf bh).blocknr)
      ((s.hash (hashfn (s.buf bh).dev (s.buf bh).blocknr)).erase bh) k ↔ j ≠ bh ∧ j ∈ s.hash k := by
    intro k
    by_cases hk : k = hashfn (s.buf bh).dev (s.buf bh).blocknr
    · subst hk
      rw [Function.update_self, (h.nodup _).mem_erase_iff]
    · rw [Function.update_of_ne hk]
      refine ⟨fun hj => ⟨?_, hj⟩, fun hj => hj.2⟩
      rintro rfl
      exact hk (h.chain k j hj).2.symm
  by_cases hdev : dev = 0
  · simp [retarget, insertIntoQueues, removeFromQueues, Caches.setBuf, hdev, herase]
  · simp only [retarget, insertIntoQueues, removeFromQueues, Caches.setBuf, Function.update_self,
      if_neg hdev]
    by_cases hk : k = hashfn dev block
    · subst hk
      rw [Function.update_self, List.mem_cons, herase]
      simp [hdev, or_comm]
    · rw [Function.update_of_ne hk, herase]
      simp [hk]

theorem Indexed.retarget {s : Caches} (h : Indexed s) {bh dev block : ℕ}
    (hf : findBuffer s dev block = none) : Indexed (Cache.retarget s bh dev block) := by
  refine ⟨?_, ?_, ?_, ?_⟩
  · intro k j hj
    rcases (mem_retarget h bh dev block k j).mp hj with ⟨hne, hj⟩ | ⟨rfl, hdev, rfl⟩
    · rw [retarget_other s bh dev block hne]
      exact h.chain k j hj
    · rw [retarget_self]
      exact ⟨hdev, rfl⟩
  · intro k
    have herase : ∀ k, (Function.update s.hash (hashfn (s.buf bh).dev (s.buf bh).blocknr)
        ((s.hash (hashfn (s.buf bh).dev (s.buf bh).blocknr)).erase bh) k).Nodup ∧
        bh ∉ Function.update s.hash (hashfn (s.buf bh).dev (s.buf bh).blocknr)
        ((s.hash (hashfn (s.buf bh).dev (s.buf bh).blocknr)).erase bh) k := by
      intro k
      by_cases hk : k = hashfn (s.buf bh).dev (s.buf bh).blocknr
      · subst hk
        rw [Function.update_self, (h.nodup _).mem_erase_iff]
        exact ⟨(h.nodup _).erase bh, fun hc => hc.1 rfl⟩
      · rw [Function.update_of_ne hk]
        exact ⟨h.nodup k, fun hc => hk (h.chain k bh hc).2.symm⟩
    by_cases hdev : dev = 0
    · simp only [Cache.retarget, insertIntoQueues, removeFromQueues, Caches.setBuf,
        Function.update_self, hdev, if_true]
      exact (herase k).1
    · simp only [Cache.retarget, insertIntoQueues, removeFromQueues, Caches.setBuf,
        Function.update_self, if_neg hdev]
      by_cases hk : k = hashfn dev block
      · subst hk
        rw [Function.update_self]
        exact List.nodup_cons.mpr ⟨(herase _).2, (herase _).1⟩
      · rw [Function.update_of_ne hk]
        exact (herase k).1
  · intro j hj
    rw [mem_retarget h]
    by_cases hne : j = bh
    · subst hne
      rw [retarget_self] at hj ⊢
      exact .inr ⟨rfl, hj, rfl⟩
    · rw [retarget_other s bh dev block hne] at hj ⊢
      exact .inl ⟨hne, h.hashed j hj⟩
  · intro a b ha hdev hnr
    by_cases hab : a = bh
    · by_cases hbb : b = bh
      · rw [hab, hbb]
      · subst hab
        rw [retarget_self] at ha hdev hnr
        rw [retarget_other s a dev block hbb] at hdev hnr
        exact absurd ⟨hdev.symm, hnr.symm⟩ (h.find_none ha hf b)
    · rw [retarget_other s bh dev block hab] at ha hdev hnr
      by_cases hbb : b = bh
      · subst hbb
        rw [retarget_self] at hdev hnr
        have hdev : (s.buf a).dev = dev := hdev
        exact absurd ⟨hdev, hnr⟩ (h.find_none (hdev ▸ ha) hf a)
      · rw [retarget_other s bh dev block hbb] at hdev hnr
        exact h.unique a b ha hdev hnr

/-! ### What a block does to the buffers -/

theorem finish_index (s : Caches) (bh : ℕ) (rw : Rw) (ok : Bool) (block : Data) :
    SameIndex s (finish s bh rw ok block) := by
  cases rw with
  | read => exact .of_update rfl rfl rfl rfl rfl
  | write => exact .of_update rfl rfl rfl rfl rfl

/-! ### References to buffers -/

/-- The references held by a frame, and how much of it is no part of the buffer cache. -/
abbrev Held := Multiset ℕ × ℕ

def optional : Option ℕ → Multiset ℕ
  | some bh => {bh}
  | none => 0

def heldValue : Value → Held
  | .buffer bh => (optional bh, 0)
  | _ => 0

def heldKont : Kont → Held
  | .userBuffer bufs _ | .userInode bufs _ | .user bufs _ => (bufs, 0)
  | .breadRead bh => ({bh}, 0)
  | .bread | .breadFail | .getblkSynced .. | .syncNext .. | .syncLast _ | .sysSync _
  | .syncInodes _ | .writeInode _ | .writeInodeEnd _ => 0
  | .userPipe bufs _ => (bufs, 1)
  | .truncate _ held | .truncateRead _ held => (held, 1)
  | _ => (0, 1)

def heldFrame : Frame → Held
  | .user bufs _ => (bufs, 0)
  | .waitHash _ _ bh | .waitRelease bh | .waitRead bh => ({bh}, 0)
  | .breadGot bh | .writeInodeGot _ bh => (optional bh, 0)
  | .getblk .. | .waitFree .. | .getblkDirty .. | .llRwBlock .. | .lockBuffer .. | .makeRequest ..
  | .bread .. | .breadFail | .syncDev .. | .waitSync .. | .sysSyncInodes | .sysSync _
  | .waitSysSync _ | .syncInodes _ | .waitSyncInode _ | .lockWrite _ | .writeInodeEnd _ => 0
  | .userPipe bufs _ _ => (bufs, 1)
  | .readInodeGot _ bh => (optional bh, 1)
  | .truncate _ held => (held, 1)
  | .stuck k v => heldKont k + heldValue v
  | _ => (0, 1)

def refs : Refs Frame Kont Value Held := ⟨heldFrame, heldKont, heldValue⟩

def Counted (s : Caches) (m : Multiset ℕ) : Prop := ∀ bh, (s.buf bh).count = m.count bh % 256

/-- The hash chains are right, the counts are those of the references, and every task is in the
    buffer cache. -/
structure Consistent (s : Caches) (r : Held) : Prop where
  indexed : Indexed s
  counted : Counted s r.1
  inside : r.2 = 0

/-- A buffer found free is still free when `getblk` takes it. -/
def Known : Frame → Caches → Prop
  | .getblkDirty _ _ bh, s => (s.buf bh).count = 0 ∧ (s.buf bh).lock = false
  | _, _ => True

theorem Counted.update {s s' : Caches} {m : Multiset ℕ} {bh : ℕ} {b : BufferHead}
    (h : Counted s m) (hbuf : s'.buf = Function.update s.buf bh b)
    (hb : b.count = (s.buf bh).count) : Counted s' m := by
  intro j
  rw [hbuf]
  by_cases hj : j = bh
  · subst hj
    rw [Function.update_self, hb]
    exact h j
  · rw [Function.update_of_ne hj]
    exact h j

theorem Counted.hold {s : Caches} {m : Multiset ℕ} (h : Counted s m) (bh : ℕ) :
    Counted (s.holdBuf bh) ({bh} + m) := by
  intro j
  have hj' := h j
  by_cases hj : j = bh
  · subst hj
    simp only [Caches.holdBuf, Caches.setBuf, Function.update_self, Multiset.count_add,
      Multiset.count_singleton_self]
    omega
  · simp only [Caches.holdBuf, Caches.setBuf, Function.update_of_ne hj, Multiset.count_add,
      Multiset.count_singleton, if_neg hj, zero_add]
    exact hj'

theorem Counted.drop {s : Caches} {m : Multiset ℕ} {bh : ℕ} (h : Counted s ({bh} + m)) :
    Counted (s.dropBuf bh) m := by
  intro j
  have hj' := h j
  by_cases hj : j = bh
  · subst hj
    simp only [Multiset.count_add, Multiset.count_singleton_self] at hj'
    simp only [Caches.dropBuf, Caches.setBuf, Function.update_self]
    split_ifs <;> omega
  · simp only [Multiset.count_add, Multiset.count_singleton, if_neg hj, zero_add] at hj'
    simp only [Caches.dropBuf, Caches.setBuf, Function.update_of_ne hj]
    exact hj'

theorem Counted.retarget {s : Caches} {m : Multiset ℕ} {bh : ℕ} (h : Counted s m)
    (h0 : (s.buf bh).count = 0) (dev block : ℕ) :
    Counted (Cache.retarget s bh dev block) ({bh} + m) := by
  intro j
  have hj' := h j
  by_cases hj : j = bh
  · subst hj
    rw [retarget_self]
    simp only [Multiset.count_add, Multiset.count_singleton_self]
    omega
  · rw [retarget_other s bh dev block hj]
    simp only [Multiset.count_add, Multiset.count_singleton, if_neg hj, zero_add]
    exact hj'

theorem refs_resume (k : Kont) (v : Value) :
    heldFrame (resume k v) = heldKont k + heldValue v := by
  fun_cases resume k v
  all_goals simp only [heldFrame, heldKont, heldValue, optional, add_zero, zero_add, Prod.mk_add_mk]
  all_goals first
    | rfl
    | rw [add_comm, Multiset.singleton_add]; rfl

/-- Only the functions of the buffer cache are called. `b_dev` is an unsigned short, which the
    device numbers of the callers fit. -/
def BufferCalls (c : Config) : Prop := ∀ s a, c.may s a → match a with
  | .getblk dev _ | .bread dev _ => dev < 65536
  | .brelse _ | .store .. | .syncDev _ | .sysSync => True
  | _ => False

theorem Consistent.update {s s' : Caches} {r : Held} {bh : ℕ} {b : BufferHead}
    (h : Consistent s r) (hbuf : s'.buf = Function.update s.buf bh b) (hhash : s'.hash = s.hash)
    (hfree : s'.freeList = s.freeList) (hdev : b.dev = (s.buf bh).dev)
    (hnr : b.blocknr = (s.buf bh).blocknr) (hcount : b.count = (s.buf bh).count) :
    Consistent s' r :=
  ⟨h.indexed.same (.of_update hbuf hhash hfree hdev hnr), h.counted.update hbuf hcount, h.inside⟩

theorem SameIndex.of_setBuf (s : Caches) (bh : ℕ) (b : BufferHead) (hdev : b.dev = (s.buf bh).dev)
    (hnr : b.blocknr = (s.buf bh).blocknr) : SameIndex s (s.setBuf bh b) :=
  .of_update rfl rfl rfl hdev hnr

theorem Consistent.hold {s : Caches} {r : Held} (h : Consistent s r) (bh : ℕ) :
    Consistent (s.holdBuf bh) (({bh}, 0) + r) :=
  ⟨h.indexed.same (.of_setBuf s bh _ rfl rfl), h.counted.hold bh,
    by rw [Prod.snd_add, zero_add]; exact h.inside⟩

theorem Consistent.drop {s : Caches} {r : Held} {bh : ℕ} (h : Consistent s (({bh}, 0) + r)) :
    Consistent (s.dropBuf bh) r :=
  ⟨h.indexed.same (.of_setBuf s bh _ rfl rfl), h.counted.drop,
    by rw [← zero_add r.2]; exact h.inside⟩

theorem Consistent.retarget {s : Caches} {r : Held} {bh dev block : ℕ} (h : Consistent s r)
    (h0 : (s.buf bh).count = 0) (hf : findBuffer s dev block = none) :
    Consistent (Cache.retarget s bh dev block) (({bh}, 0) + r) :=
  ⟨h.indexed.retarget hf, h.counted.retarget h0 dev block,
    by rw [Prod.snd_add, zero_add]; exact h.inside⟩

theorem buffer_post {f : Frame} {s s' : Caches} {e : Event} {x : Exit} {r : Held}
    (hs : Consistent s (heldFrame f + r)) (hl : Known f s)
    (h : bufferStep c s f = some (e, s', x)) : x.Post refs Consistent Known r s' := by
  revert h
  fun_cases bufferStep c s f <;> intro h
  all_goals simp only [reduceCtorEq, Option.some.injEq, Prod.mk.injEq] at h
  all_goals obtain ⟨rfl, rfl, rfl⟩ := h
  all_goals simp only [Ctl.Post, refs, heldFrame, heldKont, heldValue, optional, Known, zero_add,
    add_zero] at hs hl ⊢
  all_goals first
    | exact hs
    | exact ⟨hs, trivial⟩
    | exact ⟨hs, fun _ => trivial⟩
    | exact hs.update rfl rfl rfl rfl rfl rfl
    | exact ⟨hs.update rfl rfl rfl rfl rfl rfl, trivial⟩
    | exact ⟨hs.hold _, trivial⟩
    | exact ⟨hs.drop, trivial⟩
    | exact hs.drop
    | skip
  · -- the buffer was found free, and the task has not slept
    next hlock hcount => exact ⟨hs, not_ne_iff.mp hcount, by simpa using hlock⟩
  · next _ hfind _ => exact hs.retarget hl.1 hfind
  · exact (zero_add r).symm ▸ hs

theorem Consistent.outside {s : Caches} {r : Held} {m : Multiset ℕ} :
    ¬ Consistent s ((m, 1) + r) := by
  intro h
  have := h.inside
  simp at this

theorem Consistent.of_buf {s s' : Caches} {r : Held} (h : Consistent s r) (hbuf : s'.buf = s.buf)
    (hhash : s'.hash = s.hash) (hfree : s'.freeList = s.freeList) : Consistent s' r :=
  ⟨h.indexed.same (.of_buf hbuf hhash hfree), by
    intro bh
    rw [hbuf]
    exact h.counted bh, h.inside⟩

theorem inode_post {f : Frame} {s s' : Caches} {e : Event} {x : Exit} {r : Held}
    (hs : Consistent s (heldFrame f + r)) (h : inodeStep c s f = some (e, s', x)) :
    x.Post refs Consistent Known r s' := by
  revert h
  fun_cases inodeStep c s f <;> intro h
  all_goals simp only [reduceCtorEq, Option.some.injEq, Prod.mk.injEq] at h
  all_goals obtain ⟨rfl, rfl, rfl⟩ := h
  all_goals simp only [Ctl.Post, refs, heldFrame, heldKont, heldValue, optional, Known, zero_add,
    add_zero] at hs ⊢
  all_goals first
    | exact absurd hs Consistent.outside
    | exact hs
    | exact ⟨hs, trivial⟩
    | exact ⟨hs, fun _ => trivial⟩
    | exact hs.of_buf rfl rfl rfl
    | exact ⟨hs.of_buf rfl rfl rfl, trivial⟩
    | exact ⟨hs.update rfl rfl rfl rfl rfl rfl, trivial⟩

theorem user_post {s s' : Caches} {bufs inodes : List ℕ} {a : Action} {x : Exit} {r : Held}
    (hc : BufferCalls c) (ha : c.may s a) (hs : Consistent s (heldFrame (.user bufs inodes) + r))
    (h : userStep s bufs inodes a = some (s', x)) : x.Post refs Consistent Known r s' := by
  have hcall := hc s a ha
  revert h
  fun_cases userStep <;> intro h
  all_goals simp only [reduceCtorEq, Option.some.injEq, Prod.mk.injEq] at h
  all_goals obtain ⟨rfl, rfl⟩ := h
  all_goals simp only [Ctl.Post, refs, heldFrame, heldKont, Known, zero_add] at hs ⊢
  all_goals first
    | exact hcall.elim
    | exact ⟨hs, trivial⟩
    | exact ⟨hs.update rfl rfl rfl rfl rfl rfl, trivial⟩
    | skip
  next bh hmem =>
    refine ⟨?_, trivial⟩
    have hbufs : (bufs : Multiset ℕ) = {bh} + (bufs.erase bh : Multiset ℕ) := by
      rw [Multiset.singleton_add, Multiset.cons_coe]
      exact Multiset.coe_eq_coe.mpr (List.perm_cons_erase hmem)
    rw [hbufs] at hs
    simpa using hs

/-- Every block of the buffer cache keeps the chains and the counts. -/
theorem safe (hc : BufferCalls c) : Safe (machine c) refs Consistent Known where
  block f s e s' x r hs hl hb := by
    cases hb with
    | yield => exact ⟨hs, fun _ => trivial⟩
    | act ha h => exact user_post hc ha hs h
    | full => exact ⟨hs, fun _ => trivial⟩
    | buffers h => exact buffer_post hs hl h
    | inodes h => exact inode_post hs h
    | put h =>
      revert h
      fun_cases iputStep c s f <;> intro h
      all_goals first
        | exact absurd hs Consistent.outside
        | exact absurd h (by simp)
    | get h =>
      revert h
      fun_cases igetStep c s f <;> intro h
      all_goals first
        | exact absurd hs Consistent.outside
        | exact absurd h (by simp)
    | pipe => exact absurd hs Consistent.outside
    | pipeFail => exact absurd hs Consistent.outside
    | free => exact absurd hs Consistent.outside
    | readIndirect => exact absurd hs Consistent.outside
  resume := refs_resume
  resumed k v s := by
    change Known (Cache.resume k v) s
    fun_cases Cache.resume k v <;> trivial
  interrupt s s' r hs := by
    rintro ⟨bh, rw, ok, block, _, _, rfl⟩
    cases rw with
    | read => exact hs.update rfl rfl rfl rfl rfl rfl
    | write => exact hs.update rfl rfl rfl rfl rfl rfl
  interrupted f s s' r _ hl := by
    rintro ⟨bh, rw, ok, block, _, _, rfl⟩
    cases f with
    | getblkDirty dev nr j =>
      obtain ⟨hcount, hlock⟩ := hl
      by_cases hj : j = bh
      · subst hj
        cases rw <;> exact ⟨by simpa [finish, Caches.setBuf] using hcount,
          by simp [finish, Caches.setBuf]⟩
      · cases rw <;> exact ⟨by simpa [finish, Caches.setBuf, hj] using hcount,
          by simpa [finish, Caches.setBuf, hj] using hlock⟩
    | _ => trivial

/-! ### Runs -/

variable {T : Type} [Fintype T] [DecidableEq T]

abbrev System (T : Type) := Sys T Caches Frame Kont

/-- At most 255 references to one buffer. -/
def FewReferences (σ : System T) : Prop := ∀ bh, (σ.refs refs).1.count bh ≤ 255

/-- Right chains, no buffer in use, every task in user mode. -/
structure Start (σ : System T) : Prop where
  indexed : Indexed σ.shared
  unused : ∀ bh, (σ.shared.buf bh).count = 0
  user : ∀ t, σ.task t = ⟨.user [] [], []⟩
  running : σ.running = none

/-- What `getblk` hands out, and what it takes for a new block. -/
def Right : Event → Prop
  | .got dev block _ b => b.dev = dev ∧ b.blocknr = block
  | .retarget dev block _ old b => old.count = 0 ∧ old.dirt = false ∧ old.lock = false ∧
      b.dev = dev ∧ b.blocknr = block ∧ 1 ≤ b.count
  | _ => True

def InUse : Event → Prop
  | .got _ _ _ b | .retarget _ _ _ _ b => 1 ≤ b.count
  | _ => True

/-- The two ways out of `getblk`. -/
inductive Handed (s : Caches) (e : Event) : Frame → Prop where
  | got (dev block bh : ℕ) (he : e = .got dev block bh (s.buf bh)) (hdev : (s.buf bh).dev = dev)
      (hnr : (s.buf bh).blocknr = block) : Handed s e (.waitHash dev block bh)
  | retarget (dev block bh : ℕ)
      (he : e = .retarget dev block bh (s.buf bh) ((Cache.retarget s bh dev block).buf bh))
      (hdirt : (s.buf bh).dirt = false) : Handed s e (.getblkDirty dev block bh)

theorem block_event {f : Frame} {s s' : Caches} {e : Event} {x : Exit} (h : Block c f s e s' x) :
    Handed s e f ∨ (Right e ∧ InUse e) := by
  cases h with
  | buffers h =>
    revert h
    fun_cases bufferStep c s f <;> intro h
    all_goals simp only [reduceCtorEq, Option.some.injEq, Prod.mk.injEq] at h
    all_goals obtain ⟨rfl, rfl, rfl⟩ := h
    all_goals first
      | exact .inr ⟨trivial, trivial⟩
      | skip
    · next hfound => exact .inl (.got _ _ _ rfl hfound.1 hfound.2)
    · next hdirt _ _ => exact .inl (.retarget _ _ _ rfl (by simpa using hdirt))
  | inodes h => rw [inodeStep_quiet h]; exact .inr ⟨trivial, trivial⟩
  | put h => rw [iputStep_quiet h]; exact .inr ⟨trivial, trivial⟩
  | get h =>
    revert h
    fun_cases igetStep c s f <;> intro h
    all_goals simp only [reduceCtorEq, Option.some.injEq, Prod.mk.injEq] at h
    all_goals obtain ⟨rfl, rfl, rfl⟩ := h
    all_goals exact .inr ⟨trivial, trivial⟩
  | _ => exact .inr ⟨trivial, trivial⟩

theorem block_right {f : Frame} {s s' : Caches} {e : Event} {x : Exit} (hl : Known f s)
    (h : Block c f s e s' x) : Right e := by
  rcases block_event h with h | h
  · cases h with
    | got dev block bh he hdev hnr =>
      subst he
      exact ⟨hdev, hnr⟩
    | retarget dev block bh he hdirt =>
      subst he
      refine ⟨hl.1, hdirt, hl.2, ?_⟩
      rw [retarget_self]
      exact ⟨rfl, rfl, le_refl 1⟩
  · exact h.1

theorem block_inUse {f : Frame} {s s' : Caches} {e : Event} {x : Exit} {r : Held}
    (hs : Consistent s (heldFrame f + r)) (hfew : ∀ bh, (heldFrame f + r).1.count bh ≤ 255)
    (h : Block c f s e s' x) : InUse e := by
  rcases block_event h with h | h
  · cases h with
    | got dev block bh he _ _ =>
      subst he
      have hcount := hs.counted bh
      have hone : 1 ≤ (heldFrame (.waitHash dev block bh) + r).1.count bh := by
        simp [heldFrame]
      have := hfew bh
      change 1 ≤ (s.buf bh).count
      omega
    | retarget dev block bh he _ =>
      subst he
      change 1 ≤ ((Cache.retarget s bh dev block).buf bh).count
      rw [retarget_self]
  · exact h.2

omit [DecidableEq T] in
theorem Start.sound {σ : System T} (h : Start σ) : Sound refs Consistent Known σ := by
  have hrefs : σ.refs refs = 0 := by
    refine Finset.sum_eq_zero fun t _ => ?_
    rw [h.user t]
    rfl
  refine ⟨⟨h.indexed, ?_, by rw [hrefs]; rfl⟩, ?_, ?_⟩
  · intro bh
    rw [hrefs, h.unused bh]
    rfl
  · intro t _ s
    rw [h.user t]
    trivial
  · intro t ht
    rw [h.running] at ht
    exact absurd ht (by simp)

theorem run_right (hc : BufferCalls c) {σ₀ σ : System T} {tr : List (T × Event)} (h₀ : Start σ₀)
    (h : Run (machine c) σ₀ tr σ) : ∀ x ∈ tr, Right x.2 := by
  refine (h.invariant (fun tr σ => Sound refs Consistent Known σ ∧ ∀ x ∈ tr, Right x.2)
    ⟨h₀.sound, fun x hx => absurd hx List.not_mem_nil⟩ ?_).2
  rintro tr σ l σ' ⟨hσ, htr⟩ hs
  refine ⟨(safe hc).step hσ hs, fun x hx => ?_⟩
  rcases List.mem_append.mp hx with hx | hx
  · exact htr x hx
  · cases hs with
    | dispatch t _ => exact absurd hx List.not_mem_nil
    | interrupt s _ => exact absurd hx List.not_mem_nil
    | exec t e s x τ hr hb hn =>
      obtain rfl := List.mem_singleton.mp hx
      exact block_right (hσ.awake t hr) hb

theorem run_inUse (hc : BufferCalls c) {σ₀ σ : System T} {tr : List (T × Event)} (h₀ : Start σ₀)
    (h : RunIn (machine c) FewReferences σ₀ tr σ) : ∀ x ∈ tr, InUse x.2 := by
  refine (h.invariant (fun tr σ => Sound refs Consistent Known σ ∧ ∀ x ∈ tr, InUse x.2)
    ⟨h₀.sound, fun x hx => absurd hx List.not_mem_nil⟩ ?_).2
  rintro tr σ l σ' hfew ⟨hσ, htr⟩ hs
  refine ⟨(safe hc).step hσ hs, fun x hx => ?_⟩
  rcases List.mem_append.mp hx with hx | hx
  · exact htr x hx
  · cases hs with
    | dispatch t _ => exact absurd hx List.not_mem_nil
    | interrupt s _ => exact absurd hx List.not_mem_nil
    | exec t e s x τ hr hb hn =>
      obtain rfl := List.mem_singleton.mp hx
      have hI := hσ.shared
      unfold FewReferences at hfew
      rw [Sys.refs_split refs σ t, Task.refs, add_assoc] at hI hfew
      exact block_inUse hI hfew hb

/-- No two buffers have the same block, what is taken for another block is unused, clean and
    unlocked, and what is handed out is the block asked for; it is in use as long as no buffer
    has more than 255 references. -/
theorem one_head_per_block (hc : BufferCalls c) {σ₀ σ : System T} {tr : List (T × Event)}
    (h₀ : Start σ₀) (h : Run (machine c) σ₀ tr σ) :
    (∀ a b, (σ.shared.buf a).dev ≠ 0 → (σ.shared.buf a).dev = (σ.shared.buf b).dev →
      (σ.shared.buf a).blocknr = (σ.shared.buf b).blocknr → a = b) ∧
    (∀ x ∈ tr, Right x.2) ∧
    (RunIn (machine c) FewReferences σ₀ tr σ → ∀ x ∈ tr, InUse x.2) :=
  ⟨((safe hc).run h₀.sound h).shared.indexed.unique, run_right hc h₀ h, run_inUse hc h₀⟩

/-! ### A count that wraps -/

/-- One buffer, with `k` references. -/
def single (k : ℕ) : Caches where
  buf j := if j = 0 then ⟨fun _ => emptyInode.disk, 769, 5, true, false, k, false⟩
    else ⟨fun _ => emptyInode.disk, 0, 0, false, false, 0, false⟩
  freeList := [0]
  hash h := if h = hashfn 769 5 then [0] else []
  request _ := none
  inode _ := emptyInode
  lastInode := 0
  imap _ _ := true
  zmap _ _ := true
  disk _ _ _ := emptyInode.disk

def plain : Config where
  nrBuffers := 1
  requestFn m := m = 3
  super _ := none
  imount _ := none
  may _ a := match a with
    | .getblk dev _ => dev < 65536
    | .brelse _ => True
    | _ => False
  fails := false

theorem plain_calls : BufferCalls plain := by
  intro s a ha
  cases a with
  | getblk dev block => exact ha
  | brelse bh => trivial
  | bread | store | syncDev | sysSync | iget | iput | newInode | getPipeInode | setInode =>
    exact ha.elim

/-- 256 tasks in user mode. -/
def start : System (Fin 256) := ⟨single 0, fun _ => ⟨.user [] [], []⟩, none⟩

theorem single_indexed (k : ℕ) : Indexed (single k) where
  chain h bh hbh := by
    simp only [single] at hbh
    split_ifs at hbh with hh
    · obtain rfl := List.mem_singleton.mp hbh
      exact ⟨by simp [single], by simp [single, hh]⟩
    · exact absurd hbh List.not_mem_nil
  nodup h := by
    simp only [single]
    split_ifs <;> simp
  hashed bh hbh := by
    by_cases h0 : bh = 0
    · subst h0
      simp [single]
    · simp [single, h0] at hbh
  unique a b ha hdev _ := by
    by_cases h0 : a = 0
    · by_cases h1 : b = 0
      · rw [h0, h1]
      · simp [single, h0, h1] at hdev
    · simp [single, h0] at ha

theorem start_start : Start start where
  indexed := single_indexed 0
  unused bh := by
    simp only [start, single]
    split_ifs <;> rfl
  user _ := rfl
  running := rfl

theorem single_hold (k : ℕ) : (single k).holdBuf 0 = single ((k + 1) % 256) := by
  simp only [Caches.holdBuf, Caches.setBuf, single]
  congr
  funext j
  by_cases hj : j = 0
  · simp [hj]
  · simp [hj]

theorem single_find (k : ℕ) : findBuffer (single k) 769 5 = some 0 := by
  simp [findBuffer, single]

theorem single_miss (k : ℕ) : findBuffer (single k) 769 6 = none := by
  have hh : hashfn 769 6 ≠ hashfn 769 5 := by decide
  simp [findBuffer, single, hh]

theorem single_used : scanFree (single 1).buf (single 1).freeList none = none := by decide

theorem single_unused : scanFree (single 0).buf (single 0).freeList none = some 0 := by decide

theorem single_drop : (single 1).dropBuf 0 = single 0 := by
  simp only [Caches.dropBuf, Caches.setBuf, single]
  congr
  funext j
  by_cases hj : j = 0
  · simp [hj]
  · simp [hj]

/-- One task gets the buffer and goes to sleep with it. -/
theorem getblk_turn (k : ℕ) : Turn (machine plain) ⟨.user [] [], []⟩ (single k)
    [.quiet, .quiet, .got 769 5 0 ((single ((k + 1) % 256)).buf 0), .quiet]
    ⟨.user [0] [], []⟩ (single ((k + 1) % 256)) := by
  have hget : bufferStep plain (single k) (.getblk 769 5) =
      some (.quiet, single ((k + 1) % 256), .goto (.waitHash 769 5 0)) := by
    simp [bufferStep, single_find, single_hold]
  have hwait : bufferStep plain (single ((k + 1) % 256)) (.waitHash 769 5 0) =
      some (.got 769 5 0 ((single ((k + 1) % 256)).buf 0), single ((k + 1) % 256),
        .ret (.buffer (some 0))) := by
    simp [bufferStep, single]
  exact .step (Block.act (a := .getblk 769 5) (show 769 < 65536 by decide) rfl) rfl rfl
    (.step (Block.buffers hget) rfl rfl
      (.step (Block.buffers hwait) rfl rfl (.sleep (Block.yield _ [0] []))))

/-- Another block is asked for while the only buffer is in use. -/
theorem sleep_turn : Turn (machine plain) ⟨.user [] [], []⟩ (single 1) [.quiet, .quiet]
    ⟨.getblk 769 6, [.userBuffer [] []]⟩ (single 1) := by
  have hget : bufferStep plain (single 1) (.getblk 769 6) =
      some (.quiet, single 1, .sleep (.getblk 769 6)) := by
    simp [bufferStep, single_miss, single_used]
  exact .step (Block.act (a := .getblk 769 6) (show 769 < 65536 by decide) rfl) rfl rfl
    (.sleep (Block.buffers hget))

theorem brelse_turn : Turn (machine plain) ⟨.user [0] [], []⟩ (single 1)
    [.quiet, .quiet, .quiet] ⟨.user [] [], []⟩ (single 0) := by
  have hlock : ((single 1).buf 0).lock = false := rfl
  have hcount : ((single 1).buf 0).count ≠ 0 := by decide
  have hwait : bufferStep plain (single 1) (.waitRelease 0) =
      some (.quiet, single 0, .ret .void) := by
    simp [bufferStep, single_drop, hlock, hcount]
  exact .step (Block.act (a := .brelse 0) trivial rfl) rfl rfl
    (.step (Block.buffers hwait) rfl rfl (.sleep (Block.yield _ [] [])))

/-- The sleeper finds the buffer unused, and takes it for its block. -/
theorem retarget_turn : Turn (machine plain) ⟨.getblk 769 6, [.userBuffer [] []]⟩ (single 0)
    [.quiet, .quiet, .retarget 769 6 0 ((single 0).buf 0) ((retarget (single 0) 0 769 6).buf 0),
      .quiet]
    ⟨.user [0] [], []⟩ (retarget (single 0) 0 769 6) := by
  have hlock : ((single 0).buf 0).lock = false := rfl
  have hcount : ((single 0).buf 0).count = 0 := rfl
  have hclean : ((single 0).buf 0).dirt = false := rfl
  have hget : bufferStep plain (single 0) (.getblk 769 6) =
      some (.quiet, single 0, .goto (.waitFree 769 6 0)) := by
    simp [bufferStep, single_miss, single_unused]
  have hwait : bufferStep plain (single 0) (.waitFree 769 6 0) =
      some (.quiet, single 0, .goto (.getblkDirty 769 6 0)) := by
    simp [bufferStep, hlock, hcount]
  have htake : bufferStep plain (single 0) (.getblkDirty 769 6 0) =
      some (.retarget 769 6 0 ((single 0).buf 0) ((retarget (single 0) 0 769 6).buf 0),
        retarget (single 0) 0 769 6, .ret (.buffer (some 0))) := by
    simp [bufferStep, single_miss, hclean]
  exact .step (Block.buffers hget) rfl rfl (.step (Block.buffers hwait) rfl rfl
    (.step (Block.buffers htake) rfl rfl (.sleep (Block.yield _ [0] []))))

theorem getblk_turns (k : ℕ) (hk : k ≤ 256) :
    ∃ tr task, Run (machine plain) start tr ⟨single (k % 256), task, none⟩ ∧
      (∀ t : Fin 256, k ≤ t.val → task t = ⟨.user [] [], []⟩) ∧
      (0 < k → ∃ t, (t, Event.got 769 5 0 ((single (k % 256)).buf 0)) ∈ tr) := by
  induction k with
  | zero => exact ⟨[], _, .start, fun _ _ => rfl, fun h => absurd h (lt_irrefl 0)⟩
  | succ k ih =>
    obtain ⟨tr, task, hrun, ht, _⟩ := ih (by omega)
    have hturn := (getblk_turn (k % 256)).run (ht ⟨k, by omega⟩ (le_refl k))
    have hwrap : (k % 256 + 1) % 256 = (k + 1) % 256 := by omega
    rw [hwrap] at hturn
    refine ⟨_, _, hrun.trans hturn, fun t hkt => ?_, fun _ =>
      ⟨⟨k, by omega⟩, List.mem_append_right tr (by simp)⟩⟩
    have hne : t ≠ ⟨k, by omega⟩ := by
      intro he
      rw [he] at hkt
      exact absurd hkt (by simp)
    rw [Function.update_of_ne hne]
    exact ht t (by omega)

/-- One task gets the only buffer, another sleeps for want of one, and takes it for its own
    block when the first has released it. -/
theorem one_head_per_block_start : ∃ tr σ, Run (machine plain) start tr σ ∧
    (∃ b, ((1 : Fin 256), Event.retarget 769 6 0 ((single 0).buf 0) b) ∈ tr) ∧
    (∃ b, ((0 : Fin 256), Event.got 769 5 0 b) ∈ tr) ∧ ∀ x ∈ tr, Right x.2 := by
  have h₁ : Run (machine plain) start _ _ := (getblk_turn 0).run (t := 0) rfl
  have h₂ := h₁.trans (sleep_turn.run (t := 1) rfl)
  have h₃ := h₂.trans (brelse_turn.run (t := 0) rfl)
  have h₄ := h₃.trans (retarget_turn.run (t := 1) rfl)
  exact ⟨_, _, h₄, ⟨(retarget (single 0) 0 769 6).buf 0, by simp⟩, ⟨(single 1).buf 0, by simp⟩,
    (one_head_per_block plain_calls start_start h₄).2.1⟩

/-- The last of 256 tasks that hold one buffer is handed it with a count of zero. -/
theorem handed_out_with_zero_count : BufferCalls plain ∧ Start start ∧
    ∃ tr σ, Run (machine plain) start tr σ ∧
      ∃ x ∈ tr, ∃ b, x.2 = .got 769 5 0 b ∧ b.count = 0 := by
  obtain ⟨tr, task, h, _, hgot⟩ := getblk_turns 256 (le_refl _)
  obtain ⟨t, ht⟩ := hgot (by decide)
  exact ⟨plain_calls, start_start, tr, _, h, _, ht, _, rfl, rfl⟩

end Linux011.BufferHeads
