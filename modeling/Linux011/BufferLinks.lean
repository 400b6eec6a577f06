import Linux011.LinkedRings

set_option autoImplicit false

/-!
# The queues of the buffer heads (fs/buffer.c)

The free list and the hash table as pointers, and what `getblk` and `brelse` do to them for any number
of tasks that switch where they sleep. The flags of a buffer may change at any time.
-/
namespace Linux011.BufferLinks
open LinkedRings

def NR_HASH : ℕ := 307

/-- `struct buffer_head`; a pointer to one is the number of the head, or NULL. -/
structure BufferHead where
  blocknr : ℕ
  dev : ℕ
  uptodate : Bool
  dirt : Bool
  count : ℕ
  lock : Bool
  prev : Option ℕ
  next : Option ℕ
  prevFree : Option ℕ
  nextFree : Option ℕ

/-- `low` is what is read through NULL. `strays` counts the stores to no head, which are ignored. -/
structure Buffers where
  nr : ℕ
  head : ℕ → BufferHead
  hashTable : ℕ → Option ℕ
  freeList : Option ℕ
  low : BufferHead
  strays : ℕ

def hashfn (dev block : ℕ) : ℕ := (dev ^^^ block) % NR_HASH

/-- The head at a pointer. -/
def Buffers.deref (s : Buffers) : Option ℕ → BufferHead
  | none => s.low
  | some i => s.head i

/-- A store to a field of the head at a pointer. -/
def Buffers.store (s : Buffers) (p : Option ℕ) (f : BufferHead → BufferHead) : Buffers :=
  match p with
  | none => { s with strays := s.strays + 1 }
  | some i =>
    if i < s.nr then { s with head := Function.update s.head i (f (s.head i)) }
    else { s with strays := s.strays + 1 }

/-- One that is not made through NULL. -/
def Buffers.storeIf (s : Buffers) (p : Option ℕ) (f : BufferHead → BufferHead) : Buffers :=
  if p = none then s else s.store p f

/-- `none` is the panic. -/
def removeFromQueues (s : Buffers) (bh : ℕ) : Option Buffers :=
  let s := s.storeIf (s.head bh).next fun h => { h with prev := (s.head bh).prev }
  let s := s.storeIf (s.head bh).prev fun h => { h with next := (s.head bh).next }
  let k := hashfn (s.head bh).dev (s.head bh).blocknr
  let s := if s.hashTable k = some bh then
      { s with hashTable := Function.update s.hashTable k (s.head bh).next }
    else s
  if (s.head bh).prevFree = none ∨ (s.head bh).nextFree = none then none
  else
    let s := s.store (s.head bh).prevFree fun h => { h with nextFree := (s.head bh).nextFree }
    let s := s.store (s.head bh).nextFree fun h => { h with prevFree := (s.head bh).prevFree }
    some (if s.freeList = some bh then { s with freeList := (s.head bh).nextFree } else s)

def insertIntoQueues (s : Buffers) (bh : ℕ) : Buffers :=
  let s := s.store (some bh) fun h => { h with nextFree := s.freeList }
  let s := s.store (some bh) fun h => { h with prevFree := (s.deref s.freeList).prevFree }
  let s := s.store (s.deref s.freeList).prevFree fun h => { h with nextFree := some bh }
  let s := s.store s.freeList fun h => { h with prevFree := some bh }
  let s := s.store (some bh) fun h => { h with prev := none, next := none }
  if (s.head bh).dev = 0 then s
  else
    let k := hashfn (s.head bh).dev (s.head bh).blocknr
    let s := s.store (some bh) fun h => { h with next := s.hashTable k }
    let s := { s with hashTable := Function.update s.hashTable k (some bh) }
    s.store (s.head bh).next fun h => { h with prev := some bh }

/-- The loop of `find_buffer`: a chain that does not end after all the heads never ends. -/
def walk (s : Buffers) (dev block : ℕ) : ℕ → Option ℕ → Option (Option ℕ)
  | _, none => some none
  | 0, some _ => none
  | n + 1, some tmp =>
    if (s.head tmp).dev = dev ∧ (s.head tmp).blocknr = block then some (some tmp)
    else walk s dev block n (s.head tmp).next

def findBuffer (s : Buffers) (dev block : ℕ) : Option (Option ℕ) :=
  walk s dev block s.nr (s.hashTable (hashfn dev block))

def badness (h : BufferHead) : ℕ := 2 * h.dirt.toNat + h.lock.toNat

/-- The loop over the free list, in the same way. -/
def scan (s : Buffers) : ℕ → Option ℕ → Option ℕ → Option (Option ℕ)
  | 0, _, _ => none
  | n + 1, tmp, bh =>
    let better := (s.deref tmp).count = 0 ∧
      (bh = none ∨ badness (s.deref tmp) < badness (s.deref bh))
    if better ∧ badness (s.deref tmp) = 0 then some tmp
    else
      let bh := if better then tmp else bh
      if (s.deref tmp).nextFree = s.freeList then some bh
      else scan s n (s.deref tmp).nextFree bh

def scanFree (s : Buffers) : Option (Option ℕ) := scan s s.nr s.freeList none

/-- The end of `getblk`. -/
def retarget (s : Buffers) (bh dev block : ℕ) : Option Buffers :=
  let s := s.store (some bh) fun h => { h with count := 1, dirt := false, uptodate := false }
  (removeFromQueues s bh).map fun s =>
    insertIntoQueues (s.store (some bh) fun h => { h with dev := dev % 65536, blocknr := block }) bh

/-- Where a task is. `got` has the buffer that `getblk` returned, `loops` is a loop that does not end,
    `corrupted` the panic for the free list. -/
inductive Frame where
  | idle
  | got (bh : ℕ)
  | getblk (dev block : ℕ)
  | waitHash (dev block bh : ℕ)
  | waitFree (dev block bh : ℕ)
  | brelse (bh : ℕ)
  | freeFree
  | corrupted
  | loops
  deriving DecidableEq

/-- `b_count` is an unsigned char. -/
def hold (s : Buffers) (bh : ℕ) : Buffers :=
  s.store (some bh) fun h => { h with count := (h.count + 1) % 256 }

def drop (s : Buffers) (bh : ℕ) : Buffers :=
  s.store (some bh) fun h => { h with count := (h.count + 255) % 256 }

/-- `wait_on_buffer` in `get_hash_table`, and what follows. -/
def waitHash (s : Buffers) (dev block bh : ℕ) : Buffers × Frame :=
  if (s.head bh).lock then (s, .waitHash dev block bh)
  else if (s.head bh).dev = dev ∧ (s.head bh).blocknr = block then (s, .got bh)
  else (drop s bh, .getblk dev block)

/-- `wait_on_buffer` in `getblk`, and what follows. A task that calls `sync_dev` sleeps, and waits
    again. -/
def waitFree (s : Buffers) (dev block bh : ℕ) : Buffers × Frame :=
  if (s.head bh).lock then (s, .waitFree dev block bh)
  else if (s.head bh).count ≠ 0 then (s, .getblk dev block)
  else if (s.head bh).dirt then (s, .waitFree dev block bh)
  else match findBuffer s dev block with
    | none => (s, .loops)
    | some (some _) => (s, .getblk dev block)
    | some none => match retarget s bh dev block with
      | none => (s, .corrupted)
      | some s => (s, .got bh)

/-- A task until it sleeps, or tries again. -/
def turn (s : Buffers) : Frame → Buffers × Frame
  | .getblk dev block => match findBuffer s dev block with
    | none => (s, .loops)
    | some (some bh) => waitHash (hold s bh) dev block bh
    | some none => match scanFree s with
      | none => (s, .loops)
      | some none => (s, .getblk dev block)
      | some (some bh) => waitFree s dev block bh
  | .waitHash dev block bh => waitHash s dev block bh
  | .waitFree dev block bh => waitFree s dev block bh
  | .brelse bh =>
    if (s.head bh).lock then (s, .brelse bh)
    else if (s.head bh).count = 0 then (drop s bh, .freeFree)
    else (drop s bh, .idle)
  | f => (s, f)

/-- No call of `getblk` or `brelse` is open. -/
def Frame.returned : Frame → Bool
  | .idle => true
  | .got _ => true
  | _ => false

section
variable (T : Type)

structure System where
  bufs : Buffers
  task : T → Frame

/-- A call, a task that goes on, or new flags. The calls in `sync_dev` are those of another task. -/
inductive Act where
  | getblk (t : T) (dev block : ℕ)
  | brelse (t : T) (bh : ℕ)
  | turn (t : T)
  | flags (bh : ℕ) (uptodate dirt lock : Bool)

end

section
variable {T : Type} [DecidableEq T]

def act (σ : System T) : Act T → System T
  | .getblk t dev block =>
    if (σ.task t).returned then { σ with task := Function.update σ.task t (.getblk dev block) } else σ
  | .brelse t bh =>
    if (σ.task t).returned ∧ bh < σ.bufs.nr then
      { σ with task := Function.update σ.task t (.brelse bh) }
    else σ
  | .turn t =>
    let r := turn σ.bufs (σ.task t)
    ⟨r.1, Function.update σ.task t r.2⟩
  | .flags bh uptodate dirt lock =>
    if bh < σ.bufs.nr then
      { σ with bufs := σ.bufs.store (some bh) fun h =>
        { h with uptodate := uptodate, dirt := dirt, lock := lock } }
    else σ

end

/-! ### buffer_init -/

/-- The end of the kernel and of the memory for buffers. What `b_blocknr` is at first is not known. -/
structure Memory where
  start : ℕ
  bufferEnd : ℕ
  old : ℕ → BufferHead
  low : BufferHead
  room : start + 36 + 1024 ≤ if bufferEnd = 0x100000 then 0xA0000 else bufferEnd

/-- A head as the loop leaves it; `h-1` of the first one is not kept. -/
def initHead (old : BufferHead) (n : ℕ) : BufferHead :=
  { old with
    dev := 0, dirt := false, count := 0, lock := false, uptodate := false
    next := none, prev := none, prevFree := some (n - 1), nextFree := some (n + 1) }

/-- The loop over the heads, of 36 bytes each, and the blocks; the result is `NR_BUFFERS`. -/
def initLoop (start : ℕ) (b n : ℕ) (head : ℕ → BufferHead) : ℕ × (ℕ → BufferHead) :=
  if 1024 ≤ b ∧ start + 36 * (n + 1) ≤ b - 1024 then
    initLoop start (if b - 1024 = 0x100000 then 0xA0000 else b - 1024) (n + 1)
      (Function.update head n (initHead (head n) n))
  else (n, head)
termination_by b
decreasing_by split <;> omega

def bufferInit (m : Memory) : Buffers :=
  let b := if m.bufferEnd = 0x100000 then 0xA0000 else m.bufferEnd
  let r := initLoop m.start b 0 m.old
  let s : Buffers := ⟨r.1, r.2, fun _ => none, some 0, m.low, 0⟩
  let s := s.store (some 0) fun h => { h with prevFree := some (r.1 - 1) }
  s.store (some (r.1 - 1)) fun h => { h with nextFree := some 0 }

/-! ### What the stores do -/

section
variable (s : Buffers) (p : Option ℕ) (f : BufferHead → BufferHead)

theorem store_head {i : ℕ} (hi : i < s.nr) :
    (s.store p f).head i = if p = some i then f (s.head i) else s.head i := by
  cases p with
  | none => rfl
  | some j =>
    unfold Buffers.store
    by_cases h : i = j
    · subst h
      dsimp only
      rw [if_pos hi, if_pos rfl]
      exact Function.update_self ..
    · rw [if_neg fun heq => h (Option.some_inj.mp heq).symm]
      dsimp only
      split
      · exact Function.update_of_ne h _ _
      · rfl

@[simp] theorem store_hashTable : (s.store p f).hashTable = s.hashTable := by
  unfold Buffers.store
  split <;> [rfl; (split <;> rfl)]

@[simp] theorem store_freeList : (s.store p f).freeList = s.freeList := by
  unfold Buffers.store
  split <;> [rfl; (split <;> rfl)]

@[simp] theorem store_nr : (s.store p f).nr = s.nr := by
  unfold Buffers.store
  split <;> [rfl; (split <;> rfl)]

/-- A pointer to a head. -/
def Buffers.Points (s : Buffers) (p : Option ℕ) : Prop := ∃ i, p = some i ∧ i < s.nr

theorem Buffers.Points.ne_none {s : Buffers} {p : Option ℕ} (h : s.Points p) : p ≠ none := by
  obtain ⟨i, rfl, -⟩ := h
  exact Option.some_ne_none i

theorem Buffers.Points.congr {s s' : Buffers} {p : Option ℕ} (h : s.Points p) (hnr : s'.nr = s.nr) :
    s'.Points p := by
  obtain ⟨i, hp, hi⟩ := h
  exact ⟨i, hp, hnr ▸ hi⟩

theorem store_strays {s : Buffers} {p : Option ℕ} (h : s.Points p) (f : BufferHead → BufferHead) :
    (s.store p f).strays = s.strays := by
  obtain ⟨i, rfl, hi⟩ := h
  unfold Buffers.store
  dsimp only
  rw [if_pos hi]

theorem storeIf_head {i : ℕ} (hi : i < s.nr) :
    (s.storeIf p f).head i = if p = some i then f (s.head i) else s.head i := by
  unfold Buffers.storeIf
  by_cases h : p = none
  · rw [if_pos h, h]
    rfl
  · rw [if_neg h]
    exact store_head s p f hi

@[simp] theorem storeIf_hashTable : (s.storeIf p f).hashTable = s.hashTable := by
  unfold Buffers.storeIf
  split <;> simp

@[simp] theorem storeIf_freeList : (s.storeIf p f).freeList = s.freeList := by
  unfold Buffers.storeIf
  split <;> simp

@[simp] theorem storeIf_nr : (s.storeIf p f).nr = s.nr := by
  unfold Buffers.storeIf
  split <;> simp

theorem storeIf_strays {s : Buffers} {p : Option ℕ} (h : p = none ∨ s.Points p)
    (f : BufferHead → BufferHead) : (s.storeIf p f).strays = s.strays := by
  unfold Buffers.storeIf
  split
  · rfl
  · exact store_strays (h.resolve_left ‹_›) f

end

/-- A store that leaves a head as it is. -/
theorem store_same {s : Buffers} {p : Option ℕ} {f : BufferHead → BufferHead} {i : ℕ}
    (hi : i < s.nr) (h : f (s.head i) = s.head i) : (s.store p f).head i = s.head i := by
  rw [store_head s p f hi, h, ite_self]

theorem storeIf_same {s : Buffers} {p : Option ℕ} {f : BufferHead → BufferHead} {i : ℕ}
    (hi : i < s.nr) (h : f (s.head i) = s.head i) : (s.storeIf p f).head i = s.head i := by
  rw [storeIf_head s p f hi, h, ite_self]

/-- `remove_from_queues`, when the head is in the free list. -/
theorem removeFromQueues_eq {s : Buffers} {bh : ℕ} (hbh : bh < s.nr)
    (hp : s.Points (s.head bh).prevFree) (hn : s.Points (s.head bh).nextFree)
    (hprev : (s.head bh).prev = none ∨ s.Points (s.head bh).prev)
    (hnext : (s.head bh).next = none ∨ s.Points (s.head bh).next) :
    ∃ s', removeFromQueues s bh = some s' ∧ s'.nr = s.nr ∧ s'.strays = s.strays ∧
      (∀ i < s.nr, s'.head i = { s.head i with
        prev := if (s.head bh).next = some i then (s.head bh).prev else (s.head i).prev
        next := if (s.head bh).prev = some i then (s.head bh).next else (s.head i).next
        nextFree := if (s.head bh).prevFree = some i then (s.head bh).nextFree
          else (s.head i).nextFree
        prevFree := if (s.head bh).nextFree = some i then (s.head bh).prevFree
          else (s.head i).prevFree }) ∧
      s'.hashTable = (if s.hashTable (hashfn (s.head bh).dev (s.head bh).blocknr) = some bh then
        Function.update s.hashTable (hashfn (s.head bh).dev (s.head bh).blocknr) (s.head bh).next
        else s.hashTable) ∧
      s'.freeList = (if s.freeList = some bh then (s.head bh).nextFree else s.freeList) := by
  unfold removeFromQueues
  extract_lets s₁ s₂ k s₃ s₄ s₅
  have n₁ : s₁.nr = s.nr := storeIf_nr ..
  have h₁ : s₁.head bh = s.head bh := storeIf_same hbh rfl
  have strays₁ : s₁.strays = s.strays := storeIf_strays hnext _
  have n₂ : s₂.nr = s.nr := (storeIf_nr ..).trans n₁
  have h₂ : s₂.head bh = s.head bh := (storeIf_same (n₁ ▸ hbh) rfl).trans h₁
  have strays₂ : s₂.strays = s.strays := by
    refine (storeIf_strays ?_ _).trans strays₁
    rw [h₁]
    exact hprev.imp_right fun h => h.congr n₁
  have f₂ : ∀ i < s.nr, s₂.head i = { s.head i with
      prev := if (s.head bh).next = some i then (s.head bh).prev else (s.head i).prev
      next := if (s.head bh).prev = some i then (s.head bh).next else (s.head i).next } := by
    intro i hi
    rw [storeIf_head _ _ _ (n₁ ▸ hi), h₁, storeIf_head _ _ _ hi]
    split_ifs <;> rfl
  have hk : k = hashfn (s.head bh).dev (s.head bh).blocknr := congrArg (fun h => hashfn h.dev _) h₂
  have n₃ : s₃.nr = s.nr := by
    unfold s₃
    split_ifs <;> exact n₂
  have strays₃ : s₃.strays = s.strays := by
    unfold s₃
    split_ifs <;> exact strays₂
  have head₃ : s₃.head = s₂.head := by
    unfold s₃
    split_ifs <;> rfl
  have h₃ : s₃.head bh = s.head bh := head₃ ▸ h₂
  have n₄ : s₄.nr = s.nr := (store_nr ..).trans n₃
  have h₄ : s₄.head bh = s.head bh := (store_same (n₃ ▸ hbh) rfl).trans h₃
  have n₅ : s₅.nr = s.nr := (store_nr ..).trans n₄
  have h₅ : s₅.head bh = s.head bh := (store_same (n₄ ▸ hbh) rfl).trans h₄
  have strays₅ : s₅.strays = s.strays := by
    refine (store_strays ?_ _).trans ((store_strays ?_ _).trans strays₃)
    · exact h₄ ▸ hn.congr n₄
    · exact h₃ ▸ hp.congr n₃
  have f₅ : ∀ i < s.nr, s₅.head i = { s₂.head i with
      nextFree := if (s.head bh).prevFree = some i then (s.head bh).nextFree
        else (s₂.head i).nextFree
      prevFree := if (s.head bh).nextFree = some i then (s.head bh).prevFree
        else (s₂.head i).prevFree } := by
    intro i hi
    rw [store_head _ _ _ (n₄ ▸ hi), h₄, store_head _ _ _ (n₃ ▸ hi), h₃, head₃]
    split_ifs <;> rfl
  have hashTable₂ : s₂.hashTable = s.hashTable := (storeIf_hashTable ..).trans (storeIf_hashTable ..)
  have hashTable₅ : s₅.hashTable = s₃.hashTable := (store_hashTable ..).trans (store_hashTable ..)
  have freeList₃ : s₃.freeList = s.freeList := by
    unfold s₃
    split_ifs <;> exact (storeIf_freeList ..).trans (storeIf_freeList ..)
  have freeList₅ : s₅.freeList = s.freeList :=
    (store_freeList ..).trans ((store_freeList ..).trans freeList₃)
  rw [h₃, if_neg (not_or.mpr ⟨hp.ne_none, hn.ne_none⟩)]
  refine ⟨_, rfl, ?_, ?_, ?_, ?_, ?_⟩
  · split_ifs <;> exact n₅
  · split_ifs <;> exact strays₅
  · intro i hi
    trans s₅.head i
    · split_ifs <;> rfl
    · rw [f₅ i hi, f₂ i hi]
  · trans s₅.hashTable
    · split_ifs <;> rfl
    · rw [hashTable₅, ← hashTable₂, ← hk]
      unfold s₃
      split_ifs
      · rw [h₂]
      · rfl
  · rw [freeList₅, h₅]
    split_ifs
    · rfl
    · exact freeList₅

/-- `insert_into_queues`, when the free list is not empty. -/
theorem insertIntoQueues_eq {s : Buffers} {bh f p : ℕ} (hbh : bh < s.nr)
    (hfree : s.freeList = some f) (hf : f < s.nr) (hlast : (s.head f).prevFree = some p)
    (hp : p < s.nr) :
    (insertIntoQueues s bh).nr = s.nr ∧ (insertIntoQueues s bh).freeList = s.freeList ∧
      ((s.hashTable (hashfn (s.head bh).dev (s.head bh).blocknr) = none ∨
          s.Points (s.hashTable (hashfn (s.head bh).dev (s.head bh).blocknr))) →
        (insertIntoQueues s bh).strays = s.strays + if (s.head bh).dev ≠ 0 ∧
          s.hashTable (hashfn (s.head bh).dev (s.head bh).blocknr) = none then 1 else 0) ∧
      (∀ i < s.nr, (insertIntoQueues s bh).head i = { s.head i with
        prev := if (s.head bh).dev ≠ 0 ∧
            s.hashTable (hashfn (s.head bh).dev (s.head bh).blocknr) = some i then some bh
          else if i = bh then none else (s.head i).prev
        next := if i = bh then
            if (s.head bh).dev ≠ 0 then s.hashTable (hashfn (s.head bh).dev (s.head bh).blocknr)
            else none
          else (s.head i).next
        nextFree := if p = i then some bh else if i = bh then some f else (s.head i).nextFree
        prevFree := if f = i then some bh else if i = bh then some p else (s.head i).prevFree }) ∧
      (insertIntoQueues s bh).hashTable = if (s.head bh).dev ≠ 0 then
        Function.update s.hashTable (hashfn (s.head bh).dev (s.head bh).blocknr) (some bh)
        else s.hashTable := by
  unfold insertIntoQueues
  extract_lets s₁ s₂ s₃ s₄ s₅ k s₆ s₇
  have n₁ : s₁.nr = s.nr := store_nr ..
  have n₂ : s₂.nr = s.nr := (store_nr ..).trans n₁
  have n₃ : s₃.nr = s.nr := (store_nr ..).trans n₂
  have n₄ : s₄.nr = s.nr := (store_nr ..).trans n₃
  have n₅ : s₅.nr = s.nr := (store_nr ..).trans n₄
  have n₆ : s₆.nr = s.nr := (store_nr ..).trans n₅
  have l₁ : s₁.freeList = some f := (store_freeList ..).trans hfree
  have l₂ : s₂.freeList = some f := (store_freeList ..).trans l₁
  have l₃ : s₃.freeList = some f := (store_freeList ..).trans l₂
  have l₅ : s₅.freeList = s.freeList :=
    (store_freeList ..).trans ((store_freeList ..).trans (l₃.trans hfree.symm))
  have f₁ : ∀ i < s.nr, s₁.head i = { s.head i with
      nextFree := if i = bh then some f else (s.head i).nextFree } := by
    intro i hi
    rw [store_head _ _ _ hi, hfree]
    split_ifs <;> grind
  have p₁ : (s₁.deref s₁.freeList).prevFree = some p := by
    rw [l₁, Buffers.deref, f₁ f hf]
    exact hlast
  have f₂ : ∀ i < s.nr, s₂.head i = { s₁.head i with
      prevFree := if i = bh then some p else (s.head i).prevFree } := by
    intro i hi
    rw [store_head _ _ _ (n₁ ▸ hi), p₁, f₁ i hi]
    split_ifs <;> grind
  have p₂ : (s₂.deref s₂.freeList).prevFree = some p := by
    rw [l₂, Buffers.deref, f₂ f hf]
    exact (ite_eq_left_iff.mpr fun _ => hlast)
  have f₅ : ∀ i < s.nr, s₅.head i = { s.head i with
      prev := if i = bh then none else (s.head i).prev
      next := if i = bh then none else (s.head i).next
      nextFree := if p = i then some bh else if i = bh then some f else (s.head i).nextFree
      prevFree := if f = i then some bh else if i = bh then some p else (s.head i).prevFree } := by
    intro i hi
    rw [store_head _ _ _ (n₄ ▸ hi), store_head _ _ _ (n₃ ▸ hi), l₃,
      store_head _ _ _ (n₂ ▸ hi), p₂, f₂ i hi, f₁ i hi]
    by_cases h : i = bh <;> by_cases h' : p = i <;> by_cases h'' : f = i <;> grind
  have t₅ : s₅.hashTable = s.hashTable := by
    simp only [s₅, s₄, s₃, s₂, s₁, store_hashTable]
  have strays₅ : s₅.strays = s.strays := by
    have strays₁ : s₁.strays = s.strays := store_strays ⟨bh, rfl, hbh⟩ _
    have strays₂ : s₂.strays = s.strays := (store_strays ⟨bh, rfl, n₁ ▸ hbh⟩ _).trans strays₁
    have strays₃ : s₃.strays = s.strays := (store_strays ⟨p, p₂, n₂ ▸ hp⟩ _).trans strays₂
    have strays₄ : s₄.strays = s.strays := (store_strays ⟨f, l₃, n₃ ▸ hf⟩ _).trans strays₃
    exact (store_strays ⟨bh, rfl, n₄ ▸ hbh⟩ _).trans strays₄
  by_cases hdev : (s.head bh).dev = 0
  · rw [if_pos (show (s₅.head bh).dev = 0 from f₅ bh hbh ▸ hdev)]
    simp only [hdev, ne_eq, not_true_eq_false, false_and, if_false]
    exact ⟨n₅, l₅, fun _ => strays₅, f₅, t₅⟩
  · rw [if_neg (show (s₅.head bh).dev ≠ 0 from f₅ bh hbh ▸ hdev)]
    simp only [hdev, ne_eq, not_false_eq_true, true_and, if_true]
    have hk : k = hashfn (s.head bh).dev (s.head bh).blocknr := by
      unfold k
      rw [f₅ bh hbh]
    have next₇ : (s₇.head bh).next = s.hashTable k := by
      show (s₆.head bh).next = _
      rw [store_head _ _ _ (n₅ ▸ hbh), if_pos rfl, t₅]
    rw [next₇, ← hk]
    refine ⟨(store_nr ..).trans n₆, (store_freeList ..).trans ((store_freeList ..).trans l₅),
      ?_, ?_, ?_⟩
    · have strays₇ : s₇.strays = s.strays := (store_strays ⟨bh, rfl, n₅ ▸ hbh⟩ _).trans strays₅
      rintro (hnone | hpoints)
      · rw [hnone, if_pos rfl, ← strays₇]
        rfl
      · rw [if_neg hpoints.ne_none, ← strays₇]
        exact store_strays (s := s₇) (hpoints.congr n₆) _
    · intro i hi
      rw [store_head _ _ _ (show i < s₇.nr from n₆ ▸ hi)]
      show (if _ then { s₆.head i with prev := some bh } else s₆.head i) = _
      rw [store_head _ _ _ (n₅ ▸ hi), f₅ i hi, t₅]
      by_cases h : i = bh <;> grind
    · rw [store_hashTable]
      show Function.update s₆.hashTable k (some bh) = _
      rw [store_hashTable, t₅]

/-! ### The free list and the chains -/

def freeLinks (s : Buffers) : Links (Option ℕ) where
  next p := p.bind fun i => (s.head i).nextFree
  prev p := p.bind fun i => (s.head i).prevFree

/-- From NULL, with a last head, a chain is a ring. -/
def hashLinks (s : Buffers) (k : ℕ) (last : Option ℕ) : Links (Option ℕ) where
  next p := p.elim (s.hashTable k) fun i => (s.head i).next
  prev p := p.elim last fun i => (s.head i).prev

/-- The heads of a chain from a pointer to NULL; `b_prev` of the first is `before`. -/
def Chain (s : Buffers) (before p : Option ℕ) : List ℕ → Prop
  | [] => p = none
  | i :: l => p = some i ∧ (s.head i).prev = before ∧ Chain s (some i) (s.head i).next l

/-- The heads in the order of the free list, and of each chain. -/
structure Queues (s : Buffers) (free : List ℕ) (chain : ℕ → List ℕ) : Prop where
  ring : (freeLinks s).Ring (free.map some)
  first : s.freeList = free.head?
  once : free.Nodup
  mem_free : ∀ i, i ∈ free ↔ i < s.nr
  chains : ∀ k, Chain s none (s.hashTable k) (chain k)
  chain_once : ∀ k, (chain k).Nodup
  mem_chain : ∀ k i, i ∈ chain k ↔
    i < s.nr ∧ (s.head i).dev ≠ 0 ∧ hashfn (s.head i).dev (s.head i).blocknr = k
  loose : ∀ i < s.nr, (s.head i).dev = 0 → (s.head i).prev = none ∧ (s.head i).next = none

/-- The same for all heads but one; the last head in the free list stays linked to itself. -/
structure Without (s : Buffers) (bh : ℕ) (free : List ℕ) (chain : ℕ → List ℕ) : Prop where
  ring : (freeLinks s).Ring ((if free = [] then [bh] else free).map some)
  first : s.freeList = (if free = [] then [bh] else free).head?
  once : (free ++ [bh]).Nodup
  mem_free : ∀ i, i ∈ free ++ [bh] ↔ i < s.nr
  chains : ∀ k, Chain s none (s.hashTable k) (chain k)
  chain_once : ∀ k, (chain k).Nodup
  mem_chain : ∀ k i, i ∈ chain k ↔
    i ≠ bh ∧ i < s.nr ∧ (s.head i).dev ≠ 0 ∧ hashfn (s.head i).dev (s.head i).blocknr = k
  loose : ∀ i < s.nr, i ≠ bh → (s.head i).dev = 0 →
    (s.head i).prev = none ∧ (s.head i).next = none

theorem Chain.path {s : Buffers} {k : ℕ} {last before : Option ℕ} {l : List ℕ}
    (h : Chain s before ((hashLinks s k last).next before) l)
    (hlast : last = (l.map some).getLastD before) :
    (hashLinks s k last).Path before (l.map some) none := by
  induction l generalizing before with
  | nil => exact ⟨h, hlast⟩
  | cons i l ih =>
    obtain ⟨hp, hprev, hrest⟩ := h
    exact ⟨⟨hp, hprev⟩, ih hrest (hlast.trans List.getLastD_cons)⟩

theorem chain_of_path {s : Buffers} {k : ℕ} {last before : Option ℕ} {l : List ℕ}
    (h : (hashLinks s k last).Path before (l.map some) none) :
    Chain s before ((hashLinks s k last).next before) l := by
  induction l generalizing before with
  | nil => exact h.1
  | cons i l ih => exact ⟨h.1.1, h.1.2, ih h.2⟩

/-- A chain as a ring. -/
theorem chain_iff {s : Buffers} {k : ℕ} {l : List ℕ} :
    Chain s none (s.hashTable k) l ↔ ∃ last, (hashLinks s k last).Ring (none :: l.map some) :=
  ⟨fun h => ⟨_, Chain.path h rfl⟩, fun ⟨_, h⟩ => chain_of_path h⟩

/-- The links and the heads of the queues are the same. -/
structure SameLinks (s s' : Buffers) : Prop where
  nr : s'.nr = s.nr
  hashTable : s'.hashTable = s.hashTable
  freeList : s'.freeList = s.freeList
  prev : ∀ i, (s'.head i).prev = (s.head i).prev
  next : ∀ i, (s'.head i).next = (s.head i).next
  prevFree : ∀ i, (s'.head i).prevFree = (s.head i).prevFree
  nextFree : ∀ i, (s'.head i).nextFree = (s.head i).nextFree

theorem SameLinks.freeLinks {s s' : Buffers} (h : SameLinks s s') :
    freeLinks s' = BufferLinks.freeLinks s := by
  unfold BufferLinks.freeLinks
  simp only [h.nextFree, h.prevFree]

/-- A chain depends on the links of its heads only. -/
theorem Chain.congr {s s' : Buffers} {before p : Option ℕ} {l : List ℕ} (h : Chain s before p l)
    (hlinks : ∀ i ∈ l, (s'.head i).prev = (s.head i).prev ∧ (s'.head i).next = (s.head i).next) :
    Chain s' before p l := by
  induction l generalizing before p with
  | nil => exact h
  | cons i l ih =>
    obtain ⟨hp, hbefore, hrest⟩ := h
    obtain ⟨hprev, hnext⟩ := hlinks i (List.mem_cons_self ..)
    refine ⟨hp, hprev.trans hbefore, ?_⟩
    rw [hnext]
    exact ih hrest fun j hj => hlinks j (List.mem_cons_of_mem _ hj)

theorem Queues.congr {s s' : Buffers} {free : List ℕ} {chain : ℕ → List ℕ} (h : Queues s free chain)
    (hlinks : SameLinks s s') (hdev : ∀ i, (s'.head i).dev = (s.head i).dev)
    (hblock : ∀ i, (s'.head i).blocknr = (s.head i).blocknr) : Queues s' free chain where
  ring := hlinks.freeLinks ▸ h.ring
  first := hlinks.freeList.trans h.first
  once := h.once
  mem_free := hlinks.nr ▸ h.mem_free
  chains k := hlinks.hashTable ▸ (h.chains k).congr fun i _ => ⟨hlinks.prev i, hlinks.next i⟩
  chain_once := h.chain_once
  mem_chain k i := by
    rw [hdev, hblock, hlinks.nr]
    exact h.mem_chain k i
  loose i hi := by
    rw [hdev, hlinks.prev, hlinks.next]
    exact h.loose i (hlinks.nr ▸ hi)

theorem Without.congr {s s' : Buffers} {bh : ℕ} {free : List ℕ} {chain : ℕ → List ℕ}
    (h : Without s bh free chain) (hlinks : SameLinks s s')
    (hdev : ∀ i, i ≠ bh → (s'.head i).dev = (s.head i).dev)
    (hblock : ∀ i, i ≠ bh → (s'.head i).blocknr = (s.head i).blocknr) :
    Without s' bh free chain where
  ring := hlinks.freeLinks ▸ h.ring
  first := hlinks.freeList.trans h.first
  once := h.once
  mem_free := hlinks.nr ▸ h.mem_free
  chains k := hlinks.hashTable ▸ (h.chains k).congr fun i _ => ⟨hlinks.prev i, hlinks.next i⟩
  chain_once := h.chain_once
  mem_chain k i := by
    rw [h.mem_chain k i, hlinks.nr]
    refine and_congr_right fun hi => ?_
    rw [hdev i hi, hblock i hi]
  loose i hi hne := by
    rw [hdev i hne, hlinks.prev, hlinks.next]
    exact h.loose i (hlinks.nr ▸ hi) hne

section
variable {s : Buffers} {free : List ℕ} {chain : ℕ → List ℕ} (h : Queues s free chain)
include h

theorem Queues.points_free {i : ℕ} (hi : i < s.nr) :
    s.Points (s.head i).prevFree ∧ s.Points (s.head i).nextFree := by
  have hmem : some i ∈ free.map some := List.mem_map_of_mem ((h.mem_free i).mpr hi)
  obtain ⟨⟨hnext, -⟩, hprev, -⟩ := h.ring.linked hmem
  obtain ⟨j, hj, heq⟩ := List.mem_map.mp hprev
  obtain ⟨j', hj', heq'⟩ := List.mem_map.mp hnext
  exact ⟨⟨j, heq.symm, (h.mem_free j).mp hj⟩, ⟨j', heq'.symm, (h.mem_free j').mp hj'⟩⟩

/-- The neighbours of a head in its chain. -/
theorem Queues.neighbour {i j : ℕ} (hi : i < s.nr)
    (hlink : (s.head i).prev = some j ∨ (s.head i).next = some j) :
    ∃ k, i ∈ chain k ∧ j ∈ chain k := by
  have hdev : (s.head i).dev ≠ 0 := by
    intro hdev
    obtain ⟨hprev, hnext⟩ := h.loose i hi hdev
    rw [hprev, hnext] at hlink
    rcases hlink with hlink | hlink <;> exact nomatch hlink
  have hmem := (h.mem_chain _ i).mpr ⟨hi, hdev, rfl⟩
  obtain ⟨last, hring⟩ := chain_iff.mp (h.chains (hashfn (s.head i).dev (s.head i).blocknr))
  obtain ⟨⟨hnext, -⟩, hprev, -⟩ := hring.linked (List.mem_cons_of_mem _ (List.mem_map_of_mem hmem))
  refine ⟨_, hmem, ?_⟩
  rcases hlink with hlink | hlink
  · have hj : (s.head i).prev ∈ none :: (chain _).map some := hprev
    rw [hlink] at hj
    simpa using hj
  · have hj : (s.head i).next ∈ none :: (chain _).map some := hnext
    rw [hlink] at hj
    simpa using hj

theorem Queues.points_chain {i : ℕ} (hi : i < s.nr) :
    ((s.head i).prev = none ∨ s.Points (s.head i).prev) ∧
      ((s.head i).next = none ∨ s.Points (s.head i).next) := by
  constructor
  · cases hprev : (s.head i).prev with
    | none => exact .inl rfl
    | some j =>
      obtain ⟨k, -, hj⟩ := h.neighbour hi (.inl hprev)
      exact .inr ⟨j, rfl, ((h.mem_chain k j).mp hj).1⟩
  · cases hnext : (s.head i).next with
    | none => exact .inl rfl
    | some j =>
      obtain ⟨k, -, hj⟩ := h.neighbour hi (.inr hnext)
      exact .inr ⟨j, rfl, ((h.mem_chain k j).mp hj).1⟩

theorem Queues.eq_of_mem {i k k' : ℕ} (hk : i ∈ chain k) (hk' : i ∈ chain k') : k = k' :=
  ((h.mem_chain k i).mp hk).2.2.symm.trans ((h.mem_chain k' i).mp hk').2.2

end

theorem mem_of_hashTable {s : Buffers} {k i : ℕ} {l : List ℕ} (h : Chain s none (s.hashTable k) l)
    (hi : s.hashTable k = some i) : i ∈ l := by
  cases l with
  | nil => exact nomatch hi.symm.trans h
  | cons j l =>
    obtain ⟨hj, -⟩ := h
    rw [Option.some_inj.mp (hi.symm.trans hj)]
    exact List.mem_cons_self ..

/-- The free list without one of its heads. -/
theorem remove_ring {s s' : Buffers} {bh : ℕ} {l m : List ℕ}
    (hring : (freeLinks s).Ring ((l ++ bh :: m).map some)) (hnodup : (l ++ bh :: m).Nodup)
    (hnext : ∀ i ∈ l ++ bh :: m, (s'.head i).nextFree =
      if (s.head bh).prevFree = some i then (s.head bh).nextFree else (s.head i).nextFree)
    (hprev : ∀ i ∈ l ++ bh :: m, (s'.head i).prevFree =
      if (s.head bh).nextFree = some i then (s.head bh).prevFree else (s.head i).prevFree) :
    (freeLinks s').Ring ((if l ++ m = [] then [bh] else l ++ m).map some) := by
  by_cases hempty : l ++ m = []
  · obtain ⟨rfl, rfl⟩ := List.append_eq_nil_iff.mp hempty
    refine hring.congr ?_ ?_
    · intro u hu
      obtain rfl := List.mem_singleton.mp hu
      refine (hnext bh (List.mem_singleton_self bh)).trans ?_
      split_ifs <;> rfl
    · intro u hu
      obtain rfl := List.mem_singleton.mp hu
      refine (hprev bh (List.mem_singleton_self bh)).trans ?_
      split_ifs <;> rfl
  · rw [if_neg hempty, List.map_append]
    rw [List.map_append, List.map_cons] at hring
    have hnodup' := hnodup.map (Option.some_injective ℕ)
    rw [List.map_append, List.map_cons] at hnodup'
    have hmem : ∀ i, some i ∈ l.map some ++ m.map some → i ∈ l ++ bh :: m := by
      intro i hi
      rw [← List.map_append, List.mem_map_of_injective (Option.some_injective ℕ)] at hi
      rw [List.mem_append, List.mem_cons]
      rcases List.mem_append.mp hi with hi | hi
      · exact .inl hi
      · exact .inr (.inr hi)
    refine (hring.unlink hnodup' ?_).congr ?_ ?_
    · rwa [← List.map_append, Ne, List.map_eq_nil_iff]
    · intro u hu
      obtain ⟨i, rfl⟩ : ∃ i, u = some i := by
        rw [← List.map_append] at hu
        obtain ⟨i, -, heq⟩ := List.mem_map.mp hu
        exact ⟨i, heq.symm⟩
      exact (hnext i (hmem i hu)).trans (unlink_next (freeLinks s) (some bh) (some i)).symm
    · intro u hu
      obtain ⟨i, rfl⟩ : ∃ i, u = some i := by
        rw [← List.map_append] at hu
        obtain ⟨i, -, heq⟩ := List.mem_map.mp hu
        exact ⟨i, heq.symm⟩
      exact (hprev i (hmem i hu)).trans (unlink_prev (freeLinks s) (some bh) (some i)).symm

/-- A chain without one of its heads. -/
theorem remove_chain {s s' : Buffers} {bh k : ℕ} {l m : List ℕ}
    (hchain : Chain s none (s.hashTable k) (l ++ bh :: m)) (hnodup : (l ++ bh :: m).Nodup)
    (hnext : ∀ i ∈ l ++ bh :: m, (s'.head i).next =
      if (s.head bh).prev = some i then (s.head bh).next else (s.head i).next)
    (hprev : ∀ i ∈ l ++ bh :: m, (s'.head i).prev =
      if (s.head bh).next = some i then (s.head bh).prev else (s.head i).prev)
    (hfirst : s'.hashTable k =
      if s.hashTable k = some bh then (s.head bh).next else s.hashTable k) :
    Chain s' none (s'.hashTable k) (l ++ m) := by
  obtain ⟨last, hring⟩ := chain_iff.mp hchain
  have hmap : none :: (l ++ bh :: m).map some = (none :: l.map some) ++ some bh :: m.map some := by
    rw [List.map_append, List.map_cons, List.cons_append]
  have hnodup' : (none :: (l ++ bh :: m).map some).Nodup := by
    refine List.nodup_cons.mpr ⟨?_, hnodup.map (Option.some_injective ℕ)⟩
    simp
  have hmem : some bh ∈ none :: (l ++ bh :: m).map some := by simp
  -- the chain starts at the head exactly when nothing is before it
  have hhead : s.hashTable k = some bh ↔ (s.head bh).prev = none := by
    obtain ⟨⟨-, hfrom⟩, -⟩ := hring.linked (List.mem_cons_self ..)
    obtain ⟨-, -, hto, -⟩ := hring.linked hmem
    constructor
    · intro h
      have hlink : (hashLinks s k last).prev (s.hashTable k) = none := hfrom.2
      rwa [h] at hlink
    · intro h
      have hlink : (hashLinks s k last).next (s.head bh).prev = some bh := hto
      rwa [h] at hlink
  rw [hmap] at hring hnodup'
  have hwithout := hring.unlink hnodup' (by simp)
  rw [List.cons_append, ← List.map_append] at hwithout
  refine chain_iff.mpr ⟨if (s.head bh).next = none then (s.head bh).prev else last, ?_⟩
  have hsub : ∀ i ∈ l ++ m, i ∈ l ++ bh :: m := by
    intro i hi
    rw [List.mem_append, List.mem_cons]
    exact (List.mem_append.mp hi).imp_right .inr
  refine hwithout.congr ?_ ?_
  · intro u hu
    rw [unlink_next]
    cases u with
    | none =>
      refine hfirst.trans (if_congr hhead rfl rfl)
    | some i =>
      exact hnext i (hsub i (by simpa using hu))
  · intro u hu
    rw [unlink_prev]
    cases u with
    | none => rfl
    | some i => exact hprev i (hsub i (by simpa using hu))

/-- All but the links. -/
structure SameBlock (h h' : BufferHead) : Prop where
  dev : h'.dev = h.dev
  blocknr : h'.blocknr = h.blocknr
  uptodate : h'.uptodate = h.uptodate
  dirt : h'.dirt = h.dirt
  count : h'.count = h.count
  lock : h'.lock = h.lock

theorem SameBlock.trans {h h' h'' : BufferHead} (a : SameBlock h h') (b : SameBlock h' h'') :
    SameBlock h h'' :=
  ⟨b.dev.trans a.dev, b.blocknr.trans a.blocknr, b.uptodate.trans a.uptodate, b.dirt.trans a.dirt,
    b.count.trans a.count, b.lock.trans a.lock⟩

def SameBlocks (s s' : Buffers) : Prop := ∀ i < s.nr, SameBlock (s.head i) (s'.head i)

theorem SameBlocks.key_iff {s s' : Buffers} (h : SameBlocks s s') (hnr : s'.nr = s.nr) {i k : ℕ} :
    (i < s'.nr ∧ (s'.head i).dev ≠ 0 ∧ hashfn (s'.head i).dev (s'.head i).blocknr = k) ↔
      i < s.nr ∧ (s.head i).dev ≠ 0 ∧ hashfn (s.head i).dev (s.head i).blocknr = k := by
  rw [hnr]
  refine and_congr_right fun hi => ?_
  rw [(h i hi).dev, (h i hi).blocknr]

theorem Queues.remove {s : Buffers} {free : List ℕ} {chain : ℕ → List ℕ} {bh : ℕ}
    (h : Queues s free chain) (hbh : bh < s.nr) :
    ∃ s' free' chain', removeFromQueues s bh = some s' ∧ Without s' bh free' chain' ∧
      s'.nr = s.nr ∧ s'.strays = s.strays ∧ SameBlocks s s' := by
  obtain ⟨hprevFree, hnextFree⟩ := h.points_free hbh
  obtain ⟨hprev, hnext⟩ := h.points_chain hbh
  obtain ⟨s', hs', hnr, hstrays, hhead, htable, hfirst⟩ :=
    removeFromQueues_eq hbh hprevFree hnextFree hprev hnext
  have hkeys : SameBlocks s s' := by
    intro i hi
    rw [hhead i hi]
    exact ⟨rfl, rfl, rfl, rfl, rfl, rfl⟩
  obtain ⟨l, m, hfree⟩ := List.append_of_mem ((h.mem_free bh).mpr hbh)
  have hring := h.ring
  have honce := h.once
  have hmem := h.mem_free
  rw [hfree] at hring honce hmem
  refine ⟨s', l ++ m, fun k => (chain k).erase bh, hs', ?_, hnr, hstrays, hkeys⟩
  have hperm : (l ++ m ++ [bh]).Perm (l ++ bh :: m) :=
    (List.perm_append_singleton bh (l ++ m)).trans List.perm_middle.symm
  -- a head that is in no chain, or in another one, is no neighbour
  have hprevne : ∀ i, (∀ k, bh ∈ chain k → i ∉ chain k) → (s.head bh).prev ≠ some i := by
    intro i hi heq
    obtain ⟨k, hk, hik⟩ := h.neighbour hbh (.inl heq)
    exact hi k hk hik
  have hnextne : ∀ i, (∀ k, bh ∈ chain k → i ∉ chain k) → (s.head bh).next ≠ some i := by
    intro i hi heq
    obtain ⟨k, hk, hik⟩ := h.neighbour hbh (.inr heq)
    exact hi k hk hik
  refine ⟨?_, ?_, hperm.nodup_iff.mpr honce, ?_, ?_, ?_, ?_, ?_⟩
  · refine remove_ring hring honce ?_ ?_
    · intro i hi
      rw [hhead i ((hmem i).mp hi)]
    · intro i hi
      rw [hhead i ((hmem i).mp hi)]
  · rw [hfirst, h.first, hfree]
    cases l with
    | nil =>
      rw [List.nil_append, List.head?_cons, if_pos rfl]
      cases m with
      | nil => exact hring.1
      | cons a m => exact hring.1.1
    | cons a l =>
      have hne : a ≠ bh := by
        rintro rfl
        exact (List.nodup_cons.mp honce).1 (List.mem_append_right _ (List.mem_cons_self ..))
      rw [List.cons_append, List.head?_cons, if_neg fun heq => hne (Option.some_inj.mp heq),
        List.cons_append, if_neg (List.cons_ne_nil _ _), List.head?_cons]
  · intro i
    rw [hperm.mem_iff, hmem i, hnr]
  · intro k
    by_cases hk : bh ∈ chain k
    · obtain ⟨-, -, hhash⟩ := (h.mem_chain k bh).mp hk
      obtain ⟨before, after, hsplit⟩ := List.append_of_mem hk
      have hchain := h.chains k
      have hnodup := h.chain_once k
      have hlt : ∀ i ∈ before ++ bh :: after, i < s.nr := by
        intro i hi
        exact ((h.mem_chain k i).mp (hsplit ▸ hi)).1
      rw [hsplit] at hchain hnodup
      have hnot : bh ∉ before :=
        fun hin => (List.nodup_append.mp hnodup).2.2 bh hin bh (List.mem_cons_self ..) rfl
      rw [hsplit, List.erase_append_right _ hnot, List.erase_cons_head]
      refine remove_chain hchain hnodup ?_ ?_ ?_
      · intro i hi
        rw [hhead i (hlt i hi)]
      · intro i hi
        rw [hhead i (hlt i hi)]
      · rw [htable, hhash]
        split_ifs
        · exact Function.update_self ..
        · rfl
    · rw [List.erase_of_not_mem hk]
      have hfirst' : s'.hashTable k = s.hashTable k := by
        rw [htable]
        split_ifs with hhash
        · refine Function.update_of_ne ?_ _ _
          rintro rfl
          exact hk (mem_of_hashTable (h.chains _) hhash)
        · rfl
      rw [hfirst']
      refine (h.chains k).congr fun i hi => ?_
      have hno : ∀ k', bh ∈ chain k' → i ∉ chain k' := by
        intro k' hk' hik'
        exact hk (h.eq_of_mem hi hik' ▸ hk')
      rw [hhead i ((h.mem_chain k i).mp hi).1, if_neg (hprevne i hno), if_neg (hnextne i hno)]
      exact ⟨rfl, rfl⟩
  · intro k
    exact (h.chain_once k).erase bh
  · intro k i
    rw [(h.chain_once k).mem_erase_iff, h.mem_chain k i, hkeys.key_iff hnr]
  · intro i hi hne hdev
    rw [hnr] at hi
    rw [(hkeys i hi).dev] at hdev
    have hno : ∀ k, bh ∈ chain k → i ∉ chain k :=
      fun k _ hik => ((h.mem_chain k i).mp hik).2.1 hdev
    rw [hhead i hi, if_neg (hprevne i hno), if_neg (hnextne i hno)]
    exact h.loose i hi hdev

/-- The free list with a head at its end. -/
theorem insert_ring {s s' : Buffers} {bh f p : ℕ} {free : List ℕ}
    (hring : (freeLinks s).Ring ((if free = [] then [bh] else free).map some))
    (hnodup : (free ++ [bh]).Nodup)
    (hf : (if free = [] then [bh] else free).head? = some f) (hp : (s.head f).prevFree = some p)
    (hnext : ∀ i ∈ free ++ [bh], (s'.head i).nextFree =
      if p = i then some bh else if i = bh then some f else (s.head i).nextFree)
    (hprev : ∀ i ∈ free ++ [bh], (s'.head i).prevFree =
      if f = i then some bh else if i = bh then some p else (s.head i).prevFree) :
    (freeLinks s').Ring ((free ++ [bh]).map some) := by
  cases free with
  | nil =>
    rw [if_pos rfl] at hring hf
    obtain rfl : bh = f := Option.some_inj.mp hf
    have hlast : (s.head bh).prevFree = some bh := hring.2
    obtain rfl : bh = p := Option.some_inj.mp (hlast.symm.trans hp)
    have hmem : bh ∈ [] ++ [bh] := List.mem_singleton_self bh
    refine ⟨?_, ?_⟩
    · exact (hnext bh hmem).trans (if_pos rfl)
    · exact (hprev bh hmem).trans (if_pos rfl)
  | cons a l =>
    rw [if_neg (List.cons_ne_nil a l)] at hring hf
    obtain rfl : a = f := Option.some_inj.mp hf
    obtain ⟨hal, -, hdisjoint⟩ := List.nodup_append.mp hnodup
    have hbh : some bh ∉ (a :: l).map some := by
      intro hmem
      rw [List.mem_map_of_injective (Option.some_injective ℕ)] at hmem
      exact hdisjoint bh hmem bh (List.mem_singleton_self bh) rfl
    have hinsert : ((freeLinks s).insert (some bh) (some a)).Ring ((a :: l ++ [bh]).map some) := by
      rw [List.map_append]
      exact hring.insert_last (hal.map (Option.some_injective ℕ)) hbh
    have hlast : (freeLinks s).prev (some a) = some p := hp
    refine hinsert.congr ?_ ?_
    · intro u hu
      obtain ⟨i, hi, rfl⟩ := List.mem_map.mp hu
      rw [insert_next, hlast]
      refine (hnext i hi).trans ?_
      simp only [Option.some_inj]
      rfl
    · intro u hu
      obtain ⟨i, hi, rfl⟩ := List.mem_map.mp hu
      rw [insert_prev, hlast]
      refine (hprev i hi).trans ?_
      simp only [Option.some_inj]
      rfl

/-- A chain with a head in front of it. -/
theorem insert_chain {s s' : Buffers} {bh k : ℕ} {l : List ℕ}
    (hchain : Chain s none (s.hashTable k) l) (hnodup : l.Nodup) (hbh : bh ∉ l)
    (hnext : ∀ i ∈ bh :: l, (s'.head i).next =
      if i = bh then s.hashTable k else (s.head i).next)
    (hprev : ∀ i ∈ bh :: l, (s'.head i).prev =
      if s.hashTable k = some i then some bh else if i = bh then none else (s.head i).prev)
    (hfirst : s'.hashTable k = some bh) : Chain s' none (s'.hashTable k) (bh :: l) := by
  obtain ⟨last, hring⟩ := chain_iff.mp hchain
  have hnodup' : (none :: l.map some).Nodup := by
    refine List.nodup_cons.mpr ⟨?_, hnodup.map (Option.some_injective ℕ)⟩
    simp
  have hslot : (hashLinks s k last).prev (s.hashTable k) = none := by
    obtain ⟨⟨-, hfrom⟩, -⟩ := hring.linked (List.mem_cons_self ..)
    exact hfrom.2
  have hinsert := hring.insert_second (x := some bh) hnodup' (by simpa using hbh)
  refine chain_iff.mpr ⟨if s.hashTable k = none then some bh else last, hinsert.congr ?_ ?_⟩
  · intro u hu
    rw [insert_next]
    show _ = if (hashLinks s k last).prev (s.hashTable k) = u then _ else _
    rw [hslot]
    cases u with
    | none => exact hfirst
    | some i =>
      have hi : i ∈ bh :: l := by simpa using hu
      refine (hnext i hi).trans ?_
      simp only [reduceCtorEq, if_false, Option.some_inj]
      rfl
  · intro u hu
    rw [insert_prev]
    show _ = if s.hashTable k = u then _ else if _ then
      (hashLinks s k last).prev (s.hashTable k) else _
    rw [hslot]
    cases u with
    | none =>
      simp only [reduceCtorEq, if_false]
      rfl
    | some i =>
      have hi : i ∈ bh :: l := by simpa using hu
      refine (hprev i hi).trans ?_
      simp only [Option.some_inj]
      rfl

/-- The chain of a block has a head, other than `bh`; there is none for device 0. -/
def Occupied (s : Buffers) (bh dev block : ℕ) : Prop :=
  dev = 0 ∨ ∃ j < s.nr, j ≠ bh ∧ (s.head j).dev ≠ 0 ∧
    hashfn (s.head j).dev (s.head j).blocknr = hashfn dev block

theorem occupied_congr {s s' : Buffers} {bh : ℕ} (hnr : s'.nr = s.nr)
    (hkeys : ∀ i < s.nr, i ≠ bh →
      (s'.head i).dev = (s.head i).dev ∧ (s'.head i).blocknr = (s.head i).blocknr)
    (dev block : ℕ) : Occupied s' bh dev block ↔ Occupied s bh dev block := by
  refine or_congr_right (exists_congr fun i => ?_)
  rw [hnr]
  refine and_congr_right fun hi => and_congr_right fun hne => ?_
  rw [(hkeys i hi hne).1, (hkeys i hi hne).2]

theorem Without.occupied_iff {s : Buffers} {bh : ℕ} {free : List ℕ} {chain : ℕ → List ℕ}
    (h : Without s bh free chain) (dev block : ℕ) :
    Occupied s bh dev block ↔ ¬ (dev ≠ 0 ∧ s.hashTable (hashfn dev block) = none) := by
  rw [not_and_or, not_not]
  refine or_congr_right ⟨?_, ?_⟩
  · rintro ⟨j, hj, hne, hdev, hhash⟩ hnone
    have hmem := (h.mem_chain (hashfn dev block) j).mpr ⟨hne, hj, hdev, hhash⟩
    have hchain := h.chains (hashfn dev block)
    rw [hnone] at hchain
    cases hl : chain (hashfn dev block) with
    | nil => exact List.not_mem_nil (hl ▸ hmem)
    | cons i l =>
      rw [hl] at hchain
      exact nomatch hchain.1
  · intro hsome
    obtain ⟨j, hj⟩ := Option.ne_none_iff_exists'.mp hsome
    obtain ⟨hne, hlt, hdev, hhash⟩ :=
      (h.mem_chain _ j).mp (mem_of_hashTable (h.chains (hashfn dev block)) hj)
    exact ⟨j, hlt, hne, hdev, hhash⟩

theorem Without.insert {s : Buffers} {bh : ℕ} {free : List ℕ} {chain : ℕ → List ℕ}
    (h : Without s bh free chain) (hbh : bh < s.nr) :
    (∃ chain', Queues (insertIntoQueues s bh) (free ++ [bh]) chain') ∧
      (insertIntoQueues s bh).nr = s.nr ∧ SameBlocks s (insertIntoQueues s bh) ∧
      s.strays ≤ (insertIntoQueues s bh).strays ∧
      ((insertIntoQueues s bh).strays = s.strays ↔
        Occupied s bh (s.head bh).dev (s.head bh).blocknr) := by
  have hring := h.ring
  have hfirst := h.first
  obtain ⟨f, hf⟩ : ∃ f, (if free = [] then [bh] else free).head? = some f := by
    split_ifs with hempty
    · exact ⟨bh, rfl⟩
    · exact ⟨_, List.head?_eq_some_head hempty⟩
  have hlt : ∀ i ∈ (if free = [] then [bh] else free), i < s.nr := by
    intro i hi
    refine (h.mem_free i).mp ?_
    split_ifs at hi with hempty
    · exact List.mem_append_right _ hi
    · exact List.mem_append_left _ hi
  have hmem := List.mem_of_mem_head? hf
  obtain ⟨-, hprev, -⟩ := hring.linked (List.mem_map_of_mem hmem)
  obtain ⟨p, hp, hlast⟩ := List.mem_map.mp hprev
  obtain ⟨hnr, hfree', hstrays, hhead, htable⟩ :=
    insertIntoQueues_eq hbh (hfirst.trans hf) (hlt f hmem) hlast.symm (hlt p hp)
  set s' := insertIntoQueues s bh
  set k := hashfn (s.head bh).dev (s.head bh).blocknr with hk
  have hkeys : SameBlocks s s' := by
    intro i hi
    rw [hhead i hi]
    exact ⟨rfl, rfl, rfl, rfl, rfl, rfl⟩
  have hslot : s.hashTable k = none ∨ s.Points (s.hashTable k) := by
    cases hslot : s.hashTable k with
    | none => exact .inl rfl
    | some i =>
      obtain ⟨-, hi, -⟩ := (h.mem_chain k i).mp (mem_of_hashTable (h.chains k) hslot)
      exact .inr ⟨i, rfl, hi⟩
  have hcount := hstrays hslot
  have hfirst' : s'.freeList = (free ++ [bh]).head? := by
    rw [hfree', hfirst]
    cases free <;> rfl
  have hring' : (freeLinks s').Ring ((free ++ [bh]).map some) := by
    refine insert_ring hring h.once hf hlast.symm ?_ ?_
    · intro i hi
      rw [hhead i ((h.mem_free i).mp hi)]
    · intro i hi
      rw [hhead i ((h.mem_free i).mp hi)]
  refine ⟨?_, hnr, hkeys, by omega, ?_⟩
  · by_cases hdev : (s.head bh).dev = 0
    · simp only [hdev, ne_eq, not_true_eq_false, false_and, if_false] at hhead htable
      refine ⟨chain, hring', hfirst', h.once, hnr ▸ h.mem_free, ?_, h.chain_once, ?_, ?_⟩
      · intro k'
        rw [htable]
        refine (h.chains k').congr fun i hi => ?_
        obtain ⟨hne, hi, -⟩ := (h.mem_chain k' i).mp hi
        rw [hhead i hi, if_neg hne, if_neg hne]
        exact ⟨rfl, rfl⟩
      · intro k' i
        rw [hkeys.key_iff hnr, h.mem_chain k' i]
        refine ⟨And.right, fun hi => ⟨?_, hi⟩⟩
        rintro rfl
        exact hi.2.1 hdev
      · intro i hi hdev'
        rw [hnr] at hi
        rw [(hkeys i hi).dev] at hdev'
        rw [hhead i hi]
        by_cases hne : i = bh
        · rw [if_pos hne, if_pos hne]
          exact ⟨rfl, rfl⟩
        · rw [if_neg hne, if_neg hne]
          exact h.loose i hi hne hdev'
    · simp only [hdev, ne_eq, not_false_eq_true, true_and, if_true] at hhead htable
      have hnot : bh ∉ chain k := fun hmem => ((h.mem_chain k bh).mp hmem).1 rfl
      have hlt' : ∀ i ∈ bh :: chain k, i < s.nr := by
        intro i hi
        rcases List.mem_cons.mp hi with rfl | hi
        · exact hbh
        · exact ((h.mem_chain k i).mp hi).2.1
      refine ⟨Function.update chain k (bh :: chain k), hring', hfirst', h.once, hnr ▸ h.mem_free,
        ?_, ?_, ?_, ?_⟩
      · intro k'
        by_cases hk' : k' = k
        · subst hk'
          rw [Function.update_self]
          refine insert_chain (h.chains k) (h.chain_once k) hnot ?_ ?_ ?_
          · intro i hi
            rw [hhead i (hlt' i hi)]
          · intro i hi
            rw [hhead i (hlt' i hi)]
          · rw [htable, Function.update_self]
        · rw [Function.update_of_ne hk', htable, Function.update_of_ne hk']
          refine (h.chains k').congr fun i hik => ?_
          obtain ⟨hne, hi, -, hik'⟩ := (h.mem_chain k' i).mp hik
          have hslot' : s.hashTable k ≠ some i := by
            intro heq
            obtain ⟨-, -, -, hik''⟩ := (h.mem_chain k i).mp (mem_of_hashTable (h.chains k) heq)
            exact hk' (hik'.symm.trans hik'')
          rw [hhead i hi, if_neg hne, if_neg hne, if_neg hslot']
          exact ⟨rfl, rfl⟩
      · intro k'
        by_cases hk' : k' = k
        · subst hk'
          rw [Function.update_self]
          exact List.nodup_cons.mpr ⟨hnot, h.chain_once k⟩
        · rw [Function.update_of_ne hk']
          exact h.chain_once k'
      · intro k' i
        rw [hkeys.key_iff hnr]
        by_cases hi : i = bh
        · subst hi
          by_cases hk' : k' = k
          · subst hk'
            rw [Function.update_self]
            exact iff_of_true (List.mem_cons_self ..) ⟨hbh, hdev, rfl⟩
          · rw [Function.update_of_ne hk', h.mem_chain k' i]
            exact iff_of_false (fun hmem => hmem.1 rfl) fun hmem => hk' hmem.2.2.symm
        · have hmem : i ∈ Function.update chain k (bh :: chain k) k' ↔ i ∈ chain k' := by
            by_cases hk' : k' = k
            · subst hk'
              rw [Function.update_self, List.mem_cons]
              exact or_iff_right hi
            · rw [Function.update_of_ne hk']
          rw [hmem, h.mem_chain k' i]
          exact and_iff_right hi
      · intro i hi hdev'
        rw [hnr] at hi
        rw [(hkeys i hi).dev] at hdev'
        have hne : i ≠ bh := fun heq => hdev (heq ▸ hdev')
        have hslot' : s.hashTable k ≠ some i := by
          intro heq
          obtain ⟨-, -, hi', -⟩ := (h.mem_chain k i).mp (mem_of_hashTable (h.chains k) heq)
          exact hi' hdev'
        rw [hhead i hi, if_neg hne, if_neg hne, if_neg hslot']
        exact h.loose i hi hne hdev'
  · rw [h.occupied_iff, hcount, ← hk]
    split_ifs with hstray <;> simp [hstray]

/-! ### A turn of a task -/

theorem store_cases (s : Buffers) (p : Option ℕ) (f : BufferHead → BufferHead) (i : ℕ) :
    (s.store p f).head i = s.head i ∨ p = some i ∧ (s.store p f).head i = f (s.head i) := by
  by_cases hi : i < s.nr
  · rw [store_head s p f hi]
    split_ifs with h
    · exact .inr ⟨h, rfl⟩
    · exact .inl rfl
  · refine .inl ?_
    unfold Buffers.store
    split
    · rfl
    · rename_i j
      split_ifs with hj
      · refine Function.update_of_ne ?_ _ _
        rintro rfl
        exact hi hj
      · rfl

theorem store_sameLinks {s : Buffers} {p : Option ℕ} {f : BufferHead → BufferHead}
    (hf : ∀ h, (f h).prev = h.prev ∧ (f h).next = h.next ∧ (f h).prevFree = h.prevFree ∧
      (f h).nextFree = h.nextFree) : SameLinks s (s.store p f) := by
  refine ⟨store_nr .., store_hashTable .., store_freeList .., ?_, ?_, ?_, ?_⟩
  · intro i
    rcases store_cases s p f i with h | ⟨-, h⟩ <;> rw [h]
    exact (hf _).1
  · intro i
    rcases store_cases s p f i with h | ⟨-, h⟩ <;> rw [h]
    exact (hf _).2.1
  · intro i
    rcases store_cases s p f i with h | ⟨-, h⟩ <;> rw [h]
    exact (hf _).2.2.1
  · intro i
    rcases store_cases s p f i with h | ⟨-, h⟩ <;> rw [h]
    exact (hf _).2.2.2

/-- A store to the flags or the count of a buffer. -/
theorem Queues.store {s : Buffers} {free : List ℕ} {chain : ℕ → List ℕ} (h : Queues s free chain)
    {p : Option ℕ} {f : BufferHead → BufferHead}
    (hf : ∀ h, (f h).prev = h.prev ∧ (f h).next = h.next ∧ (f h).prevFree = h.prevFree ∧
      (f h).nextFree = h.nextFree) (hdev : ∀ h, (f h).dev = h.dev)
    (hblock : ∀ h, (f h).blocknr = h.blocknr) : Queues (s.store p f) free chain := by
  refine h.congr (store_sameLinks hf) ?_ ?_
  · intro i
    rcases store_cases s p f i with h | ⟨-, h⟩ <;> rw [h]
    exact hdev _
  · intro i
    rcases store_cases s p f i with h | ⟨-, h⟩ <;> rw [h]
    exact hblock _

/-- A buffer for another block. -/
theorem Queues.retarget {s : Buffers} {free : List ℕ} {chain : ℕ → List ℕ} {bh : ℕ}
    (h : Queues s free chain) (hbh : bh < s.nr) (dev block : ℕ) :
    ∃ s', retarget s bh dev block = some s' ∧ (∃ free' chain', Queues s' free' chain') ∧
      s'.nr = s.nr ∧ s.strays ≤ s'.strays ∧
      (s'.strays = s.strays ↔ Occupied s bh (dev % 65536) block) ∧
      (∀ i < s.nr, i ≠ bh → SameBlock (s.head i) (s'.head i)) ∧ (s'.head bh).count = 1 := by
  unfold BufferLinks.retarget
  extract_lets s₁
  have n₁ : s₁.nr = s.nr := store_nr ..
  have h₁ : Queues s₁ free chain :=
    h.store (fun _ => ⟨rfl, rfl, rfl, rfl⟩) (fun _ => rfl) fun _ => rfl
  have strays₁ : s₁.strays = s.strays := store_strays ⟨bh, rfl, hbh⟩ _
  obtain ⟨s₂, free', chain', hs₂, h₂, n₂, strays₂, keys₂⟩ := h₁.remove (n₁ ▸ hbh)
  rw [hs₂, Option.map_some]
  have hbh₂ : bh < s₂.nr := n₂ ▸ n₁ ▸ hbh
  set s₃ := s₂.store (some bh) fun h => { h with dev := dev % 65536, blocknr := block } with hs₃
  have n₃ : s₃.nr = s₂.nr := store_nr ..
  have others : ∀ i, i ≠ bh → s₃.head i = s₂.head i := by
    intro i hi
    rcases store_cases s₂ (some bh) _ i with h | ⟨heq, -⟩
    · exact h
    · exact absurd (Option.some_inj.mp heq).symm hi
  have key₃ : s₃.head bh = { s₂.head bh with dev := dev % 65536, blocknr := block } := by
    rw [hs₃, store_head _ _ _ hbh₂, if_pos rfl]
  have h₃ : Without s₃ bh free' chain' := by
    refine h₂.congr (store_sameLinks fun _ => ⟨rfl, rfl, rfl, rfl⟩) ?_ ?_
    · intro i hi
      rw [others i hi]
    · intro i hi
      rw [others i hi]
  obtain ⟨⟨chain'', h₄⟩, n₄, keys₄, hle, hiff⟩ := h₃.insert (n₃ ▸ hbh₂)
  rw [store_strays ⟨bh, rfl, hbh₂⟩, strays₂, strays₁] at hle hiff
  rw [key₃] at hiff
  have nr₃ : s₃.nr = s.nr := n₃.trans (n₂.trans n₁)
  have same₃ : ∀ i < s.nr, i ≠ bh → SameBlock (s.head i) (s₃.head i) := by
    intro i hi hne
    rw [others i hne]
    rcases store_cases s (some bh) _ i with h | ⟨heq, -⟩
    · exact h ▸ keys₂ i (n₁ ▸ hi)
    · exact absurd (Option.some_inj.mp heq).symm hne
  refine ⟨_, rfl, ⟨_, _, h₄⟩, n₄.trans nr₃, hle, hiff.trans ?_, ?_, ?_⟩
  · exact occupied_congr nr₃ (fun i hi hne => ⟨(same₃ i hi hne).dev, (same₃ i hi hne).blocknr⟩) _ _
  · intro i hi hne
    exact (same₃ i hi hne).trans (keys₄ i (nr₃ ▸ hi))
  · have hcount : (s₁.head bh).count = 1 := by
      rw [store_head _ _ _ hbh, if_pos rfl]
    rw [(keys₄ bh (nr₃ ▸ hbh)).count, key₃]
    exact (keys₂ bh (n₁ ▸ hbh)).count.trans hcount

theorem walk_ends {s : Buffers} (dev block : ℕ) {before p : Option ℕ} {l : List ℕ}
    (h : Chain s before p l) {n : ℕ} (hn : l.length ≤ n) :
    ∃ r, walk s dev block n p = some r ∧ ∀ i, r = some i → i ∈ l := by
  induction l generalizing before p n with
  | nil =>
    obtain rfl : p = none := h
    exact ⟨none, by cases n <;> rfl, fun i hi => nomatch hi⟩
  | cons j l ih =>
    obtain ⟨rfl, -, hrest⟩ := h
    obtain ⟨n, rfl⟩ := Nat.exists_eq_succ_of_ne_zero (n := n) (by
      rintro rfl
      exact absurd hn (Nat.not_succ_le_zero _))
    rw [walk]
    split_ifs with hfound
    · refine ⟨some j, rfl, ?_⟩
      rintro i hi
      rw [Option.some_inj.mp hi]
      exact List.mem_cons_self ..
    · obtain ⟨r, hr, hmem⟩ := ih hrest (Nat.le_of_succ_le_succ hn)
      exact ⟨r, hr, fun i hi => List.mem_cons_of_mem _ (hmem i hi)⟩

theorem scan_ends {s : Buffers} {f a : ℕ} {bh : Option ℕ} {l : List ℕ}
    (h : (freeLinks s).Path (some a) (l.map some) (some f)) (hf : f ∉ l)
    (hfree : s.freeList = some f) {n : ℕ} (hn : l.length < n) :
    ∃ r, scan s n (some a) bh = some r ∧ ∀ i, r = some i → i ∈ a :: l ∨ bh = some i := by
  induction l generalizing a bh n with
  | nil =>
    obtain ⟨n, rfl⟩ := Nat.exists_eq_succ_of_ne_zero (Nat.ne_of_gt hn)
    have hnext : (s.deref (some a)).nextFree = s.freeList := h.1.trans hfree.symm
    rw [scan]
    extract_lets bh'
    split_ifs with hbreak
    · exact ⟨some a, rfl, fun i hi => .inl (List.mem_singleton.mpr (Option.some_inj.mp hi).symm)⟩
    · refine ⟨bh', rfl, fun i hi => ?_⟩
      unfold bh' at hi
      split_ifs at hi
      · exact .inl (List.mem_singleton.mpr (Option.some_inj.mp hi).symm)
      · exact .inr hi
  | cons c l ih =>
    obtain ⟨n, rfl⟩ := Nat.exists_eq_succ_of_ne_zero (Nat.ne_of_gt (Nat.zero_lt_of_lt hn))
    obtain ⟨⟨hnext, -⟩, hrest⟩ := h
    have hnext' : (s.deref (some a)).nextFree = some c := hnext
    rw [List.mem_cons, not_or] at hf
    have hgo : (s.deref (some a)).nextFree ≠ s.freeList := by
      rw [hnext', hfree]
      exact fun heq => hf.1 (Option.some_inj.mp heq).symm
    rw [scan]
    extract_lets bh'
    split_ifs with hbreak
    · exact ⟨some a, rfl, fun i hi => .inl (Option.some_inj.mp hi ▸ List.mem_cons_self ..)⟩
    · rw [hnext']
      obtain ⟨r, hr, hmem⟩ := ih hrest hf.2 (Nat.lt_of_succ_lt_succ hn)
      refine ⟨r, hr, fun i hi => ?_⟩
      rcases hmem i hi with hi | hi
      · exact .inl (List.mem_cons_of_mem _ hi)
      · unfold bh' at hi
        split_ifs at hi
        · exact .inl (Option.some_inj.mp hi ▸ List.mem_cons_self ..)
        · exact .inr hi

theorem length_le_of_lt {l : List ℕ} {n : ℕ} (honce : l.Nodup) (hlt : ∀ i ∈ l, i < n) :
    l.length ≤ n := by
  have hsub : l ⊆ List.range n := fun i hi => List.mem_range.mpr (hlt i hi)
  exact List.length_range (n := n) ▸ (honce.subperm hsub).length_le

theorem Queues.findBuffer {s : Buffers} {free : List ℕ} {chain : ℕ → List ℕ}
    (h : Queues s free chain) (dev block : ℕ) :
    ∃ r, findBuffer s dev block = some r ∧ ∀ i, r = some i → i < s.nr := by
  have hlt : ∀ i ∈ chain (hashfn dev block), i < s.nr := fun i hi => ((h.mem_chain _ i).mp hi).1
  obtain ⟨r, hr, hmem⟩ := walk_ends dev block (h.chains (hashfn dev block))
    (length_le_of_lt (h.chain_once _) hlt)
  exact ⟨r, hr, fun i hi => hlt i (hmem i hi)⟩

theorem Queues.scanFree {s : Buffers} {free : List ℕ} {chain : ℕ → List ℕ}
    (h : Queues s free chain) :
    ∃ r, scanFree s = some r ∧ ∀ i, r = some i → i < s.nr := by
  have hring := h.ring
  have honce := h.once
  have hfirst := h.first
  have hlength := length_le_of_lt h.once fun i hi => (h.mem_free i).mp hi
  have hlt := h.mem_free
  cases free with
  | nil => exact hring.elim
  | cons f l =>
    unfold BufferLinks.scanFree
    rw [hfirst]
    obtain ⟨r, hr, hmem⟩ :=
      @scan_ends s f f none l hring (List.nodup_cons.mp honce).1 hfirst s.nr hlength
    exact ⟨r, hr, fun i hi => (hlt i).mp ((hmem i hi).resolve_right nofun)⟩

/-- A buffer that is free, and the block is not in another one. -/
structure Ready (s : Buffers) (dev block bh : ℕ) : Prop where
  lock : (s.head bh).lock = false
  count : (s.head bh).count = 0
  dirt : (s.head bh).dirt = false
  absent : findBuffer s dev block = some none

/-- The turns in which `getblk` takes a buffer for another block. -/
inductive Recycles (s : Buffers) : Frame → ℕ → ℕ → ℕ → Prop where
  | getblk {dev block bh : ℕ} : findBuffer s dev block = some none → scanFree s = some (some bh) →
      Ready s dev block bh → Recycles s (.getblk dev block) dev block bh
  | waitFree {dev block bh : ℕ} : Ready s dev block bh →
      Recycles s (.waitFree dev block bh) dev block bh

/-- A task at a buffer that exists, and in no loop that does not end. -/
def Frame.Fine (nr : ℕ) : Frame → Prop
  | .waitHash _ _ bh => bh < nr
  | .waitFree _ _ bh => bh < nr
  | .brelse bh => bh < nr
  | .corrupted => False
  | .loops => False
  | _ => True

/-- What a turn keeps, and when its stores are all to heads. -/
structure Turned (s : Buffers) (occupied : Prop) (out : Buffers × Frame) : Prop where
  queues : ∃ free chain, Queues out.1 free chain
  nr : out.1.nr = s.nr
  fine : out.2.Fine s.nr
  strays : s.strays ≤ out.1.strays
  strays_iff : out.1.strays = s.strays ↔ occupied

theorem Turned.iff {s : Buffers} {p q : Prop} {out : Buffers × Frame} (h : Turned s p out)
    (hpq : p ↔ q) : Turned s q out :=
  { h with strays_iff := h.strays_iff.trans hpq }

theorem Turned.after {s s' : Buffers} {p : Prop} {out : Buffers × Frame} (h : Turned s' p out)
    (hnr : s'.nr = s.nr) (hstrays : s'.strays = s.strays) : Turned s p out :=
  ⟨h.queues, h.nr.trans hnr, hnr ▸ h.fine, hstrays ▸ h.strays, hstrays ▸ h.strays_iff⟩

section
variable {s : Buffers} {free : List ℕ} {chain : ℕ → List ℕ} (h : Queues s free chain)
include h

theorem Queues.stay (f : Frame) (hf : f.Fine s.nr) {occupied : Prop} (hoccupied : occupied) :
    Turned s occupied (s, f) :=
  ⟨⟨free, chain, h⟩, rfl, hf, le_rfl, iff_of_true rfl hoccupied⟩

/-- A change of the count of a buffer. -/
theorem Queues.count {bh : ℕ} (hbh : bh < s.nr) (c : BufferHead → ℕ) (f : Frame)
    (hf : f.Fine s.nr) {occupied : Prop} (hoccupied : occupied) :
    Turned s occupied (s.store (some bh) fun h => { h with count := c h }, f) where
  queues := ⟨free, chain, h.store (p := some bh) (f := fun h => { h with count := c h })
    (fun _ => ⟨rfl, rfl, rfl, rfl⟩) (fun _ => rfl) fun _ => rfl⟩
  nr := store_nr ..
  fine := hf
  strays := (store_strays ⟨bh, rfl, hbh⟩ _).ge
  strays_iff := iff_of_true (store_strays ⟨bh, rfl, hbh⟩ _) hoccupied

theorem Queues.waitHash (dev block : ℕ) {bh : ℕ} (hbh : bh < s.nr) {occupied : Prop}
    (hoccupied : occupied) : Turned s occupied (waitHash s dev block bh) := by
  unfold BufferLinks.waitHash
  split_ifs
  · exact h.stay (.waitHash dev block bh) hbh hoccupied
  · exact h.stay (.got bh) trivial hoccupied
  · exact h.count hbh _ (.getblk dev block) trivial hoccupied

theorem Queues.waitFree {dev block bh : ℕ} (hbh : bh < s.nr) :
    Turned s (Ready s dev block bh → Occupied s bh (dev % 65536) block)
      (waitFree s dev block bh) := by
  unfold BufferLinks.waitFree
  split_ifs with hlock hcount hdirt
  · refine h.stay (.waitFree dev block bh) hbh fun hready => ?_
    rw [hready.lock] at hlock
    exact absurd hlock Bool.false_ne_true
  · exact h.stay (.getblk dev block) trivial fun hready => absurd hready.count hcount
  · refine h.stay (.waitFree dev block bh) hbh fun hready => ?_
    rw [hready.dirt] at hdirt
    exact absurd hdirt Bool.false_ne_true
  · obtain ⟨r, hr, hmem⟩ := h.findBuffer dev block
    rw [hr]
    cases r with
    | some i =>
      refine h.stay (.getblk dev block) trivial fun hready => ?_
      exact nomatch hr.symm.trans hready.absent
    | none =>
      have hready : Ready s dev block bh :=
        ⟨Bool.not_eq_true _ ▸ hlock, not_not.mp hcount, Bool.not_eq_true _ ▸ hdirt, hr⟩
      obtain ⟨s', hs', hqueues, hnr, hle, hiff, -⟩ := h.retarget hbh dev block
      dsimp only
      rw [hs']
      exact ⟨hqueues, hnr, trivial, hle, hiff.trans ⟨fun ho _ => ho, fun ho => ho hready⟩⟩

theorem Queues.turn {f : Frame} (hf : f.Fine s.nr) :
    Turned s (∀ dev block bh, Recycles s f dev block bh → Occupied s bh (dev % 65536) block)
      (turn s f) := by
  cases f with
  | idle => exact h.stay .idle trivial fun _ _ _ hr => nomatch hr
  | got bh => exact h.stay (.got bh) trivial fun _ _ _ hr => nomatch hr
  | freeFree => exact h.stay .freeFree trivial fun _ _ _ hr => nomatch hr
  | corrupted => exact hf.elim
  | loops => exact hf.elim
  | getblk dev block =>
    unfold BufferLinks.turn
    obtain ⟨r, hr, hmem⟩ := h.findBuffer dev block
    dsimp only
    rw [hr]
    cases r with
    | some bh =>
      have hbh := hmem bh rfl
      have hold := h.count hbh (fun h => (h.count + 1) % 256) .idle trivial trivial
      obtain ⟨free', chain', h'⟩ := hold.queues
      have hnone : ∀ dev' block' bh', Recycles s (.getblk dev block) dev' block' bh' →
          Occupied s bh' (dev' % 65536) block' := by
        intro dev' block' bh' hrecycles
        cases hrecycles with
        | getblk habsent => exact nomatch hr.symm.trans habsent
      have hturned := h'.waitHash dev block (hold.nr.symm ▸ hbh) hnone
      exact hturned.after hold.nr (hold.strays_iff.mpr trivial)
    | none =>
      obtain ⟨r, hscan, hmem⟩ := h.scanFree
      dsimp only
      rw [hscan]
      cases r with
      | none =>
        refine h.stay (.getblk dev block) trivial fun dev' block' bh' hrecycles => ?_
        cases hrecycles with
        | getblk _ hscan' => exact nomatch hscan.symm.trans hscan'
      | some bh =>
        refine (h.waitFree (hmem bh rfl)).iff ⟨?_, ?_⟩
        · intro hoccupied dev' block' bh' hrecycles
          cases hrecycles with
          | getblk _ hscan' hready =>
            obtain rfl : bh = bh' := Option.some_inj.mp (Option.some_inj.mp (hscan.symm.trans hscan'))
            exact hoccupied hready
        · intro hoccupied hready
          exact hoccupied dev block bh (.getblk hr hscan hready)
  | waitHash dev block bh => exact h.waitHash dev block hf fun _ _ _ hr => nomatch hr
  | waitFree dev block bh =>
    refine (h.waitFree hf).iff ⟨?_, ?_⟩
    · intro hoccupied dev' block' bh' hrecycles
      cases hrecycles with
      | waitFree hready => exact hoccupied hready
    · intro hoccupied hready
      exact hoccupied dev block bh (.waitFree hready)
  | brelse bh =>
    unfold BufferLinks.turn
    dsimp only
    split_ifs
    · exact h.stay (.brelse bh) hf fun _ _ _ hr => nomatch hr
    · exact h.count hf _ .freeFree trivial fun _ _ _ hr => nomatch hr
    · exact h.count hf _ .idle trivial fun _ _ _ hr => nomatch hr

end

/-! ### Runs -/

section
variable {T : Type} [DecidableEq T]

structure Sound (σ : System T) : Prop where
  queues : ∃ free chain, Queues σ.bufs free chain
  fine : ∀ t, (σ.task t).Fine σ.bufs.nr

/-- A buffer that is taken for another block goes to a chain with a head. -/
def Careful (σ : System T) : Act T → Prop
  | .turn t => ∀ dev block bh, Recycles σ.bufs (σ.task t) dev block bh →
      Occupied σ.bufs bh (dev % 65536) block
  | _ => True

theorem act_sound {σ : System T} (h : Sound σ) (a : Act T) :
    Sound (act σ a) ∧ σ.bufs.strays ≤ (act σ a).bufs.strays ∧
      ((act σ a).bufs.strays = σ.bufs.strays ↔ Careful σ a) := by
  obtain ⟨free, chain, hqueues⟩ := h.queues
  have hquiet : ∀ (f : T → Frame), (∀ t, (f t).Fine σ.bufs.nr) → Careful σ a →
      Sound { σ with task := f } ∧ σ.bufs.strays ≤ σ.bufs.strays ∧
        (σ.bufs.strays = σ.bufs.strays ↔ Careful σ a) :=
    fun f hf hcareful => ⟨⟨h.queues, hf⟩, le_rfl, iff_of_true rfl hcareful⟩
  have hupdate : ∀ t f, f.Fine σ.bufs.nr → ∀ u, (Function.update σ.task t f u).Fine σ.bufs.nr := by
    intro t f hf u
    by_cases hu : u = t
    · rw [hu, Function.update_self]
      exact hf
    · rw [Function.update_of_ne hu]
      exact h.fine u
  cases a with
  | getblk t dev block =>
    unfold act
    dsimp only
    split_ifs
    · exact hquiet _ (hupdate t _ trivial) trivial
    · exact hquiet _ h.fine trivial
  | brelse t bh =>
    unfold act
    dsimp only
    split_ifs with hstart
    · exact hquiet _ (hupdate t _ hstart.2) trivial
    · exact hquiet _ h.fine trivial
  | turn t =>
    have hturned := hqueues.turn (h.fine t)
    refine ⟨⟨hturned.queues, fun u => ?_⟩, hturned.strays, hturned.strays_iff⟩
    show (Function.update σ.task t (turn σ.bufs (σ.task t)).2 u).Fine (turn σ.bufs (σ.task t)).1.nr
    rw [hturned.nr]
    exact hupdate t _ hturned.fine u
  | flags bh uptodate dirt lock =>
    unfold act
    dsimp only
    split_ifs with hbh
    · let f : BufferHead → BufferHead :=
        fun h => { h with uptodate := uptodate, dirt := dirt, lock := lock }
      have hstrays := store_strays ⟨bh, rfl, hbh⟩ f
      refine ⟨⟨⟨free, chain, ?_⟩, ?_⟩, hstrays.ge, iff_of_true hstrays trivial⟩
      · exact hqueues.store (p := some bh) (f := f) (fun _ => ⟨rfl, rfl, rfl, rfl⟩) (fun _ => rfl)
          fun _ => rfl
      · intro t
        show (σ.task t).Fine (σ.bufs.store (some bh) _).nr
        rw [store_nr]
        exact h.fine t
    · exact hquiet _ h.fine trivial

/-- All the steps of a run. -/
def CarefulRun (σ : System T) : List (Act T) → Prop
  | [] => True
  | a :: l => Careful σ a ∧ CarefulRun (act σ a) l

theorem run_sound {σ : System T} (h : Sound σ) (acts : List (Act T)) :
    Sound (acts.foldl act σ) ∧ σ.bufs.strays ≤ (acts.foldl act σ).bufs.strays ∧
      ((acts.foldl act σ).bufs.strays = σ.bufs.strays ↔ CarefulRun σ acts) := by
  induction acts generalizing σ with
  | nil => exact ⟨h, le_rfl, iff_of_true rfl trivial⟩
  | cons a l ih =>
    obtain ⟨hsound, hle, hiff⟩ := act_sound h a
    obtain ⟨hsound', hle', hiff'⟩ := ih hsound
    refine ⟨hsound', hle.trans hle', ?_⟩
    rw [List.foldl_cons, CarefulRun, ← hiff, ← hiff']
    omega

end

/-! ### The buffers at first -/

/-- A head as `buffer_init` leaves it, the ends of the free list apart. -/
structure Fresh (h : BufferHead) (i : ℕ) : Prop where
  dev : h.dev = 0
  count : h.count = 0
  dirt : h.dirt = false
  lock : h.lock = false
  next : h.next = none
  prev : h.prev = none
  prevFree : h.prevFree = some (i - 1)
  nextFree : h.nextFree = some (i + 1)

theorem initLoop_fresh (start b n : ℕ) (head : ℕ → BufferHead) (hfresh : ∀ i < n, Fresh (head i) i) :
    n ≤ (initLoop start b n head).1 ∧
      ∀ i < (initLoop start b n head).1, Fresh ((initLoop start b n head).2 i) i := by
  induction b, n, head using initLoop.induct start with
  | case1 b n head hroom ih =>
    rw [initLoop, if_pos hroom]
    have hfresh' : ∀ i < n + 1, Fresh (Function.update head n (initHead (head n) n) i) i := by
      intro i hi
      by_cases heq : i = n
      · rw [heq, Function.update_self]
        exact ⟨rfl, rfl, rfl, rfl, rfl, rfl, rfl, rfl⟩
      · rw [Function.update_of_ne heq]
        exact hfresh i (by omega)
    obtain ⟨hle, hall⟩ := ih hfresh'
    exact ⟨(Nat.le_succ n).trans hle, hall⟩
  | case2 b n head hroom =>
    rw [initLoop, if_neg hroom]
    exact ⟨le_rfl, hfresh⟩

/-- The buffers after `buffer_init`, with the free list closed. -/
structure Started (s : Buffers) : Prop where
  pos : 0 < s.nr
  dev : ∀ i < s.nr, (s.head i).dev = 0
  unused : ∀ i < s.nr, (s.head i).count = 0 ∧ (s.head i).dirt = false ∧ (s.head i).lock = false
  unchained : ∀ i < s.nr, (s.head i).prev = none ∧ (s.head i).next = none
  inner : ∀ i, i + 1 < s.nr → (freeLinks s).Linked (some i) (some (i + 1))
  closed : (freeLinks s).Linked (some (s.nr - 1)) (some 0)
  hashTable : ∀ k, s.hashTable k = none
  freeList : s.freeList = some 0
  strays : s.strays = 0

theorem bufferInit_started (m : Memory) : Started (bufferInit m) := by
  have hroom := m.room
  unfold bufferInit
  extract_lets b r s s₁
  have hpos : 0 < r.1 := by
    have h : 1024 ≤ b ∧ m.start + 36 * (0 + 1) ≤ b - 1024 := by omega
    have hfresh : ∀ i < 1, Fresh (Function.update m.old 0 (initHead (m.old 0) 0) i) i := by
      intro i hi
      obtain rfl : i = 0 := by omega
      rw [Function.update_self]
      exact ⟨rfl, rfl, rfl, rfl, rfl, rfl, rfl, rfl⟩
    unfold r
    rw [initLoop, if_pos h]
    exact (initLoop_fresh _ _ _ _ hfresh).1
  have hfresh : ∀ i < r.1, Fresh (r.2 i) i := (initLoop_fresh m.start b 0 m.old (by simp)).2
  have n₁ : s₁.nr = r.1 := store_nr ..
  set s₂ := s₁.store (some (r.1 - 1)) fun h => { h with nextFree := some 0 } with hs₂
  have n₂ : s₂.nr = r.1 := (store_nr ..).trans n₁
  have hlast : r.1 - 1 < r.1 := Nat.sub_lt hpos Nat.one_pos
  have head₂ : ∀ i < r.1, s₂.head i = { r.2 i with
      prevFree := if 0 = i then some (r.1 - 1) else (r.2 i).prevFree
      nextFree := if r.1 - 1 = i then some 0 else (r.2 i).nextFree } := by
    intro i hi
    rw [hs₂, store_head _ _ _ (n₁.symm ▸ hi), store_head s _ _ hi]
    simp only [Option.some_inj]
    split_ifs <;> rfl
  refine ⟨n₂ ▸ hpos, ?_, ?_, ?_, ?_, ?_, ?_, ?_, ?_⟩
  · intro i hi
    rw [head₂ i (n₂ ▸ hi)]
    exact (hfresh i (n₂ ▸ hi)).dev
  · intro i hi
    have h := hfresh i (n₂ ▸ hi)
    rw [head₂ i (n₂ ▸ hi)]
    exact ⟨h.count, h.dirt, h.lock⟩
  · intro i hi
    have h := hfresh i (n₂ ▸ hi)
    rw [head₂ i (n₂ ▸ hi)]
    exact ⟨h.prev, h.next⟩
  · intro i hi
    rw [n₂] at hi
    constructor
    · have hne : ¬ r.1 - 1 = i := by omega
      show (s₂.head i).nextFree = some (i + 1)
      rw [head₂ i (Nat.lt_of_succ_lt hi)]
      dsimp only
      rw [if_neg hne]
      exact (hfresh i (Nat.lt_of_succ_lt hi)).nextFree
    · show (s₂.head (i + 1)).prevFree = some i
      rw [head₂ (i + 1) hi]
      dsimp only
      rw [if_neg (Nat.succ_ne_zero i).symm]
      exact (hfresh (i + 1) hi).prevFree
  · rw [n₂]
    constructor
    · show (s₂.head (r.1 - 1)).nextFree = some 0
      rw [head₂ (r.1 - 1) hlast]
      dsimp only
      rw [if_pos rfl]
    · show (s₂.head 0).prevFree = some (r.1 - 1)
      rw [head₂ 0 hpos]
      dsimp only
      rw [if_pos rfl]
  · intro k
    rw [hs₂, store_hashTable, store_hashTable]
  · rw [hs₂, store_freeList, store_freeList]
  · rw [hs₂, store_strays ⟨_, rfl, n₁ ▸ hlast⟩, store_strays ⟨0, rfl, hpos⟩]

theorem Started.queues {s : Buffers} (h : Started s) :
    Queues s (List.range s.nr) fun _ => [] := by
  have hrange : List.range s.nr = 0 :: List.range' 1 (s.nr - 1) := by
    rw [List.range_eq_range', ← Nat.succ_pred_eq_of_pos h.pos, List.range'_succ]
    rfl
  refine ⟨?_, ?_, List.nodup_range, fun _ => List.mem_range, h.hashTable, fun _ => List.nodup_nil,
    ?_, ?_⟩
  · rw [hrange]
    refine path_range (g := some) (a := 0) ?_ ?_
    · intro i _ hi
      exact h.inner i (by omega)
    · rw [Nat.zero_add]
      exact h.closed
  · rw [h.freeList, hrange]
    rfl
  · intro k i
    exact iff_of_false List.not_mem_nil fun hi => hi.2.1 (h.dev i hi.1)
  · intro i hi _
    exact h.unchained i hi

section
variable {T : Type} [DecidableEq T]

/-- No task has called anything yet. -/
def boot (m : Memory) : System T := ⟨bufferInit m, fun _ => .idle⟩

omit [DecidableEq T] in
theorem boot_sound (m : Memory) : Sound (boot (T := T) m) :=
  ⟨⟨_, _, (bufferInit_started m).queues⟩, fun _ => trivial⟩

/-- In every run the free list is a ring of all the heads, the chains hold those with a device, and no
    task finds the free list corrupted or a list without an end. -/
theorem queues_kept (m : Memory) (acts : List (Act T)) :
    (∃ free chain, Queues (acts.foldl act (boot m)).bufs free chain) ∧
      ∀ t, (acts.foldl act (boot m)).task t ≠ .corrupted ∧
        (acts.foldl act (boot m)).task t ≠ .loops := by
  obtain ⟨hsound, -⟩ := run_sound (boot_sound m) acts
  refine ⟨hsound.queues, fun t => ⟨fun heq => ?_, fun heq => ?_⟩⟩
  · exact (heq ▸ hsound.fine t : Frame.Fine _ .corrupted)
  · exact (heq ▸ hsound.fine t : Frame.Fine _ .loops)

/-- A run stores to heads only exactly when no buffer is the first one in its chain. -/
theorem stores_within_iff (m : Memory) (acts : List (Act T)) :
    (acts.foldl act (boot m)).bufs.strays = 0 ↔ CarefulRun (boot m) acts := by
  obtain ⟨-, -, hiff⟩ := run_sound (boot_sound m) acts
  rw [← hiff]
  show _ ↔ _ = (bufferInit m).strays
  rw [(bufferInit_started m).strays]

/-- The first buffer that is read stores through NULL. -/
theorem first_not_careful (m : Memory) (t : T) {dev : ℕ} (hdev : dev % 65536 ≠ 0) (block : ℕ) :
    ¬ CarefulRun (boot m) [.getblk t dev block, .turn t] := by
  rintro ⟨-, hcareful, -⟩
  have h := bufferInit_started m
  have habsent : findBuffer (bufferInit m) dev block = some none := by
    unfold findBuffer
    rw [h.hashTable]
    cases (bufferInit m).nr <;> rfl
  obtain ⟨hcount, hdirt, hlock⟩ := h.unused 0 h.pos
  have hscan : scanFree (bufferInit m) = some (some 0) := by
    unfold scanFree
    rw [h.freeList]
    obtain ⟨n, hn⟩ := Nat.exists_eq_succ_of_ne_zero h.pos.ne'
    rw [hn, scan]
    have hbadness : badness ((bufferInit m).deref (some 0)) = 0 := by
      show 2 * ((bufferInit m).head 0).dirt.toNat + ((bufferInit m).head 0).lock.toNat = 0
      rw [hdirt, hlock]
      rfl
    exact if_pos ⟨⟨hcount, .inl rfl⟩, hbadness⟩
  have hrecycles : Recycles (bufferInit m) (.getblk dev block) dev block 0 :=
    .getblk habsent hscan ⟨hlock, hcount, hdirt, habsent⟩
  have htask : (act (boot m) (.getblk t dev block)).task t = .getblk dev block :=
    Function.update_self ..
  rcases hcareful dev block 0 (htask.symm ▸ hrecycles) with h0 | ⟨j, hj, -, hne, -⟩
  · exact hdev h0
  · exact hne (h.dev j hj)

end

def emptyHead : BufferHead := ⟨0, 0, false, false, 0, false, none, none, none, none⟩

/-- Four megabytes for buffers after the kernel. -/
def machine : Memory where
  start := 0x20000
  bufferEnd := 0x400000
  old _ := emptyHead
  low := emptyHead
  room := Nat.le_of_ble_eq_true rfl

/-- The first block of the first disk. -/
theorem store_through_null :
    ([.getblk 0 0x300 0, .turn 0].foldl act (boot machine) : System ℕ).bufs.strays ≠ 0 := by
  intro hstrays
  obtain ⟨-, -, hiff⟩ := run_sound (boot_sound machine) [.getblk 0 0x300 0, .turn 0]
  have hboot : (boot (T := ℕ) machine).bufs.strays = 0 := (bufferInit_started machine).strays
  exact first_not_careful machine 0 (by decide) 0 (hiff.mp (hstrays.trans hboot.symm))

end Linux011.BufferLinks
