import Mathlib

set_option autoImplicit false

/-!
# The super block of an arbitrary device (fs/super.c, fs/bitmap.c)

`read_super`, the counting loops of `mount_root`, and the allocation of blocks and inodes on one
device whose super block may hold anything. A buffer is the block it is of; `b_count` does not come
to its limit. `fault` is an index outside of `s_imap` and `s_zmap`, or the use of a null buffer.
-/
namespace Linux011.SuperImages

def SUPER_MAGIC : ℕ := 0x137f
def MAP_SLOTS : ℕ := 8

/-- The bits of a block. -/
abbrev Bits := ℕ → Bool

/-- The fields of the super block on the device that are used. -/
structure Image where
  ninodes : UInt16
  nzones : UInt16
  imapBlocks : UInt16
  zmapBlocks : UInt16
  firstdatazone : UInt16
  magic : UInt16

/-- The buffers of the device: their contents, `b_count`, and which blocks are in the hash table. -/
structure Buffers where
  data : ℕ → Bits
  count : ℕ → ℕ
  hashed : ℕ → Bool

inductive Result (α : Type) where
  | done (a : α)
  | panic
  | fault

namespace Result

def bind {α β : Type} : Result α → (α → Result β) → Result β
  | done a, f => f a
  | panic, _ => panic
  | fault, _ => fault

@[simp] theorem bind_done {α β : Type} (a : α) (f : α → Result β) : bind (done a) f = f a := rfl
@[simp] theorem bind_panic {α β : Type} (f : α → Result β) : bind panic f = panic := rfl
@[simp] theorem bind_fault {α β : Type} (f : α → Result β) : bind fault f = fault := rfl

end Result

abbrev Map := ℕ → Option ℕ

/-- `brelse`, also of no buffer. -/
def brelse (s : Buffers) : Option ℕ → Result Buffers
  | none => .done s
  | some b =>
    if s.count b = 0 then .panic
    else .done { s with count := Function.update s.count b (s.count b - 1) }

/-- A `bread` that succeeds. -/
def Buffers.hold (s : Buffers) (b : ℕ) : Buffers :=
  { s with
    count := Function.update s.count b (s.count b + 1),
    hashed := Function.update s.hashed b true }

/-- A slot of a map is written: `map[i] = o`. -/
def store (map : Map) (i : ℕ) (o : Option ℕ) : Result Map :=
  if i < MAP_SLOTS then .done (Function.update map i o) else .fault

/-- A buffer that is used through a slot: `map[i]->...`. -/
def fetch (map : Map) (i : ℕ) : Result ℕ :=
  if i < MAP_SLOTS then match map i with
    | some b => .done b
    | none => .fault
  else .fault

/-- `for (; i < blocks; i++)`, with `left` turns left; the next block and the buffers. -/
def loadMap (reads : ℕ → Bool) : ℕ → ℕ → ℕ → Map → Buffers → Result (ℕ × Map × Buffers)
  | 0, _, block, map, s => .done (block, map, s)
  | left + 1, i, block, map, s =>
    if reads block then
      (store map i (some block)).bind fun map =>
        loadMap reads left (i + 1) (block + 1) map (s.hold block)
    else (store map i none).bind fun map => .done (block, map, s)

/-- `brelse` of all slots of a map. -/
def releaseMap (map : Map) : ℕ → Buffers → Result Buffers
  | 0, s => .done s
  | n + 1, s => (releaseMap map n s).bind fun s => brelse s (map n)

def setBit (s : Buffers) (b n : ℕ) (v : Bool) : Buffers :=
  { s with data := Function.update s.data b (Function.update (s.data b) n v) }

/-- The entry of the device in `super_block`. -/
structure Super where
  img : Image
  imap : Map
  zmap : Map

/-- `read_super` with a free entry; `reads` says which reads succeed. -/
def readSuper (img : Image) (reads : ℕ → Bool) (s : Buffers) : Result (Option Super × Buffers) :=
  if reads 1 = false then .done (none, s)
  else
    (brelse (s.hold 1) (some 1)).bind fun s =>
    if img.magic.toNat ≠ SUPER_MAGIC then .done (none, s)
    else
      (loadMap reads img.imapBlocks.toNat 0 2 (fun _ => none) s).bind fun (block, imap, s) =>
      (loadMap reads img.zmapBlocks.toNat 0 block (fun _ => none) s).bind fun (block, zmap, s) =>
      if block ≠ 2 + img.imapBlocks.toNat + img.zmapBlocks.toNat then
        (releaseMap imap MAP_SLOTS s).bind fun s =>
        (releaseMap zmap MAP_SLOTS s).bind fun s => .done (none, s)
      else
        (fetch imap 0).bind fun b =>
        (fetch zmap 0).bind fun b' =>
        .done (some ⟨img, imap, zmap⟩, setBit (setBit s b 0 true) b' 0 true)

/-- `while (-- i >= 0)` of `mount_root`: the clear bits of a map. -/
def countFree (map : Map) (s : Buffers) : ℕ → Result ℕ
  | 0 => .done 0
  | i + 1 =>
    (fetch map (i / 8192)).bind fun b =>
    (countFree map s i).bind fun free =>
    .done (if s.data b (i % 8192) then free else free + 1)

/-- The two counts that `mount_root` prints. -/
def mountRoot (sb : Super) (s : Buffers) : Result (ℕ × ℕ) :=
  (countFree sb.zmap s sb.img.nzones.toNat).bind fun blocks =>
  (countFree sb.imap s (sb.img.ninodes.toNat + 1)).bind fun inodes => .done (blocks, inodes)

/-- `find_first_zero`: 8192 if there is none. -/
def findFirstZero (bits : Bits) : ℕ := ((List.range 8192).find? fun n => !bits n).getD 8192

/-- `for (i=0 ; i<8 ; i++)` over a map: `i`, `bh` and `j` behind it. -/
def findMap (map : Map) (s : Buffers) : ℕ → ℕ → ℕ × Option ℕ × ℕ
  | 0, j => (MAP_SLOTS, map (MAP_SLOTS - 1), j)
  | left + 1, j => match map (MAP_SLOTS - (left + 1)) with
    | none => findMap map s left j
    | some b =>
      if findFirstZero (s.data b) < 8192 then
        (MAP_SLOTS - (left + 1), some b, findFirstZero (s.data b))
      else findMap map s left (findFirstZero (s.data b))

def newBlock (sb : Super) (s : Buffers) : Result (ℤ × Buffers) :=
  let (i, bh, j) := findMap sb.zmap s MAP_SLOTS 8192
  match bh with
  | none => .done (0, s)
  | some b =>
    if i ≥ 8 ∨ j ≥ 8192 then .done (0, s)
    else if s.data b j then .panic
    else
      let s := setBit s b j true
      let n : ℤ := j + i * 8192 + sb.img.firstdatazone.toNat - 1
      if n ≥ sb.img.nzones.toNat then .done (0, s)
      else
        let s := s.hold n.toNat
        if s.count n.toNat ≠ 1 then .panic
        else (brelse { s with data := Function.update s.data n.toNat fun _ => false }
          (some n.toNat)).bind fun s => .done (n, s)

def freeBlock (sb : Super) (s : Buffers) (block : ℤ) : Result Buffers :=
  if block < sb.img.firstdatazone.toNat ∨ block ≥ sb.img.nzones.toNat then .panic
  else
    let n := block.toNat
    let held := s.hold n
    if s.hashed n = true ∧ held.count n ≠ 1 then .done held
    else
      (if s.hashed n then brelse held (some n) else .done s).bind fun s =>
      let bit := (block - (sb.img.firstdatazone.toNat - 1)).toNat
      (fetch sb.zmap (bit / 8192)).bind fun b =>
      if s.data b (bit % 8192) = false then .panic
      else .done (setBit s b (bit % 8192) false)

/-- The number of the new inode, or `none`. -/
def newInode (sb : Super) (s : Buffers) : Result (Option ℕ × Buffers) :=
  let (i, bh, j) := findMap sb.imap s MAP_SLOTS 8192
  match bh with
  | none => .done (none, s)
  | some b =>
    if j ≥ 8192 ∨ j + i * 8192 > sb.img.ninodes.toNat then .done (none, s)
    else if s.data b j then .panic
    else .done (some (j + i * 8192), setBit s b j true)

/-- `free_inode` of an inode without links, by its number. -/
def freeInode (sb : Super) (s : Buffers) (num : UInt16) : Result Buffers :=
  if num.toNat < 1 ∨ num.toNat > sb.img.ninodes.toNat then .panic
  -- a slot without a buffer is noticed here
  else if num.toNat / 8192 < MAP_SLOTS then match sb.imap (num.toNat / 8192) with
    | none => .panic
    | some b => .done (setBit s b (num.toNat % 8192) false)
  else .fault

inductive Op where
  | newBlock
  | freeBlock (block : ℤ)
  | newInode
  | freeInode (num : UInt16)

def run (sb : Super) (s : Buffers) : Op → Result Buffers
  | .newBlock => (newBlock sb s).bind fun r => .done r.2
  | .freeBlock block => freeBlock sb s block
  | .newInode => (newInode sb s).bind fun r => .done r.2
  | .freeInode num => freeInode sb s num

def runs (sb : Super) (s : Buffers) : List Op → Result Buffers
  | [] => .done s
  | op :: ops => (run sb s op).bind fun s => runs sb s ops

/-! ### Robust images -/

/-- Whatever reads fail and whatever the buffers hold: `read_super` does not go wrong and gives all
    buffers back if it rejects the image, and what is done with the device later does not go
    wrong. -/
def Robust (img : Image) : Prop :=
  ∀ (reads : ℕ → Bool) (s : Buffers), readSuper img reads s ≠ .fault ∧
    (∀ s', readSuper img reads s = .done (none, s') → s'.count = s.count) ∧
    ∀ sb s', readSuper img reads s = .done (some sb, s') →
      mountRoot sb s' ≠ .fault ∧ ∀ ops, runs sb s' ops ≠ .fault

/-- The maps have one to eight blocks, and a bit for every zone and inode. -/
structure Image.Fits (img : Image) : Prop where
  imap : 1 ≤ img.imapBlocks.toNat ∧ img.imapBlocks.toNat ≤ MAP_SLOTS
  zmap : 1 ≤ img.zmapBlocks.toNat ∧ img.zmapBlocks.toNat ≤ MAP_SLOTS
  inodes : img.ninodes.toNat < 8192 * img.imapBlocks.toNat
  zones : img.nzones.toNat ≤ 8192 * img.zmapBlocks.toNat
  -- without an offset, the last zone has the bit behind that of its number
  offset : img.firstdatazone.toNat = 0 → img.nzones.toNat < 8192 * img.zmapBlocks.toNat

/-- How many of the first `n` slots are block `b`. -/
def held (map : Map) (b : ℕ) : ℕ → ℕ
  | 0 => 0
  | n + 1 => held map b n + if map n = some b then 1 else 0

theorem held_update_of_le {map : Map} {b i : ℕ} (o : Option ℕ) {n : ℕ} (h : n ≤ i) :
    held (Function.update map i o) b n = held map b n := by
  induction n with
  | zero => rfl
  | succ n ih =>
    simp only [held]
    rw [ih (by omega), Function.update_of_ne (by omega)]

theorem held_update {map : Map} {i : ℕ} (c b : ℕ) (hi : map i = none) {n : ℕ} (h : i < n) :
    held (Function.update map i (some c)) b n = held map b n + if c = b then 1 else 0 := by
  induction n with
  | zero => omega
  | succ n ih =>
    simp only [held]
    rcases Nat.lt_succ_iff_lt_or_eq.mp h with hlt | rfl
    · rw [ih hlt, Function.update_of_ne (by omega)]
      omega
    · rw [held_update_of_le _ (le_refl i), Function.update_self, hi]
      simp

theorem held_empty (b n : ℕ) : held (fun _ => none) b n = 0 := by
  induction n with
  | zero => rfl
  | succ n ih => simp [held, ih]

theorem brelse_done {s : Buffers} {o : Option ℕ} (h : ∀ b, o = some b → 0 < s.count b) :
    ∃ s', brelse s o = .done s' ∧ (∀ b, s'.count b + (if o = some b then 1 else 0) = s.count b) ∧
      s'.data = s.data ∧ s'.hashed = s.hashed := by
  cases o with
  | none => exact ⟨s, rfl, by simp, rfl, rfl⟩
  | some c =>
    have hc := h c rfl
    refine ⟨{ s with count := Function.update s.count c (s.count c - 1) }, ?_, ?_, rfl, rfl⟩
    · unfold brelse
      exact if_neg (by omega)
    · intro b
      by_cases hb : b = c
      · subst hb
        simp only [Function.update_self, if_true]
        omega
      · have hne : ¬ (some c = some b) := fun he => hb (Option.some.inj he).symm
        simp only [Function.update_of_ne hb, if_neg hne, Nat.add_zero]

theorem releaseMap_done (map : Map) (n : ℕ) (s : Buffers) (h : ∀ b, held map b n ≤ s.count b) :
    ∃ s', releaseMap map n s = .done s' ∧ ∀ b, s'.count b + held map b n = s.count b := by
  induction n with
  | zero => exact ⟨s, rfl, fun b => rfl⟩
  | succ n ih =>
    simp only [held] at h
    obtain ⟨s₁, hs₁, hc₁⟩ := ih fun b => by have := h b; omega
    obtain ⟨s₂, hs₂, hc₂, -⟩ := brelse_done (s := s₁) (o := map n) fun b hb => by
      have h1 := h b
      have h2 := hc₁ b
      rw [if_pos hb] at h1
      omega
    refine ⟨s₂, ?_, fun b => ?_⟩
    · simp only [releaseMap, hs₁, Result.bind_done, hs₂]
    · have h1 := hc₁ b
      have h2 := hc₂ b
      simp only [held]
      omega

/-- What has been loaded after `k` reads: `k` slots, each with a reference. -/
structure Loaded (left i block k : ℕ) (map map' : Map) (s s' : Buffers) : Prop where
  le : k ≤ left
  filled : ∀ j, i ≤ j → j < i + k → (map' j).isSome
  empty : ∀ j, i + k ≤ j → map' j = none
  counted : ∀ b, s'.count b + held map b MAP_SLOTS = s.count b + held map' b MAP_SLOTS
  hashed : ∀ b, block + left ≤ b → s'.hashed b = s.hashed b
  below : ∀ j, j < i → map' j = map j

theorem loadMap_done {reads : ℕ → Bool} {left i block : ℕ} {map : Map} {s : Buffers}
    (hnone : ∀ j, i ≤ j → map j = none) (hfits : i + left ≤ MAP_SLOTS) :
    ∃ k map' s', loadMap reads left i block map s = .done (block + k, map', s') ∧
      Loaded left i block k map map' s s' ∧ ((∀ b, reads b = true) → k = left) := by
  induction left generalizing i block map s with
  | zero =>
    refine ⟨0, map, s, rfl, ⟨le_refl 0, ?_, ?_, fun b => rfl, fun b _ => rfl, fun j _ => rfl⟩, fun _ => rfl⟩
    · intro j h1 h2
      omega
    · intro j hj
      exact hnone j (by omega)
  | succ left ih =>
    have hi : i < MAP_SLOTS := by omega
    by_cases hread : reads block = true
    · have hnone' : ∀ j, i + 1 ≤ j → Function.update map i (some block) j = none := by
        intro j hj
        rw [Function.update_of_ne (by omega)]
        exact hnone j (by omega)
      obtain ⟨k, map', s', hload, hl, hall⟩ :=
        @ih (i + 1) (block + 1) _ (s.hold block) hnone' (by omega)
      refine ⟨k + 1, map', s', ?_, ⟨by have := hl.le; omega, ?_, ?_, ?_, ?_, ?_⟩, fun h => by rw [hall h]⟩
      · simp only [loadMap, hread, if_true, store, if_pos hi, Result.bind_done, hload]
        congr 2
        omega
      · intro j h1 h2
        rcases Nat.eq_or_lt_of_le h1 with rfl | h1
        · rw [hl.below i (by omega), Function.update_self]
          rfl
        · exact hl.filled j h1 (by omega)
      · intro j hj
        exact hl.empty j (by omega)
      · intro b
        have h1 := hl.counted b
        have h2 := held_update block b (hnone i (le_refl i)) hi
        have h3 : (s.hold block).count b = s.count b + if block = b then 1 else 0 := by
          by_cases hb : block = b
          · subst hb
            simp [Buffers.hold]
          · simp [Buffers.hold, hb, Function.update_of_ne (Ne.symm hb)]
        omega
      · intro b hb
        rw [hl.hashed b (by omega)]
        exact Function.update_of_ne (by omega) ..
      · intro j hj
        rw [hl.below j (by omega), Function.update_of_ne (by omega)]
    · have hsame : Function.update map i none = map := by
        rw [← hnone i (le_refl i), Function.update_eq_self]
      refine ⟨0, map, s, ?_, ⟨Nat.zero_le _, ?_, ?_, fun b => rfl, fun b _ => rfl, fun j _ => rfl⟩,
        fun h => absurd (h block) hread⟩
      · simp only [loadMap, if_neg hread, store, if_pos hi, Result.bind_done, hsame]
        rfl
      · intro j h1 h2
        omega
      · intro j hj
        exact hnone j (by omega)

/-- `loadMap` from the first slot on. -/
theorem loadMap_start (reads : ℕ → Bool) {left : ℕ} (block : ℕ) (s : Buffers)
    (hfits : left ≤ MAP_SLOTS) :
    ∃ k map' s', loadMap reads left 0 block (fun _ => none) s = .done (block + k, map', s') ∧
      Loaded left 0 block k (fun _ => none) map' s s' ∧ ((∀ b, reads b = true) → k = left) :=
  loadMap_done (fun _ _ => rfl) (by omega)

/-- With too many blocks a slot behind the eighth is written. -/
theorem loadMap_fault {left i block : ℕ} (map : Map) (s : Buffers) (hi : i ≤ MAP_SLOTS)
    (hbig : MAP_SLOTS < i + left) : loadMap (fun _ => true) left i block map s = .fault := by
  induction left generalizing i block map s with
  | zero => omega
  | succ left ih =>
    rcases Nat.eq_or_lt_of_le hi with rfl | hlt
    · simp only [loadMap, if_true, store, if_neg (lt_irrefl _), Result.bind_fault]
    · simp only [loadMap, if_true, store, if_pos hlt, Result.bind_done]
      exact ih _ _ (by omega) (by omega)

/-- The maps of a device that has been accepted. -/
structure Accepted (img : Image) (sb : Super) : Prop where
  same : sb.img = img
  imap : ∀ j, (sb.imap j).isSome ↔ j < img.imapBlocks.toNat
  zmap : ∀ j, (sb.zmap j).isSome ↔ j < img.zmapBlocks.toNat

theorem Loaded.isSome {left block k : ℕ} {map map' : Map} {s s' : Buffers}
    (h : Loaded left 0 block k map map' s s') (hk : k = left) (j : ℕ) :
    (map' j).isSome ↔ j < left := by
  constructor
  · intro hsome
    by_contra hj
    rw [h.empty j (by omega)] at hsome
    exact absurd hsome (by simp)
  · intro hj
    exact h.filled j (Nat.zero_le j) (by omega)

theorem fetch_done {map : Map} {i : ℕ} (hi : i < MAP_SLOTS) (h : (map i).isSome) :
    ∃ b, fetch map i = .done b := by
  obtain ⟨b, hb⟩ := Option.isSome_iff_exists.mp h
  exact ⟨b, by simp [fetch, hi, hb]⟩

theorem fetch_fault {map : Map} {i : ℕ} (h : map i = none) : fetch map i = .fault := by
  unfold fetch
  rw [h]
  split <;> rfl

theorem hold_brelse (s : Buffers) (b : ℕ) : ∃ s', brelse (s.hold b) (some b) = .done s' ∧
    s'.count = s.count ∧ ∀ c, c ≠ b → s'.hashed c = s.hashed c := by
  obtain ⟨s', hs', hc, -, hh⟩ := brelse_done (s := s.hold b) (o := some b) fun c hc => by
    obtain rfl := Option.some.inj hc
    simp [Buffers.hold]
  refine ⟨s', hs', funext fun c => ?_, fun c hne => ?_⟩
  · have := hc c
    by_cases hb : c = b
    · subst hb
      simpa [Buffers.hold] using this
    · simpa [Buffers.hold, Function.update_of_ne hb, Ne.symm hb] using this
  · rw [hh]
    exact Function.update_of_ne hne ..

/-- With map sizes from one to eight, the image is rejected without a trace or accepted. -/
theorem readSuper_done {img : Image} (hi : 1 ≤ img.imapBlocks.toNat ∧ img.imapBlocks.toNat ≤ MAP_SLOTS)
    (hz : 1 ≤ img.zmapBlocks.toNat ∧ img.zmapBlocks.toNat ≤ MAP_SLOTS) (reads : ℕ → Bool)
    (s : Buffers) :
    (∃ s', readSuper img reads s = .done (none, s') ∧ s'.count = s.count ∧
      ((∀ b, reads b = true) → img.magic.toNat ≠ SUPER_MAGIC)) ∨
    ∃ sb s', readSuper img reads s = .done (some sb, s') ∧ Accepted img sb ∧
      ∀ b, 2 + img.imapBlocks.toNat + img.zmapBlocks.toNat ≤ b → s'.hashed b = s.hashed b := by
  unfold readSuper
  by_cases h1 : reads 1 = false
  · left
    rw [if_pos h1]
    exact ⟨s, rfl, rfl, fun h => absurd (h 1) (by simp [h1])⟩
  · rw [if_neg h1]
    obtain ⟨s₁, hs₁, hc₁, hh₁⟩ := hold_brelse s 1
    rw [hs₁, Result.bind_done]
    by_cases hm : img.magic.toNat ≠ SUPER_MAGIC
    · left
      rw [if_pos hm]
      exact ⟨s₁, rfl, hc₁, fun _ => hm⟩
    · rw [if_neg hm]
      obtain ⟨k, imap, s₂, hload, hl, hall⟩ := loadMap_start reads 2 s₁ hi.2
      obtain ⟨k', zmap, s₃, hload', hl', hall'⟩ := loadMap_start reads (2 + k) s₂ hz.2
      rw [hload, Result.bind_done]
      simp only
      rw [hload', Result.bind_done]
      simp only
      have hle := hl.le
      have hle' := hl'.le
      split
      · next hne =>
        left
        have hcount : ∀ b, s₃.count b = s₁.count b + held imap b MAP_SLOTS + held zmap b MAP_SLOTS := by
          intro b
          have h2 := hl.counted b
          have h3 := hl'.counted b
          rw [held_empty] at h2 h3
          omega
        obtain ⟨s₄, hs₄, hc₄⟩ := releaseMap_done imap MAP_SLOTS s₃
          fun b => by have := hcount b; omega
        obtain ⟨s₅, hs₅, hc₅⟩ := releaseMap_done zmap MAP_SLOTS s₄
          fun b => by have := hcount b; have := hc₄ b; omega
        rw [hs₄, Result.bind_done, hs₅, Result.bind_done]
        refine ⟨s₅, rfl, funext fun b => ?_, fun h => ?_⟩
        · have h2 := hcount b
          have h3 := hc₄ b
          have h4 := hc₅ b
          rw [← hc₁]
          omega
        · rw [hall h, hall' h] at hne
          exact absurd rfl hne
      · next heq =>
        right
        simp only [ne_eq, Decidable.not_not] at heq
        have hk : k = img.imapBlocks.toNat := by omega
        have hk' : k' = img.zmapBlocks.toNat := by omega
        have hi' := hl.isSome hk
        have hz' := hl'.isSome hk'
        obtain ⟨b, hb⟩ : ∃ b, fetch imap 0 = .done b :=
          fetch_done (by decide) ((hi' 0).mpr (by omega))
        obtain ⟨b', hb'⟩ : ∃ b, fetch zmap 0 = .done b :=
          fetch_done (by decide) ((hz' 0).mpr (by omega))
        rw [hb, Result.bind_done, hb', Result.bind_done]
        refine ⟨_, _, rfl, ⟨rfl, hi', hz'⟩, fun c hc => ?_⟩
        change s₃.hashed c = s.hashed c
        rw [hl'.hashed c (by omega), hl.hashed c (by omega), hh₁ c (by omega)]

/-- An image whose maps do not have one to eight blocks, when all reads succeed. -/
theorem readSuper_fault {img : Image} (hmagic : img.magic.toNat = SUPER_MAGIC) (s : Buffers)
    (h : readSuper img (fun _ => true) s ≠ .fault) :
    (1 ≤ img.imapBlocks.toNat ∧ img.imapBlocks.toNat ≤ MAP_SLOTS) ∧
      1 ≤ img.zmapBlocks.toNat ∧ img.zmapBlocks.toNat ≤ MAP_SLOTS := by
  obtain ⟨s₁, hs₁, -, -⟩ := hold_brelse s 1
  unfold readSuper at h
  rw [if_neg (by simp), hs₁, Result.bind_done, if_neg (by simpa using hmagic)] at h
  by_cases hi : img.imapBlocks.toNat ≤ MAP_SLOTS
  case neg =>
    rw [loadMap_fault _ _ (Nat.zero_le _) (by omega)] at h
    exact absurd rfl h
  obtain ⟨k, imap, s₂, hload, hl, hall⟩ := loadMap_start (fun _ => true) 2 s₁ hi
  rw [hload, Result.bind_done] at h
  simp only at h
  by_cases hz : img.zmapBlocks.toNat ≤ MAP_SLOTS
  case neg =>
    rw [loadMap_fault _ _ (Nat.zero_le _) (by omega)] at h
    exact absurd rfl h
  obtain ⟨k', zmap, s₃, hload', hl', hall'⟩ := loadMap_start (fun _ => true) (2 + k) s₂ hz
  rw [hload', Result.bind_done] at h
  simp only at h
  have hk := hall fun _ => rfl
  have hk' := hall' fun _ => rfl
  rw [if_neg (by omega)] at h
  refine ⟨⟨?_, hi⟩, ?_, hz⟩
  · by_contra h0
    rw [fetch_fault (hl.empty 0 (by omega))] at h
    exact h rfl
  · by_contra h0
    rw [fetch_fault (hl'.empty 0 (by omega))] at h
    cases hb : fetch imap 0 with
    | done b => rw [hb] at h; exact h rfl
    | panic =>
      unfold fetch at hb
      split at hb
      · split at hb <;> exact absurd hb (by simp)
      · exact absurd hb (by simp)
    | fault => rw [hb] at h; exact h rfl

/-! ### Work on the device -/

section Device
variable {img : Image} {sb : Super} {s : Buffers}

theorem countFree_done {map : Map} {n blocks : ℕ} (hmap : ∀ j, (map j).isSome ↔ j < blocks)
    (hb : blocks ≤ MAP_SLOTS) (hn : n ≤ 8192 * blocks) :
    ∃ free, countFree map s n = .done free := by
  induction n with
  | zero => exact ⟨0, rfl⟩
  | succ n ih =>
    obtain ⟨free, hfree⟩ := ih (by omega)
    have hlt : n / 8192 < blocks := by omega
    obtain ⟨b, hb'⟩ : ∃ b, fetch map (n / 8192) = .done b :=
      fetch_done (by omega) ((hmap _).mpr hlt)
    simp only [countFree, hb', hfree, Result.bind_done]
    exact ⟨_, rfl⟩

theorem countFree_fault {map : Map} {n blocks : ℕ} (hmap : ∀ j, (map j).isSome ↔ j < blocks)
    (hn : 8192 * blocks < n) : countFree map s n = .fault := by
  obtain ⟨m, rfl⟩ : ∃ m, n = m + 1 := ⟨n - 1, by omega⟩
  have hnone : map (m / 8192) = none := by
    rw [← Option.not_isSome_iff_eq_none, hmap]
    omega
  simp only [countFree, fetch_fault hnone, Result.bind_fault]

theorem bind_ne_fault {α β : Type} {r : Result α} {f : α → Result β} (hr : r ≠ .fault)
    (hf : ∀ a, r = .done a → f a ≠ .fault) : r.bind f ≠ .fault := by
  cases r with
  | done a => exact hf a rfl
  | panic => exact fun h => nomatch h
  | fault => exact absurd rfl hr

theorem brelse_ne_fault (s : Buffers) (o : Option ℕ) : brelse s o ≠ .fault := by
  unfold brelse
  split
  · exact fun h => nomatch h
  · split <;> exact fun h => nomatch h

theorem newBlock_ne_fault (sb : Super) (s : Buffers) : newBlock sb s ≠ .fault := by
  unfold newBlock
  simp only
  split
  · exact fun h => nomatch h
  · split_ifs
    · exact fun h => nomatch h
    · exact fun h => nomatch h
    · exact fun h => nomatch h
    · exact fun h => nomatch h
    · exact bind_ne_fault (brelse_ne_fault _ _) fun _ _ h => nomatch h

theorem newInode_ne_fault (sb : Super) (s : Buffers) : newInode sb s ≠ .fault := by
  unfold newInode
  simp only
  split
  · exact fun h => nomatch h
  · split_ifs <;> exact fun h => nomatch h

/-- An inode number has 16 bits. -/
theorem freeInode_ne_fault (sb : Super) (s : Buffers) (num : UInt16) : freeInode sb s num ≠ .fault := by
  have hnum := num.toNat_lt
  unfold freeInode
  split
  · exact fun h => nomatch h
  · rw [if_pos (by unfold MAP_SLOTS; omega)]
    split <;> exact fun h => nomatch h

theorem freeBlock_ne_fault (ha : Accepted img sb) (hf : img.Fits) (s : Buffers) (block : ℤ) :
    freeBlock sb s block ≠ .fault := by
  obtain ⟨rfl, -, hmap⟩ := ha
  unfold freeBlock
  simp only
  split_ifs with hrange
  · exact fun h => nomatch h
  · exact fun h => nomatch h
  all_goals
    refine bind_ne_fault (by first | exact brelse_ne_fault _ _ | exact fun h => nomatch h) fun s' _ => ?_
    have hzones := hf.zones
    have hoffset := hf.offset
    have hz := hf.zmap
    have hbit : (block - (sb.img.firstdatazone.toNat - 1)).toNat / 8192 < sb.img.zmapBlocks.toNat := by
      omega
    obtain ⟨b, hb⟩ := fetch_done (by omega) ((hmap _).mpr hbit)
    rw [hb, Result.bind_done]
    split <;> exact fun h => nomatch h

theorem run_ne_fault (ha : Accepted img sb) (hf : img.Fits) (s : Buffers) (op : Op) :
    run sb s op ≠ .fault := by
  cases op with
  | newBlock => exact bind_ne_fault (newBlock_ne_fault sb s) fun _ _ h => nomatch h
  | freeBlock block => exact freeBlock_ne_fault ha hf s block
  | newInode => exact bind_ne_fault (newInode_ne_fault sb s) fun _ _ h => nomatch h
  | freeInode num => exact freeInode_ne_fault sb s num

theorem runs_ne_fault (ha : Accepted img sb) (hf : img.Fits) (s : Buffers) (ops : List Op) :
    runs sb s ops ≠ .fault := by
  induction ops generalizing s with
  | nil => exact fun h => nomatch h
  | cons op ops ih => exact bind_ne_fault (run_ne_fault ha hf s op) fun s' _ => ih s'

theorem mountRoot_ne_fault (ha : Accepted img sb) (hf : img.Fits) (s : Buffers) :
    mountRoot sb s ≠ .fault := by
  obtain ⟨rfl, hi, hz⟩ := ha
  obtain ⟨blocks, hblocks⟩ := countFree_done (s := s) hz hf.zmap.2 hf.zones
  obtain ⟨inodes, hinodes⟩ := countFree_done (s := s) hi hf.imap.2 hf.inodes
  unfold mountRoot
  rw [hblocks, Result.bind_done, hinodes, Result.bind_done]
  exact fun h => nomatch h

/-- The last zone of a device without an offset, when its bit is behind the map. -/
theorem freeBlock_fault (ha : Accepted img sb) (hh : s.hashed (img.nzones.toNat - 1) = false)
    (h0 : img.firstdatazone.toNat = 0) (hz : 0 < img.nzones.toNat)
    (hbit : 8192 * img.zmapBlocks.toNat ≤ img.nzones.toNat) :
    freeBlock sb s (img.nzones.toNat - 1) = .fault := by
  obtain ⟨rfl, -, hmap⟩ := ha
  have hn : ((sb.img.nzones.toNat : ℤ) - 1).toNat = sb.img.nzones.toNat - 1 := by omega
  have hnone : sb.zmap (sb.img.nzones.toNat / 8192) = none := by
    rw [← Option.not_isSome_iff_eq_none, hmap]
    omega
  have hidx : ((sb.img.nzones.toNat : ℤ) - 1 - (sb.img.firstdatazone.toNat - 1)).toNat =
      sb.img.nzones.toNat := by omega
  unfold freeBlock
  simp only [hn, hh, hidx]
  rw [if_neg (by omega), if_neg (by simp), if_neg (by simp), Result.bind_done, fetch_fault hnone,
    Result.bind_fault]

end Device

/-- Buffers that nobody has asked for yet. -/
def noBuffers : Buffers := ⟨fun _ _ => true, fun _ => 0, fun _ => false⟩

theorem Image.Fits.robust {img : Image} (h : img.Fits) : Robust img := by
  intro reads s
  rcases readSuper_done h.imap h.zmap reads s with ⟨s₁, hs₁, hc, -⟩ | ⟨sb, s₁, hs₁, ha, -⟩
  · rw [hs₁]
    refine ⟨(fun h => nomatch h), fun s' hs' => ?_, fun sb s' hs' => ?_⟩
    · cases hs'
      exact hc
    · cases hs'
  · rw [hs₁]
    refine ⟨(fun h => nomatch h), fun s' hs' => ?_, fun sb' s' hs' => ?_⟩
    · cases hs'
    · cases hs'
      exact ⟨mountRoot_ne_fault ha h s₁, runs_ne_fault ha h s₁⟩

theorem Robust.fits {img : Image} (hmagic : img.magic.toNat = SUPER_MAGIC) (h : Robust img) :
    img.Fits := by
  obtain ⟨hread, -, hwork⟩ := h (fun _ => true) noBuffers
  obtain ⟨hi, hz⟩ := readSuper_fault hmagic noBuffers hread
  rcases readSuper_done hi hz (fun _ => true) noBuffers with ⟨s₁, -, -, hno⟩ | ⟨sb, s₁, hs₁, ha, hh⟩
  · exact absurd hmagic (hno fun _ => rfl)
  obtain ⟨hmount, hruns⟩ := hwork sb s₁ hs₁
  have hsame := ha.same
  unfold mountRoot at hmount
  rw [hsame] at hmount
  have hzones : img.nzones.toNat ≤ 8192 * img.zmapBlocks.toNat := by
    by_contra hbig
    rw [countFree_fault ha.zmap (by omega)] at hmount
    exact hmount rfl
  have hinodes : img.ninodes.toNat < 8192 * img.imapBlocks.toNat := by
    by_contra hbig
    rw [countFree_fault ha.imap (by omega)] at hmount
    obtain ⟨blocks, hblocks⟩ := countFree_done (s := s₁) ha.zmap hz.2 hzones
    rw [hblocks] at hmount
    exact hmount rfl
  refine ⟨hi, hz, hinodes, hzones, fun h0 => ?_⟩
  by_contra hbig
  have hfree := freeBlock_fault (s := s₁) ha
    (by rw [hh _ (by unfold MAP_SLOTS at hi hz; omega)]; rfl) h0 (by omega) (by omega)
  apply hruns [.freeBlock (img.nzones.toNat - 1)]
  simp only [runs, run, hfree, Result.bind_fault]

/-- Mounting an image and working on it never leaves the maps, if and only if its maps have one to
    eight blocks and reach as far as its counts. -/
theorem read_super_robust {img : Image} (hmagic : img.magic.toNat = SUPER_MAGIC) :
    Robust img ↔ img.Fits :=
  ⟨fun h => h.fits hmagic, fun h => h.robust⟩

/-- A floppy disk with one block of each map. -/
def floppy : Image := ⟨480, 1440, 1, 1, 19, 0x137f⟩

theorem read_super_robust_floppy : Robust floppy :=
  (read_super_robust (by decide)).mpr ⟨by decide, by decide, by decide, by decide, by decide⟩

/-- Nine blocks of inode map: the ninth is stored behind `s_imap`. -/
def nineMaps : Image := ⟨480, 1440, 9, 1, 19, 0x137f⟩

theorem nine_maps_fault : nineMaps.magic.toNat = SUPER_MAGIC ∧
    readSuper nineMaps (fun _ => true) noBuffers = .fault ∧ ¬ Robust nineMaps := by
  have hfault : readSuper nineMaps (fun _ => true) noBuffers = .fault := by
    by_contra h
    have := (readSuper_fault (by decide) noBuffers h).1.2
    exact absurd this (by decide)
  exact ⟨by decide, hfault, fun h => (h (fun _ => true) noBuffers).1 hfault⟩

end Linux011.SuperImages
