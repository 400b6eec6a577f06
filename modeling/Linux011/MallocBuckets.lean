import Linux011.Malloc

set_option autoImplicit false

/-!
# What the allocator's words say

`Holds` reads the words of `lib/malloc.c` back as a shape: the descriptors of every size, the
free descriptors and the pages of descriptors, with the objects handed out.
-/
namespace Linux011.Malloc
open Memory Chains

section
variable {m : Mm} {a b d v : ℕ}

theorem word_setWord (ha : a % 4 = 0) (hb : b % 4 = 0) :
    word (setWord m a v) b = if b = a then v else word m b := by
  unfold word setWord
  by_cases hpage : b / 4096 = a / 4096
  · rw [hpage, Mm.write_mem_self]
    exact if_congr ⟨fun h => by omega, fun h => by rw [h]⟩ rfl rfl
  · rw [Mm.write_mem_ne _ _ _ _ hpage, if_neg (fun h => hpage (by rw [h]))]

theorem word_setWord_ne (ha : a % 4 = 0) (hb : b % 4 = 0) (h : b ≠ a) :
    word (setWord m a v) b = word m b := by
  rw [word_setWord ha hb, if_neg h]

@[simp] theorem word_setWord_self (ha : a % 4 = 0) : word (setWord m a v) a = v := by
  rw [word_setWord ha ha, if_pos rfl]

@[simp] theorem setWord_memMap : (setWord m a v).memMap = m.memMap := rfl
@[simp] theorem setWord_high : (setWord m a v).highMemory = m.highMemory := rfl

theorem refcnt_setRefcnt (hd : d % 16 = 0) : refcnt (setRefcnt m d v) d = v % 65536 := by
  unfold refcnt setRefcnt
  rw [word_setWord_self (by omega)]
  omega

end

/-- The words of `m` and `m'` that are not in `S` are the same, and so is everything else. -/
structure Except (S : ℕ → Prop) (m m' : Mm) : Prop where
  word : ∀ a, a % 4 = 0 → ¬ S a → word m' a = word m a
  memMap : m'.memMap = m.memMap
  high : m'.highMemory = m.highMemory

section
variable {m m₁ m₂ : Mm} {S T : ℕ → Prop}

theorem Except.refl : Except S m m := ⟨fun _ _ _ => rfl, rfl, rfl⟩

theorem Except.trans (h : Except S m m₁) (h' : Except S m₁ m₂) : Except S m m₂ :=
  ⟨fun a ha hS => (h'.word a ha hS).trans (h.word a ha hS), h'.memMap.trans h.memMap,
    h'.high.trans h.high⟩

theorem Except.mono (h : Except S m m₁) (hST : ∀ a, S a → T a) : Except T m m₁ :=
  ⟨fun a ha hT => h.word a ha fun hS => hT (hST a hS), h.memMap, h.high⟩

theorem Except.set {a v : ℕ} (ha : a % 4 = 0) (hS : S a) : Except S m (setWord m a v) :=
  ⟨fun _ hb hSb => word_setWord_ne ha hb (fun h => hSb (h ▸ hS)), rfl, rfl⟩

end

theorem linkUp_spec (step off n a : ℕ) (m : Mm) (ha : a % 4 = 0) (hstep : step % 4 = 0)
    (hoff : off % 4 = 0) (hpos : 0 < step) :
    (linkUp step off n a m).2 = a + n * step ∧
    Except (fun b => ∃ j < n, b = a + j * step + off) m (linkUp step off n a m).1 ∧
    ∀ j < n, word (linkUp step off n a m).1 (a + j * step + off) = a + (j + 1) * step := by
  induction n generalizing a m with
  | zero => exact ⟨by simp [linkUp], Except.refl, fun j hj => by omega⟩
  | succ n ih =>
    obtain ⟨hlast, hexcept, hlinks⟩ := ih (a + step) (setWord m (a + off) (a + step)) (by omega)
    have hshift : ∀ j, a + step + j * step = a + (j + 1) * step := fun j => by
      rw [Nat.succ_mul]
      omega
    refine ⟨by rw [linkUp, hlast, hshift], ?_, fun j hj => ?_⟩
    · refine (Except.set (by omega) ⟨0, by omega, by simp⟩).trans (hexcept.mono ?_)
      rintro b ⟨j, hj, rfl⟩
      exact ⟨j + 1, by omega, by rw [hshift]⟩
    · cases j with
      | zero =>
        -- the later turns write further up
        rw [linkUp, hexcept.word _ (by omega)]
        · rw [show a + 0 * step + off = a + off by omega, word_setWord_self (by omega)]
          omega
        · rintro ⟨j, hj, heq⟩
          rw [hshift] at heq
          have : step ≤ (j + 1) * step := Nat.le_mul_of_pos_left _ (Nat.succ_pos j)
          omega
      | succ j =>
        rw [linkUp, ← hshift, hlinks j (by omega), hshift]

/-! The sizes of `bucket_dir`. -/

theorem bucketSize_cases {i : ℕ} (hi : i < 9) : bucketSize i = 16 ∨ bucketSize i = 32 ∨
    bucketSize i = 64 ∨ bucketSize i = 128 ∨ bucketSize i = 256 ∨ bucketSize i = 512 ∨
    bucketSize i = 1024 ∨ bucketSize i = 2048 ∨ bucketSize i = 4096 := by
  interval_cases i <;> simp [bucketSize, bucketSizes]

theorem bucketSize_pos {i : ℕ} (hi : i < 9) : 16 ≤ bucketSize i ∧ bucketSize i ≤ 4096 := by
  have := bucketSize_cases hi
  omega

theorem bucketSize_mod {i : ℕ} (hi : i < 9) : bucketSize i % 16 = 0 ∧ 4096 % bucketSize i = 0 := by
  obtain h | h | h | h | h | h | h | h | h := bucketSize_cases hi <;> simp [h]

theorem bucketFor_get {len i j : ℕ} {sizes : List ℕ} (h : bucketFor len sizes j = some i) :
    j ≤ i ∧ i < j + sizes.length ∧ len ≤ sizes.getD (i - j) 0 ∧ sizes.getD (i - j) 0 ≠ 0 := by
  induction sizes generalizing j with
  | nil => simp [bucketFor] at h
  | cons size sizes ih =>
    simp only [bucketFor] at h
    split_ifs at h with hzero hlen
    · injection h with h
      subst h
      simp [hlen, hzero]
    · obtain ⟨hj, hi, hle, hne⟩ := ih h
      have hsub : i - j = i - (j + 1) + 1 := by omega
      rw [hsub, List.getD_cons_succ, List.length_cons]
      exact ⟨by omega, by omega, hle, hne⟩

theorem bucketFor_some {len i : ℕ} (h : bucketFor len bucketSizes 0 = some i) :
    i < 9 ∧ len ≤ bucketSize i := by
  obtain ⟨-, hi, hle, hne⟩ := bucketFor_get h
  have hten : bucketSizes.length = 10 := rfl
  have hlast : i ≠ 9 := by
    rintro rfl
    exact hne rfl
  exact ⟨by omega, hle⟩

theorem bucketFor_isSome {len size j : ℕ} (before : List ℕ) {after : List ℕ} (hb : ∀ s ∈ before, s ≠ 0)
    (hsize : size ≠ 0) (h : len ≤ size) :
    ∃ i, bucketFor len (before ++ size :: after) j = some i := by
  induction before generalizing j with
  | nil => exact ⟨j, by simp [bucketFor, hsize, h]⟩
  | cons s before ih =>
    simp only [List.cons_append, bucketFor, if_neg (hb s List.mem_cons_self)]
    split_ifs with hlen
    · exact ⟨j, rfl⟩
    · exact ih fun t ht => hb t (List.mem_cons_of_mem _ ht)

theorem bucketFor_upto {len : ℕ} (h : len ≤ 4096) : ∃ i, bucketFor len bucketSizes 0 = some i :=
  bucketFor_isSome [16, 32, 64, 128, 256, 512, 1024, 2048] (by simp) (by simp) h

/-- The objects of a page that are handed out. -/
def liveIn (live : ℕ → Option ℕ) (pg : ℕ) : Finset ℕ :=
  (Finset.range 4096).filter fun o => live (pg + o) ≠ none

theorem mem_liveIn {live : ℕ → Option ℕ} {pg o : ℕ} :
    o ∈ liveIn live pg ↔ o < 4096 ∧ live (pg + o) ≠ none := by
  rw [liveIn, Finset.mem_filter, Finset.mem_range]

theorem liveIn_le (live : ℕ → Option ℕ) (pg : ℕ) : (liveIn live pg).card ≤ 4096 :=
  (Finset.card_filter_le _ _).trans (Finset.card_range 4096).le

theorem liveIn_insert {live : ℕ → Option ℕ} {x : ℕ} (hx : live x = none) (len : ℕ) :
    (liveIn (Function.update live x (some len)) (x - x % 4096)).card =
      (liveIn live (x - x % 4096)).card + 1 := by
  have hsplit : x - x % 4096 + x % 4096 = x := by omega
  have heq : liveIn (Function.update live x (some len)) (x - x % 4096) =
      insert (x % 4096) (liveIn live (x - x % 4096)) := by
    ext o
    rw [Finset.mem_insert, mem_liveIn, mem_liveIn, Function.update_apply]
    split_ifs with ho
    · simp only [ne_eq, reduceCtorEq, not_false_eq_true, and_true]
      omega
    · constructor
      · exact .inr
      · rintro (rfl | h)
        · exact absurd hsplit ho
        · exact h
  rw [heq, Finset.card_insert_of_notMem]
  rw [mem_liveIn, hsplit]
  exact fun h => h.2 hx

theorem liveIn_erase {live : ℕ → Option ℕ} {x : ℕ} (hx : live x ≠ none) :
    (liveIn (Function.update live x none) (x - x % 4096)).card + 1 =
      (liveIn live (x - x % 4096)).card := by
  obtain ⟨len, hlen⟩ := Option.ne_none_iff_exists'.1 hx
  have h := liveIn_insert (show Function.update live x none x = none from Function.update_self _ _ _) len
  rw [Function.update_idem, ← hlen, Function.update_eq_self] at h
  exact h.symm

theorem liveIn_other {live : ℕ → Option ℕ} {x pg : ℕ} {v : Option ℕ} (hpg : pg % 4096 = 0)
    (hx : x - x % 4096 ≠ pg) : liveIn (Function.update live x v) pg = liveIn live pg := by
  ext o
  rw [mem_liveIn, mem_liveIn]
  refine and_congr_right fun ho => ?_
  rw [Function.update_of_ne (by omega)]

/-- Which descriptors there are. -/
structure Shape where
  descs : ℕ → List ℕ
  frees : List ℕ
  slots : ℕ → Prop

def Shape.In (S : Shape) (i d : ℕ) : Prop := i < 9 ∧ d ∈ S.descs i

/-- A page of objects of one size: its free objects are those of `l`. -/
structure Bucket (m : Mm) (live : ℕ → Option ℕ) (i d : ℕ) (l : List ℕ) : Prop where
  aligned : page m d % 4096 = 0
  objs : Chain 0 (word m) (freeptr m d) l
  mem_objs : ∀ a, a ∈ l ↔ a - a % 4096 = page m d ∧ a % bucketSize i = 0 ∧ live a = none
  count : refcnt m d = (liveIn live (page m d)).card

structure Holds (S : Shape) (k : Kernel) (live : ℕ → Option ℕ) (held : ℕ → Prop) : Prop where
  chain : ∀ i < 9, Chain 0 (next k.mm) (k.chain i) (S.descs i)
  free : Chain 0 (next k.mm) k.freeBucketDesc S.frees
  apart : ∀ i j d, S.In i d → S.In j d → i = j
  apart_free : ∀ i d, S.In i d → d ∉ S.frees
  slot : ∀ d, (d ∈ S.frees ∨ ∃ i, S.In i d) ↔ d % 16 = 0 ∧ S.slots (d / 4096)
  page_inj : ∀ i j d e, S.In i d → S.In j e → page k.mm d = page k.mm e → d = e
  page_slot : ∀ i d, S.In i d → ¬ S.slots (page k.mm d / 4096)
  held_iff : ∀ f, held f ↔ S.slots f ∨ ∃ i d, S.In i d ∧ page k.mm d = f * 4096
  mapped : ∀ f, held f → LOW_MEM ≤ f ∧ f < LOW_MEM + PAGING_PAGES ∧ f < k.mm.highMemory ∧
    k.mm.memMap (mapNr f) = 1
  room : ∀ i < PAGING_PAGES, k.mm.memMap i = 0 → LOW_MEM + i < k.mm.highMemory
  bucket : ∀ i d, S.In i d → ∃ l, Bucket k.mm live i d l
  object : ∀ a len, live a = some len → ∃ i d, bucketFor len bucketSizes 0 = some i ∧
    S.In i d ∧ a - a % 4096 = page k.mm d ∧ a % bucketSize i = 0

section
variable {m m' : Mm} {live live' : ℕ → Option ℕ} {i d : ℕ} {l : List ℕ}

theorem Bucket.frame (h : Bucket m live i d l) (hpage : page m' d = page m d)
    (hfree : freeptr m' d = freeptr m d) (hcount : refcnt m' d = refcnt m d)
    (hobjs : ∀ a ∈ l, word m' a = word m a)
    (hlive : ∀ a, a - a % 4096 = page m d → live' a = live a) : Bucket m' live' i d l where
  aligned := by rw [hpage]; exact h.aligned
  objs := by rw [hfree]; exact h.objs.congr hobjs
  mem_objs a := by
    rw [hpage, h.mem_objs a]
    exact and_congr_right fun ha => by rw [hlive a ha]
  count := by
    have hsame : liveIn live' (page m d) = liveIn live (page m d) := by
      have := h.aligned
      ext o
      rw [mem_liveIn, mem_liveIn]
      exact and_congr_right fun ho => by rw [hlive _ (by omega)]
    rw [hpage, hcount, h.count, hsame]

end

section
variable {S : Shape} {k : Kernel} {live live' : ℕ → Option ℕ} {held : ℕ → Prop} {i d : ℕ}

theorem Holds.desc (h : Holds S k live held) (hd : S.In i d) : d % 16 = 0 ∧ S.slots (d / 4096) :=
  (h.slot d).1 (.inr ⟨i, hd⟩)

/-- The descriptors stay where they are while the objects of their pages change. -/
theorem Holds.rebucket (h : Holds S k live held) {m' : Mm}
    (hmapped : ∀ f, held f → f < m'.highMemory ∧ m'.memMap (mapNr f) = 1)
    (hroom : ∀ i < PAGING_PAGES, m'.memMap i = 0 → LOW_MEM + i < m'.highMemory)
    (hnext : ∀ d, d ∈ S.frees ∨ (∃ i, S.In i d) → next m' d = next k.mm d)
    (hpage : ∀ i d, S.In i d → page m' d = page k.mm d)
    (hbucket : ∀ i d, S.In i d → ∃ l, Bucket m' live' i d l)
    (hobject : ∀ a len, live' a = some len → ∃ i d,
      bucketFor len bucketSizes 0 = some i ∧ S.In i d ∧ a - a % 4096 = page k.mm d ∧
      a % bucketSize i = 0) :
    Holds S { k with mm := m' } live' held where
  chain i hi := (h.chain i hi).congr fun d hd => hnext d (.inr ⟨i, hi, hd⟩)
  free := h.free.congr fun d hd => hnext d (.inl hd)
  apart := h.apart
  apart_free := h.apart_free
  slot := h.slot
  page_inj i j d e hd he heq := h.page_inj i j d e hd he (by
    rw [← hpage i d hd, ← hpage j e he]
    exact heq)
  page_slot i d hd := by
    change ¬ S.slots (page m' d / 4096)
    rw [hpage i d hd]
    exact h.page_slot i d hd
  held_iff f := by
    rw [h.held_iff]
    refine or_congr_right ⟨?_, ?_⟩
    · rintro ⟨i, d, hd, hf⟩
      exact ⟨i, d, hd, (hpage i d hd).trans hf⟩
    · rintro ⟨i, d, hd, hf⟩
      exact ⟨i, d, hd, (hpage i d hd).symm.trans hf⟩
  mapped f hf := ⟨(h.mapped f hf).1, (h.mapped f hf).2.1, hmapped f hf⟩
  room := hroom
  bucket := hbucket
  object a len ha := by
    obtain ⟨i, d, hi, hd, hpg, hmod⟩ := hobject a len ha
    exact ⟨i, d, hi, hd, hpg.trans (hpage i d hd).symm, hmod⟩

end

end Linux011.Malloc
