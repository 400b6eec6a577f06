import Linux011.MallocSteps

set_option autoImplicit false

/-!
# Runs of the allocator

The callers ask for objects, store into them and give them back, and the rest of the kernel
uses the other pages of memory. What the allocator keeps in every run is proved call by call.
-/
namespace Linux011.Malloc
open Memory Chains

/-- The pages of the allocator after a call: those it had or found free, as far as they are
    still counted in `mem_map`. -/
def heldAfter (held : ℕ → Prop) (m m' : Mm) (f : ℕ) : Prop :=
  (held f ∨ m.memMap (mapNr f) = 0) ∧ m'.memMap (mapNr f) ≠ 0 ∧
    LOW_MEM ≤ f ∧ f < LOW_MEM + PAGING_PAGES

/-- Every page of objects has one that is handed out. -/
def Busy (S : Shape) (k : Kernel) (live : ℕ → Option ℕ) : Prop :=
  ∀ i d, S.In i d → (liveIn live (page k.mm d)).Nonempty

/-- Two multiples of `size` with less than `size` between them are the same. -/
theorem eq_of_mod {q a size : ℕ} (hq : q % size = 0) (ha : a % size = 0) (hle : q ≤ a)
    (hlt : a < q + size) : a = q := by
  have hsub : (a - q) % size = 0 := Nat.mod_eq_zero_of_dvd
    (Nat.dvd_sub (Nat.dvd_of_mod_eq_zero ha) (Nat.dvd_of_mod_eq_zero hq))
  rw [Nat.mod_eq_of_lt (by omega)] at hsub
  omega

section
variable {S : Shape} {k : Kernel} {live : ℕ → Option ℕ} {held : ℕ → Prop} {i d x len : ℕ}

theorem Holds.heldAfter_grow (h : Holds S k live held) {m' : Mm} {P : ℕ → Prop} [DecidablePred P]
    (hP : ∀ f, P f → LOW_MEM ≤ f ∧ f < LOW_MEM + PAGING_PAGES ∧ k.mm.memMap (mapNr f) = 0)
    (hmap : ∀ f, LOW_MEM ≤ f → m'.memMap (mapNr f) = if P f then 1 else k.mm.memMap (mapNr f)) :
    heldAfter held k.mm m' = fun f => held f ∨ P f := by
  funext f
  refine propext ⟨?_, ?_⟩
  · rintro ⟨hf | hf, hne, hlow, -⟩
    · exact .inl hf
    · rw [hmap f hlow] at hne
      split_ifs at hne with hPf
      · exact .inr hPf
      · exact absurd hf hne
  · rintro (hf | hf)
    · obtain ⟨hlow, hupto, -, hone⟩ := h.mapped f hf
      refine ⟨.inl hf, ?_, hlow, hupto⟩
      rw [hmap f hlow]
      split_ifs <;> omega
    · obtain ⟨hlow, hupto, hzero⟩ := hP f hf
      refine ⟨.inr hzero, ?_, hlow, hupto⟩
      rw [hmap f hlow, if_pos hf]
      exact Nat.one_ne_zero

theorem Holds.heldAfter_same (h : Holds S k live held) {m' : Mm}
    (hmap : m'.memMap = k.mm.memMap) : heldAfter held k.mm m' = held := by
  rw [h.heldAfter_grow (P := fun _ => False) (fun _ => False.elim) fun f _ => by simp [hmap]]
  simp

theorem Holds.heldAfter_shrink (h : Holds S k live held) {m' : Mm} {q : ℕ}
    (hmap : ∀ f, LOW_MEM ≤ f → m'.memMap (mapNr f) = if f = q then 0 else k.mm.memMap (mapNr f)) :
    heldAfter held k.mm m' = fun f => held f ∧ f ≠ q := by
  funext f
  refine propext ⟨?_, ?_⟩
  · rintro ⟨hf, hne, hlow, -⟩
    rw [hmap f hlow] at hne
    split_ifs at hne with hfq
    · exact absurd rfl hne
    · exact ⟨hf.resolve_right hne, hfq⟩
  · rintro ⟨hf, hfq⟩
    obtain ⟨hlow, hupto, -, hone⟩ := h.mapped f hf
    refine ⟨.inl hf, ?_, hlow, hupto⟩
    rw [hmap f hlow, if_neg hfq, hone]
    exact Nat.one_ne_zero

/-- No chain outlasts the turns its loops are followed for. -/
theorem Holds.chain_short (h : Holds S k live held) (hi : i < 9) :
    (S.descs i).length < turns := by
  have hnodup := (h.chain i hi).nodup
  have hcard : (S.descs i).toFinset.card ≤ (Finset.range 4096).card := by
    refine Finset.card_le_card_of_injOn (fun d => page k.mm d / 4096) (fun d hd => ?_) ?_
    · have hd : S.In i d := ⟨hi, by simpa using hd⟩
      obtain ⟨l, hl⟩ := h.bucket i d hd
      have hal := hl.aligned
      have hheld := (h.held_iff (page k.mm d / 4096)).2 (.inr ⟨i, d, hd, by omega⟩)
      have := (h.mapped _ hheld).2.1
      simp only [LOW_MEM, PAGING_PAGES] at this
      simp only [Finset.coe_range, Set.mem_Iio]
      omega
    · intro d hd e he heq
      have hd : S.In i d := ⟨hi, by simpa using hd⟩
      have he : S.In i e := ⟨hi, by simpa using he⟩
      obtain ⟨l, hl⟩ := h.bucket i d hd
      obtain ⟨l', hl'⟩ := h.bucket i e he
      have hal := hl.aligned
      have hal' := hl'.aligned
      refine h.page_inj i i d e hd he ?_
      change page k.mm d / 4096 = page k.mm e / 4096 at heq
      omega
  rw [List.toFinset_card_of_nodup hnodup, Finset.card_range] at hcard
  rw [turns]
  omega

/-- The words of the objects handed out are where no call of the allocator stores. -/
theorem Holds.live_word (h : Holds S k live held) {q n a : ℕ} (hq : live q = some n)
    (ha : q ≤ a) (han : a < q + n) : ∃ i d, S.In i d ∧ a - a % 4096 = page k.mm d ∧
      q - q % 4096 = page k.mm d ∧ q % bucketSize i = 0 ∧ a < q + bucketSize i := by
  obtain ⟨i, d, hi, hd, hqpage, hqmod⟩ := h.object q n hq
  obtain ⟨hi9, hle⟩ := bucketFor_some hi
  refine ⟨i, d, hd, ?_, hqpage, hqmod, by omega⟩
  have hsize := bucketSize_cases hi9
  generalize bucketSize i = size at *
  obtain rfl | rfl | rfl | rfl | rfl | rfl | rfl | rfl | rfl := hsize <;> omega

/-- The words of the objects of `live` are the same. -/
def Kept (live : ℕ → Option ℕ) (m m' : Mm) : Prop :=
  ∀ q n a, live q = some n → q ≤ a → a < q + n → a % 4 = 0 → word m' a = word m a

theorem Kept.trans {m m₁ m₂ : Mm} (h : Kept live m m₁) (h' : Kept live m₁ m₂) : Kept live m m₂ :=
  fun q n a hq ha han ha4 => (h' q n a hq ha han ha4).trans (h q n a hq ha han ha4)

theorem Holds.kept_of (h : Holds S k live held) {m' : Mm}
    (hsame : ∀ i d a, S.In i d → a - a % 4096 = page k.mm d → a % 4 = 0 →
      word m' a = word k.mm a) : Kept live k.mm m' := fun q n a hq ha han ha4 => by
  obtain ⟨i, d, hd, hpg, -⟩ := h.live_word hq ha han
  exact hsame i d a hd hpg ha4

/-- An object is taken from a bucket that has a free one. -/
theorem Holds.take_call (h : Holds S k live held)
    (hb : ∀ j e, S.In j e → e ≠ d → (liveIn live (page k.mm e)).Nonempty) (hd : S.In i d)
    (hlen : bucketFor len bucketSizes 0 = some i) (hfree : freeptr k.mm d ≠ 0) :
    ∃ x k', takeObject d k = .returned x k' ∧ live x = none ∧ k'.mm.memMap = k.mm.memMap ∧
      Holds S k' (Function.update live x (some len)) held ∧
      Busy S k' (Function.update live x (some len)) ∧ Kept live k.mm k'.mm := by
  obtain ⟨x, k', htake, hx, hxpage, hsame, h'⟩ := h.take hd hlen hfree
  have hdesc := h.desc hd
  refine ⟨x, k', htake, hx, hsame.memMap, h', fun j e he => ?_, h.kept_of fun j e a he ha ha4 => ?_⟩
  · have hpage : page k'.mm e = page k.mm e := by
      have := h.desc he
      exact hsame.word e (by omega) (by omega)
    rw [hpage]
    by_cases hed : e = d
    · refine ⟨x % 4096, mem_liveIn.2 ⟨Nat.mod_lt _ (by omega), ?_⟩⟩
      rw [hed, ← hxpage, show x - x % 4096 + x % 4096 = x by omega, Function.update_self]
      exact Option.some_ne_none _
    · obtain ⟨o, ho⟩ := hb j e he hed
      rw [mem_liveIn] at ho
      refine ⟨o, mem_liveIn.2 ⟨ho.1, ?_⟩⟩
      rw [Function.update_apply]
      split_ifs
      · exact Option.some_ne_none _
      · exact ho.2
  · have h8 := h.word_apart he hdesc (show 8 < 16 by omega) ha
    have h12 := h.word_apart he hdesc (show 12 < 16 by omega) ha
    exact hsame.word a ha4 (by omega)

/-- No page is free but `f`. -/
def OnlyFree (m : Mm) (f : ℕ) : Prop :=
  ∀ g, LOW_MEM ≤ g → g < LOW_MEM + PAGING_PAGES → m.memMap (mapNr g) = 0 → g = f

def NoneFree (m : Mm) : Prop :=
  ∀ g, LOW_MEM ≤ g → g < LOW_MEM + PAGING_PAGES → m.memMap (mapNr g) ≠ 0

theorem getFreePage_none {m : Mm} (h : getFreePage m = none) : NoneFree m := by
  rw [getFreePage, Option.map_eq_none_iff] at h
  have hall : ∀ n, findFree m.memMap n = none → ∀ i < n, m.memMap i ≠ 0 := fun n => by
    induction n with
    | zero => intro _ i hi; omega
    | succ n ih =>
      intro hn i hi
      simp only [findFree] at hn
      split_ifs at hn with hzero
      rcases Nat.lt_succ_iff_lt_or_eq.1 hi with hi | rfl
      · exact ih hn i hi
      · exact hzero
  intro g hlow hupto
  refine hall _ h (mapNr g) ?_
  simp only [mapNr, LOW_MEM] at *
  omega

/-- A new bucket, or the end of memory. -/
theorem Holds.fill_call (h : Holds S k live held) (hb : Busy S k live) (hi : i < 9)
    (hfree : k.freeBucketDesc ≠ 0) (hlen : bucketFor len bucketSizes 0 = some i) :
    (∃ x k' S' p, (fillBucket i k).bind takeObject = .returned x k' ∧ live x = none ∧
      LOW_MEM ≤ p ∧ p < LOW_MEM + PAGING_PAGES ∧ k.mm.memMap (mapNr p) = 0 ∧
      (∀ f, LOW_MEM ≤ f → k'.mm.memMap (mapNr f) = if f = p then 1 else k.mm.memMap (mapNr f)) ∧
      Holds S' k' (Function.update live x (some len)) (fun f => held f ∨ f = p) ∧
      Busy S' k' (Function.update live x (some len)) ∧ Kept live k.mm k'.mm) ∨
    ((fillBucket i k).bind takeObject = .panicked .outOfMemory ∧ NoneFree k.mm) := by
  have hchain := h.free
  cases hfrees : S.frees with
  | nil =>
    rw [hfrees] at hchain
    exact absurd (chain_nil.1 hchain) hfree
  | cons d rest =>
  rw [hfrees] at hchain
  cases hget : getFreePage
      (setBucketSize (setRefcnt k.mm k.freeBucketDesc 0) k.freeBucketDesc (bucketSize i)) with
  | none =>
    refine .inr ⟨?_, fun g hlow hupto => getFreePage_none hget g hlow hupto⟩
    simp only [fillBucket, hget, Outcome.bind]
  | some r =>
    obtain ⟨p, mm⟩ := r
    rw [hchain.1] at hget
    have hgot := getFreePage_got hget
    obtain ⟨k₁, hfill, hf, hin, h₁⟩ := h.fill hi hfrees hget
    obtain ⟨-, hnslot, -, hnpage, -⟩ := h.fresh hgot.low hgot.upto hgot.unused
    have hp256 : 256 ≤ p := hgot.low
    have hdslot := (h.slot d).1 (.inl (by rw [hfrees]; exact List.mem_cons_self))
    have hwords : ∀ j e a, S.In j e → a - a % 4096 = page k.mm e → a % 4 = 0 →
        word k₁.mm a = word k.mm a := fun j e a he ha ha4 => by
      refine hf.word a ha4 (fun hap => hnpage j e he (by omega)) ?_
      by_contra hcon
      refine h.word_apart he hdslot (o := a - d) (by omega) ha (by omega)
    have hpages : ∀ j e, S.In j e → page k₁.mm e = page k.mm e := fun j e he => by
      have hed : e ≠ d := by
        rintro rfl
        exact h.apart_free j e he (by rw [hfrees]; exact List.mem_cons_self)
      obtain ⟨he16, hes⟩ := h.desc he
      refine hf.word e (by omega) ?_ (by omega)
      rintro rfl
      exact hnslot hes
    obtain ⟨x, k', htake, hx, hmap, h', hb', hkept⟩ := h₁.take_call (d := d) (fun j e he hed => by
      rcases (Shape.in_fill S d rest hi j e).1 he with he | ⟨-, hed'⟩
      · rw [hpages j e he]
        exact hb j e he
      · exact absurd hed' hed) hin hlen (by rw [hf.freeptr]; omega)
    refine .inl ⟨x, k', _, p, ?_, hx, hgot.low, hgot.upto, hgot.unused, fun f hlow => ?_, h', hb',
      (h.kept_of hwords).trans hkept⟩
    · rw [hfill, Outcome.bind, htake]
    · rw [hmap]
      exact hf.memMap f hlow

theorem malloc_long {k : Kernel} {len : ℕ} (hle : 4096 < len) :
    malloc len k = .panicked .badArg := by
  have hnone : bucketFor len bucketSizes 0 = none := by
    simp only [bucketSizes, bucketFor]
    repeat rw [if_neg (by omega), if_neg (by omega)]
    rfl
  rw [malloc, hnone]

theorem malloc_le {k k' : Kernel} {len p : ℕ} (h : malloc len k = .returned p k') :
    len ≤ 4096 := by
  by_contra hle
  rw [malloc_long (by omega)] at h
  cases h

/-- What a call of `malloc` does: a new object, or the end of memory. -/
theorem Holds.malloc_call (h : Holds S k live held) (hb : Busy S k live)
    (hle : len ≤ 4096) :
    (∃ x k' S', malloc len k = .returned x k' ∧ live x = none ∧
      Holds S' k' (Function.update live x (some len)) (heldAfter held k.mm k'.mm) ∧
      Busy S' k' (Function.update live x (some len)) ∧ Kept live k.mm k'.mm) ∨
    (∃ why, malloc len k = .panicked why ∧ (∃ f, OnlyFree k.mm f) ∧
      (k.freeBucketDesc ≠ 0 → NoneFree k.mm)) := by
  obtain ⟨i, hi⟩ := bucketFor_upto hle
  have hi9 := (bucketFor_some hi).1
  have hshort := h.chain_short hi9
  rcases first_found (fun d => decide (freeptr k.mm d ≠ 0)) (S.descs i) with
    hno | ⟨before, d, after, hsplit, hno, hd⟩
  · have hwalk := (h.chain i hi9).walk_none hshort hno
    have hmalloc : malloc len k = (newBucket i k).bind takeObject := by
      simp only [malloc, hi, hwalk, if_true]
    by_cases hfree : k.freeBucketDesc = 0
    · cases hget : getFreePage k.mm with
      | none =>
        refine .inr ⟨.noDescriptors, ?_, ⟨0, ?_⟩, fun hne => absurd hfree hne⟩
        · simp only [hmalloc, newBucket, hfree, if_true, initBucketDesc, hget, Outcome.bind]
        · exact fun g hlow hupto hzero => absurd hzero (getFreePage_none hget g hlow hupto)
      | some r =>
        obtain ⟨p, mm⟩ := r
        have hgot := getFreePage_got hget
        obtain ⟨-, -, -, hnpage, -⟩ := h.fresh hgot.low hgot.upto hgot.unused
        obtain ⟨k₁, hinit, hfree₁, hgot₁, hchain₁, h₁⟩ := h.initDesc hget
        have hnslot : ∀ j e, S.In j e → ¬ e / 4096 = p := fun j e he hep => by
          have hp := hep ▸ (h.desc he).2
          have hheld := (h.held_iff p).2 (.inl hp)
          have := (h.mapped p hheld).2.2.2
          have := hgot.unused
          omega
        have hwords : ∀ j e a, S.In j e → a - a % 4096 = page k.mm e → a % 4 = 0 →
            word k₁.mm a = word k.mm a := fun j e a he ha ha4 =>
          hgot₁.word a ha4 fun hap => hnpage j e he (by omega)
        have hb₁ : Busy (S.addSlots p) k₁ live := fun j e he => by
          rw [show page k₁.mm e = page k.mm e from hgot₁.word e
            (by have := (h.desc he).1; omega) (hnslot j e he)]
          exact hb j e he
        have hcall : malloc len k = (fillBucket i k₁).bind takeObject := by
          rw [hmalloc, newBucket, if_pos hfree, hinit]
          rfl
        rw [hcall]
        rcases h₁.fill_call hb₁ hi9 hfree₁ hi with
          ⟨x, k', S', q, hret, hx, hlow, hupto, hzero, hmap, h', hb', hkept⟩ | ⟨hpanic, hnone⟩
        · refine .inl ⟨x, k', S', hret, hx, ?_, hb', (h.kept_of hwords).trans hkept⟩
          rw [h.heldAfter_grow (P := fun f => f = p ∨ f = q)]
          · simpa only [or_assoc] using h'
          · rintro f (rfl | rfl)
            · exact ⟨hgot.low, hgot.upto, hgot.unused⟩
            · refine ⟨hlow, hupto, ?_⟩
              have hval := hgot₁.memMap f hlow
              rw [hzero] at hval
              split_ifs at hval
              exact hval.symm
          · intro f hf
            rw [hmap f hf, hgot₁.memMap f hf]
            by_cases hfq : f = q <;> by_cases hfp : f = p <;> simp [hfq, hfp]
        · refine .inr ⟨_, hpanic, ⟨p, fun g hlow hupto hzero => ?_⟩, fun hne => absurd hfree hne⟩
          by_contra hgp
          refine hnone g hlow hupto ?_
          rw [hgot₁.memMap g hlow, if_neg hgp]
          exact hzero
    · have hcall : malloc len k = (fillBucket i k).bind takeObject := by
        rw [hmalloc, newBucket, if_neg hfree]
        rfl
      rw [hcall]
      rcases h.fill_call hb hi9 hfree hi with
        ⟨x, k', S', q, hret, hx, hlow, hupto, hzero, hmap, h', hb', hkept⟩ | ⟨hpanic, hnone⟩
      · refine .inl ⟨x, k', S', hret, hx, ?_, hb', hkept⟩
        rw [h.heldAfter_grow (P := fun f => f = q) (fun f hf => hf ▸ ⟨hlow, hupto, hzero⟩) hmap]
        exact h'
      · exact .inr ⟨_, hpanic, ⟨0, fun g hlow hupto hz => absurd hz (hnone g hlow hupto)⟩,
          fun _ => hnone⟩
  · have hchain := h.chain i hi9
    rw [hsplit] at hchain
    have hwalk := hchain.walk_first (n := turns)
      (by rw [hsplit, List.length_append] at hshort; omega) hno hd
    have hin : S.In i d := ⟨hi9, by rw [hsplit]; simp⟩
    have hcall : malloc len k = takeObject d k := by
      simp only [malloc, hi, hwalk, if_neg (h.desc_ne hin), Outcome.bind]
    obtain ⟨x, k', htake, hx, hmap, h', hb', hkept⟩ :=
      h.take_call (fun j e he _ => hb j e he) hin hi (of_decide_eq_true hd)
    refine .inl ⟨x, k', S, hcall.trans htake, hx, ?_, hb', hkept⟩
    rw [h.heldAfter_same hmap]
    exact h'

theorem bucketSizes_drop {j : ℕ} (hj : j < 9) :
    bucketSizes.drop j = bucketSize j :: bucketSizes.drop (j + 1) ∧ bucketSize j ≠ 0 := by
  have hpos := bucketSize_pos hj
  refine ⟨?_, by omega⟩
  interval_cases j <;> rfl

/-- `free_s` finds the descriptor of a page. -/
theorem Holds.search_found (h : Holds S k live held) (hd : S.In i d) (size : ℤ)
    (hsize : size ≤ bucketSize i) (j : ℕ) (hj : j ≤ i) :
    ∃ before after, S.descs i = before ++ d :: after ∧
      search k (page k.mm d) size (bucketSizes.drop j) j = .found i (lastOf 0 before) d := by
  obtain ⟨n, hn⟩ : ∃ n, i = j + n := ⟨i - j, by omega⟩
  induction n generalizing j with
  | zero =>
    obtain rfl : j = i := by omega
    obtain ⟨hdrop, hne⟩ := bucketSizes_drop hd.1
    have hshort := h.chain_short hd.1
    obtain ⟨before, after, hsplit⟩ := List.append_of_mem hd.2
    have hchain := h.chain j hd.1
    rw [hsplit] at hchain hshort
    have hnodup := hchain.nodup
    rw [List.nodup_middle, List.nodup_cons] at hnodup
    have hwalk : walkPrev 0 (next k.mm) (fun e => decide (page k.mm e = page k.mm d)) turns 0
        (k.chain j) = some (lastOf 0 before, d) := hchain.walkPrev_first
      (by rw [List.length_append] at hshort; omega)
      (fun e he => decide_eq_false fun heq => hnodup.1 (by
        rw [← h.page_inj j j e d ⟨hd.1, by rw [hsplit]; simp [he]⟩ hd heq]
        exact List.mem_append_left _ he))
      (decide_eq_true rfl)
    refine ⟨before, after, hsplit, ?_⟩
    rw [hdrop, search, if_neg hne, if_neg (by omega), hwalk]
    exact if_neg (h.desc_ne hd)
  | succ n ih =>
    obtain ⟨before, after, hsplit, hfound⟩ := ih (j + 1) (by omega) (by omega)
    have hj9 : j < 9 := by have := hd.1; omega
    obtain ⟨hdrop, hne⟩ := bucketSizes_drop hj9
    refine ⟨before, after, hsplit, ?_⟩
    rw [hdrop, search, if_neg hne]
    split_ifs
    · exact hfound
    · -- the page is not one of this size
      have hwalk : walkPrev 0 (next k.mm) (fun e => decide (page k.mm e = page k.mm d)) turns 0
          (k.chain j) = some (lastOf 0 (S.descs j), 0) :=
        (h.chain j hj9).walkPrev_none (h.chain_short hj9) (fun e he => decide_eq_false fun heq => by
          have he : S.In j e := ⟨hj9, he⟩
          have hed := h.page_inj j i e d he hd heq
          have := h.apart j i e he (hed ▸ hd)
          omega)
      rw [hwalk]
      exact hfound

/-- The last object of a page is back, and the page goes. -/
theorem Holds.unlink (h : Holds S k live held) (hd : S.In i d) {before after : List ℕ}
    (hsplit : S.descs i = before ++ d :: after) (hempty : liveIn live (page k.mm d) = ∅) :
    ∃ k', unlinkBucket i (lastOf 0 before) d k = .returned () k' ∧
      (∀ j e a, S.In j e → a - a % 4096 = page k.mm e → a % 4 = 0 → word k'.mm a = word k.mm a) ∧
      (∀ j e, S.In j e → page k'.mm e = page k.mm e) ∧
      (∀ f, LOW_MEM ≤ f → k'.mm.memMap (mapNr f) =
        if f = page k.mm d / 4096 then 0 else k.mm.memMap (mapNr f)) ∧
      Holds (S.release i d (before ++ after)) k' live
        (fun f => held f ∧ f ≠ page k.mm d / 4096) := by
  have hchain := h.chain i hd.1
  rw [hsplit] at hchain
  have hdesc := h.desc hd
  have hd0 := h.desc_ne hd
  rcases hchain.before with ⟨hb, hlast, hhead⟩ | ⟨l, p, hb, hlast, hp0, hnext⟩
  · have hcall : unlinkBucket i (lastOf 0 before) d k = releaseBucket d
        { k with chain := Function.update k.chain i (next k.mm d) } := by
      simp only [unlinkBucket, hlast, hhead, ne_eq, not_true_eq_false, false_and, and_false,
        or_self, if_false]
    obtain ⟨k', hret, hwords, hmap, h'⟩ := h.release (p := 0) hd hsplit hempty
      { k with chain := Function.update k.chain i (next k.mm d) } Except.refl rfl (fun j _ hj => Function.update_of_ne hj _ _)
      (fun _ => Function.update_self _ _ _) (fun hne => absurd hb hne)
    refine ⟨k', hcall.trans hret, fun j e a he ha ha4 => ?_, fun j e he => ?_, hmap, h'⟩
    · exact hwords a ha4 (h.word_apart he hdesc (by omega) ha) fun hne => absurd hb hne
    · have he16 := (h.desc he).1
      exact hwords e (by omega) (by omega) fun hne => absurd hb hne
  · have hpin : S.In i p := ⟨hd.1, by rw [hsplit, hb]; simp⟩
    have hp16 := (h.desc hpin).1
    have hpd : p ≠ d := by
      rintro rfl
      have hnodup := hchain.nodup
      rw [List.nodup_middle, List.nodup_cons] at hnodup
      exact hnodup.1 (by rw [hb]; simp)
    have hcall : unlinkBucket i (lastOf 0 before) d k = releaseBucket d
        { k with mm := setNext k.mm p (next k.mm d) } := by
      simp only [unlinkBucket, hlast, hnext, hp0, ne_eq, not_true_eq_false, false_and, and_false,
        or_self, if_false, not_false_eq_true, if_true]
    have hset : next (setNext k.mm p (next k.mm d)) p = next k.mm d := word_setWord_self (by omega)
    have hne : before ≠ [] := by simp [hb]
    obtain ⟨k', hret, hwords, hmap, h'⟩ := h.release (p := p) hd hsplit hempty
      { k with mm := setNext k.mm p (next k.mm d) } (Except.set (by omega) ⟨hne, rfl⟩) rfl (fun _ _ _ => rfl)
      (fun hb' => absurd hb' hne) (fun _ => ⟨⟨l, hb⟩, rfl, hset⟩)
    refine ⟨k', hcall.trans hret, fun j e a he ha ha4 => ?_, fun j e he => ?_, hmap, h'⟩
    · exact hwords a ha4 (h.word_apart he hdesc (by omega) ha)
        fun _ => h.word_apart he (h.desc hpin) (by omega) ha
    · have he16 := (h.desc he).1
      exact hwords e (by omega) (by omega) fun _ => by omega

/-- What a call of `free_s` does for an object handed out. -/
theorem Holds.free_call (h : Holds S k live held) (hb : Busy S k live) (hx : live x = some len)
    {size : ℤ} (hsize : size = 0 ∨ size = len) :
    ∃ k' S', freeS x size k = .returned () k' ∧
      Holds S' k' (Function.update live x none) (heldAfter held k.mm k'.mm) ∧
      Busy S' k' (Function.update live x none) ∧ Kept (Function.update live x none) k.mm k'.mm := by
  obtain ⟨i, d, hi, hd, hpg, hmod⟩ := h.object x len hx
  have hle := (bucketFor_some hi).2
  have hx0 : live x ≠ none := by simp [hx]
  obtain ⟨before, after, hsplit, hfound⟩ := h.search_found hd size (by omega) 0
    (Nat.zero_le _)
  obtain ⟨hsame, h₁⟩ := h.give hd hx0 hpg hmod
  have hdesc := h.desc hd
  have hx16 := object_aligned hd.1 hmod
  have hpage : ∀ j e, S.In j e → page (giveObject x d k.mm) e = page k.mm e := fun j e he => by
    have he' := h.desc he
    have hxe := h.word_apart hd he' (show 0 < 16 by omega) hpg
    exact hsame.word e (by omega) (by omega)
  -- the objects still out do not reach the word of the one given back
  have hkept₁ : Kept (Function.update live x none) k.mm (giveObject x d k.mm) :=
    fun q n a hq ha han ha4 => by
      rw [Function.update_apply] at hq
      split_ifs at hq with hqx
      obtain ⟨j, e, he, hapage, hqpage, hqmod, haq⟩ := h.live_word hq ha han
      have h8 := h.word_apart he hdesc (show 8 < 16 by omega) hapage
      have h12 := h.word_apart he hdesc (show 12 < 16 by omega) hapage
      refine hsame.word a ha4 ?_
      rintro (rfl | hrest)
      · have hed := h.page_inj j i e d he hd (hapage.symm.trans hpg)
        obtain rfl := h.apart j i e he (hed ▸ hd)
        exact hqx (eq_of_mod hqmod hmod ha haq).symm
      · omega
  have hcount : refcnt (giveObject x d k.mm) d =
      (liveIn (Function.update live x none) (page k.mm d)).card := by
    obtain ⟨l, hl⟩ := h₁.bucket i d hd
    rw [← hpage i d hd]
    exact hl.count
  have hcall : freeS x size k =
      if refcnt (giveObject x d k.mm) d = 0 then
        unlinkBucket i (lastOf 0 before) d { k with mm := giveObject x d k.mm }
      else .returned () { k with mm := giveObject x d k.mm } := by
    rw [freeS, hpg]
    simp only [List.drop_zero] at hfound
    rw [hfound]
  have hothers : ∀ j e, S.In j e → e ≠ d → liveIn (Function.update live x none) (page k.mm e) =
      liveIn live (page k.mm e) := fun j e he hed => by
    obtain ⟨l, hl⟩ := h.bucket j e he
    refine liveIn_other hl.aligned fun heq => hed ?_
    exact h.page_inj j i e d he hd (heq.symm.trans hpg)
  by_cases hlast : refcnt (giveObject x d k.mm) d = 0
  · rw [if_pos hlast] at hcall
    rw [hlast] at hcount
    obtain ⟨k', hret, hwords, hpages, hmap, h'⟩ := h₁.unlink hd hsplit (by
      rw [hpage i d hd]
      exact Finset.card_eq_zero.1 hcount.symm)
    refine ⟨k', S.release i d (before ++ after), hcall.trans hret, ?_, fun j e he => ?_,
      hkept₁.trans (h₁.kept_of hwords)⟩
    · rw [h.heldAfter_shrink (q := page k.mm d / 4096)]
      · rw [← hpage i d hd]
        exact h'
      · intro f hf
        rw [hmap f hf, hpage i d hd, hsame.memMap]
    · obtain ⟨he, hed⟩ := (h₁.in_release hd hsplit j e).1 he
      rw [hpages j e he, hpage j e he, hothers j e he hed]
      exact hb j e he
  · rw [if_neg hlast] at hcall
    refine ⟨_, S, hcall, ?_, fun j e he => ?_, hkept₁⟩
    · rw [h.heldAfter_same hsame.memMap]
      exact h₁
    · rw [hpage j e he]
      by_cases hed : e = d
      · rw [hed]
        refine Finset.card_pos.1 ?_
        rw [← hcount]
        exact Nat.pos_of_ne_zero hlast
      · rw [hothers j e he hed]
        exact hb j e he

end

structure State where
  k : Kernel
  /-- The objects handed out, with the length asked for. -/
  live : ℕ → Option ℕ
  held : ℕ → Prop

/-- The rest of the kernel leaves the allocator's pages alone, and gets no page beyond the end
    of memory. -/
structure Elsewhere (held : ℕ → Prop) (m m' : Mm) : Prop where
  high : m'.highMemory = m.highMemory
  map : ∀ f, LOW_MEM ≤ f → held f ∨ m.highMemory ≤ f → m'.memMap (mapNr f) = m.memMap (mapNr f)
  mem : ∀ f, held f → m'.mem f = m.mem f

inductive Event where
  | malloc (len : ℕ)
  | free (obj : ℕ) (size : ℤ)
  /-- A store of the owner of `obj` into it. -/
  | store (obj a v : ℕ)
  | other (m : Mm)

inductive Step : State → Event → State → Prop where
  | malloc {s : State} {len p : ℕ} {k : Kernel} (h : malloc len s.k = .returned p k) :
      Step s (.malloc len)
        ⟨k, Function.update s.live p (some len), heldAfter s.held s.k.mm k.mm⟩
  | free {s : State} {p len : ℕ} {size : ℤ} {k : Kernel} (hp : s.live p = some len)
      (hsize : size = 0 ∨ size = len) (h : freeS p size s.k = .returned () k) :
      Step s (.free p size) ⟨k, Function.update s.live p none, heldAfter s.held s.k.mm k.mm⟩
  | store {s : State} {p len a : ℕ} (v : ℕ) (hp : s.live p = some len) (ha : p ≤ a)
      (han : a < p + len) (ha4 : a % 4 = 0) :
      Step s (.store p a v) { s with k := { s.k with mm := setWord s.k.mm a v } }
  | other {s : State} {m : Mm} (h : Elsewhere s.held s.k.mm m) :
      Step s (.other m) { s with k := { s.k with mm := m } }

inductive Run : State → List Event → State → Prop where
  | nil (s : State) : Run s [] s
  | cons {s t u : State} {e : Event} {es : List Event} (head : Step s e t) (tail : Run t es u) :
      Run s (e :: es) u

/-- After `mem_init`, before the first call. -/
def start (startMem endMem : ℕ) (mem : ℕ → ℕ → ℕ) : State where
  k := ⟨memInit startMem endMem mem, fun _ => 0, 0⟩
  live _ := none
  held _ := False

def Sound (s : State) : Prop := ∃ S, Holds S s.k s.live s.held ∧ Busy S s.k s.live

section
variable {s t u : State} {e : Event} {es : List Event}

theorem start_sound {startMem endMem : ℕ} (mem : ℕ → ℕ → ℕ) (hlow : LOW_MEM ≤ startMem) :
    Sound (start startMem endMem mem) := by
  refine ⟨⟨fun _ => [], [], fun _ => False⟩, ⟨fun i _ => rfl, rfl, ?_, ?_, ?_, ?_, ?_, ?_, ?_, ?_,
    ?_, ?_⟩, ?_⟩
  case refine_8 =>
    intro i hi hzero
    have hmap := memInit_memMap startMem endMem mem i
    rw [show (memInit startMem endMem mem).memMap i = 0 from hzero] at hmap
    split_ifs at hmap with hin
    · unfold mapNr at hin
      change LOW_MEM + i < endMem
      omega
    · exact absurd hmap (by decide)
  all_goals simp [Shape.In, start, Busy]

theorem Sound.store (h : Sound s) {p len a : ℕ} (v : ℕ) (hp : s.live p = some len) (ha : p ≤ a)
    (han : a < p + len) (ha4 : a % 4 = 0) :
    Sound { s with k := { s.k with mm := setWord s.k.mm a v } } := by
  obtain ⟨S, h, hb⟩ := h
  obtain ⟨i, d, hd, hapage, hppage, hpmod, hap⟩ := h.live_word hp ha han
  have hdesc : ∀ e o, (e ∈ S.frees ∨ ∃ j, S.In j e) → o < 16 → o % 4 = 0 →
      word (setWord s.k.mm a v) (e + o) = word s.k.mm (e + o) := fun e o he ho ho4 => by
    have he' := (h.slot e).1 he
    exact word_setWord_ne ha4 (by omega) (h.word_apart hd he' ho hapage).symm
  have hpage : ∀ j e, S.In j e → page (setWord s.k.mm a v) e = page s.k.mm e := fun j e he =>
    hdesc e 0 (.inr ⟨j, he⟩) (by omega) rfl
  refine ⟨S, h.rebucket (fun f hf => (h.mapped f hf).2.2) h.room
    (fun e he => hdesc e 4 he (by omega) rfl) hpage (fun j e he => ?_) h.object, fun j e he => ?_⟩
  · obtain ⟨l, hl⟩ := h.bucket j e he
    refine ⟨l, hl.frame (hpage j e he) (hdesc e 8 (.inr ⟨j, he⟩) (by omega) rfl)
      (congrArg (· % 65536) (hdesc e 12 (.inr ⟨j, he⟩) (by omega) rfl)) (fun b hbl => ?_)
      (fun _ _ => rfl)⟩
    -- a free object does not begin inside one that is out
    obtain ⟨hbpage, hbmod, hbnone⟩ := (hl.mem_objs b).1 hbl
    have hb16 := object_aligned he.1 hbmod
    refine word_setWord_ne ha4 (by omega) ?_
    rintro rfl
    have hed := h.page_inj j i e d he hd (hbpage.symm.trans hapage)
    obtain rfl := h.apart j i e he (hed ▸ hd)
    rw [eq_of_mod hpmod hbmod ha hap, hp] at hbnone
    exact absurd hbnone (Option.some_ne_none _)
  · change (liveIn s.live (page (setWord s.k.mm a v) e)).Nonempty
    rw [hpage j e he]
    exact hb j e he

theorem Elsewhere.word {held : ℕ → Prop} {m m' : Mm} (h : Elsewhere held m m') {a : ℕ}
    (ha : held (a / 4096)) : word m' a = word m a := by
  unfold Malloc.word
  rw [h.mem _ ha]

theorem Holds.held_word {S : Shape} {k : Kernel} {live : ℕ → Option ℕ} {held : ℕ → Prop}
    {i d a : ℕ} (h : Holds S k live held) (hd : S.In i d) (ha : a - a % 4096 = page k.mm d) :
    held (a / 4096) :=
  (h.held_iff _).2 (.inr ⟨i, d, hd, by omega⟩)

theorem Sound.other (h : Sound s) {m : Mm} (hm : Elsewhere s.held s.k.mm m) :
    Sound { s with k := { s.k with mm := m } } := by
  obtain ⟨S, h, hb⟩ := h
  have hdesc : ∀ e o, (e ∈ S.frees ∨ ∃ j, S.In j e) → o < 16 → o % 4 = 0 →
      word m (e + o) = word s.k.mm (e + o) := fun e o he ho ho4 => by
    obtain ⟨he16, hes⟩ := (h.slot e).1 he
    refine hm.word ?_
    rw [show (e + o) / 4096 = e / 4096 by omega]
    exact (h.held_iff _).2 (.inl hes)
  have hpage : ∀ j e, S.In j e → page m e = page s.k.mm e := fun j e he =>
    hdesc e 0 (.inr ⟨j, he⟩) (by omega) rfl
  refine ⟨S, h.rebucket (fun f hf => ?_) (fun i hi hzero => ?_)
    (fun e he => hdesc e 4 he (by omega) rfl) hpage (fun j e he => ?_) h.object, fun j e he => ?_⟩
  · obtain ⟨hlow, -, hhigh, hone⟩ := h.mapped f hf
    rw [hm.high, hm.map f hlow (.inl hf)]
    exact ⟨hhigh, hone⟩
  · rw [hm.high]
    by_contra hge
    have hnr : mapNr (LOW_MEM + i) = i := Nat.add_sub_cancel_left _ _
    have hsame := hm.map (LOW_MEM + i) (Nat.le_add_right _ _) (.inr (by omega))
    rw [hnr] at hsame
    exact hge (h.room i hi (hsame.symm.trans hzero))
  · obtain ⟨l, hl⟩ := h.bucket j e he
    refine ⟨l, hl.frame (hpage j e he) (hdesc e 8 (.inr ⟨j, he⟩) (by omega) rfl)
      (congrArg (· % 65536) (hdesc e 12 (.inr ⟨j, he⟩) (by omega) rfl)) (fun b hbl => ?_)
      (fun _ _ => rfl)⟩
    exact hm.word (h.held_word he ((hl.mem_objs b).1 hbl).1)
  · change (liveIn s.live (page m e)).Nonempty
    rw [hpage j e he]
    exact hb j e he

theorem Sound.step (h : Sound s) (hstep : Step s e t) : Sound t := by
  cases hstep with
  | malloc hret =>
    obtain ⟨S, h, hb⟩ := h
    rcases h.malloc_call hb (malloc_le hret) with ⟨x, k', S', hx, -, h', hb', -⟩ | ⟨why, hx, -⟩
    · rw [hret] at hx
      cases hx
      exact ⟨S', h', hb'⟩
    · rw [hret] at hx
      cases hx
  | free hp hsize hret =>
    obtain ⟨S, h, hb⟩ := h
    obtain ⟨k', S', hx, h', hb', -⟩ := h.free_call hb hp hsize
    rw [hret] at hx
    cases hx
    exact ⟨S', h', hb'⟩
  | store v hp ha han ha4 => exact h.store v hp ha han ha4
  | other hm => exact h.other hm

theorem Sound.run (h : Sound s) (hrun : Run s es u) : Sound u := by
  induction hrun with
  | nil s => exact h
  | cons head tail ih => exact ih (h.step head)

/-- `d` is a descriptor of a chain or a free one. -/
def OnList (k : Kernel) (d : ℕ) : Prop :=
  ∃ l, d ∈ l ∧ (Chain 0 (next k.mm) k.freeBucketDesc l ∨
    ∃ i < 9, Chain 0 (next k.mm) (k.chain i) l)

/-- What the callers of the allocator rely on, and what its words say about them. -/
structure Orderly (s : State) : Prop where
  disjoint : ∀ p q n m, s.live p = some n → s.live q = some m → p ≠ q → p + n ≤ q ∨ q + m ≤ p
  one_page : ∀ p n a, s.live p = some n → p ≤ a → a < p + n → a / 4096 = p / 4096
  buckets : ∀ i < 9, ∃ l, Chain 0 (next s.k.mm) (s.k.chain i) l ∧ ∀ d ∈ l,
    refcnt s.k.mm d = (liveIn s.live (page s.k.mm d)).card ∧ 0 < refcnt s.k.mm d ∧
    ∃ objs, Chain 0 (word s.k.mm) (freeptr s.k.mm d) objs ∧ objs.Nodup ∧ ∀ a, a ∈ objs ↔
      a - a % 4096 = page s.k.mm d ∧ a % bucketSize i = 0 ∧ s.live a = none
  held_iff : ∀ f, s.held f ↔
    (∃ d, OnList s.k d ∧ d / 4096 = f) ∨ ∃ p n, s.live p = some n ∧ p / 4096 = f
  mallocs : ∀ len ≤ 4096,
    (∃ p k, malloc len s.k = .returned p k ∧ s.live p = none) ∨
    ∃ why, malloc len s.k = .panicked why ∧ (∃ f, OnlyFree s.k.mm f) ∧
      (s.k.freeBucketDesc ≠ 0 → NoneFree s.k.mm)
  too_long : ∀ len > 4096, malloc len s.k = .panicked .badArg
  frees : ∀ p n (size : ℤ), s.live p = some n → size = 0 ∨ size = n →
    ∃ k, freeS p size s.k = .returned () k

theorem Holds.no_overlap {S : Shape} {k : Kernel} {live : ℕ → Option ℕ} {held : ℕ → Prop}
    {p q n m : ℕ} (h : Holds S k live held) (hp : live p = some n) (hq : live q = some m)
    (hle : p ≤ q) (hlt : q < p + n) : q = p := by
  obtain ⟨i, d, hd, hqd, -, hpmod, hlt'⟩ := h.live_word hp hle hlt
  obtain ⟨j, e, hj, he, hqe, hqmod⟩ := h.object q m hq
  have hed := h.page_inj i j d e hd he (hqd.symm.trans hqe)
  obtain rfl := h.apart i j d hd (hed ▸ he)
  exact eq_of_mod hpmod hqmod hle hlt'

theorem Sound.orderly (h : Sound s) : Orderly s := by
  obtain ⟨S, h, hb⟩ := h
  refine ⟨fun p q n m hp hq hpq => ?_, fun p n a hp ha han => ?_, fun i hi => ?_, fun f => ⟨?_, ?_⟩,
    fun len hle => ?_, fun len => malloc_long, fun p n size hp hsize => ?_⟩
  · by_contra hcon
    rcases le_total p q with hle | hle
    · exact hpq (h.no_overlap hp hq hle (by omega)).symm
    · exact hpq (h.no_overlap hq hp hle (by omega))
  · obtain ⟨i, d, hd, hapage, hppage, -⟩ := h.live_word hp ha han
    omega
  · refine ⟨S.descs i, h.chain i hi, fun d hd => ?_⟩
    obtain ⟨l, hl⟩ := h.bucket i d ⟨hi, hd⟩
    refine ⟨hl.count, ?_, l, hl.objs, hl.objs.nodup, hl.mem_objs⟩
    rw [hl.count]
    exact Finset.card_pos.2 (hb i d ⟨hi, hd⟩)
  · rw [h.held_iff]
    rintro (hs | ⟨i, d, hd, hpf⟩)
    · refine .inl ⟨f * 4096, ?_, by omega⟩
      rcases (h.slot (f * 4096)).2 ⟨by omega, by rwa [Nat.mul_div_cancel _ (by omega)]⟩ with
        hmem | ⟨i, hi, hmem⟩
      · exact ⟨S.frees, hmem, .inl h.free⟩
      · exact ⟨S.descs i, hmem, .inr ⟨i, hi, h.chain i hi⟩⟩
    · obtain ⟨o, ho⟩ := hb i d hd
      obtain ⟨ho, hne⟩ := mem_liveIn.1 ho
      obtain ⟨n, hn⟩ := Option.ne_none_iff_exists'.1 hne
      exact .inr ⟨_, n, hn, by omega⟩
  · rintro (⟨d, ⟨l, hdl, hl⟩, rfl⟩ | ⟨p, n, hp, rfl⟩)
    · refine (h.held_iff _).2 (.inl ((h.slot d).1 ?_).2)
      rcases hl with hl | ⟨i, hi, hl⟩
      · exact .inl (h.free.unique hl ▸ hdl)
      · exact .inr ⟨i, hi, (h.chain i hi).unique hl ▸ hdl⟩
    · obtain ⟨i, d, -, hd, hppage, -⟩ := h.object p n hp
      exact h.held_word hd hppage
  · rcases h.malloc_call hb hle with ⟨x, k', S', hx, hnone, -⟩ | hpanic
    · exact .inl ⟨x, k', hx, hnone⟩
    · exact .inr hpanic
  · obtain ⟨k', S', hx, -⟩ := h.free_call hb hp hsize
    exact ⟨k', hx⟩

/-- In every run from `mem_init` on, with any stores of the callers into their objects and
    anything the rest of the kernel does elsewhere. -/
theorem allocator_orderly (startMem endMem : ℕ) (mem : ℕ → ℕ → ℕ) (hlow : LOW_MEM ≤ startMem)
    (h : Run (start startMem endMem mem) es s) : Orderly s :=
  ((start_sound mem hlow).run h).orderly

/-- The word at `a` after an event, when only stores change it. -/
def Event.leaves (a w : ℕ) : Event → ℕ
  | .store _ b v => if b = a then v else w
  | _ => w

/-! A run of four events: two objects are taken, the second of no length, the first is stored
    into and the second given back. -/

def Outcome.value {α : Type} : Outcome α → Option α
  | .returned a _ => some a
  | _ => none

def Outcome.kernel {α : Type} (k : Kernel) : Outcome α → Kernel
  | .returned _ k' => k'
  | _ => k

theorem Outcome.eq_returned {α : Type} {o : Outcome α} {a : α} (k : Kernel)
    (h : o.value = some a) : o = .returned a (o.kernel k) := by
  cases o with
  | returned b k' =>
    cases h
    rfl
  | panicked why => cases h
  | looping => cases h

def fourPages : State := start 256 260 fun _ _ => 0

def afterMalloc (len p : ℕ) (s : State) : State :=
  let k := (malloc len s.k).kernel s.k
  ⟨k, Function.update s.live p (some len), heldAfter s.held s.k.mm k.mm⟩

def afterStore (a v : ℕ) (s : State) : State :=
  { s with k := { s.k with mm := setWord s.k.mm a v } }

def afterFree (p : ℕ) (size : ℤ) (s : State) : State :=
  let k := (freeS p size s.k).kernel s.k
  ⟨k, Function.update s.live p none, heldAfter s.held s.k.mm k.mm⟩

def oneObject : State := afterMalloc 20 1056768 fourPages

def twoObjects : State := afterMalloc 0 1052672 oneObject

def storedInto : State := afterStore 1056772 7 twoObjects

theorem oneObject_step : Step fourPages (.malloc 20) oneObject :=
  .malloc (Outcome.eq_returned _ (by decide +kernel))

theorem twoObjects_step : Step oneObject (.malloc 0) twoObjects :=
  .malloc (Outcome.eq_returned _ (by decide +kernel))

theorem twoObjects_live : twoObjects.live 1056768 = some 20 ∧ storedInto.live 1052672 = some 0 := by
  decide

theorem stored_run : Run oneObject [.malloc 0, .store 1056768 1056772 7, .free 1052672 0]
    (afterFree 1052672 0 storedInto) :=
  .cons twoObjects_step
    (.cons (.store 7 twoObjects_live.1 (by decide) (by decide) (by decide))
      (.cons (.free twoObjects_live.2 (.inl rfl) (Outcome.eq_returned _ (by decide +kernel)))
        (.nil _)))

theorem allocator_orderly_stored : Orderly (afterFree 1052672 0 storedInto) :=
  allocator_orderly 256 260 (fun _ _ => 0) (Nat.le_refl 256) (.cons oneObject_step stored_run)

/-- What the last store of the run left at `a`. -/
def lastStored (a : ℕ) (es : List Event) (w : ℕ) : ℕ := es.foldl (Event.leaves a) w

/-- One step leaves an object that it does not free as its owner has it. -/
theorem Sound.step_word {q n a : ℕ} (h : Sound s) (hstep : Step s e t)
    (hq : s.live q = some n) (hfree : ∀ size, e ≠ .free q size) (ha : q ≤ a) (han : a < q + n)
    (ha4 : a % 4 = 0) : t.live q = some n ∧ word t.k.mm a = e.leaves a (word s.k.mm a) := by
  obtain ⟨S, h, hb⟩ := h
  cases hstep with
  | @malloc len p k hret =>
    rcases h.malloc_call hb (malloc_le hret) with ⟨x, k', S', hx, hnone, -, -, hkept⟩ | ⟨why, hx, -⟩
    · rw [hret] at hx
      cases hx
      have hne : q ≠ p := by
        rintro rfl
        simp [hq] at hnone
      exact ⟨(Function.update_of_ne hne _ _).trans hq, hkept q n a hq ha han ha4⟩
    · rw [hret] at hx
      cases hx
  | @free p len size k hp hsize hret =>
    obtain ⟨k', S', hx, -, -, hkept⟩ := h.free_call hb hp hsize
    rw [hret] at hx
    cases hx
    have hne : q ≠ p := by
      rintro rfl
      exact hfree size rfl
    have hlive : Function.update s.live p none q = some n := by
      rw [Function.update_of_ne hne]
      exact hq
    exact ⟨hlive, hkept q n a hlive ha han ha4⟩
  | @store p len b v hp hb' hbn hb4 =>
    refine ⟨hq, ?_⟩
    change word (setWord s.k.mm b v) a = _
    rw [word_setWord hb4 ha4]
    simp only [Event.leaves, eq_comm]
  | other hm =>
    obtain ⟨i, d, hd, hpg, -⟩ := h.live_word hq ha han
    exact ⟨hq, hm.word (h.held_word hd hpg)⟩

theorem Sound.run_word {q n a : ℕ} (h : Sound s) (hrun : Run s es u)
    (hq : s.live q = some n) (hfree : ∀ size, .free q size ∉ es) (ha : q ≤ a) (han : a < q + n)
    (ha4 : a % 4 = 0) : u.live q = some n ∧
      word u.k.mm a = lastStored a es (word s.k.mm a) := by
  induction hrun with
  | nil s => exact ⟨hq, rfl⟩
  | @cons s t u e es head tail ih =>
    obtain ⟨hlive, hword⟩ := h.step_word head hq
      (fun size heq => hfree size (heq ▸ List.mem_cons_self)) ha han ha4
    obtain ⟨hlast, hw⟩ := ih (h.step head) hlive fun size hmem =>
      hfree size (List.mem_cons_of_mem _ hmem)
    exact ⟨hlast, by rw [hw, hword, lastStored, lastStored, List.foldl_cons]⟩

/-- An object is private memory: until it is freed it holds what was last stored into it,
    whatever is allocated, freed and stored besides. -/
theorem object_private (startMem endMem : ℕ) (mem : ℕ → ℕ → ℕ) (hlow : LOW_MEM ≤ startMem)
    {before : List Event} {q n a : ℕ} (hbefore : Run (start startMem endMem mem) before s)
    (h : Run s es u) (hq : s.live q = some n) (hfree : ∀ size, .free q size ∉ es) (ha : q ≤ a)
    (han : a < q + n) (ha4 : a % 4 = 0) :
    u.live q = some n ∧ word u.k.mm a = lastStored a es (word s.k.mm a) :=
  ((start_sound mem hlow).run hbefore).run_word h hq hfree ha han ha4

theorem object_private_seven : (afterFree 1052672 0 storedInto).live 1056768 = some 20 ∧
    word (afterFree 1052672 0 storedInto).k.mm 1056772 = 7 :=
  object_private 256 260 (fun _ _ => 0) (Nat.le_refl 256) (.cons oneObject_step (.nil _))
    stored_run rfl (by simp) (by decide) (by decide) (by decide)

end

end Linux011.Malloc
