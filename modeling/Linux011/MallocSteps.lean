import Linux011.MallocBuckets

set_option autoImplicit false

/-!
# What one call of the allocator does to the shape

An object is taken from a bucket or given back to it, a bucket is filled or released, and a
page of descriptors is set up; each of these leaves a shape that `Holds`.
-/
namespace Linux011.Malloc
open Memory Chains

theorem object_aligned {i a : ℕ} (hi : i < 9) (ha : a % bucketSize i = 0) : a % 16 = 0 :=
  Nat.mod_eq_zero_of_dvd ((Nat.dvd_of_mod_eq_zero (bucketSize_mod hi).1).trans
    (Nat.dvd_of_mod_eq_zero ha))

section
variable {S : Shape} {k : Kernel} {live : ℕ → Option ℕ} {held : ℕ → Prop} {i d x len : ℕ}

/-- A word of a descriptor is in no page of objects. -/
theorem Holds.word_apart (h : Holds S k live held) {i d e o a : ℕ} (hd : S.In i d)
    (he : e % 16 = 0 ∧ S.slots (e / 4096)) (ho : o < 16) (ha : a - a % 4096 = page k.mm d) :
    a ≠ e + o := by
  rintro rfl
  have hno := h.page_slot i d hd
  rw [← ha] at hno
  refine hno ?_
  have hsame : (e + o - (e + o) % 4096) / 4096 = e / 4096 := by omega
  rw [hsame]
  exact he.2

theorem Holds.take (h : Holds S k live held) (hd : S.In i d)
    (hlen : bucketFor len bucketSizes 0 = some i) (hfree : freeptr k.mm d ≠ 0) :
    ∃ x k', takeObject d k = .returned x k' ∧ live x = none ∧ x - x % 4096 = page k.mm d ∧
      Except (fun a => a = d + 8 ∨ a = d + 12) k.mm k'.mm ∧
      Holds S k' (Function.update live x (some len)) held := by
  obtain ⟨l, hl⟩ := h.bucket i d hd
  obtain ⟨hal, hslot⟩ := h.desc hd
  cases l with
  | nil => exact absurd (chain_nil.1 hl.objs) hfree
  | cons x rest =>
  obtain ⟨hx, hx0, hrest⟩ := hl.objs
  obtain ⟨hxpage, hxmod, hxlive⟩ := (hl.mem_objs x).1 List.mem_cons_self
  have hnodup := List.nodup_cons.1 hl.objs.nodup
  let m₁ := setFreeptr k.mm d (word k.mm x)
  let m₂ := setRefcnt m₁ d (refcnt m₁ d + 1)
  have hsame : Except (fun a => a = d + 8 ∨ a = d + 12) k.mm m₂ :=
    (Except.set (by omega) (.inl rfl)).trans (Except.set (by omega) (.inr rfl))
  have hcount : refcnt m₁ d = refcnt k.mm d := by
    rw [refcnt, refcnt, show word m₁ (d + 12) = word k.mm (d + 12) from
      word_setWord_ne (by omega) (by omega) (by omega)]
  have hfreeptr : freeptr m₂ d = word k.mm x := by
    rw [freeptr, show word m₂ (d + 8) = word m₁ (d + 8) from
      word_setWord_ne (by omega) (by omega) (by omega)]
    exact word_setWord_self (by omega)
  have hdesc : ∀ e o, e % 16 = 0 → o < 16 → o % 4 = 0 → (e ≠ d ∨ o < 8) →
      word m₂ (e + o) = word k.mm (e + o) := fun e o he ho ho4 hne =>
    hsame.word _ (by omega) (by omega)
  refine ⟨x, { k with mm := m₂ }, by simp only [takeObject, hx, m₁, m₂], hxlive, hxpage, hsame,
    h.rebucket (fun f hf => (h.mapped f hf).2.2) h.room ?_ ?_ ?_ ?_⟩
  · intro e he
    exact hdesc e 4 ((h.slot e).1 he).1 (by omega) rfl (.inr (by omega))
  · intro j e he
    exact hdesc e 0 (h.desc he).1 (by omega) rfl (.inr (by omega))
  · intro j e he
    have hobj : ∀ a, a - a % 4096 = page k.mm e → a % 16 = 0 → word m₂ a = word k.mm a :=
      fun a ha ha16 => hsame.word a (by omega) (by
        have h8 := h.word_apart he ⟨hal, hslot⟩ (show 8 < 16 by omega) ha
        have h12 := h.word_apart he ⟨hal, hslot⟩ (show 12 < 16 by omega) ha
        omega)
    have hpage : page m₂ e = page k.mm e :=
      hdesc e 0 (h.desc he).1 (by omega) rfl (.inr (by omega))
    by_cases hed : e = d
    · subst hed
      obtain rfl := h.apart i j e hd he
      refine ⟨rest, by rw [hpage]; exact hl.aligned, ?_, fun a => ?_, ?_⟩
      · rw [hfreeptr]
        refine hrest.congr fun a ha => ?_
        obtain ⟨hapage, hamod, -⟩ := (hl.mem_objs a).1 (List.mem_cons_of_mem _ ha)
        exact hobj a hapage (object_aligned he.1 hamod)
      · rw [hpage, Function.update_apply]
        by_cases hax : a = x
        · simp only [hax, hnodup.1, if_true, reduceCtorEq, and_false]
        · rw [if_neg hax, ← hl.mem_objs a, List.mem_cons, or_iff_right hax]
      · rw [hpage, refcnt_setRefcnt hal, hcount, hl.count, ← hxpage, liveIn_insert hxlive,
          Nat.mod_eq_of_lt]
        have := liveIn_le live (x - x % 4096)
        omega
    · obtain ⟨l', hl'⟩ := h.bucket j e he
      refine ⟨l', hl'.frame hpage (hdesc e 8 (h.desc he).1 (by omega) rfl (.inl hed)) ?_ ?_ ?_⟩
      · rw [refcnt, refcnt, hdesc e 12 (h.desc he).1 (by omega) rfl (.inl hed)]
      · intro a ha
        obtain ⟨hapage, hamod, -⟩ := (hl'.mem_objs a).1 ha
        exact hobj a hapage (object_aligned he.1 hamod)
      · intro a ha
        refine Function.update_of_ne ?_ _ _
        rintro rfl
        exact hed (h.page_inj j i e d he hd (ha.symm.trans hxpage))
  · intro a n ha
    rw [Function.update_apply] at ha
    split_ifs at ha with hax
    · injection ha with ha
      subst ha hax
      exact ⟨i, d, hlen, hd, hxpage, hxmod⟩
    · exact h.object a n ha

theorem Holds.page_ne (h : Holds S k live held) (hd : S.In i d) : 4096 ≤ page k.mm d := by
  obtain ⟨l, hl⟩ := h.bucket i d hd
  have hf := hl.aligned
  have hheld : held (page k.mm d / 4096) := (h.held_iff _).2 (.inr ⟨i, d, hd, by omega⟩)
  have := (h.mapped _ hheld).1
  simp only [LOW_MEM] at this
  omega

theorem Holds.desc_ne (h : Holds S k live held) (hd : S.In i d) : d ≠ 0 :=
  (h.chain i hd.1).mem_ne d hd.2

theorem Holds.give (h : Holds S k live held) (hd : S.In i d) (hx : live x ≠ none)
    (hpg : x - x % 4096 = page k.mm d) (hmod : x % bucketSize i = 0) :
    Except (fun a => a = x ∨ a = d + 8 ∨ a = d + 12) k.mm (giveObject x d k.mm) ∧
    Holds S { k with mm := giveObject x d k.mm } (Function.update live x none) held := by
  obtain ⟨l, hl⟩ := h.bucket i d hd
  obtain ⟨hal, hslot⟩ := h.desc hd
  have hx16 := object_aligned hd.1 hmod
  have hxne : ∀ e o, e % 16 = 0 ∧ S.slots (e / 4096) → o < 16 → x ≠ e + o := fun e o he ho =>
    h.word_apart hd he ho hpg
  have hx8 := hxne d 8 ⟨hal, hslot⟩ (by omega)
  have hx12 := hxne d 12 ⟨hal, hslot⟩ (by omega)
  let m₁ := setWord k.mm x (freeptr k.mm d)
  let m₂ := setFreeptr m₁ d x
  let m₃ := setRefcnt m₂ d (refcnt m₂ d + 65535)
  have hgive : giveObject x d k.mm = m₃ := rfl
  have hsame : Except (fun a => a = x ∨ a = d + 8 ∨ a = d + 12) k.mm m₃ :=
    ((Except.set (by omega) (.inl rfl)).trans (Except.set (by omega) (.inr (.inl rfl)))).trans
      (Except.set (by omega) (.inr (.inr rfl)))
  have hxword : word m₃ x = freeptr k.mm d := by
    rw [show word m₃ x = word m₂ x from word_setWord_ne (by omega) (by omega) hx12,
      show word m₂ x = word m₁ x from word_setWord_ne (by omega) (by omega) hx8]
    exact word_setWord_self (by omega)
  have hcount : refcnt m₂ d = refcnt k.mm d := by
    rw [refcnt, refcnt, show word m₂ (d + 12) = word m₁ (d + 12) from
        word_setWord_ne (by omega) (by omega) (by omega),
      show word m₁ (d + 12) = word k.mm (d + 12) from
        word_setWord_ne (by omega) (by omega) (Ne.symm hx12)]
  have hfreeptr : freeptr m₃ d = x := by
    rw [freeptr, show word m₃ (d + 8) = word m₂ (d + 8) from
      word_setWord_ne (by omega) (by omega) (by omega)]
    exact word_setWord_self (by omega)
  have hdesc : ∀ e o, e % 16 = 0 ∧ S.slots (e / 4096) → o < 16 → o % 4 = 0 → (e ≠ d ∨ o < 8) →
      word m₃ (e + o) = word k.mm (e + o) := fun e o he ho ho4 hne =>
    hsame.word _ (by omega) (by
      have := hxne e o he ho
      omega)
  have hpos := h.page_ne hd
  rw [hgive]
  refine ⟨hsame, h.rebucket (fun f hf => (h.mapped f hf).2.2) h.room ?_ ?_ ?_ ?_⟩
  · intro e he
    exact hdesc e 4 ((h.slot e).1 he) (by omega) rfl (.inr (by omega))
  · intro j e he
    exact hdesc e 0 (h.desc he) (by omega) rfl (.inr (by omega))
  · intro j e he
    have hobj : ∀ a, a - a % 4096 = page k.mm e → a % 16 = 0 → a ≠ x → word m₃ a = word k.mm a :=
      fun a ha ha16 hax => hsame.word a (by omega) (by
        have h8 := h.word_apart he ⟨hal, hslot⟩ (show 8 < 16 by omega) ha
        have h12 := h.word_apart he ⟨hal, hslot⟩ (show 12 < 16 by omega) ha
        omega)
    have hpage : page m₃ e = page k.mm e := hdesc e 0 (h.desc he) (by omega) rfl (.inr (by omega))
    obtain ⟨l', hl'⟩ := h.bucket j e he
    have hxl' : x ∉ l' := fun hmem => hx ((hl'.mem_objs x).1 hmem).2.2
    have hlinks : ∀ a ∈ l', word m₃ a = word k.mm a := fun a ha => by
      obtain ⟨hapage, hamod, -⟩ := (hl'.mem_objs a).1 ha
      exact hobj a hapage (object_aligned he.1 hamod) (ne_of_mem_of_not_mem ha hxl')
    by_cases hed : e = d
    · subst hed
      obtain rfl := h.apart i j e hd he
      refine ⟨x :: l', by rw [hpage]; exact hl'.aligned, ⟨hfreeptr, by omega, ?_⟩, fun a => ?_, ?_⟩
      · rw [hxword]
        exact hl'.objs.congr hlinks
      · rw [hpage, Function.update_apply, List.mem_cons, hl'.mem_objs a]
        by_cases hax : a = x
        · simp only [hax, hpg, hmod, if_true, true_or, and_self]
        · simp only [hax, if_false, false_or]
      · have hcard := liveIn_erase hx
        have hle := liveIn_le live (page k.mm e)
        rw [hpg] at hcard
        rw [hpage, refcnt_setRefcnt hal, hcount, hl'.count]
        omega
    · refine ⟨l', hl'.frame hpage (hdesc e 8 (h.desc he) (by omega) rfl (.inl hed)) ?_ hlinks ?_⟩
      · rw [refcnt, refcnt, hdesc e 12 (h.desc he) (by omega) rfl (.inl hed)]
      · intro a ha
        refine Function.update_of_ne ?_ _ _
        rintro rfl
        exact hed (h.page_inj j i e d he hd (ha.symm.trans hpg))
  · intro a n ha
    rw [Function.update_apply] at ha
    split_ifs at ha with hax
    exact h.object a n ha

/-- The shape with the descriptor `d` of chain `i` on the free list. -/
def Shape.release (S : Shape) (i d : ℕ) (rest : List ℕ) : Shape where
  descs := Function.update S.descs i rest
  frees := d :: S.frees
  slots := S.slots

section
variable {before after : List ℕ}

theorem Holds.in_release (h : Holds S k live held) (hd : S.In i d)
    (hsplit : S.descs i = before ++ d :: after) (j e : ℕ) :
    (S.release i d (before ++ after)).In j e ↔ S.In j e ∧ e ≠ d := by
  simp only [Shape.In, Shape.release, Function.update_apply]
  rw [and_assoc]
  refine and_congr_right fun hj => ?_
  have hnodup := (h.chain i hd.1).nodup
  rw [hsplit, List.nodup_middle, List.nodup_cons] at hnodup
  split_ifs with hji
  · rw [hji, hsplit]
    constructor
    · intro he
      refine ⟨?_, ne_of_mem_of_not_mem he hnodup.1⟩
      simp only [List.mem_append, List.mem_cons] at he ⊢
      tauto
    · rintro ⟨he, hed⟩
      simp only [List.mem_append, List.mem_cons] at he ⊢
      tauto
  · refine iff_self_and.2 fun he hed => hji ?_
    exact h.apart j i d ⟨hj, hed ▸ he⟩ hd

/-- A page whose objects are all back is released, once its descriptor is off its chain. -/
theorem Holds.release (h : Holds S k live held) (hd : S.In i d)
    (hsplit : S.descs i = before ++ d :: after) (hempty : liveIn live (page k.mm d) = ∅)
    (k₁ : Kernel) {p : ℕ} (hsame : Except (fun a => before ≠ [] ∧ a = p + 4) k.mm k₁.mm)
    (hfree : k₁.freeBucketDesc = k.freeBucketDesc)
    (hother : ∀ j < 9, j ≠ i → k₁.chain j = k.chain j)
    (hfirst : before = [] → k₁.chain i = next k.mm d)
    (hlater : before ≠ [] → (∃ l, before = l ++ [p]) ∧ k₁.chain i = k.chain i ∧
      next k₁.mm p = next k.mm d) :
    ∃ k', releaseBucket d k₁ = .returned () k' ∧
      (∀ a, a % 4 = 0 → a ≠ d + 4 → (before ≠ [] → a ≠ p + 4) → word k'.mm a = word k.mm a) ∧
      (∀ f, LOW_MEM ≤ f → k'.mm.memMap (mapNr f) =
        if f = page k.mm d / 4096 then 0 else k.mm.memMap (mapNr f)) ∧
      Holds (S.release i d (before ++ after)) k' live
        (fun f => held f ∧ f ≠ page k.mm d / 4096) := by
  obtain ⟨hal, hslot⟩ := h.desc hd
  obtain ⟨l, hl⟩ := h.bucket i d hd
  have hpal := hl.aligned
  have hp16 : before ≠ [] → p % 16 = 0 ∧ p ≠ d ∧ S.In i p := fun hb => by
    obtain ⟨⟨l, rfl⟩, -⟩ := hlater hb
    have hp : S.In i p := ⟨hd.1, by rw [hsplit]; simp⟩
    have hnodup := (h.chain i hd.1).nodup
    rw [hsplit, List.nodup_middle, List.nodup_cons] at hnodup
    refine ⟨(h.desc hp).1, ?_, hp⟩
    rintro rfl
    exact hnodup.1 (by simp)
  have hheld : held (page k.mm d / 4096) :=
    (h.held_iff _).2 (.inr ⟨i, d, hd, by omega⟩)
  obtain ⟨hlow, hmax, hhigh, hone⟩ := h.mapped _ hheld
  have hpage₁ : page k₁.mm d = page k.mm d := hsame.word d (by omega) (by
    rintro ⟨hb, heq⟩
    have := hp16 hb
    omega)
  have hfreed := freePage_main (m := k₁.mm) (p := page k.mm d / 4096) hlow
    (by rw [hsame.high]; exact hhigh) (by
      rw [hsame.memMap]
      exact hone ▸ Nat.one_ne_zero)
  let m' := setNext (k₁.mm.setMap (page k.mm d / 4096 - 256)
    (k₁.mm.memMap (page k.mm d / 4096 - 256) - 1)) d k.freeBucketDesc
  have hword : ∀ a, a % 4 = 0 → a ≠ d + 4 → (before ≠ [] → a ≠ p + 4) →
      word m' a = word k.mm a := fun a ha had hap => by
    rw [show word m' a = word k₁.mm a from word_setWord_ne (by omega) ha had]
    exact hsame.word a ha fun hS => hap hS.1 hS.2
  have hnextd : next m' d = k.freeBucketDesc := word_setWord_self (by omega)
  have hmap : ∀ f, LOW_MEM ≤ f → m'.memMap (mapNr f) =
      if f = page k.mm d / 4096 then 0 else k.mm.memMap (mapNr f) := fun f hf => by
    have hval : k₁.mm.memMap (page k.mm d / 4096 - 256) = 1 := by
      rw [hsame.memMap]
      exact hone
    have hset : m'.memMap = (k₁.mm.setMap (page k.mm d / 4096 - 256)
        (k₁.mm.memMap (page k.mm d / 4096 - 256) - 1)).memMap := setWord_memMap
    have hiff : mapNr f = page k.mm d / 4096 - 256 ↔ f = page k.mm d / 4096 := by
      simp only [mapNr, LOW_MEM] at hlow hf ⊢
      omega
    rw [hset, Mm.setMap_memMap, hval, hsame.memMap]
    simp only [hiff, Nat.sub_self, Nat.zero_mod]
  have hlink : ∀ e, e % 16 = 0 → e ≠ d → (before ≠ [] → e ≠ p) → next m' e = next k.mm e :=
    fun e he hed hep => hword _ (by omega) (by omega) (fun hb => by
      have := hep hb
      have := hp16 hb
      omega)
  have hfield : ∀ e o, e % 16 = 0 → o < 16 → o % 4 = 0 → o ≠ 4 →
      word m' (e + o) = word k.mm (e + o) := fun e o he ho ho4 hne =>
    hword _ (by omega) (by omega) (fun hb => by
      have := hp16 hb
      omega)
  have hobj : ∀ j e a, S.In j e → a - a % 4096 = page k.mm e → a % 16 = 0 →
      word m' a = word k.mm a := fun j e a he ha ha16 =>
    hword a (by omega) (h.word_apart he ⟨hal, hslot⟩ (by omega) ha) (fun hb =>
      h.word_apart he (h.desc (hp16 hb).2.2) (by omega) ha)
  have hin := h.in_release hd hsplit
  have hnodup := (h.chain i hd.1).nodup
  rw [hsplit, List.nodup_middle, List.nodup_cons] at hnodup
  refine ⟨{ k₁ with mm := m', freeBucketDesc := d }, ?_, hword, hmap, ?_⟩
  · simp only [releaseBucket, hpage₁, hfreed, hfree, m']
  · refine ⟨fun j hj => ?_, ⟨rfl, h.desc_ne hd, ?_⟩, fun j j' e he he' => ?_, fun j e he => ?_,
      fun e => ?_, fun j j' e e' he he' heq => ?_, fun j e he => ?_, fun f => ?_, fun f hf => ?_,
      fun j hj hzero => ?_, fun j e he => ?_, fun a n ha => ?_⟩
    · -- only the link of the node before `d` is new
      simp only [Shape.release, Function.update_apply]
      split_ifs with hji
      · subst hji
        rcases List.eq_nil_or_concat' before with hb | ⟨l', q, hb⟩
        · have hc := h.chain j hj
          rw [hsplit, hb] at hc
          rw [hb, hfirst hb]
          refine hc.2.2.congr fun e he => hlink e (h.desc ⟨hj, ?_⟩).1 ?_ fun hne => absurd hb hne
          · rw [hsplit, hb]
            exact List.mem_cons_of_mem _ he
          · exact ne_of_mem_of_not_mem he fun hmem => hnodup.1 (List.mem_append_right _ hmem)
        · have hne : before ≠ [] := by simp [hb]
          obtain ⟨⟨l'', hl''⟩, hhead, hpd⟩ := hlater hne
          obtain ⟨-, hqp⟩ := List.append_inj' (hb.symm.trans hl'') rfl
          obtain rfl : q = p := by simpa using hqp
          have hc := h.chain j hj
          rw [hsplit, hb, List.append_assoc] at hc
          rw [hb, List.append_assoc, hhead]
          refine (Chain.unlink hc).congr fun e he => ?_
          rw [Function.update_apply]
          split_ifs with heq
          · rw [heq, ← hpd]
            exact word_setWord_ne (by omega) (by have := (hp16 hne).1; omega)
              (by have := (hp16 hne).2.1; omega)
          · have hed : e ≠ d := by
              refine ne_of_mem_of_not_mem he ?_
              rw [hb] at hnodup
              simpa using hnodup.1
            refine hlink e (h.desc ⟨hj, ?_⟩).1 hed fun _ => heq
            rw [hsplit, hb]
            simp only [List.mem_append, List.mem_cons] at he ⊢
            tauto
      · rw [hother j hj hji]
        refine (h.chain j hj).congr fun e he => hlink e (h.desc ⟨hj, he⟩).1 ?_ fun hb => ?_
        · rintro rfl
          exact hji (h.apart j i e ⟨hj, he⟩ hd)
        · rintro rfl
          exact hji (h.apart j i e ⟨hj, he⟩ (hp16 hb).2.2)
    · change Chain 0 (next m') (next m' d) S.frees
      rw [hnextd]
      refine h.free.congr fun e he => hlink e ((h.slot e).1 (.inl he)).1 ?_ fun hb => ?_
      · exact ne_of_mem_of_not_mem he (h.apart_free i d hd)
      · exact ne_of_mem_of_not_mem he (h.apart_free i p (hp16 hb).2.2)
    · exact h.apart j j' e ((hin j e).1 he).1 ((hin j' e).1 he').1
    · obtain ⟨he, hed⟩ := (hin j e).1 he
      simp only [Shape.release, List.mem_cons, not_or]
      exact ⟨hed, h.apart_free j e he⟩
    · change (e ∈ d :: S.frees ∨ ∃ j, _) ↔ _ ∧ S.slots _
      rw [← h.slot e, List.mem_cons]
      simp only [hin]
      constructor
      · rintro ((rfl | he) | ⟨j, he, -⟩)
        · exact .inr ⟨i, hd⟩
        · exact .inl he
        · exact .inr ⟨j, he⟩
      · rintro (he | ⟨j, he⟩)
        · exact .inl (.inr he)
        · by_cases hed : e = d
          · exact .inl (.inl hed)
          · exact .inr ⟨j, he, hed⟩
    · have he := ((hin j e).1 he).1
      have he' := ((hin j' e').1 he').1
      refine h.page_inj j j' e e' he he' ?_
      rw [← show page m' e = page k.mm e from hfield e 0 (h.desc he).1 (by omega) rfl (by omega),
        ← show page m' e' = page k.mm e' from hfield e' 0 (h.desc he').1 (by omega) rfl (by omega)]
      exact heq
    · have he := ((hin j e).1 he).1
      change ¬ S.slots (page m' e / 4096)
      rw [show page m' e = page k.mm e from hfield e 0 (h.desc he).1 (by omega) rfl (by omega)]
      exact h.page_slot j e he
    · change held f ∧ _ ↔ S.slots f ∨ ∃ j e, _ ∧ page m' e = f * 4096
      rw [h.held_iff f]
      constructor
      · rintro ⟨hs | ⟨j, e, he, hpf⟩, hf⟩
        · exact .inl hs
        · refine .inr ⟨j, e, (hin j e).2 ⟨he, ?_⟩, ?_⟩
          · rintro rfl
            omega
          · exact (hfield e 0 (h.desc he).1 (by omega) rfl (by omega)).trans hpf
      · rintro (hs | ⟨j, e, he, hpf⟩)
        · refine ⟨.inl hs, ?_⟩
          rintro rfl
          exact h.page_slot i d hd hs
        · obtain ⟨he, hed⟩ := (hin j e).1 he
          have hpe : page m' e = page k.mm e := hfield e 0 (h.desc he).1 (by omega) rfl (by omega)
          rw [hpe] at hpf
          refine ⟨.inr ⟨j, e, he, hpf⟩, ?_⟩
          rintro rfl
          exact hed (h.page_inj j i e d he hd (by omega))
    · obtain ⟨hf₁, hf₂, hf₃, hf₄⟩ := h.mapped f hf.1
      refine ⟨hf₁, hf₂, ?_, ?_⟩
      · change f < k₁.mm.highMemory
        rw [hsame.high]
        exact hf₃
      · exact (hmap f hf₁).trans ((if_neg hf.2).trans hf₄)
    · have hz := hmap (LOW_MEM + j) (Nat.le_add_right _ _)
      have hnr : mapNr (LOW_MEM + j) = j := Nat.add_sub_cancel_left _ _
      rw [hnr] at hz
      change LOW_MEM + j < k₁.mm.highMemory
      rw [hsame.high]
      split_ifs at hz with hjd
      · rw [hjd]
        exact hhigh
      · exact h.room j hj (hz.symm.trans hzero)
    · obtain ⟨he, hed⟩ := (hin j e).1 he
      obtain ⟨l', hl'⟩ := h.bucket j e he
      have he16 := (h.desc he).1
      refine ⟨l', hl'.frame (hfield e 0 he16 (by omega) rfl (by omega))
        (hfield e 8 he16 (by omega) rfl (by omega)) ?_ (fun a ha => ?_) (fun _ _ => rfl)⟩
      · exact congrArg (· % 65536) (hfield e 12 he16 (by omega) rfl (by omega))
      · obtain ⟨hapage, hamod, -⟩ := (hl'.mem_objs a).1 ha
        exact hobj j e a he hapage (object_aligned he.1 hamod)
    · obtain ⟨j, e, hj, he, hapage, hamod⟩ := h.object a n ha
      refine ⟨j, e, hj, (hin j e).2 ⟨he, ?_⟩, ?_, hamod⟩
      · rintro rfl
        have hmem : a % 4096 ∈ liveIn live (page k.mm e) := by
          rw [mem_liveIn, ← hapage, show a - a % 4096 + a % 4096 = a by omega, ha]
          exact ⟨Nat.mod_lt _ (by omega), by simp⟩
        rw [hempty] at hmem
        exact absurd hmem (Finset.notMem_empty _)
      · exact hapage.trans (hfield e 0 (h.desc he).1 (by omega) rfl (by omega)).symm

end

/-- What `get_free_page` does to memory: one page, counted and cleared. -/
structure Got (p : ℕ) (m m' : Mm) : Prop where
  low : LOW_MEM ≤ p
  upto : p < LOW_MEM + PAGING_PAGES
  unused : m.memMap (mapNr p) = 0
  memMap : ∀ f, LOW_MEM ≤ f → m'.memMap (mapNr f) = if f = p then 1 else m.memMap (mapNr f)
  high : m'.highMemory = m.highMemory
  word : ∀ a, a % 4 = 0 → a / 4096 ≠ p → word m' a = word m a

theorem getFreePage_got {m m' : Mm} {p : ℕ} (h : getFreePage m = some (p, m')) : Got p m m' := by
  rw [getFreePage, Option.map_eq_some_iff] at h
  obtain ⟨i, hi, heq⟩ := h
  obtain ⟨hlt, hzero⟩ := findFree_some hi
  cases heq
  have hnr : mapNr (LOW_MEM + i) = i := Nat.add_sub_cancel_left _ _
  refine ⟨Nat.le_add_right _ _, by omega, by rw [hnr]; exact hzero, fun f hf => ?_, rfl,
    fun a _ ha => ?_⟩
  · rw [Mm.fill_memMap, Mm.setMap_memMap]
    refine if_congr ⟨fun heq => ?_, fun heq => by rw [heq, hnr]⟩ rfl rfl
    rw [← heq]
    exact (Nat.add_sub_cancel' hf).symm
  · unfold Malloc.word
    rw [Mm.fill_mem_ne _ _ _ ha, Mm.setMap_mem]

theorem Got.trans {m m' m₂ : Mm} {p : ℕ} {P : ℕ → Prop} (h : Got p m m') (h' : Except P m' m₂)
    (hP : ∀ a, P a → a / 4096 = p) : Got p m m₂ where
  low := h.low
  upto := h.upto
  unused := h.unused
  memMap f hf := by rw [h'.memMap]; exact h.memMap f hf
  high := h'.high.trans h.high
  word a ha hap := (h'.word a ha fun hPa => hap (hP a hPa)).trans (h.word a ha hap)

theorem Holds.fresh (h : Holds S k live held) {p : ℕ} (hlow : LOW_MEM ≤ p)
    (hupto : p < LOW_MEM + PAGING_PAGES) (hfree : k.mm.memMap (mapNr p) = 0) :
    ¬ held p ∧ ¬ S.slots p ∧ p < k.mm.highMemory ∧ (∀ i d, S.In i d → page k.mm d ≠ p * 4096) ∧
      ∀ a, a / 4096 = p → live a = none := by
  have hheld : ¬ held p := fun hp => by
    have := (h.mapped p hp).2.2.2
    omega
  have hpage : ∀ i d, S.In i d → page k.mm d ≠ p * 4096 := fun i d hd hp =>
    hheld ((h.held_iff p).2 (.inr ⟨i, d, hd, hp⟩))
  refine ⟨hheld, fun hs => hheld ((h.held_iff p).2 (.inl hs)), ?_, hpage, fun a ha => ?_⟩
  · have hroom := h.room (mapNr p) (by simp only [mapNr, LOW_MEM] at *; omega) hfree
    simp only [mapNr, LOW_MEM] at hroom hlow
    omega
  · by_contra hlive
    obtain ⟨n, hn⟩ := Option.ne_none_iff_exists'.1 hlive
    obtain ⟨i, d, -, hd, hpg, -⟩ := h.object a n hn
    exact hpage i d hd (by omega)

/-- `mem_map` after a page was got. -/
theorem Holds.mapped_got (h : Holds S k live held) {p : ℕ} {m' : Mm} (hlow : LOW_MEM ≤ p)
    (hupto : p < LOW_MEM + PAGING_PAGES) (hfree : k.mm.memMap (mapNr p) = 0)
    (hmap : ∀ f, LOW_MEM ≤ f → m'.memMap (mapNr f) = if f = p then 1 else k.mm.memMap (mapNr f))
    (hhigh : m'.highMemory = k.mm.highMemory) :
    (∀ f, held f ∨ f = p → LOW_MEM ≤ f ∧ f < LOW_MEM + PAGING_PAGES ∧ f < m'.highMemory ∧
      m'.memMap (mapNr f) = 1) ∧
    ∀ i < PAGING_PAGES, m'.memMap i = 0 → LOW_MEM + i < m'.highMemory := by
  obtain ⟨-, -, hph, -⟩ := h.fresh hlow hupto hfree
  rw [hhigh]
  refine ⟨?_, fun i hi hz => h.room i hi ?_⟩
  · rintro f (hf | rfl)
    · obtain ⟨h₁, h₂, h₃, h₄⟩ := h.mapped f hf
      refine ⟨h₁, h₂, h₃, ?_⟩
      rw [hmap f h₁]
      split_ifs
      · rfl
      · exact h₄
    · exact ⟨hlow, hupto, hph, by rw [hmap f hlow, if_pos rfl]⟩
  · have hnr : mapNr (LOW_MEM + i) = i := Nat.add_sub_cancel_left _ _
    have hval := hmap (LOW_MEM + i) (Nat.le_add_right _ _)
    rw [hnr, hz] at hval
    split_ifs at hval
    exact hval.symm

/-- The shape with a new page `p` of free descriptors. -/
def Shape.addSlots (S : Shape) (p : ℕ) : Shape where
  descs := S.descs
  frees := List.range' (p * 4096) 256 16 ++ S.frees
  slots f := S.slots f ∨ f = p

theorem Holds.initDesc (h : Holds S k live held) {p : ℕ} {mm : Mm}
    (hget : getFreePage k.mm = some (p, mm)) :
    ∃ k', initBucketDesc k = .returned () k' ∧ k'.freeBucketDesc ≠ 0 ∧ Got p k.mm k'.mm ∧
      k'.chain = k.chain ∧ Holds (S.addSlots p) k' live (fun f => held f ∨ f = p) := by
  have hgot := getFreePage_got hget
  obtain ⟨hnheld, hnslot, hph, hnpage, -⟩ := h.fresh hgot.low hgot.upto hgot.unused
  have hp256 : 256 ≤ p := hgot.low
  obtain ⟨hlast, hexcept, hlinks⟩ := linkUp_spec 16 4 255 (p * 4096) mm (by omega) rfl rfl (by omega)
  let r := linkUp 16 4 255 (p * 4096) mm
  let m' := setNext r.1 (p * 4096 + 255 * 16) k.freeBucketDesc
  have hgot' : Got p k.mm m' := by
    refine (hgot.trans hexcept ?_).trans
      (P := fun a => a / 4096 = p) (Except.set (by omega) (by omega)) (fun _ => id)
    rintro b ⟨j, hj, rfl⟩
    omega
  obtain ⟨hmapped, hroom⟩ :=
    h.mapped_got hgot.low hgot.upto hgot.unused hgot'.memMap hgot'.high
  -- descriptors in use and objects are in other pages
  have hword : ∀ e o, (e ∈ S.frees ∨ ∃ i, S.In i e) → o < 16 → o % 4 = 0 →
      word m' (e + o) = word k.mm (e + o) := fun e o he ho ho4 => by
    obtain ⟨he16, hes⟩ := (h.slot e).1 he
    refine hgot'.word _ (by omega) fun hep => hnslot ?_
    rw [← hep, show (e + o) / 4096 = e / 4096 by omega]
    exact hes
  have hnew : ∀ j < 255, next m' (p * 4096 + j * 16) = p * 4096 + (j + 1) * 16 := fun j hj => by
    rw [next, show word m' (p * 4096 + j * 16 + 4) = word r.1 (p * 4096 + j * 16 + 4) from
      word_setWord_ne (by omega) (by omega) (by omega)]
    exact hlinks j hj
  have hend : next m' (p * 4096 + 255 * 16) = k.freeBucketDesc := word_setWord_self (by omega)
  have hfrees : Chain 0 (next m') k.freeBucketDesc S.frees :=
    h.free.congr fun e he => hword e 4 (.inl he) (by omega) rfl
  have hpage : ∀ i d, S.In i d → page m' d = page k.mm d := fun i d hd =>
    hword d 0 (.inr ⟨i, hd⟩) (by omega) rfl
  refine ⟨{ k with mm := m', freeBucketDesc := p * 4096 }, ?_, ?_, hgot', rfl, ?_⟩
  · simp only [initBucketDesc, hget, Nat.reduceDiv, Nat.reduceSub, hlast, m', r]
  · change p * 4096 ≠ 0
    omega
  · refine ⟨fun i hi => ?_, chain_range (a := p * 4096) hfrees 255 (by omega) hnew hend, h.apart, fun i d hd => ?_,
      fun d => ?_, fun i j d e hd he heq => ?_, fun i d hd => ?_, fun f => ?_, hmapped, hroom,
      fun i d hd => ?_, fun a n ha => ?_⟩
    · exact (h.chain i hi).congr fun e he => hword e 4 (.inr ⟨i, hi, he⟩) (by omega) rfl
    · obtain ⟨hd16, hds⟩ := h.desc hd
      simp only [Shape.addSlots, List.mem_append, List.mem_range', not_or]
      refine ⟨?_, h.apart_free i d hd⟩
      rintro ⟨j, hj, rfl⟩
      refine hnslot ?_
      rwa [show (p * 4096 + 16 * j) / 4096 = p by omega] at hds
    · change (d ∈ List.range' (p * 4096) 256 16 ++ S.frees ∨ ∃ i, S.In i d) ↔
        d % 16 = 0 ∧ (S.slots (d / 4096) ∨ d / 4096 = p)
      rw [List.mem_append, or_assoc, h.slot d, List.mem_range']
      constructor
      · rintro (⟨j, hj, rfl⟩ | ⟨hd16, hds⟩)
        · exact ⟨by omega, .inr (by omega)⟩
        · exact ⟨hd16, .inl hds⟩
      · rintro ⟨hd16, hds | hdp⟩
        · exact .inr ⟨hd16, hds⟩
        · exact .inl ⟨(d - p * 4096) / 16, by omega, by omega⟩
    · refine h.page_inj i j d e hd he ?_
      rw [← hpage i d hd, ← hpage j e he]
      exact heq
    · change ¬ (S.slots (page m' d / 4096) ∨ page m' d / 4096 = p)
      rw [hpage i d hd]
      obtain ⟨l, hl⟩ := h.bucket i d hd
      have hal := hl.aligned
      rintro (hs | hp)
      · exact h.page_slot i d hd hs
      · exact hnpage i d hd (by omega)
    · change held f ∨ f = p ↔ (S.slots f ∨ f = p) ∨ ∃ i d, S.In i d ∧ page m' d = f * 4096
      rw [h.held_iff, or_right_comm]
      refine or_congr_right ⟨?_, ?_⟩
      · rintro ⟨i, d, hd, hpf⟩
        exact ⟨i, d, hd, (hpage i d hd).trans hpf⟩
      · rintro ⟨i, d, hd, hpf⟩
        exact ⟨i, d, hd, (hpage i d hd).symm.trans hpf⟩
    · obtain ⟨l, hl⟩ := h.bucket i d hd
      refine ⟨l, hl.frame (hpage i d hd) (hword d 8 (.inr ⟨i, hd⟩) (by omega) rfl)
        (congrArg (· % 65536) (hword d 12 (.inr ⟨i, hd⟩) (by omega) rfl)) (fun a ha => ?_)
        (fun _ _ => rfl)⟩
      obtain ⟨hapage, hamod, -⟩ := (hl.mem_objs a).1 ha
      have ha16 := object_aligned hd.1 hamod
      refine hgot'.word a (by omega) fun hap => hnpage i d hd ?_
      omega
    · obtain ⟨i, d, hi, hd, hapage, hamod⟩ := h.object a n ha
      exact ⟨i, d, hi, hd, hapage.trans (hpage i d hd).symm, hamod⟩

/-- The shape with the first free descriptor at the head of chain `i`. -/
def Shape.fill (S : Shape) (i d : ℕ) (rest : List ℕ) : Shape where
  descs := Function.update S.descs i (d :: S.descs i)
  frees := rest
  slots := S.slots

theorem Shape.in_fill (S : Shape) (d : ℕ) (rest : List ℕ) {i : ℕ} (hi : i < 9) (j e : ℕ) :
    (S.fill i d rest).In j e ↔ S.In j e ∨ j = i ∧ e = d := by
  simp only [Shape.In, Shape.fill, Function.update_apply]
  split_ifs with hji
  · subst hji
    simp only [List.mem_cons]
    tauto
  · simp [hji]

theorem mem_objects {p a : ℕ} (hi : i < 9) :
    a ∈ List.range' (p * 4096) (4096 / bucketSize i - 1 + 1) (bucketSize i) ↔
      a - a % 4096 = p * 4096 ∧ a % bucketSize i = 0 := by
  have hsize := bucketSize_cases hi
  rw [List.mem_range']
  generalize bucketSize i = size at hsize ⊢
  constructor
  · rintro ⟨j, hj, rfl⟩
    obtain rfl | rfl | rfl | rfl | rfl | rfl | rfl | rfl | rfl := hsize <;> omega
  · rintro ⟨hpg, hmod⟩
    refine ⟨a % 4096 / size, ?_, ?_⟩
    all_goals obtain rfl | rfl | rfl | rfl | rfl | rfl | rfl | rfl | rfl := hsize <;> omega

theorem liveIn_fresh {p : ℕ} (hlive : ∀ a, a / 4096 = p → live a = none) :
    liveIn live (p * 4096) = ∅ := by
  ext o
  rw [mem_liveIn]
  simp only [Finset.notMem_empty, iff_false, not_and, not_not]
  exact fun ho => hlive _ (by omega)

/-- The words of a descriptor in use, when its page has just been chained up. -/
structure Filled (i d p first : ℕ) (m m' : Mm) : Prop where
  page : page m' d = p * 4096
  next : next m' d = first
  freeptr : freeptr m' d = p * 4096
  refcnt : refcnt m' d = 0
  chained : Chain 0 (Malloc.word m') (p * 4096)
    (List.range' (p * 4096) (4096 / bucketSize i - 1 + 1) (bucketSize i))
  word : ∀ a, a % 4 = 0 → a / 4096 ≠ p → a < d ∨ d + 16 ≤ a → Malloc.word m' a = Malloc.word m a
  memMap : ∀ f, LOW_MEM ≤ f → m'.memMap (mapNr f) = if f = p then 1 else m.memMap (mapNr f)
  high : m'.highMemory = m.highMemory

theorem fillBucket_filled {p : ℕ} {mm : Mm} (hi : i < 9) (hd : k.freeBucketDesc = d)
    (hd16 : d % 16 = 0)
    (hget : getFreePage (setBucketSize (setRefcnt k.mm d 0) d (bucketSize i)) = some (p, mm))
    (hdp : d / 4096 ≠ p) :
    ∃ m', fillBucket i k = .returned d
      ⟨m', Function.update k.chain i d, Malloc.next k.mm d⟩ ∧ Filled i d p (k.chain i) k.mm m' := by
  have hgot := getFreePage_got hget
  have hp256 : 256 ≤ p := hgot.low
  have hsize := bucketSize_pos hi
  have hmod := bucketSize_mod hi
  have hn : (4096 / bucketSize i - 1) * bucketSize i + bucketSize i = 4096 := by
    obtain hs | hs | hs | hs | hs | hs | hs | hs | hs := bucketSize_cases hi <;> rw [hs]
  generalize hcount : 4096 / bucketSize i - 1 = n at hn
  let m₁ := setPage (setFreeptr mm d (p * 4096)) d (p * 4096)
  obtain ⟨hlast, hexcept, hlinks⟩ := linkUp_spec (bucketSize i) 0 n
    (p * 4096) m₁ (by omega) (by omega) rfl (by omega)
  let r := linkUp (bucketSize i) 0 n (p * 4096) m₁
  let m₂ := setWord r.1 (p * 4096 + n * bucketSize i) 0
  let m' := setNext m₂ d (k.chain i)
  have hpage₂ : Except (fun a => a / 4096 = p) m₁ m₂ := by
    refine (hexcept.mono ?_).trans (Except.set (by omega) (by omega))
    rintro b ⟨j, hj, rfl⟩
    have : (j + 1) * bucketSize i ≤ n * bucketSize i := Nat.mul_le_mul_right _ hj
    rw [Nat.succ_mul] at this
    omega
  have hdesc : Except (fun a => d ≤ a ∧ a < d + 16) k.mm
      (setBucketSize (setRefcnt k.mm d 0) d (bucketSize i)) :=
    (Except.set (by omega) (by omega)).trans (Except.set (by omega) (by omega))
  have hdesc₁ : Except (fun a => d ≤ a ∧ a < d + 16) mm m₁ :=
    (Except.set (by omega) (by omega)).trans (Except.set (by omega) (by omega))
  have hdesc₂ : Except (fun a => a = d + 4) m₂ m' := Except.set (by omega) rfl
  refine ⟨m', ?_, ⟨?_, ?_, ?_, ?_, ?_, ?_, ?_, ?_⟩⟩
  · simp only [fillBucket, hd, hget, hcount, hlast, m₁, m₂, m', r]
  · rw [page, hdesc₂.word d (by omega) (by omega), hpage₂.word d (by omega) hdp]
    exact word_setWord_self (by omega)
  · exact word_setWord_self (by omega)
  · rw [freeptr, hdesc₂.word _ (by omega) (by omega), hpage₂.word _ (by omega) (by omega),
      show word m₁ (d + 8) = word (setFreeptr mm d (p * 4096)) (d + 8) from
        word_setWord_ne (by omega) (by omega) (by omega)]
    exact word_setWord_self (by omega)
  · have hlow : word m' (d + 12) =
        word (setBucketSize (setRefcnt k.mm d 0) d (bucketSize i)) (d + 12) := by
      rw [hdesc₂.word _ (by omega) (by omega), hpage₂.word _ (by omega) (by omega),
        show word m₁ (d + 12) = word (setFreeptr mm d (p * 4096)) (d + 12) from
          word_setWord_ne (by omega) (by omega) (by omega),
        show word (setFreeptr mm d (p * 4096)) (d + 12) = word mm (d + 12) from
          word_setWord_ne (by omega) (by omega) (by omega)]
      exact hgot.word _ (by omega) (by omega)
    have hzero := refcnt_setRefcnt (m := k.mm) (v := 0) hd16
    have hset : word (setBucketSize (setRefcnt k.mm d 0) d (bucketSize i)) (d + 12) =
        refcnt (setRefcnt k.mm d 0) d + 65536 * (bucketSize i % 65536) :=
      word_setWord_self (by omega)
    rw [refcnt, hlow, hset, hzero]
    omega
  · have hlinks' : ∀ a, a / 4096 = p → a % 4 = 0 → word m' a = word m₂ a := fun a ha ha4 =>
      hdesc₂.word a ha4 (by omega)
    rw [hcount, ← List.append_nil (List.range' _ _ _)]
    refine chain_range (a := p * 4096) (chain_nil.2 rfl) n (by omega) (fun j hj => ?_) ?_
    · have hj₁ : (j + 1) * bucketSize i ≤ n * bucketSize i := Nat.mul_le_mul_right _ hj
      have hj₂ : j * bucketSize i % 4 = 0 := by
        rw [Nat.mul_mod, show bucketSize i % 4 = 0 by omega, Nat.mul_zero, Nat.zero_mod]
      rw [Nat.succ_mul] at hj₁
      rw [hlinks' _ (by omega) (by omega),
        show word m₂ _ = word r.1 _ from word_setWord_ne (by omega) (by omega) (by omega)]
      simpa only [Nat.add_zero] using hlinks j hj
    · have hn₂ : n * bucketSize i % 4 = 0 := by
        rw [Nat.mul_mod, show bucketSize i % 4 = 0 by omega, Nat.mul_zero, Nat.zero_mod]
      rw [hlinks' _ (by omega) (by omega)]
      exact word_setWord_self (by omega)
  · intro a ha hap had
    rw [hdesc₂.word a ha (by omega), hpage₂.word a ha hap, hdesc₁.word a ha (by omega),
      hgot.word a ha hap, hdesc.word a ha (by omega)]
  · intro f hf
    rw [hdesc₂.memMap, hpage₂.memMap, hdesc₁.memMap, hgot.memMap f hf, hdesc.memMap]
  · rw [hdesc₂.high, hpage₂.high, hdesc₁.high, hgot.high, hdesc.high]

theorem Holds.fill (h : Holds S k live held) {p : ℕ} {mm : Mm} {rest : List ℕ} (hi : i < 9)
    (hfrees : S.frees = d :: rest)
    (hget : getFreePage (setBucketSize (setRefcnt k.mm d 0) d (bucketSize i)) = some (p, mm)) :
    ∃ k', fillBucket i k = .returned d k' ∧ Filled i d p (k.chain i) k.mm k'.mm ∧
      (S.fill i d rest).In i d ∧ Holds (S.fill i d rest) k' live (fun f => held f ∨ f = p) := by
  have hchain := h.free
  rw [hfrees] at hchain
  obtain ⟨hfirst, hd0, hrest⟩ := hchain
  obtain ⟨hd16, hdslot⟩ := (h.slot d).1 (.inl (by rw [hfrees]; exact List.mem_cons_self))
  have hgot := getFreePage_got hget
  obtain ⟨hnheld, hnslot, hph, hnpage, hnlive⟩ := h.fresh hgot.low hgot.upto hgot.unused
  have hp256 : 256 ≤ p := hgot.low
  have hdp : d / 4096 ≠ p := fun heq => hnslot (heq ▸ hdslot)
  obtain ⟨m', hfill, hm'⟩ := fillBucket_filled hi hfirst hd16 hget hdp
  obtain ⟨hmapped, hroom⟩ := h.mapped_got hgot.low hgot.upto hgot.unused hm'.memMap hm'.high
  have hnodup := h.free.nodup
  rw [hfrees, List.nodup_cons] at hnodup
  have hin := S.in_fill d rest hi
  have hdin : ∀ j, ¬ S.In j d := fun j hj => h.apart_free j d hj (by
    rw [hfrees]
    exact List.mem_cons_self)
  have hword : ∀ e o, (e ∈ rest ∨ ∃ j, S.In j e) → o < 16 → o % 4 = 0 →
      word m' (e + o) = word k.mm (e + o) := fun e o he ho ho4 => by
    obtain ⟨he16, hes⟩ := (h.slot e).1 (he.imp_left fun he => by
      rw [hfrees]
      exact List.mem_cons_of_mem _ he)
    have hed : e ≠ d := by
      rintro rfl
      rcases he with he | ⟨j, hj⟩
      · exact hnodup.1 he
      · exact hdin j hj
    refine hm'.word _ (by omega) (fun hep => hnslot ?_) (by omega)
    rw [← hep, show (e + o) / 4096 = e / 4096 by omega]
    exact hes
  have hpage : ∀ j e, S.In j e → page m' e = page k.mm e := fun j e he =>
    hword e 0 (.inr ⟨j, he⟩) (by omega) rfl
  refine ⟨_, hfill, hm', (hin i d).2 (.inr ⟨rfl, rfl⟩), ⟨fun j hj => ?_, ?_, fun j j' e he he' => ?_,
    fun j e he => ?_, fun e => ?_, fun j j' e e' he he' heq => ?_, fun j e he => ?_, fun f => ?_,
    hmapped, hroom, fun j e he => ?_, fun a n ha => ?_⟩⟩
  · simp only [Shape.fill, Function.update_apply]
    have hold := (h.chain j hj).congr fun e he => hword e 4 (.inr ⟨j, hj, he⟩) (by omega) rfl
    split_ifs with hji
    · subst hji
      refine ⟨rfl, hd0, ?_⟩
      rw [hm'.next]
      exact hold
    · exact hold
  · exact hrest.congr fun e he => hword e 4 (.inl he) (by omega) rfl
  · rcases (hin j e).1 he with he | ⟨hj, hed⟩ <;> rcases (hin j' e).1 he' with he' | ⟨hj', hed'⟩
    · exact h.apart j j' e he he'
    · exact absurd (hed' ▸ he) (hdin j)
    · exact absurd (hed ▸ he') (hdin j')
    · exact hj.trans hj'.symm
  · rcases (hin j e).1 he with he | ⟨rfl, rfl⟩
    · have hne := h.apart_free j e he
      rw [hfrees] at hne
      exact fun hmem => hne (List.mem_cons_of_mem _ hmem)
    · exact hnodup.1
  · rw [show ((S.fill i d rest).slots (e / 4096) ↔ S.slots (e / 4096)) from Iff.rfl, ← h.slot e,
      hfrees]
    simp only [hin, show (S.fill i d rest).frees = rest from rfl, List.mem_cons]
    constructor
    · rintro (he | ⟨j, he | ⟨-, rfl⟩⟩)
      · exact .inl (.inr he)
      · exact .inr ⟨j, he⟩
      · exact .inl (.inl rfl)
    · rintro ((rfl | he) | ⟨j, he⟩)
      · exact .inr ⟨i, .inr ⟨rfl, rfl⟩⟩
      · exact .inl he
      · exact .inr ⟨j, .inl he⟩
  · change page m' e = page m' e' at heq
    rcases (hin j e).1 he with he | ⟨-, hed⟩ <;> rcases (hin j' e').1 he' with he' | ⟨-, hed'⟩
    · rw [hpage j e he, hpage j' e' he'] at heq
      exact h.page_inj j j' e e' he he' heq
    · rw [hpage j e he, hed', hm'.page] at heq
      exact absurd heq (hnpage j e he)
    · rw [hpage j' e' he', hed, hm'.page] at heq
      exact absurd heq.symm (hnpage j' e' he')
    · exact hed.trans hed'.symm
  · change ¬ S.slots (page m' e / 4096)
    rcases (hin j e).1 he with he | ⟨rfl, rfl⟩
    · rw [hpage j e he]
      exact h.page_slot j e he
    · rw [hm'.page, Nat.mul_div_cancel _ (by omega)]
      exact hnslot
  · change held f ∨ f = p ↔ S.slots f ∨ ∃ j e, _ ∧ page m' e = f * 4096
    rw [h.held_iff, or_assoc]
    refine or_congr_right ⟨?_, ?_⟩
    · rintro (⟨j, e, he, hpf⟩ | rfl)
      · exact ⟨j, e, (hin j e).2 (.inl he), (hpage j e he).trans hpf⟩
      · exact ⟨i, d, (hin i d).2 (.inr ⟨rfl, rfl⟩), hm'.page⟩
    · rintro ⟨j, e, he, hpf⟩
      rcases (hin j e).1 he with he | ⟨rfl, rfl⟩
      · exact .inl ⟨j, e, he, (hpage j e he).symm.trans hpf⟩
      · rw [hm'.page] at hpf
        exact .inr (by omega)
  · rcases (hin j e).1 he with he | ⟨rfl, rfl⟩
    · obtain ⟨l, hl⟩ := h.bucket j e he
      refine ⟨l, hl.frame (hpage j e he) (hword e 8 (.inr ⟨j, he⟩) (by omega) rfl)
        (congrArg (· % 65536) (hword e 12 (.inr ⟨j, he⟩) (by omega) rfl)) (fun a ha => ?_)
        (fun _ _ => rfl)⟩
      obtain ⟨hapage, hamod, -⟩ := (hl.mem_objs a).1 ha
      have ha16 := object_aligned he.1 hamod
      have hal := hl.aligned
      refine hm'.word a (by omega) (fun hap => hnpage j e he (by omega)) ?_
      by_contra hcon
      have hsame : d / 4096 = page k.mm e / 4096 := by omega
      exact h.page_slot j e he (hsame ▸ hdslot)
    · refine ⟨List.range' (p * 4096) (4096 / bucketSize j - 1 + 1) (bucketSize j),
        ⟨?_, ?_, fun a => ?_, ?_⟩⟩
      · exact hm'.page ▸ Nat.mul_mod_left _ _
      · exact hm'.freeptr ▸ hm'.chained
      · rw [mem_objects hi]
        change _ ↔ a - a % 4096 = page m' e ∧ _
        rw [hm'.page]
        constructor
        · rintro ⟨hap, hamod⟩
          exact ⟨hap, hamod, hnlive a (by omega)⟩
        · rintro ⟨hap, hamod, -⟩
          exact ⟨hap, hamod⟩
      · change refcnt m' e = (liveIn live (page m' e)).card
        rw [hm'.refcnt, hm'.page, liveIn_fresh hnlive, Finset.card_empty]
  · obtain ⟨j, e, hj, he, hapage, hamod⟩ := h.object a n ha
    exact ⟨j, e, hj, (hin j e).2 (.inl he), hapage.trans (hpage j e he).symm, hamod⟩

end

end Linux011.Malloc
