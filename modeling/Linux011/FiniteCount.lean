import Mathlib

set_option autoImplicit false

/-! # How many elements of a finite set have a property, when one of them changes -/
namespace Linux011.FiniteCount

variable {ι : Type}

def tally (s : Finset ι) (q : ι → Prop) [DecidablePred q] : ℕ := (s.filter q).card

theorem tally_congr {s : Finset ι} {q q' : ι → Prop} [DecidablePred q] [DecidablePred q']
    (h : ∀ y ∈ s, q y ↔ q' y) : tally s q = tally s q' := by
  unfold tally
  rw [Finset.filter_congr h]

theorem tally_split [DecidableEq ι] {s : Finset ι} {x : ι} (hx : x ∈ s) (q : ι → Prop) [DecidablePred q] :
    tally s q = (if q x then 1 else 0) + tally (s.erase x) q := by
  unfold tally
  rw [← Finset.insert_erase hx, Finset.filter_insert, Finset.erase_insert (by simp)]
  split_ifs with h
  · rw [Finset.card_insert_of_notMem (by simp), Nat.add_comm]
  · rw [Nat.zero_add]

/-- One element's property changes; the others keep theirs. -/
theorem tally_replace [DecidableEq ι] {s : Finset ι} {x : ι} (hx : x ∈ s) {q r : ι → Prop}
    [DecidablePred q] [DecidablePred r] (h : ∀ y ∈ s, y ≠ x → (q y ↔ r y)) :
    tally s r + (if q x then 1 else 0) = tally s q + (if r x then 1 else 0) := by
  have hrest : tally (s.erase x) q = tally (s.erase x) r :=
    tally_congr fun y hy => h y (Finset.mem_of_mem_erase hy) (Finset.ne_of_mem_erase hy)
  rw [tally_split hx q, tally_split hx r, hrest]
  omega

theorem tally_pos {s : Finset ι} {q : ι → Prop} [DecidablePred q] {x : ι} (hx : x ∈ s)
    (hq : q x) : 0 < tally s q :=
  Finset.card_pos.mpr ⟨x, Finset.mem_filter.mpr ⟨hx, hq⟩⟩

theorem tally_eq_zero {s : Finset ι} {q : ι → Prop} [DecidablePred q] :
    tally s q = 0 ↔ ∀ x ∈ s, ¬ q x := by
  simp [tally, Finset.filter_eq_empty_iff]

theorem tally_unique {s : Finset ι} {q : ι → Prop} [DecidablePred q] (h : tally s q ≤ 1)
    {x y : ι} (hx : x ∈ s) (hy : y ∈ s) (hqx : q x) (hqy : q y) : x = y :=
  Finset.card_le_one.mp h x (Finset.mem_filter.mpr ⟨hx, hqx⟩) y (Finset.mem_filter.mpr ⟨hy, hqy⟩)

theorem tally_le {κ : Type} {s : Finset ι} {q : ι → Prop} [DecidablePred q] (t : Finset κ)
    (f : ι → κ) (hf : ∀ x ∈ s, q x → f x ∈ t)
    (hinj : ∀ x ∈ s, ∀ y ∈ s, q x → q y → f x = f y → x = y) : tally s q ≤ t.card := by
  apply Finset.card_le_card_of_injOn f
  · intro x hx
    obtain ⟨hs, hq⟩ := Finset.mem_filter.mp hx
    exact hf x hs hq
  · intro x hx y hy he
    obtain ⟨hxs, hxq⟩ := Finset.mem_filter.mp hx
    obtain ⟨hys, hyq⟩ := Finset.mem_filter.mp hy
    exact hinj x hxs y hys hxq hyq he

end Linux011.FiniteCount
