import Mathlib

set_option autoImplicit false

/-! # Files in one piece: each has an extent, and a new one goes behind the last -/
namespace Linux011.Extents

variable {ι : Type} [DecidableEq ι]

/-- First and last block of each file, and the last block that a file may have. -/
@[ext]
structure Layout (ι : Type) where
  extent : ι → Option (ℕ × ℕ)
  last : ℕ

/-- The blocks of an extent. -/
def size : Option (ℕ × ℕ) → ℕ
  | none => 0
  | some p => p.2 + 1 - p.1

structure Layout.Sound (lo hi : ℕ) (L : Layout ι) : Prop where
  valid : ∀ i p, L.extent i = some p → lo ≤ p.1 ∧ p.1 ≤ p.2 ∧ p.2 ≤ L.last
  disjoint : ∀ i j p q, i ≠ j → L.extent i = some p → L.extent j = some q → p.2 < q.1 ∨ q.2 < p.1
  bound : L.last < hi

def Layout.set (L : Layout ι) (i : ι) (p : ℕ × ℕ) : Layout ι where
  extent := Function.update L.extent i (some p)
  last := p.2

/-- Without a file. If it was the last, the file before it is not looked for. -/
def Layout.remove (L : Layout ι) (i : ι) : Layout ι where
  extent := Function.update L.extent i none
  last := match L.extent i with
    | none => L.last
    | some p => if p.2 = L.last then p.1 - 1 else L.last

variable {lo hi : ℕ} {L : Layout ι} {i : ι} {p : ℕ × ℕ}

/-- A file gets a new extent that nothing else reaches into. -/
theorem Layout.Sound.set (h : L.Sound lo hi) (hp : lo ≤ p.1 ∧ p.1 ≤ p.2)
    (hlast : L.last ≤ p.2) (hhi : p.2 < hi)
    (hfree : ∀ j q, j ≠ i → L.extent j = some q → q.2 < p.1) : (L.set i p).Sound lo hi := by
  constructor
  · intro j q hq
    by_cases hj : j = i
    · subst hj
      have hq : some p = some q := by simpa [Layout.set] using hq
      cases hq
      exact ⟨hp.1, hp.2, le_refl _⟩
    · have hq : L.extent j = some q := by simpa [Layout.set, hj] using hq
      obtain ⟨hlo, hle, hl⟩ := h.valid j q hq
      exact ⟨hlo, hle, hl.trans hlast⟩
  · intro j k q r hjk hq hr
    by_cases hj : j = i
    · subst hj
      have hq : some p = some q := by simpa [Layout.set] using hq
      have hr : L.extent k = some r := by simpa [Layout.set, Ne.symm hjk] using hr
      cases hq
      exact .inr (hfree k r (Ne.symm hjk) hr)
    · have hq' : L.extent j = some q := by simpa [Layout.set, hj] using hq
      by_cases hk : k = i
      · rw [hk] at hr
        have hr : some p = some r := by simpa [Layout.set] using hr
        cases hr
        exact .inl (hfree j q hj hq')
      · have hr' : L.extent k = some r := by simpa [Layout.set, hk] using hr
        exact h.disjoint j k q r hjk hq' hr'
  · exact hhi

/-- The file that ends last grows. -/
theorem Layout.Sound.extend (h : L.Sound lo hi) (hp : L.extent i = some p) (hlast : p.2 = L.last)
    {e : ℕ} (he : p.2 ≤ e) (hhi : e < hi) : (L.set i (p.1, e)).Sound lo hi := by
  obtain ⟨hlo, hle, -⟩ := h.valid i p hp
  apply h.set (p := (p.1, e)) ⟨hlo, hle.trans he⟩ (by simp only; omega) hhi
  intro j q hj hq
  have hd := h.disjoint j i q p hj hq hp
  have hv := h.valid j q hq
  simp only
  omega

/-- A file is moved behind the last, or gets its first blocks there. -/
theorem Layout.Sound.move (h : L.Sound lo hi) {e : ℕ} (hlo : lo ≤ L.last + 1)
    (he : L.last + 1 ≤ e) (hhi : e < hi) : (L.set i (L.last + 1, e)).Sound lo hi := by
  apply h.set ⟨hlo, he⟩ (by simp only; omega) hhi
  intro j q _ hq
  have hv := h.valid j q hq
  simp only
  omega

theorem Layout.Sound.remove (h : L.Sound lo hi) : (L.remove i).Sound lo hi := by
  have hother : ∀ j q, (L.remove i).extent j = some q → j ≠ i ∧ L.extent j = some q := by
    intro j q hq
    by_cases hj : j = i
    · subst hj
      simp [Layout.remove] at hq
    · exact ⟨hj, by simpa [Layout.remove, hj] using hq⟩
  constructor
  · intro j q hq
    obtain ⟨hj, hq⟩ := hother j q hq
    obtain ⟨hlo, hle, hl⟩ := h.valid j q hq
    refine ⟨hlo, hle, ?_⟩
    unfold Layout.remove
    cases hp : L.extent i with
    | none => exact hl
    | some p =>
      have hd := h.disjoint j i q p hj hq hp
      simp only
      split_ifs <;> omega
  · intro j k q r hjk hq hr
    exact h.disjoint j k q r hjk (hother j q hq).2 (hother k r hr).2
  · have hb := h.bound
    unfold Layout.remove
    cases hp : L.extent i with
    | none => exact hb
    | some p =>
      have hv := h.valid i p hp
      simp only
      split_ifs <;> omega

/-! ### Blocks in use -/

def Layout.used (L : Layout ι) (files : Finset ι) : ℕ := ∑ i ∈ files, size (L.extent i)

/-- Sums of functions that differ at one place. -/
theorem sum_but_one {files : Finset ι} (hi : i ∈ files) (f f' : ι → ℕ) (h : ∀ j ≠ i, f' j = f j) :
    ∑ j ∈ files, f' j + f i = ∑ j ∈ files, f j + f' i := by
  rw [← Finset.add_sum_erase files f hi, ← Finset.add_sum_erase files f' hi]
  have hrest : ∑ j ∈ files.erase i, f' j = ∑ j ∈ files.erase i, f j := by
    apply Finset.sum_congr rfl
    intro j hj
    exact h j (Finset.ne_of_mem_erase hj)
  omega

theorem Layout.used_update {files : Finset ι} (hi : i ∈ files) (L L' : Layout ι)
    (h : ∀ j ≠ i, L'.extent j = L.extent j) :
    L'.used files + size (L.extent i) = L.used files + size (L'.extent i) := by
  apply sum_but_one hi
  intro j hj
  rw [h j hj]

/-- The blocks of an extent, as a set. -/
def blocks : Option (ℕ × ℕ) → Finset ℕ
  | none => ∅
  | some p => Finset.Icc p.1 p.2

theorem card_blocks (p : Option (ℕ × ℕ)) : (blocks p).card = size p := by
  cases p with
  | none => rfl
  | some p => exact Nat.card_Icc p.1 p.2

omit [DecidableEq ι] in
/-- Extents that do not overlap fit in together. -/
theorem Layout.Sound.used_le (h : L.Sound lo hi) (files : Finset ι) : L.used files ≤ hi - lo := by
  have hdisjoint : (files : Set ι).PairwiseDisjoint fun i => blocks (L.extent i) := by
    intro i _ j _ hij
    apply Finset.disjoint_left.mpr
    intro b hb hb'
    cases hp : L.extent i with
    | none => simp [blocks, hp] at hb
    | some p =>
      cases hq : L.extent j with
      | none => simp [blocks, hq] at hb'
      | some q =>
        simp only [blocks, hp, hq, Finset.mem_Icc] at hb hb'
        have := h.disjoint i j p q hij hp hq
        omega
  have hcard : L.used files = (files.biUnion fun i => blocks (L.extent i)).card := by
    rw [Finset.card_biUnion hdisjoint]
    unfold Layout.used
    simp only [card_blocks]
  rw [hcard, ← Nat.card_Ico lo hi]
  apply Finset.card_le_card
  intro b hb
  obtain ⟨i, -, hb⟩ := Finset.mem_biUnion.mp hb
  cases hp : L.extent i with
  | none => simp [blocks, hp] at hb
  | some p =>
    simp only [blocks, hp, Finset.mem_Icc] at hb
    have hv := h.valid i p hp
    have hl := h.bound
    simp only [Finset.mem_Ico]
    omega

end Linux011.Extents
