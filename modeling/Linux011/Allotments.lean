import Mathlib.Data.Set.Basic
import Mathlib.Logic.Function.Basic

set_option autoImplicit false

/-!
# Numbers with one owner each

Numbers are free, reserved, or owned by one position. Positions get free numbers and lose theirs, and
the accounts stay exact.
-/
namespace Linux011.Allotments

/-- What each position owns (0 for nothing), and what is free. -/
structure Allotment (α : Type*) where
  owner : α → ℕ
  free : Set ℕ

section
variable {α : Type*}

/-- Each number of `all` is free, or reserved, or owned, and owned once. -/
structure Exact (all reserved : Set ℕ) (A : Allotment α) : Prop where
  zero : 0 ∉ all
  used : ∀ n ∈ all, n ∉ A.free ↔ n ∈ reserved ∨ ∃ p, A.owner p = n
  once : ∀ p q, A.owner p ≠ 0 → A.owner p = A.owner q → p = q
  inside : ∀ p, A.owner p ≠ 0 → A.owner p ∈ all
  apart : ∀ p, A.owner p ≠ 0 → A.owner p ∉ reserved

/-- Positions that owned nothing have been given free numbers. -/
structure Granted (A B : Allotment α) : Prop where
  keep : ∀ p, A.owner p ≠ 0 → B.owner p = A.owner p
  fresh : ∀ p, A.owner p = 0 → B.owner p ≠ 0 → B.owner p ∈ A.free
  once : ∀ p q, A.owner p = 0 → B.owner p ≠ 0 → B.owner p = B.owner q → p = q
  free : ∀ n, n ∈ B.free ↔ n ∈ A.free ∧ ∀ p, A.owner p = 0 → B.owner p ≠ n

/-- The positions `P` have lost what they owned. -/
structure Dropped (P : Set α) (A B : Allotment α) : Prop where
  gone : ∀ p ∈ P, B.owner p = 0
  keep : ∀ p ∉ P, B.owner p = A.owner p
  free : ∀ n, n ∈ B.free ↔ n ∈ A.free ∨ n ≠ 0 ∧ ∃ p ∈ P, A.owner p = n

variable {all reserved : Set ℕ} {A B : Allotment α}

theorem Exact.not_free (h : Exact all reserved A) {p : α} (hp : A.owner p ≠ 0) :
    A.owner p ∉ A.free := (h.used _ (h.inside p hp)).2 (.inr ⟨p, rfl⟩)

theorem Exact.granted (h : Exact all reserved A) (hfree : A.free ⊆ all) (hg : Granted A B) :
    Exact all reserved B where
  zero := h.zero
  used n hn := by
    have h0 : n ≠ 0 := ne_of_mem_of_not_mem hn h.zero
    rw [hg.free, not_and_or, h.used n hn]
    constructor
    · rintro ((hr | ⟨p, rfl⟩) | hp)
      · exact .inl hr
      · exact .inr ⟨p, hg.keep p h0⟩
      · by_contra hc
        exact hp fun p _ hpn => hc (.inr ⟨p, hpn⟩)
    · rintro (hr | ⟨p, rfl⟩)
      · exact .inl (.inl hr)
      · by_cases hp : A.owner p = 0
        · exact .inr fun hc => hc p hp rfl
        · exact .inl (.inr ⟨p, (hg.keep p hp).symm⟩)
  once p q hp hpq := by
    by_cases hAp : A.owner p = 0
    · exact hg.once p q hAp hp hpq
    · by_cases hAq : A.owner q = 0
      · exact (hg.once q p hAq (hpq ▸ hp) hpq.symm).symm
      · rw [hg.keep p hAp, hg.keep q hAq] at hpq
        exact h.once p q hAp hpq
  inside p hp := by
    by_cases hAp : A.owner p = 0
    · exact hfree (hg.fresh p hAp hp)
    · rw [hg.keep p hAp]
      exact h.inside p hAp
  apart p hp := by
    by_cases hAp : A.owner p = 0
    · have hf := hg.fresh p hAp hp
      intro hr
      exact (h.used _ (hfree hf)).2 (.inl hr) hf
    · rw [hg.keep p hAp]
      exact h.apart p hAp

theorem Exact.dropped {P : Set α} (h : Exact all reserved A) (hd : Dropped P A B) :
    Exact all reserved B := by
  have hkeep : ∀ p, B.owner p ≠ 0 → p ∉ P ∧ B.owner p = A.owner p := fun p hp => by
    have hpP : p ∉ P := fun hc => hp (hd.gone p hc)
    exact ⟨hpP, hd.keep p hpP⟩
  refine ⟨h.zero, fun n hn => ?_, fun p q hp hpq => ?_, fun p hp => ?_, fun p hp => ?_⟩
  · have h0 : n ≠ 0 := ne_of_mem_of_not_mem hn h.zero
    rw [hd.free, not_or, h.used n hn]
    constructor
    · rintro ⟨hr | ⟨p, rfl⟩, hp⟩
      · exact .inl hr
      · exact .inr ⟨p, hd.keep p fun hc => hp ⟨h0, p, hc, rfl⟩⟩
    · rintro (hr | ⟨p, rfl⟩)
      · refine ⟨.inl hr, ?_⟩
        rintro ⟨-, p, -, rfl⟩
        exact h.apart p h0 hr
      · obtain ⟨hpP, hp⟩ := hkeep p h0
        refine ⟨.inr ⟨p, hp.symm⟩, ?_⟩
        rintro ⟨-, q, hq, hqp⟩
        rw [hp] at h0 hqp
        exact hpP (h.once p q h0 hqp.symm ▸ hq)
  · obtain ⟨-, hp'⟩ := hkeep p hp
    obtain ⟨-, hq'⟩ := hkeep q (hpq ▸ hp)
    rw [hp'] at hp hpq
    exact h.once p q hp (hpq.trans hq')
  · obtain ⟨-, hp'⟩ := hkeep p hp
    rw [hp'] at hp ⊢
    exact h.inside p hp
  · obtain ⟨-, hp'⟩ := hkeep p hp
    rw [hp'] at hp ⊢
    exact h.apart p hp

end

end Linux011.Allotments
