import Mathlib.Data.List.Range
import Mathlib.Logic.Function.Basic
import Mathlib.Tactic.Common

set_option autoImplicit false

/-!
# Tables of slots that are searched from the front

A slot holds an entry, which is live or free. A key is looked up by the first live entry that answers to
it, and a new entry goes to the first free slot, so that a table is a finite map as long as no key is
added twice.
-/
namespace Linux011.SlotTables

variable {κ α : Type}

/-- Which entries are live, and which answer to a key. -/
structure Kind (κ α : Type) where
  live : α → Bool
  answers : κ → α → Bool

namespace Kind
variable (K : Kind κ α) {t t' : ℕ → α} {n m k : ℕ} {key : κ} {e : α}

/-- The slots of the first `n` with a live entry. -/
def listing (t : ℕ → α) (n : ℕ) : List ℕ := (List.range n).filter fun k => K.live (t k)

/-- Those whose entries answer to a key. -/
def held (t : ℕ → α) (n : ℕ) (key : κ) : List ℕ :=
  (List.range n).filter fun k => K.live (t k) && K.answers key (t k)

def find (t : ℕ → α) (n : ℕ) (key : κ) : Option ℕ :=
  (List.range n).find? fun k => K.live (t k) && K.answers key (t k)

/-- The first free slot. -/
def firstFree (t : ℕ → α) (n : ℕ) : Option ℕ := (List.range n).find? fun k => !K.live (t k)

/-- No slot from `n` on before `m` is live. -/
def FreeTail (t : ℕ → α) (n m : ℕ) : Prop := ∀ k, n ≤ k → k < m → K.live (t k) = false

theorem find_eq_head : K.find t n key = (K.held t n key).head? := List.head?_filter.symm

theorem mem_held : k ∈ K.held t n key ↔ k < n ∧ K.live (t k) = true ∧ K.answers key (t k) = true := by
  simp [held]

theorem mem_listing : k ∈ K.listing t n ↔ k < n ∧ K.live (t k) = true := by
  simp [listing]

theorem listing_nodup (t : ℕ → α) (n : ℕ) : (K.listing t n).Nodup := List.nodup_range.filter _

theorem held_nodup (t : ℕ → α) (n : ℕ) (key : κ) : (K.held t n key).Nodup := List.nodup_range.filter _

theorem find_some (h : K.find t n key = some k) :
    k < n ∧ K.live (t k) = true ∧ K.answers key (t k) = true := by
  rw [find_eq_head] at h
  exact K.mem_held.mp (List.mem_of_mem_head? h)

theorem firstFree_some (h : K.firstFree t n = some k) :
    k < n ∧ K.live (t k) = false ∧ ∀ j < k, K.live (t j) = true := by
  unfold firstFree at h
  obtain ⟨hfree, hlt, hfirst⟩ := List.find?_range_eq_some.mp h
  refine ⟨List.mem_range.mp hlt, by simpa using hfree, fun j hj => ?_⟩
  simpa using hfirst j hj

/-! ### Lists of slots -/

/-- Two predicates that differ in one slot at most. -/
theorem filter_except {p q : ℕ → Bool} (h : ∀ j ≠ k, q j = p j) (l : List ℕ) :
    (l.filter q).filter (· ≠ k) = (l.filter p).filter (· ≠ k) := by
  rw [List.filter_filter, List.filter_filter]
  apply List.filter_congr
  intro j _
  by_cases hj : j = k
  · simp [hj]
  · simp [hj, h j hj]

theorem filter_range_extend {p : ℕ → Bool} (hnm : n ≤ m) (h : ∀ k, n ≤ k → k < m → p k = false) :
    (List.range m).filter p = (List.range n).filter p := by
  obtain ⟨d, rfl⟩ := Nat.exists_eq_add_of_le hnm
  rw [List.range_add, List.filter_append]
  apply List.append_right_eq_self.mpr
  rw [List.filter_eq_nil_iff]
  intro k hk
  obtain ⟨j, hj, rfl⟩ := List.mem_map.mp hk
  have hlt := List.mem_range.mp hj
  rw [h (n + j) (by omega) (by omega)]
  exact Bool.false_ne_true

/-- Slots that are free add nothing. -/
theorem held_extend (h : K.FreeTail t n m) (hnm : n ≤ m) (key : κ) :
    K.held t m key = K.held t n key := by
  apply filter_range_extend hnm
  intro k hn hm
  rw [h k hn hm, Bool.false_and]

theorem listing_extend (h : K.FreeTail t n m) (hnm : n ≤ m) : K.listing t m = K.listing t n :=
  filter_range_extend hnm h

/-! ### A new entry -/

/-- An entry that does not answer to the key is not seen. -/
theorem held_update_other (hfree : K.live (t k) = false)
    (he : K.answers key e = false) : K.held (Function.update t k e) n key = K.held t n key := by
  apply List.filter_congr
  intro j _
  by_cases hj : j = k
  · subst hj
    rw [Function.update_self, he, hfree, Bool.and_false, Bool.false_and]
  · rw [Function.update_of_ne hj]

/-- One that does is the only one where there was none. -/
theorem held_update_new (hnone : K.held t n key = []) (hk : k < n) (hlive : K.live e = true)
    (he : K.answers key e = true) : K.held (Function.update t k e) n key = [k] := by
  have hin : k ∈ K.held (Function.update t k e) n key := by
    apply K.mem_held.mpr
    rw [Function.update_self]
    exact ⟨hk, hlive, he⟩
  have hrest : (K.held (Function.update t k e) n key).filter (· ≠ k) = [] := by
    unfold held at hnone ⊢
    rw [filter_except (p := fun k => K.live (t k) && K.answers key (t k)), hnone]
    · rfl
    · intro j hj
      rw [Function.update_of_ne hj]
  have hall : ∀ j ∈ K.held (Function.update t k e) n key, j = k := by
    intro j hj
    by_contra hne
    have hmem : j ∈ (K.held (Function.update t k e) n key).filter (· ≠ k) :=
      List.mem_filter.mpr ⟨hj, by simpa using hne⟩
    rw [hrest] at hmem
    cases hmem
  have hnodup := K.held_nodup (Function.update t k e) n key
  generalize K.held (Function.update t k e) n key = l at hin hall hnodup
  cases l with
  | nil => cases hin
  | cons j l =>
    obtain rfl := hall j List.mem_cons_self
    congr 1
    apply List.eq_nil_iff_forall_not_mem.mpr
    intro i hi
    obtain rfl := hall i (List.mem_cons_of_mem _ hi)
    exact (List.nodup_cons.mp hnodup).1 hi

/-! ### An entry that is freed -/

/-- A slot that is freed is left out. -/
theorem held_free (hfree : K.live e = false) :
    K.held (Function.update t k e) n key = (K.held t n key).filter (· ≠ k) := by
  have hout : k ∉ K.held (Function.update t k e) n key := by
    intro hin
    have hlive := (K.mem_held.mp hin).2.1
    rw [Function.update_self, hfree] at hlive
    cases hlive
  have hself : (K.held (Function.update t k e) n key).filter (· ≠ k) =
      K.held (Function.update t k e) n key := by
    apply List.filter_eq_self.mpr
    intro j hj
    have hne : j ≠ k := fun h => hout (h ▸ hj)
    simpa using hne
  rw [← hself]
  apply filter_except
  intro j hj
  rw [Function.update_of_ne hj]

/-- If it is the one that is found, the others stay. -/
theorem held_free_found (hfree : K.live e = false) (hfound : K.find t n key = some k) :
    K.held (Function.update t k e) n key = (K.held t n key).tail := by
  rw [held_free K hfree]
  rw [find_eq_head] at hfound
  have hnodup := K.held_nodup t n key
  cases hl : K.held t n key with
  | nil => rw [hl] at hfound; cases hfound
  | cons j l =>
    rw [hl] at hfound hnodup
    cases hfound
    have hnot := (List.nodup_cons.mp hnodup).1
    rw [List.filter_cons_of_neg (by simp), List.tail_cons]
    apply List.filter_eq_self.mpr
    intro j hj
    have hne : j ≠ k := fun h => hnot (h ▸ hj)
    simpa using hne

/-- If it does not answer to the key, it is not missed. -/
theorem held_free_other (hfree : K.live e = false) (ho : K.answers key (t k) = false) :
    K.held (Function.update t k e) n key = K.held t n key := by
  rw [held_free K hfree]
  apply List.filter_eq_self.mpr
  intro j hj
  have hne : j ≠ k := by
    rintro rfl
    rw [(K.mem_held.mp hj).2.2] at ho
    cases ho
  simpa using hne

/-! ### A table that grows -/

/-- An entry has been put into a free slot of the first `n`, or behind them. -/
structure Put (t t' : ℕ → α) (n m : ℕ) (e : α) : Prop where
  le : m ≤ n
  free : m < n → K.live (t m) = false
  self : t' m = e
  others : ∀ j < n, j ≠ m → t' j = t j

/-- The table with the slot emptied has the same entries. -/
theorem Put.held_empty {t t' : ℕ → α} {n m : ℕ} {e empty : α} (h : K.Put t t' n m e)
    (hempty : K.live empty = false) (key : κ) :
    K.held (Function.update t m empty) (max n (m + 1)) key = K.held t n key := by
  have hsame : K.held (Function.update t m empty) n key = K.held t n key := by
    apply List.filter_congr
    intro j hj
    by_cases hjm : j = m
    · subst hjm
      rw [Function.update_self, hempty, h.free (List.mem_range.mp hj)]
      rfl
    · rw [Function.update_of_ne hjm]
  rw [← hsame]
  apply held_extend K _ (le_max_left _ _)
  intro j hn hj
  have hle := h.le
  have hjm : j = m := by omega
  subst hjm
  rw [Function.update_self]
  exact hempty

theorem Put.eq_update {t t' : ℕ → α} {n m : ℕ} {e : α} (h : K.Put t t' n m e) (empty : α) (key : κ) :
    K.held t' (max n (m + 1)) key =
      K.held (Function.update (Function.update t m empty) m e) (max n (m + 1)) key := by
  apply List.filter_congr
  intro j hj
  have hj := List.mem_range.mp hj
  have hle := h.le
  rw [Function.update_idem]
  by_cases hjm : j = m
  · subst hjm
    rw [Function.update_self, h.self]
  · rw [Function.update_of_ne hjm, h.others j (by omega) hjm]

/-- For a key that the entry does not answer to, nothing changes. -/
theorem Put.held_other {t t' : ℕ → α} {n m : ℕ} {e empty : α} (h : K.Put t t' n m e)
    (hempty : K.live empty = false) (he : K.answers key e = false) :
    K.held t' (max n (m + 1)) key = K.held t n key := by
  rw [h.eq_update K empty, held_update_other K _ he, h.held_empty K hempty]
  rw [Function.update_self]
  exact hempty

/-- For a key that had no entry, it is the only one. -/
theorem Put.held_new {t t' : ℕ → α} {n m : ℕ} {e empty : α} (h : K.Put t t' n m e)
    (hempty : K.live empty = false) (hnone : K.held t n key = []) (hlive : K.live e = true)
    (he : K.answers key e = true) : K.held t' (max n (m + 1)) key = [m] := by
  rw [h.eq_update K empty]
  apply held_update_new K _ _ hlive he
  · rw [h.held_empty K hempty, hnone]
  · exact lt_of_lt_of_le (Nat.lt_succ_self m) (le_max_right _ _)

end Kind

end Linux011.SlotTables
