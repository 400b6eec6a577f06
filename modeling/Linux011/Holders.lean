import Linux011.FiniteCount

set_option autoImplicit false

/-!
# How many positions hold a thing

Each position holds at most one thing. A count of holders moves by what one position takes and gives
up.
-/
namespace Linux011.Holders
open FiniteCount

section
variable {α β : Type} [Fintype α] [DecidableEq β] {owner owner' : α → Option β} {a a' : α} {b c : β}

def holders (owner : α → Option β) (b : β) : ℕ := tally Finset.univ fun a => owner a = some b

/-- What a position that holds `v` adds for `b`. -/
def share (v : Option β) (b : β) : ℕ := if v = some b then 1 else 0

theorem share_none (b : β) : share none b = 0 := rfl

theorem share_self (b : β) : share (some b) b = 1 := if_pos rfl

theorem share_ne (h : b ≠ c) : share (some b) c = 0 := if_neg fun hc => h (Option.some.inj hc)

theorem holders_congr (h : ∀ a, owner' a = owner a) (b : β) : holders owner' b = holders owner b :=
  tally_congr fun a _ => by rw [h a]

theorem holders_pos (h : owner a = some b) : 0 < holders owner b := tally_pos (Finset.mem_univ a) h

theorem holders_unique (h1 : holders owner b ≤ 1) (h : owner a = some b) (h' : owner a' = some b) :
    a = a' := tally_unique h1 (Finset.mem_univ a) (Finset.mem_univ a') h h'

theorem holders_zero : holders owner b = 0 ↔ ∀ a, owner a ≠ some b := by
  unfold holders
  rw [tally_eq_zero]
  exact ⟨fun h a => h a (Finset.mem_univ a), fun h a _ => h a⟩

theorem holders_none (b : β) : holders (fun _ : α => none) b = 0 :=
  holders_zero.2 fun _ hc => nomatch hc

/-- One position holds another thing. -/
theorem holders_update [DecidableEq α] (owner : α → Option β) (a : α) (v : Option β) (b : β) :
    holders (Function.update owner a v) b + share (owner a) b = holders owner b + share v b := by
  have h := tally_replace (Finset.mem_univ a) (q := fun x => owner x = some b)
    (r := fun x => Function.update owner a v x = some b) fun x _ hx => by
      rw [Function.update_of_ne hx]
  simp only [Function.update_self] at h
  exact h

theorem holders_at [DecidableEq α] (h : ∀ x, x ≠ a → owner' x = owner x) (b : β) :
    holders owner' b + share (owner a) b = holders owner b + share (owner' a) b := by
  have heq : owner' = Function.update owner a (owner' a) := by
    funext x
    by_cases hx : x = a
    · subst hx
      rw [Function.update_self]
    · rw [h x hx, Function.update_of_ne hx]
  rw [heq, Function.update_self]
  exact holders_update owner a (owner' a) b

end

/-! ### Positions in rows -/

section
variable {α β γ : Type} [Fintype α] [Fintype γ] [DecidableEq β]
  {owner : γ → α → Option β} {a a' : α} {b : β} {c c' : γ}

def total (owner : γ → α → Option β) (b : β) : ℕ := ∑ c, holders (owner c) b

theorem holders_le_total (owner : γ → α → Option β) (c : γ) (b : β) :
    holders (owner c) b ≤ total owner b :=
  Finset.single_le_sum (f := fun c => holders (owner c) b) (fun _ _ => Nat.zero_le _)
    (Finset.mem_univ c)

/-- One row is another. -/
theorem total_update [DecidableEq γ] (owner : γ → α → Option β) (c : γ) (row : α → Option β) (b : β) :
    total (Function.update owner c row) b + holders (owner c) b =
      total owner b + holders row b := by
  have hrest : ∑ d ∈ Finset.univ.erase c, holders (Function.update owner c row d) b =
      ∑ d ∈ Finset.univ.erase c, holders (owner d) b :=
    Finset.sum_congr rfl fun d hd => by rw [Function.update_of_ne (Finset.ne_of_mem_erase hd)]
  unfold total
  rw [← Finset.add_sum_erase _ _ (Finset.mem_univ c), hrest, Function.update_self,
    ← Finset.add_sum_erase _ (fun d => holders (owner d) b) (Finset.mem_univ c)]
  omega

theorem total_unique [DecidableEq γ] (h1 : total owner b ≤ 1) (h : owner c a = some b) (h' : owner c' a' = some b) :
    c = c' ∧ a = a' := by
  have hc : c = c' := by
    by_contra hne
    have hrow := total_update owner c' (fun _ => none) b
    have hle := holders_le_total (Function.update owner c' fun _ => none) c b
    have hpos := holders_pos h
    have hpos' := holders_pos h'
    rw [Function.update_of_ne hne] at hle
    rw [holders_none] at hrow
    omega
  subst hc
  exact ⟨rfl, holders_unique ((holders_le_total owner c b).trans h1) h h'⟩

theorem total_zero : total owner b = 0 ↔ ∀ c a, owner c a ≠ some b := by
  unfold total
  rw [Finset.sum_eq_zero_iff]
  constructor
  · exact fun h c => holders_zero.1 (h c (Finset.mem_univ c))
  · exact fun h c _ => holders_zero.2 (h c)

end

end Linux011.Holders
