import Mathlib

set_option autoImplicit false

/-! # The elements a circular buffer holds, front first -/
namespace Linux011.RingBuffer

variable {α : Type}

/-- The `n` cells from `start` on, in a buffer of `N` cells. -/
def window (N : ℕ) (cell : ℕ → α) (start n : ℕ) : List α :=
  (List.range n).map fun i => cell ((start + i) % N)

@[simp] theorem window_zero (N : ℕ) (cell : ℕ → α) (start : ℕ) : window N cell start 0 = [] := rfl

@[simp] theorem window_length (N : ℕ) (cell : ℕ → α) (start n : ℕ) :
    (window N cell start n).length = n := by
  simp [window]

theorem window_congr {N : ℕ} (cell : ℕ → α) {a b : ℕ} (n : ℕ) (h : a % N = b % N) :
    window N cell a n = window N cell b n := by
  unfold window
  apply List.map_congr_left
  intro i _
  rw [Nat.add_mod a, h, ← Nat.add_mod]

theorem window_front (N : ℕ) (cell : ℕ → α) (start n : ℕ) :
    window N cell start (n + 1) = cell (start % N) :: window N cell (start + 1) n := by
  unfold window
  rw [List.range_succ_eq_map, List.map_cons, List.map_map]
  congr 1
  apply List.map_congr_left
  intro i _
  change cell ((start + (i + 1)) % N) = cell ((start + 1 + i) % N)
  rw [show start + (i + 1) = start + 1 + i by omega]

theorem window_back (N : ℕ) (cell : ℕ → α) (start n : ℕ) :
    window N cell start (n + 1) = window N cell start n ++ [cell ((start + n) % N)] := by
  simp [window, List.range_succ]

theorem offset_inj {N start i k : ℕ} (hi : i < N) (hk : k < N)
    (h : (start + i) % N = (start + k) % N) : i = k := by
  have hmod : i % N = k % N := Nat.ModEq.add_left_cancel' start h
  rwa [Nat.mod_eq_of_lt hi, Nat.mod_eq_of_lt hk] at hmod

/-- A store outside the window leaves it as it was. -/
theorem window_update {N : ℕ} (cell : ℕ → α) (start n k : ℕ) (v : α) (hn : n ≤ k) (hk : k < N) :
    window N (Function.update cell ((start + k) % N) v) start n = window N cell start n := by
  unfold window
  apply List.map_congr_left
  intro i hi
  have hi := List.mem_range.mp hi
  apply Function.update_of_ne
  intro he
  have := offset_inj (by omega) hk he
  omega

/-- A store behind the last element appends it. -/
theorem window_push {N : ℕ} (cell : ℕ → α) (start n : ℕ) (v : α) (hn : n < N) :
    window N (Function.update cell ((start + n) % N) v) start (n + 1) =
      window N cell start n ++ [v] := by
  rw [window_back, window_update cell start n n v (le_refl n) hn, Function.update_self]

end Linux011.RingBuffer
