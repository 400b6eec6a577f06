import Mathlib.Data.List.Nodup
import Mathlib.Logic.Function.Basic

set_option autoImplicit false

/-!
# Singly linked chains in memory

A chain is threaded through a memory `next`, from a head to the null link. What a loop over it
finds is said in terms of the list of its nodes, and a chain is changed by changing one link.
-/
namespace Linux011.Chains

section
variable {β : Type*} (null : β) (next : β → β)

def Chain : β → List β → Prop
  | a, [] => a = null
  | a, x :: l => a = x ∧ x ≠ null ∧ Chain (next x) l

variable {null next} {a x y : β} {l m : List β}

@[simp] theorem chain_nil : Chain null next a [] ↔ a = null := Iff.rfl

@[simp] theorem chain_cons :
    Chain null next a (x :: l) ↔ a = x ∧ x ≠ null ∧ Chain null next (next x) l := Iff.rfl

theorem Chain.mem_ne (h : Chain null next a l) : ∀ y ∈ l, y ≠ null := by
  induction l generalizing a with
  | nil => simp
  | cons x l ih =>
    obtain ⟨-, hx, hl⟩ := h
    intro y hy
    rcases List.mem_cons.1 hy with rfl | hy
    · exact hx
    · exact ih hl y hy

theorem Chain.congr {next' : β → β} (h : Chain null next a l)
    (hsame : ∀ y ∈ l, next' y = next y) : Chain null next' a l := by
  induction l generalizing a with
  | nil => exact h
  | cons x l ih =>
    obtain ⟨rfl, hx, hl⟩ := h
    refine ⟨rfl, hx, ?_⟩
    rw [hsame a List.mem_cons_self]
    exact ih hl fun y hy => hsame y (List.mem_cons_of_mem _ hy)

theorem Chain.unique (h : Chain null next a l) (h' : Chain null next a m) : l = m := by
  induction l generalizing a m with
  | nil =>
    cases m with
    | nil => rfl
    | cons y m => exact absurd (h'.1.symm.trans h) h'.2.1
  | cons x l ih =>
    cases m with
    | nil => exact absurd (h.1.symm.trans h') h.2.1
    | cons y m =>
      obtain ⟨rfl, -, hl⟩ := h
      obtain ⟨rfl, -, hm⟩ := h'
      rw [ih hl hm]

/-- The nodes from `x` on are a chain too. -/
theorem Chain.drop (h : Chain null next a (l ++ x :: m)) : Chain null next x (x :: m) := by
  induction l generalizing a with
  | nil => exact ⟨rfl, h.2⟩
  | cons y l ih => exact ih h.2.2

theorem Chain.nodup (h : Chain null next a l) : l.Nodup := by
  induction l generalizing a with
  | nil => exact List.nodup_nil
  | cons x l ih =>
    refine List.nodup_cons.2 ⟨fun hx => ?_, ih h.2.2⟩
    -- met again, `x` would be followed by as many nodes as before and by fewer
    obtain ⟨before, after, rfl⟩ := List.append_of_mem hx
    have hagain : Chain null next x (x :: after) := Chain.drop h.2.2
    have hwhole : Chain null next x (x :: (before ++ x :: after)) := ⟨rfl, h.2⟩
    have hlen := congrArg List.length (hwhole.unique hagain)
    simp only [List.length_cons, List.length_append] at hlen
    omega

/-- A list is searched in vain, or up to the first hit. -/
theorem first_found (found : β → Bool) (l : List β) : (∀ y ∈ l, found y = false) ∨
    ∃ before x after, l = before ++ x :: after ∧ (∀ y ∈ before, found y = false) ∧
      found x = true := by
  induction l with
  | nil => exact .inl (by simp)
  | cons y l ih =>
    cases hy : found y with
    | true => exact .inr ⟨[], y, l, rfl, by simp, hy⟩
    | false =>
      rcases ih with hno | ⟨before, x, after, rfl, hno, hx⟩
      · exact .inl (List.forall_mem_cons.2 ⟨hy, hno⟩)
      · exact .inr ⟨y :: before, x, after, rfl, List.forall_mem_cons.2 ⟨hy, hno⟩, hx⟩

/-- The last node of `l`, or `d` when there is none. -/
def lastOf (d : β) (l : List β) : β := l.getLastD d

/-- What comes before a node of a chain: the head or the link of the node before it. -/
theorem Chain.before (h : Chain null next a (l ++ x :: m)) :
    (l = [] ∧ lastOf null l = null ∧ a = x) ∨
    ∃ l' p, l = l' ++ [p] ∧ lastOf null l = p ∧ p ≠ null ∧ next p = x := by
  rcases List.eq_nil_or_concat' l with rfl | ⟨l', p, rfl⟩
  · exact .inl ⟨rfl, rfl, h.1⟩
  · refine .inr ⟨l', p, rfl, by simp [lastOf], ?_, ?_⟩
    · exact h.mem_ne p (by simp)
    · rw [List.append_assoc] at h
      exact h.drop.2.2.1

variable [DecidableEq β]

theorem Chain.unlink (h : Chain null next a (l ++ x :: y :: m)) :
    Chain null (Function.update next x (next y)) a (l ++ x :: m) := by
  have hnodup := h.nodup
  induction l generalizing a with
  | nil =>
    obtain ⟨hax, hx, -, -, hm⟩ := h
    refine ⟨hax, hx, ?_⟩
    rw [Function.update_self]
    simp only [List.nil_append, List.nodup_cons, List.mem_cons, not_or] at hnodup
    exact hm.congr fun z hz => Function.update_of_ne (ne_of_mem_of_not_mem hz hnodup.1.2) _ _
  | cons z l ih =>
    obtain ⟨haz, hz, hrest⟩ := h
    have hne : z ≠ x := by
      rintro rfl
      simp at hnodup
    refine ⟨haz, hz, ?_⟩
    rw [Function.update_of_ne hne]
    exact ih hrest (List.nodup_cons.1 hnodup).2

/-! A loop `for (p = head; p; p = next(p)) if (found(p)) break;`, cut off after `n` turns. -/

variable (null next)

def walk (found : β → Bool) : ℕ → β → Option β
  | 0, _ => none
  | n + 1, p => if p = null then some null else if found p then some p else walk found n (next p)

/-- The same loop with the node before the one it stops at. -/
def walkPrev (found : β → Bool) : ℕ → β → β → Option (β × β)
  | 0, _, _ => none
  | n + 1, prev, p =>
    if p = null then some (prev, null)
    else if found p then some (prev, p) else walkPrev found n p (next p)

variable {null next} {found : β → Bool} {n : ℕ}

theorem Chain.walk_none (h : Chain null next a l) (hn : l.length < n)
    (hno : ∀ y ∈ l, found y = false) : walk null next found n a = some null := by
  induction n generalizing a l with
  | zero => omega
  | succ n ih =>
    cases l with
    | nil => simp [walk, chain_nil.1 h]
    | cons x l =>
      obtain ⟨rfl, ha, hl⟩ := h
      simp only [walk, if_neg ha, hno a List.mem_cons_self, Bool.false_eq_true, if_false]
      exact ih hl (by simpa using hn) fun y hy => hno y (List.mem_cons_of_mem _ hy)

theorem Chain.walk_first (h : Chain null next a (l ++ x :: m)) (hn : l.length < n)
    (hno : ∀ y ∈ l, found y = false) (hx : found x = true) :
    walk null next found n a = some x := by
  induction n generalizing a l with
  | zero => omega
  | succ n ih =>
    cases l with
    | nil =>
      obtain ⟨rfl, ha, -⟩ := h
      simp [walk, ha, hx]
    | cons y l =>
      obtain ⟨rfl, ha, hl⟩ := h
      simp only [walk, if_neg ha, hno a List.mem_cons_self, Bool.false_eq_true, if_false]
      exact ih hl (by simpa using hn) fun y hy => hno y (List.mem_cons_of_mem _ hy)

theorem Chain.walkPrev_none {prev : β} (h : Chain null next a l) (hn : l.length < n)
    (hno : ∀ y ∈ l, found y = false) :
    walkPrev null next found n prev a = some (lastOf prev l, null) := by
  induction n generalizing a l prev with
  | zero => omega
  | succ n ih =>
    cases l with
    | nil => simp [walkPrev, chain_nil.1 h, lastOf]
    | cons x l =>
      obtain ⟨rfl, ha, hl⟩ := h
      simp only [walkPrev, if_neg ha, hno a List.mem_cons_self, Bool.false_eq_true, if_false]
      rw [ih hl (by simpa using hn) fun y hy => hno y (List.mem_cons_of_mem _ hy)]
      simp only [lastOf, List.getLastD_cons]

theorem Chain.walkPrev_first {prev : β} (h : Chain null next a (l ++ x :: m)) (hn : l.length < n)
    (hno : ∀ y ∈ l, found y = false) (hx : found x = true) :
    walkPrev null next found n prev a = some (lastOf prev l, x) := by
  induction n generalizing a l prev with
  | zero => omega
  | succ n ih =>
    cases l with
    | nil =>
      obtain ⟨rfl, ha, -⟩ := h
      simp [walkPrev, ha, hx, lastOf]
    | cons y l =>
      obtain ⟨rfl, ha, hl⟩ := h
      simp only [walkPrev, if_neg ha, hno a List.mem_cons_self, Bool.false_eq_true, if_false]
      rw [ih hl (by simpa using hn) fun y hy => hno y (List.mem_cons_of_mem _ hy)]
      simp only [lastOf, List.getLastD_cons]

end

/-- Nodes at equal distances, before another chain. -/
theorem chain_range {next : ℕ → ℕ} {step b : ℕ} {l : List ℕ} (hl : Chain 0 next b l) (n : ℕ) {a : ℕ}
    (ha : a ≠ 0) (hnext : ∀ j < n, next (a + j * step) = a + (j + 1) * step)
    (hlast : next (a + n * step) = b) :
    Chain 0 next a (List.range' a (n + 1) step ++ l) := by
  induction n generalizing a with
  | zero =>
    refine ⟨rfl, ha, ?_⟩
    rw [Nat.zero_mul, Nat.add_zero] at hlast
    rw [hlast]
    exact hl
  | succ n ih =>
    rw [List.range'_succ]
    have hstep : next a = a + step := by simpa using hnext 0 (Nat.succ_pos n)
    refine ⟨rfl, ha, ?_⟩
    rw [hstep]
    have hshift : ∀ j, a + step + j * step = a + (j + 1) * step := fun j => by
      rw [Nat.succ_mul]
      omega
    refine ih (by omega) (fun j hj => ?_) ?_
    · rw [hshift, hshift]
      exact hnext (j + 1) (by omega)
    · rw [hshift]
      exact hlast

end Linux011.Chains
