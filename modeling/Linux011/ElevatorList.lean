import Mathlib

set_option autoImplicit false

/-!
# Lists linked by next pointers, and one-way sweeps

The nodes are the indices of a table; a new node goes behind the first one where the search
stops, and never before the head.
-/
namespace Linux011.ElevatorList

section Links
variable {ι : Type}

/-- The nodes met from pointer `p` on. -/
def Follows (next : ι → Option ι) : Option ι → List ι → Prop
  | p, [] => p = none
  | p, i :: l => p = some i ∧ Follows next (next i) l

theorem Follows.congr {next next' : ι → Option ι} {l : List ι} {p : Option ι}
    (h : Follows next p l) (heq : ∀ i ∈ l, next' i = next i) : Follows next' p l := by
  induction l generalizing p with
  | nil => exact h
  | cons i l ih =>
    refine ⟨h.1, ?_⟩
    rw [heq i List.mem_cons_self]
    exact ih h.2 fun j hj => heq j (List.mem_cons_of_mem i hj)

theorem Follows.unique {next : ι → Option ι} {l l' : List ι} {p : Option ι}
    (h : Follows next p l) (h' : Follows next p l') : l = l' := by
  induction l generalizing p l' with
  | nil =>
    cases l' with
    | nil => rfl
    | cons j l' => exact absurd (h.symm.trans h'.1) (by simp)
  | cons i l ih =>
    cases l' with
    | nil => exact absurd (h.1.symm.trans h') (by simp)
    | cons j l' =>
      obtain rfl : i = j := Option.some.inj (h.1.symm.trans h'.1)
      rw [ih h.2 h'.2]

/-- The first node from `t` on where `stop` holds of it and its successor, else the last one. -/
def seek (next : ι → Option ι) (stop : ι → ι → Prop) [DecidableRel stop] : ℕ → ι → Option ι
  | 0, _ => none
  | fuel + 1, t => match next t with
    | none => some t
    | some n => if stop t n then some t else seek next stop fuel n

def insertWhere (stop : ι → ι → Prop) [DecidableRel stop] (x : ι) : List ι → List ι
  | [] => [x]
  | [t] => [t, x]
  | t :: n :: l => if stop t n then t :: x :: n :: l else t :: insertWhere stop x (n :: l)

variable (stop : ι → ι → Prop) [DecidableRel stop]

theorem insertWhere_perm (x : ι) (l : List ι) : (insertWhere stop x l).Perm (x :: l) := by
  induction l using insertWhere.induct stop with
  | case1 => exact List.Perm.refl _
  | case2 t => exact List.Perm.swap x t []
  | case3 t n l h =>
    rw [insertWhere, if_pos h]
    exact List.Perm.swap x t (n :: l)
  | case4 t n l h ih =>
    rw [insertWhere, if_neg h]
    exact (ih.cons t).trans (List.Perm.swap x t (n :: l))

theorem insertWhere_cons (x t : ι) (l : List ι) :
    ∃ l', insertWhere stop x (t :: l) = t :: l' ∧ l'.Perm (x :: l) := by
  have hperm := insertWhere_perm stop x (t :: l)
  have hhead : ∃ l', insertWhere stop x (t :: l) = t :: l' := by
    cases l with
    | nil => exact ⟨_, rfl⟩
    | cons n l =>
      rw [insertWhere]
      split_ifs
      · exact ⟨_, rfl⟩
      · exact ⟨_, rfl⟩
  obtain ⟨l', hl'⟩ := hhead
  refine ⟨l', hl', ?_⟩
  rw [hl'] at hperm
  exact (hperm.trans (List.Perm.swap t x l)).cons_inv

theorem map_insertWhere {κ : Type} (key : ι → κ) (stop' : κ → κ → Prop) [DecidableRel stop']
    (h : ∀ t n, stop t n ↔ stop' (key t) (key n)) (x : ι) (l : List ι) :
    (insertWhere stop x l).map key = insertWhere stop' (key x) (l.map key) := by
  induction l using insertWhere.induct stop with
  | case1 => rfl
  | case2 t => rfl
  | case3 t n l hs =>
    rw [insertWhere, if_pos hs]
    simp only [List.map_cons]
    rw [insertWhere, if_pos ((h t n).mp hs)]
  | case4 t n l hs ih =>
    rw [insertWhere, if_neg hs]
    simp only [List.map_cons] at ih ⊢
    rw [insertWhere, if_neg (fun hc => hs ((h t n).mpr hc)), ih]

variable [DecidableEq ι]

/-- `x` is linked behind `w`. -/
def linkAfter (next : ι → Option ι) (w x : ι) : ι → Option ι :=
  Function.update (Function.update next x (next w)) w (some x)

/-- The search ends within the list, and linking there inserts. -/
theorem seek_insert {next : ι → Option ι} {t x : ι} {l : List ι} {fuel : ℕ}
    (h : Follows next (next t) l) (hfuel : l.length < fuel) (hnodup : (t :: l).Nodup)
    (hx : x ∉ t :: l) :
    ∃ w, seek next stop fuel t = some w ∧ w ∈ t :: l ∧
      Follows (linkAfter next w x) (some t) (insertWhere stop x (t :: l)) := by
  induction l generalizing t fuel with
  | nil =>
    obtain ⟨fuel, rfl⟩ := Nat.exists_eq_succ_of_ne_zero (by omega : fuel ≠ 0)
    have hnext : next t = none := h
    have hxt : x ≠ t := fun hc => hx (by simp [hc])
    refine ⟨t, by rw [seek, hnext], List.mem_cons_self, rfl, ?_, ?_⟩
    · simp [linkAfter]
    · change linkAfter next t x x = none
      simp [linkAfter, Function.update_of_ne hxt, hnext]
  | cons n l ih =>
    obtain ⟨fuel, rfl⟩ := Nat.exists_eq_succ_of_ne_zero (by omega : fuel ≠ 0)
    have hnext : next t = some n := h.1
    have hxt : x ≠ t := fun hc => hx (by simp [hc])
    have hxl : x ∉ n :: l := fun hc => hx (List.mem_cons_of_mem t hc)
    have htl : t ∉ n :: l := (List.nodup_cons.mp hnodup).1
    have hseek : seek next stop (fuel + 1) t =
        if stop t n then some t else seek next stop fuel n := by rw [seek, hnext]
    rw [Nat.succ_eq_add_one, hseek]
    by_cases hs : stop t n
    · refine ⟨t, by rw [if_pos hs], List.mem_cons_self, ?_⟩
      rw [insertWhere, if_pos hs]
      refine ⟨rfl, by simp [linkAfter], ?_⟩
      have hafter : linkAfter next t x x = some n := by
        simp [linkAfter, Function.update_of_ne hxt, hnext]
      rw [hafter]
      refine Follows.congr ⟨rfl, h.2⟩ ?_
      intro i hi
      have hit : i ≠ t := by
        rintro rfl
        exact htl hi
      have hix : i ≠ x := by
        rintro rfl
        exact hxl hi
      unfold linkAfter
      rw [Function.update_of_ne hit, Function.update_of_ne hix]
    · have hlen : l.length < fuel := by simpa using hfuel
      obtain ⟨w, hw, hmem, hf⟩ := ih h.2 hlen (List.nodup_cons.mp hnodup).2 hxl
      refine ⟨w, by rw [if_neg hs]; exact hw, List.mem_cons_of_mem t hmem, ?_⟩
      rw [insertWhere, if_neg hs]
      refine ⟨rfl, ?_⟩
      have htw : t ≠ w := by
        rintro rfl
        exact htl hmem
      have hstay : linkAfter next w x t = some n := by
        unfold linkAfter
        rw [Function.update_of_ne htw, Function.update_of_ne hxt.symm, hnext]
      rwa [hstay]

end Links

section Order
variable {α : Type} [LinearOrder α]

/-- The places where a list does not ascend. -/
def descents : List α → ℕ
  | a :: b :: l => (if a < b then 0 else 1) + descents (b :: l)
  | _ => 0

/-- Where the elevator takes `x` in: on the way up between two neighbours, or before the first
    stop of the next sweep. -/
def Between (x t n : α) : Prop := (t < x ∨ ¬ t < n) ∧ x < n

instance (x : α) : DecidableRel (Between x) := fun t n =>
  inferInstanceAs (Decidable ((t < x ∨ ¬ t < n) ∧ x < n))

theorem descents_tail (a : α) (l : List α) : descents l ≤ descents (a :: l) := by
  cases l with
  | nil => exact Nat.zero_le _
  | cons b l => exact Nat.le_add_left _ _

theorem descents_raise_head {a a' : α} {l : List α} (h : ∀ b ∈ l.head?, a < b → a' < b) :
    descents (a' :: l) ≤ descents (a :: l) := by
  cases l with
  | nil => exact Nat.le_refl _
  | cons b l =>
    have hb : a < b → a' < b := h b rfl
    simp only [descents]
    split_ifs with h1 h2
    · omega
    · omega
    · exact absurd (hb ‹_›) h1
    · omega

/-- On a single sweep, an element above the head keeps it a single sweep. -/
theorem descents_insert_sweep {x a : α} {l : List α} (hax : a < x) (hx : x ∉ l)
    (h : descents (a :: l) = 0) : descents (insertWhere (Between x) x (a :: l)) = 0 := by
  induction l generalizing a with
  | nil => simp [insertWhere, descents, hax]
  | cons b l ih =>
    have hab : a < b := by
      by_contra hc
      simp [descents, hc] at h
    have hrest : descents (b :: l) = 0 := by
      simpa [descents, hab] using h
    rw [insertWhere]
    by_cases hxb : x < b
    · rw [if_pos ⟨.inl hax, hxb⟩]
      simp [descents, hax, hxb, hrest]
    · rw [if_neg (fun hc => hxb hc.2)]
      have hne : x ≠ b := fun hc => hx (by simp [hc])
      have hbx : b < x := lt_of_le_of_ne (not_lt.mp hxb) hne.symm
      have hih := ih hbx (fun hc => hx (List.mem_cons_of_mem b hc)) hrest
      obtain ⟨l', hl', _⟩ := insertWhere_cons (Between x) x b l
      rw [hl'] at hih ⊢
      simp [descents, hab, hih]

/-- At most one descent stays at most one descent. -/
theorem descents_insert {x a : α} {l : List α} (hx : x ∉ l) (h : descents (a :: l) ≤ 1) :
    descents (insertWhere (Between x) x (a :: l)) ≤ 1 := by
  induction l generalizing a with
  | nil =>
    simp only [insertWhere, descents]
    split_ifs <;> omega
  | cons b l ih =>
    have hne : x ≠ b := fun hc => hx (by simp [hc])
    have hxl : x ∉ l := fun hc => hx (List.mem_cons_of_mem b hc)
    by_cases hab : a < b
    · have hrest : descents (b :: l) ≤ 1 := by simpa [descents, hab] using h
      rw [insertWhere]
      by_cases hbt : Between x a b
      · have hax : a < x := hbt.1.resolve_right (not_not_intro hab)
        rw [if_pos hbt]
        simpa [descents, hax, hbt.2] using hrest
      · rw [if_neg hbt]
        have hih := ih hxl hrest
        obtain ⟨l', hl', _⟩ := insertWhere_cons (Between x) x b l
        rw [hl'] at hih ⊢
        simpa [descents, hab] using hih
    · -- the one descent is here, so the rest is a single sweep
      have hrest : descents (b :: l) = 0 := by
        simp only [descents, if_neg hab] at h
        omega
      rw [insertWhere]
      by_cases hxb : x < b
      · rw [if_pos ⟨.inr hab, hxb⟩]
        simp only [descents, if_pos hxb, hrest]
        split_ifs <;> omega
      · rw [if_neg (fun hc => hxb hc.2)]
        have hbx : b < x := lt_of_le_of_ne (not_lt.mp hxb) hne.symm
        have hsweep := descents_insert_sweep hbx hxl hrest
        obtain ⟨l', hl', _⟩ := insertWhere_cons (Between x) x b l
        rw [hl'] at hsweep ⊢
        simp [descents, hab, hsweep]

end Order
end Linux011.ElevatorList
