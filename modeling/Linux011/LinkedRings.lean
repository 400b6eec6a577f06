import Mathlib

set_option autoImplicit false

/-!
# Rings of linked nodes

Nodes with a link forward and a link back. A ring is given by the list of its nodes from one of them
on; a list that ends in a null pointer is a ring through that pointer.
-/
namespace Linux011.LinkedRings

structure Links (β : Type*) where
  next : β → β
  prev : β → β

variable {β : Type*} (L : Links β)

/-- Both links between two neighbours. -/
def Links.Linked (a b : β) : Prop := L.next a = b ∧ L.prev b = a

/-- From `a` over the nodes of the list to `b`. -/
def Links.Path : β → List β → β → Prop
  | a, [], b => L.Linked a b
  | a, c :: l, b => L.Linked a c ∧ Links.Path c l b

def Links.Ring : List β → Prop
  | [] => False
  | a :: l => L.Path a l a

variable {L}

theorem path_append {a x b : β} {l m : List β} :
    L.Path a (l ++ x :: m) b ↔ L.Path a l x ∧ L.Path x m b := by
  induction l generalizing a with
  | nil => rfl
  | cons c l ih =>
    show L.Linked a c ∧ L.Path c (l ++ x :: m) b ↔ (L.Linked a c ∧ L.Path c l x) ∧ L.Path x m b
    rw [ih, and_assoc]

/-- Nodes with numbers, each linked to the next one. -/
theorem path_range {g : ℕ → β} {a n : ℕ} {b : β}
    (hlinked : ∀ i, a ≤ i → i < a + n → L.Linked (g i) (g (i + 1))) (hlast : L.Linked (g (a + n)) b) :
    L.Path (g a) ((List.range' (a + 1) n).map g) b := by
  induction n generalizing a with
  | zero => exact hlast
  | succ n ih =>
    rw [List.range'_succ, List.map_cons]
    refine ⟨hlinked a le_rfl (by omega), ih ?_ ?_⟩
    · intro i hi hin
      exact hlinked i (by omega) (by omega)
    · rw [show a + 1 + n = a + (n + 1) by omega]
      exact hlast

/-- A path depends on the links of its nodes only. -/
theorem Links.Path.congr {L' : Links β} {a b : β} {l : List β} (h : L.Path a l b)
    (hnext : ∀ u ∈ a :: l, L'.next u = L.next u) (hprev : ∀ v ∈ l, L'.prev v = L.prev v)
    (hb : L'.prev b = L.prev b) : L'.Path a l b := by
  induction l generalizing a with
  | nil => exact ⟨(hnext a (List.mem_cons_self ..)).trans h.1, hb.trans h.2⟩
  | cons c l ih =>
    refine ⟨⟨(hnext a (List.mem_cons_self ..)).trans h.1.1,
      (hprev c (List.mem_cons_self ..)).trans h.1.2⟩, ih h.2 ?_ ?_⟩
    · intro u hu
      exact hnext u (List.mem_cons_of_mem _ hu)
    · intro v hv
      exact hprev v (List.mem_cons_of_mem _ hv)

theorem Links.Ring.congr {L' : Links β} {l : List β} (h : L.Ring l)
    (hnext : ∀ u ∈ l, L'.next u = L.next u) (hprev : ∀ v ∈ l, L'.prev v = L.prev v) : L'.Ring l := by
  cases l with
  | nil => exact h
  | cons a l =>
    exact Links.Path.congr h hnext (fun v hv => hprev v (List.mem_cons_of_mem _ hv))
      (hprev a (List.mem_cons_self ..))

/-- The last node before the end. -/
theorem Links.Path.prev_mem {a b : β} {l : List β} (h : L.Path a l b) : L.prev b ∈ a :: l := by
  induction l generalizing a with
  | nil =>
    rw [h.2]
    exact List.mem_cons_self ..
  | cons c l ih => exact List.mem_cons_of_mem _ (ih h.2)

theorem Links.Path.next_mem {a b : β} {l : List β} (h : L.Path a l b) : L.next a ∈ l ++ [b] := by
  cases l with
  | nil =>
    rw [h.1]
    exact List.mem_cons_self ..
  | cons c l =>
    rw [h.1.1]
    exact List.mem_cons_self ..

theorem Links.Path.first {a b : β} {l : List β} (h : L.Path a l b) : L.Linked a (L.next a) := by
  cases l with
  | nil => exact ⟨rfl, h.1.symm ▸ h.2⟩
  | cons c l => exact ⟨rfl, h.1.1.symm ▸ h.1.2⟩

theorem Links.Path.last {a b : β} {l : List β} (h : L.Path a l b) : L.Linked (L.prev b) b := by
  induction l generalizing a with
  | nil => exact ⟨h.2.symm ▸ h.1, rfl⟩
  | cons c l ih => exact ih h.2

/-- A ring from another of its nodes on. -/
theorem Links.Ring.rotate {l m : List β} (h : L.Ring (l ++ m)) : L.Ring (m ++ l) := by
  cases l with
  | nil => exact (List.append_nil m).symm ▸ h
  | cons a l =>
    cases m with
    | nil => exact List.append_nil (a :: l) ▸ h
    | cons x m =>
      obtain ⟨hl, hm⟩ := path_append.mp h
      exact path_append.mpr ⟨hm, hl⟩

/-- The links of a node of a ring. -/
theorem Links.Ring.linked {x : β} {l : List β} (h : L.Ring l) (hx : x ∈ l) :
    (L.next x ∈ l ∧ L.Linked x (L.next x)) ∧ L.prev x ∈ l ∧ L.Linked (L.prev x) x := by
  obtain ⟨before, after, rfl⟩ := List.append_of_mem hx
  have hpath : L.Path x (after ++ before) x := h.rotate
  have hmem : ∀ y, y ∈ x :: (after ++ before) → y ∈ before ++ x :: after := by
    intro y hy
    rw [List.mem_append, List.mem_cons]
    rw [List.mem_cons, List.mem_append] at hy
    tauto
  refine ⟨⟨hmem _ ?_, hpath.first⟩, hmem _ hpath.prev_mem, hpath.last⟩
  rw [List.mem_cons]
  rcases List.mem_append.mp hpath.next_mem with h | h
  · exact .inr h
  · exact .inl (List.mem_singleton.mp h)

/-- The last link leads to `y` instead. -/
theorem Links.Path.redirect {L' : Links β} {a x y : β} {l : List β} (h : L.Path a l x)
    (hnodup : (a :: l).Nodup) (hlast : L'.next (L.prev x) = y) (hy : L'.prev y = L.prev x)
    (hnext : ∀ u ∈ a :: l, u ≠ L.prev x → L'.next u = L.next u)
    (hprev : ∀ v ∈ l, L'.prev v = L.prev v) : L'.Path a l y := by
  induction l generalizing a with
  | nil =>
    have ha : L.prev x = a := h.2
    rw [ha] at hlast hy
    exact ⟨hlast, hy⟩
  | cons c l ih =>
    obtain ⟨ha, hrest⟩ := List.nodup_cons.mp hnodup
    have hne : a ≠ L.prev x := by
      intro heq
      exact ha (heq ▸ h.2.prev_mem)
    refine ⟨⟨(hnext a (List.mem_cons_self ..) hne).trans h.1.1,
      (hprev c (List.mem_cons_self ..)).trans h.1.2⟩, ih h.2 hrest ?_ ?_⟩
    · intro u hu
      exact hnext u (List.mem_cons_of_mem _ hu)
    · intro v hv
      exact hprev v (List.mem_cons_of_mem _ hv)

variable [DecidableEq β]

/-- The neighbours of `x` become neighbours. -/
def Links.unlink (L : Links β) (x : β) : Links β where
  next := Function.update L.next (L.prev x) (L.next x)
  prev := Function.update L.prev (L.next x) (L.prev x)

/-- `x` comes before `b`. -/
def Links.insert (L : Links β) (x b : β) : Links β where
  next := Function.update (Function.update L.next x b) (L.prev b) x
  prev := Function.update (Function.update L.prev x (L.prev b)) b x

section
variable (L : Links β) (x b u : β)

theorem unlink_next :
    (L.unlink x).next u = if L.prev x = u then L.next x else L.next u :=
  (Function.update_apply ..).trans (if_congr eq_comm rfl rfl)

theorem unlink_prev :
    (L.unlink x).prev u = if L.next x = u then L.prev x else L.prev u :=
  (Function.update_apply ..).trans (if_congr eq_comm rfl rfl)

theorem insert_next :
    (L.insert x b).next u = if L.prev b = u then x else if u = x then b else L.next u := by
  show Function.update (Function.update L.next x b) (L.prev b) x u = _
  rw [Function.update_apply, Function.update_apply]
  exact if_congr eq_comm rfl rfl

theorem insert_prev :
    (L.insert x b).prev u = if b = u then x else if u = x then L.prev b else L.prev u := by
  show Function.update (Function.update L.prev x (L.prev b)) b x u = _
  rw [Function.update_apply, Function.update_apply]
  exact if_congr eq_comm rfl rfl

end

/-- Without a node between two paths. -/
theorem Links.Path.unlink {a x b : β} {l m : List β} (h : L.Path a l x) (h' : L.Path x m b)
    (hnodup : (a :: (l ++ x :: m)).Nodup) (hb : b ∉ l ++ x :: m) :
    (L.unlink x).Path a (l ++ m) b := by
  rw [← List.cons_append, List.nodup_append] at hnodup
  obtain ⟨hal, hxm, hdisjoint⟩ := hnodup
  rw [List.mem_append, not_or] at hb
  have hlast : (L.unlink x).next (L.prev x) = L.next x := Function.update_self ..
  have hfirst : (L.unlink x).prev (L.next x) = L.prev x := Function.update_self ..
  have hnext : ∀ u ∈ a :: l, u ≠ L.prev x → (L.unlink x).next u = L.next u :=
    fun u _ hu => Function.update_of_ne hu _ _
  cases m with
  | nil =>
    obtain ⟨hx, -⟩ := h'
    rw [hx] at hlast hfirst
    rw [List.append_nil]
    refine h.redirect hal hlast hfirst hnext ?_
    intro v hv
    refine Function.update_of_ne ?_ _ _
    intro heq
    exact hb.1 (hx ▸ heq ▸ hv)
  | cons c m =>
    obtain ⟨⟨hx, -⟩, hm⟩ := h'
    rw [hx] at hlast hfirst
    have hcm := (List.nodup_cons.mp hxm).2
    rw [path_append]
    constructor
    · refine h.redirect hal hlast hfirst hnext ?_
      intro v hv
      refine Function.update_of_ne ?_ _ _
      rw [hx]
      exact hdisjoint v (List.mem_cons_of_mem _ hv) c
        (List.mem_cons_of_mem _ (List.mem_cons_self ..))
    · refine hm.congr ?_ ?_ ?_
      · intro u hu
        refine Function.update_of_ne ?_ _ _
        exact (hdisjoint _ h.prev_mem u (List.mem_cons_of_mem _ hu)).symm
      · intro v hv
        refine Function.update_of_ne ?_ _ _
        rw [hx]
        intro heq
        exact (List.nodup_cons.mp hcm).1 (heq ▸ hv)
      · refine Function.update_of_ne ?_ _ _
        rw [hx]
        intro heq
        exact hb.2 (heq ▸ List.mem_cons_of_mem _ (List.mem_cons_self ..))

/-- A ring without one of its nodes. -/
theorem Links.Ring.unlink {x : β} {l m : List β} (h : L.Ring (l ++ x :: m))
    (hnodup : (l ++ x :: m).Nodup) (hne : l ++ m ≠ []) : (L.unlink x).Ring (l ++ m) := by
  cases l with
  | cons a l =>
    obtain ⟨hl, hm⟩ := path_append.mp h
    exact hl.unlink hm hnodup (List.nodup_cons.mp hnodup).1
  | nil =>
    cases m with
    | nil => exact absurd rfl hne
    | cons y m =>
      obtain ⟨hy, hm⟩ := h
      have hrotated : (y :: (m ++ x :: [])).Nodup := by
        rw [← List.cons_append, List.nodup_append_comm]
        exact hnodup
      have hlast : L.Path x [] y := hy
      have hpath := hm.unlink hlast hrotated (List.nodup_cons.mp hrotated).1
      rw [List.append_nil] at hpath
      exact hpath

/-- A new node at the end of a path. -/
theorem Links.Path.insert {a x b : β} {l : List β} (h : L.Path a l b) (hnodup : (a :: l).Nodup)
    (hb : b ∉ l) (hx : x ∉ a :: l) (hxb : x ≠ b) : (L.insert x b).Path a (l ++ [x]) b := by
  have hlast : L.prev b ∈ a :: l := h.prev_mem
  have hne : x ≠ L.prev b := fun heq => hx (heq ▸ hlast)
  have hprev : ∀ v, v ≠ x → v ≠ b → (L.insert x b).prev v = L.prev v := by
    intro v hvx hvb
    exact (Function.update_of_ne hvb _ _).trans (Function.update_of_ne hvx _ _)
  rw [path_append]
  constructor
  · refine h.redirect hnodup ?_ ?_ ?_ ?_
    · exact Function.update_self ..
    · exact (Function.update_of_ne hxb _ _).trans (Function.update_self ..)
    · intro u hu hub
      refine (Function.update_of_ne hub _ _).trans (Function.update_of_ne ?_ _ _)
      exact fun heq => hx (heq ▸ hu)
    · intro v hv
      exact hprev v (fun heq => hx (heq ▸ List.mem_cons_of_mem _ hv)) fun heq => hb (heq ▸ hv)
  · refine ⟨?_, ?_⟩
    · exact (Function.update_of_ne hne _ _).trans (Function.update_self ..)
    · exact Function.update_self ..

/-- A new last node of a ring. -/
theorem Links.Ring.insert_last {x b : β} {l : List β} (h : L.Ring (b :: l))
    (hnodup : (b :: l).Nodup) (hx : x ∉ b :: l) : (L.insert x b).Ring (b :: l ++ [x]) := by
  obtain ⟨hb, -⟩ := List.nodup_cons.mp hnodup
  exact Links.Path.insert h hnodup hb hx fun heq => hx (heq ▸ List.mem_cons_self ..)

/-- A new second node of a ring. -/
theorem Links.Ring.insert_second {x a : β} {l : List β} (h : L.Ring (a :: l))
    (hnodup : (a :: l).Nodup) (hx : x ∉ a :: l) :
    (L.insert x (L.next a)).Ring (a :: x :: l) := by
  cases l with
  | nil =>
    have ha : L.next a = a := h.1
    rw [ha]
    exact Links.Path.insert (l := []) h (List.nodup_singleton a) List.not_mem_nil hx
      fun heq => hx (heq ▸ List.mem_cons_self ..)
  | cons y m =>
    obtain ⟨hay, hm⟩ := h
    have hy : L.next a = y := hay.1
    obtain ⟨ha, hym⟩ := List.nodup_cons.mp hnodup
    rw [List.mem_cons, List.mem_cons, not_or, not_or] at hx
    rw [hy]
    have hfirst := Links.Path.insert (x := x) (l := []) hay (List.nodup_singleton a)
      List.not_mem_nil (fun hmem => hx.1 (List.mem_singleton.mp hmem)) hx.2.1
    refine path_append (l := [x]).mpr ⟨hfirst, hm.congr ?_ ?_ ?_⟩
    · intro u hu
      have hua : u ≠ L.prev y := by
        rw [hay.2]
        exact fun heq => ha (heq ▸ hu)
      refine (Function.update_of_ne hua _ _).trans (Function.update_of_ne ?_ _ _)
      rintro rfl
      exact hx.2.2 ((List.mem_cons.mp hu).resolve_left hx.2.1)
    · intro v hv
      have hvy : v ≠ y := fun heq => (List.nodup_cons.mp hym).1 (heq ▸ hv)
      refine (Function.update_of_ne hvy _ _).trans (Function.update_of_ne ?_ _ _)
      exact fun heq => hx.2.2 (heq ▸ hv)
    · have hay' : a ≠ y := fun heq => ha (heq ▸ List.mem_cons_self ..)
      refine (Function.update_of_ne hay' _ _).trans (Function.update_of_ne ?_ _ _)
      exact fun heq => hx.1 heq.symm

end Linux011.LinkedRings
