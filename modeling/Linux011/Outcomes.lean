import Mathlib.Tactic.Common

set_option autoImplicit false

/-!
# Calls that return or stop

A call works on a state; it comes back with a result and a new state, or stops for a reason.
-/
namespace Linux011.Outcomes

inductive Outcome (ε σ α : Type) where
  | ok (a : α) (s : σ)
  | stop (why : ε)

namespace Outcome
variable {ε σ α β ι : Type}

def bind : Outcome ε σ α → (α → σ → Outcome ε σ β) → Outcome ε σ β
  | ok a s, f => f a s
  | stop w, _ => stop w

/-- The result and the state, if there are any, meet `Q`; the reason to stop meets `E`. -/
def Sat (Q : α → σ → Prop) (E : ε → Prop) : Outcome ε σ α → Prop
  | ok a s => Q a s
  | stop w => E w

/-- The state is changed behind the call. -/
def mapState (f : σ → σ) : Outcome ε σ α → Outcome ε σ α
  | ok a s => ok a (f s)
  | stop w => stop w

/-- A body for each element of a list, up to the first that stops. -/
def each (body : ι → σ → Outcome ε σ Unit) : List ι → σ → Outcome ε σ Unit
  | [], s => ok () s
  | i :: l, s => (body i s).bind fun _ s => each body l s

section
variable {Q : α → σ → Prop} {E : ε → Prop} {r : Outcome ε σ α}

@[simp] theorem bind_ok (a : α) (s : σ) (f : α → σ → Outcome ε σ β) : (ok a s).bind f = f a s := rfl

@[simp] theorem bind_stop (w : ε) (f : α → σ → Outcome ε σ β) :
    (stop w : Outcome ε σ α).bind f = stop w := rfl

@[simp] theorem sat_ok {a : α} {s : σ} : (ok a s).Sat Q E ↔ Q a s := Iff.rfl

@[simp] theorem sat_stop {w : ε} : (stop w : Outcome ε σ α).Sat Q E ↔ E w := Iff.rfl

theorem Sat.bind {Q' : β → σ → Prop} {f : α → σ → Outcome ε σ β} (h : r.Sat Q E)
    (hf : ∀ a s, Q a s → (f a s).Sat Q' E) : (r.bind f).Sat Q' E := by
  cases r with
  | ok a s => exact hf a s h
  | stop w => exact h

theorem Sat.mono {Q' : α → σ → Prop} {E' : ε → Prop} (h : r.Sat Q E)
    (hQ : ∀ a s, Q a s → Q' a s) (hE : ∀ w, E w → E' w) : r.Sat Q' E' := by
  cases r with
  | ok a s => exact hQ a s h
  | stop w => exact hE w h

theorem Sat.post {Q' : α → σ → Prop} (h : r.Sat Q E) (hQ : ∀ a s, Q a s → Q' a s) :
    r.Sat Q' E := h.mono hQ fun _ hw => hw

theorem bind_mapState (f : σ → σ) (g : α → σ → Outcome ε σ β) :
    (r.mapState f).bind g = r.bind fun a s => g a (f s) := by
  cases r <;> rfl

theorem bind_assoc {γ : Type} (f : α → σ → Outcome ε σ β) (g : β → σ → Outcome ε σ γ) :
    (r.bind f).bind g = r.bind fun a s => (f a s).bind g := by
  cases r <;> rfl

/-- What a call that came back has done. -/
theorem Sat.of_ok {a : α} {s : σ} (h : r.Sat Q E) (hr : r = ok a s) : Q a s := by
  subst hr
  exact h

/-- An invariant of the body is one of the loop. -/
theorem each_sat {body : ι → σ → Outcome ε σ Unit} {I : σ → Prop} {l : List ι} {s : σ}
    (h : I s) (hb : ∀ i ∈ l, ∀ s, I s → (body i s).Sat (fun _ s => I s) E) :
    (each body l s).Sat (fun _ s => I s) E := by
  induction l generalizing s with
  | nil => exact h
  | cons i l ih =>
    refine (hb i List.mem_cons_self s h).bind fun _ s' h' => ?_
    exact ih h' fun j hj => hb j (List.mem_cons_of_mem i hj)

end

end Outcome

end Linux011.Outcomes
