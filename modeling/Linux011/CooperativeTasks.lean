import Mathlib

set_option autoImplicit false

/-!
# Tasks that switch only where they sleep

A machine runs tasks over one shared state. A task is the frame it executes and
the frames that wait for it to return. One task runs at a time, block by block,
until a block ends in `sleep`; interrupts change the shared state between blocks.
A sleeper may be picked again at any time, so a wake-up that comes late, early or
twice is one of the runs.
-/
namespace Linux011.CooperativeTasks

/-- How a basic block ends. -/
inductive Ctl (F K V : Type) where
  | goto (f : F)
  | sleep (f : F)
  | call (g : F) (k : K)
  | ret (v : V)
  | panic

def Ctl.sleeps {F K V : Type} : Ctl F K V → Bool
  | .sleep _ => true
  | _ => false

structure Machine (S F K V E : Type) where
  block : F → S → E → S → Ctl F K V → Prop
  resume : K → V → F
  interrupt : S → S → Prop

structure Task (F K : Type) where
  top : F
  conts : List K

structure Sys (T S F K : Type) where
  shared : S
  task : T → Task F K
  running : Option T

section Runs
variable {T S F K V E : Type} [DecidableEq T] (M : Machine S F K V E)

/-- The stack after a block; a panic, or a return from the last frame, ends the run. -/
def Task.next (τ : Task F K) : Ctl F K V → Option (Task F K)
  | .goto f | .sleep f => some ⟨f, τ.conts⟩
  | .call g k => some ⟨g, k :: τ.conts⟩
  | .ret v => match τ.conts with
    | [] => none
    | k :: ks => some ⟨M.resume k v, ks⟩
  | .panic => none

inductive Step : Sys T S F K → Option (T × E) → Sys T S F K → Prop where
  | dispatch (σ : Sys T S F K) (t : T) (h : σ.running = none) :
      Step σ none { σ with running := some t }
  | exec (σ : Sys T S F K) (t : T) (e : E) (s : S) (c : Ctl F K V) (τ : Task F K)
      (hr : σ.running = some t) (hb : M.block (σ.task t).top σ.shared e s c)
      (hn : (σ.task t).next M c = some τ) :
      Step σ (some (t, e))
        ⟨s, Function.update σ.task t τ, if c.sleeps then none else some t⟩
  | interrupt (σ : Sys T S F K) (s : S) (h : M.interrupt σ.shared s) :
      Step σ none { σ with shared := s }

/-- A run with the events its blocks emitted, oldest first. -/
inductive Run (σ₀ : Sys T S F K) : List (T × E) → Sys T S F K → Prop where
  | start : Run σ₀ [] σ₀
  | step {tr : List (T × E)} {σ σ' : Sys T S F K} {l : Option (T × E)}
      (h : Run σ₀ tr σ) (hs : Step M σ l σ') : Run σ₀ (tr ++ l.toList) σ'

/-- A run all of whose states meet `P`, the last one included. -/
inductive RunIn (P : Sys T S F K → Prop) (σ₀ : Sys T S F K) :
    List (T × E) → Sys T S F K → Prop where
  | start (hp : P σ₀) : RunIn P σ₀ [] σ₀
  | step {tr : List (T × E)} {σ σ' : Sys T S F K} {l : Option (T × E)}
      (h : RunIn P σ₀ tr σ) (hs : Step M σ l σ') (hp : P σ') : RunIn P σ₀ (tr ++ l.toList) σ'

variable {M}

theorem RunIn.last {P : Sys T S F K → Prop} {σ₀ σ : Sys T S F K} {tr : List (T × E)}
    (h : RunIn M P σ₀ tr σ) : P σ := by
  cases h with
  | start hp => exact hp
  | step _ _ hp => exact hp

theorem RunIn.run {P : Sys T S F K → Prop} {σ₀ σ : Sys T S F K} {tr : List (T × E)}
    (h : RunIn M P σ₀ tr σ) : Run M σ₀ tr σ := by
  induction h with
  | start _ => exact .start
  | step _ hs _ ih => exact ih.step hs

theorem RunIn.invariant {P : Sys T S F K → Prop} {σ₀ : Sys T S F K}
    (Inv : List (T × E) → Sys T S F K → Prop) (h₀ : Inv [] σ₀)
    (hs : ∀ tr σ l σ', P σ → Inv tr σ → Step M σ l σ' → Inv (tr ++ l.toList) σ')
    {tr : List (T × E)} {σ : Sys T S F K} (h : RunIn M P σ₀ tr σ) : Inv tr σ := by
  induction h with
  | start => exact h₀
  | step hr hst _ ih => exact hs _ _ _ _ hr.last ih hst

theorem Run.invariant {σ₀ : Sys T S F K} (Inv : List (T × E) → Sys T S F K → Prop)
    (h₀ : Inv [] σ₀)
    (hs : ∀ tr σ l σ', Inv tr σ → Step M σ l σ' → Inv (tr ++ l.toList) σ')
    {tr : List (T × E)} {σ : Sys T S F K} (h : Run M σ₀ tr σ) : Inv tr σ := by
  induction h with
  | start => exact h₀
  | step _ hst ih => exact hs _ _ _ _ ih hst

theorem Run.trans {σ₀ σ₁ σ₂ : Sys T S F K} {tr tr' : List (T × E)}
    (h : Run M σ₀ tr σ₁) (h' : Run M σ₁ tr' σ₂) : Run M σ₀ (tr ++ tr') σ₂ := by
  induction h' with
  | start => simpa using h
  | step _ hst ih =>
    rw [← List.append_assoc]
    exact .step ih hst

variable (M) in
/-- The blocks of one task, from where it is picked to where it sleeps. -/
inductive Turn : Task F K → S → List E → Task F K → S → Prop where
  | sleep {τ : Task F K} {s s' : S} {e : E} {f : F} (hb : M.block τ.top s e s' (.sleep f)) :
      Turn τ s [e] ⟨f, τ.conts⟩ s'
  | step {τ τ' τ'' : Task F K} {s s' s'' : S} {e : E} {c : Ctl F K V} {es : List E}
      (hb : M.block τ.top s e s' c) (hn : τ.next M c = some τ') (hc : c.sleeps = false)
      (h : Turn τ' s' es τ'' s'') : Turn τ s (e :: es) τ'' s''

theorem Turn.picked {τ τ' : Task F K} {s s' : S} {es : List E} (h : Turn M τ s es τ' s')
    {task : T → Task F K} {t : T} (ht : task t = τ) :
    Run M ⟨s, task, some t⟩ (es.map (t, ·)) ⟨s', Function.update task t τ', none⟩ := by
  induction h generalizing task with
  | sleep hb =>
    subst ht
    exact Run.start.step (.exec ⟨_, task, some t⟩ t _ _ _ _ rfl hb rfl)
  | step hb hn hc _ ih =>
    subst ht
    have hstep := Run.start.step (.exec ⟨_, task, some t⟩ t _ _ _ _ rfl hb hn)
    have hrest := ih (Function.update_self t _ task)
    rw [Function.update_idem] at hrest
    rw [hc] at hstep
    exact hstep.trans hrest

/-- A task has its turn when none runs; the others stay where they are. -/
theorem Turn.run {τ τ' : Task F K} {s s' : S} {es : List E} (h : Turn M τ s es τ' s')
    {task : T → Task F K} {t : T} (ht : task t = τ) :
    Run M ⟨s, task, none⟩ (es.map (t, ·)) ⟨s', Function.update task t τ', none⟩ :=
  (Run.start.step (.dispatch ⟨s, task, none⟩ t rfl)).trans (h.picked ht)

/-- A single task that runs, with this frame and these calls open. -/
def alone (s : S) (f : F) (ks : List K) : Sys Unit S F K := ⟨s, fun _ => ⟨f, ks⟩, some ()⟩

/-- A block of the single task that does not end in `sleep`. -/
theorem alone_step {s s' : S} {f : F} {ks : List K} {e : E} {x : Ctl F K V} {τ : Task F K}
    (hb : M.block f s e s' x) (hn : (⟨f, ks⟩ : Task F K).next M x = some τ)
    (hx : x.sleeps = false) :
    Step M (alone s f ks) (some ((), e)) (alone s' τ.top τ.conts) := by
  have hs := Step.exec (M := M) (alone s f ks) () e s' x τ rfl hb hn
  have hτ : Function.update (alone s f ks).task () τ = fun _ => τ := by
    funext u
    exact Function.update_self _ _ _
  rw [hτ, hx] at hs
  exact hs

theorem RunIn.exec {P : Sys Unit S F K → Prop} {σ₀ : Sys Unit S F K} {tr : List (Unit × E)}
    {s s' : S} {f : F} {ks : List K} {e : E} {x : Ctl F K V} {τ : Task F K}
    (h : RunIn M P σ₀ tr (alone s f ks)) (hb : M.block f s e s' x)
    (hn : (⟨f, ks⟩ : Task F K).next M x = some τ) (hx : x.sleeps = false)
    (hp : P (alone s' τ.top τ.conts)) :
    RunIn M P σ₀ (tr ++ [((), e)]) (alone s' τ.top τ.conts) :=
  h.step (l := some ((), e)) (alone_step hb hn hx) hp

end Runs

section Ends
variable {S F K V E : Type} (M : Machine S F K V E)

/-- The only task does a block, or an interrupt comes. -/
inductive Working (s : S) (τ : Task F K) : S → Task F K → Prop where
  | block {s' : S} {e : E} {c : Ctl F K V} {τ' : Task F K} (hb : M.block τ.top s e s' c)
      (hn : τ.next M c = some τ') (hc : c.sleeps = false) : Working s τ s' τ'
  | interrupt {s' : S} (h : M.interrupt s s') : Working s τ s' τ

/-- The only task comes to `P` in the end, in whatever order blocks and interrupts follow each
    other. Where it sleeps it only waits. -/
inductive Ends (P : S → Task F K → Prop) : S → Task F K → Prop where
  | done {s : S} {τ : Task F K} (h : P s τ) : Ends P s τ
  | work {s : S} {τ : Task F K}
      (hidle : ∀ e s' f, M.block τ.top s e s' (.sleep f) → s' = s ∧ f = τ.top)
      (hsome : ∃ s' τ', Working M s τ s' τ')
      (hall : ∀ s' τ', Working M s τ s' τ' → Ends P s' τ') : Ends P s τ

variable {M} {P : S → Task F K → Prop}

/-- An invariant with a rank that all work lowers. -/
theorem Ends.of_rank (I : S → Task F K → ℕ → Prop)
    (hidle : ∀ f s e s' g, M.block f s e s' (.sleep g) → s' = s ∧ g = f)
    (hI : ∀ s τ n, I s τ n → P s τ ∨ (∃ s' τ', Working M s τ s' τ') ∧
      ∀ s' τ', Working M s τ s' τ' → ∃ m < n, I s' τ' m)
    {s : S} {τ : Task F K} {n : ℕ} (h : I s τ n) : Ends M P s τ := by
  induction n using Nat.strong_induction_on generalizing s τ with
  | _ n ih =>
    rcases hI s τ n h with hp | ⟨hsome, hall⟩
    · exact .done hp
    · refine .work (fun e s' g hb => hidle _ _ e s' g hb) hsome fun s' τ' hw => ?_
      obtain ⟨m, hm, h'⟩ := hall s' τ' hw
      exact ih m hm h'

/-- What all work keeps holds in the end. -/
theorem Ends.last (J : S → Task F K → Prop)
    (hJ : ∀ s τ s' τ', J s τ → Working M s τ s' τ' → J s' τ') {s : S} {τ : Task F K}
    (h : Ends M P s τ) (h₀ : J s τ) : ∃ s' τ', J s' τ' ∧ P s' τ' := by
  induction h with
  | done hp => exact ⟨_, _, h₀, hp⟩
  | work _ hsome _ ih =>
    obtain ⟨s', τ', hw⟩ := hsome
    exact ih s' τ' hw (hJ _ _ _ _ h₀ hw)

theorem Ends.mono {P Q : S → Task F K → Prop} {s : S} {τ : Task F K} (h : Ends M P s τ)
    (hPQ : ∀ s τ, P s τ → Q s τ) : Ends M Q s τ := by
  induction h with
  | done hp => exact .done (hPQ _ _ hp)
  | work hidle hsome _ ih => exact .work hidle hsome ih

end Ends

section References
variable {T S F K V E R : Type} [Fintype T] [DecidableEq T] [AddCommMonoid R]

/-- What each frame, each waiting frame and each returned value holds of the shared state. -/
structure Refs (F K V R : Type) where
  frame : F → R
  cont : K → R
  value : V → R

def Task.refs (ρ : Refs F K V R) (τ : Task F K) : R :=
  ρ.frame τ.top + (τ.conts.map ρ.cont).sum

def Sys.refs (ρ : Refs F K V R) (σ : Sys T S F K) : R := ∑ t, (σ.task t).refs ρ

theorem Sys.refs_split (ρ : Refs F K V R) (σ : Sys T S F K) (t : T) :
    σ.refs ρ = (σ.task t).refs ρ + ∑ u ∈ Finset.univ.erase t, (σ.task u).refs ρ :=
  (Finset.add_sum_erase Finset.univ (fun u => (σ.task u).refs ρ) (Finset.mem_univ t)).symm

theorem Sys.refs_update (ρ : Refs F K V R) (σ : Sys T S F K) (t : T) (τ : Task F K)
    (s : S) (b : Option T) :
    Sys.refs ρ ⟨s, Function.update σ.task t τ, b⟩ =
      τ.refs ρ + ∑ u ∈ Finset.univ.erase t, (σ.task u).refs ρ := by
  rw [Sys.refs_split ρ _ t]
  congr 1
  · simp
  · apply Finset.sum_congr rfl
    intro u hu
    simp [Function.update_of_ne (Finset.ne_of_mem_erase hu)]

/-- What a block owes: the invariant with its own references exchanged and those of all
    other frames kept, and what the next frame may assume when no other task comes between. -/
def Ctl.Post (ρ : Refs F K V R) (I : S → R → Prop) (L : F → S → Prop) (r : R) (s : S) :
    Ctl F K V → Prop
  | .goto f => I s (ρ.frame f + r) ∧ L f s
  | .sleep f => I s (ρ.frame f + r) ∧ ∀ s', L f s'
  | .call g k => I s (ρ.frame g + ρ.cont k + r) ∧ L g s
  | .ret v => I s (ρ.value v + r)
  | .panic => True

/-- A proof that every block keeps the invariant `I`, which ties the shared state to the
    references all frames hold together; `L` is known to the running frame only. -/
structure Safe (M : Machine S F K V E) (ρ : Refs F K V R) (I : S → R → Prop)
    (L : F → S → Prop) : Prop where
  block : ∀ f s e s' c r, I s (ρ.frame f + r) → L f s → M.block f s e s' c →
    c.Post ρ I L r s'
  resume : ∀ k v, ρ.frame (M.resume k v) = ρ.cont k + ρ.value v
  resumed : ∀ k v s, L (M.resume k v) s
  interrupt : ∀ s s' r, I s r → M.interrupt s s' → I s' r
  interrupted : ∀ f s s' r, I s (ρ.frame f + r) → L f s → M.interrupt s s' → L f s'

/-- The invariant of a whole system: no sleeper assumes anything of the shared state. -/
structure Sound (ρ : Refs F K V R) (I : S → R → Prop) (L : F → S → Prop)
    (σ : Sys T S F K) : Prop where
  shared : I σ.shared (σ.refs ρ)
  asleep : ∀ t, σ.running ≠ some t → ∀ s, L (σ.task t).top s
  awake : ∀ t, σ.running = some t → L (σ.task t).top σ.shared

variable {M : Machine S F K V E} {ρ : Refs F K V R} {I : S → R → Prop} {L : F → S → Prop}

theorem Safe.next (h : Safe M ρ I L) {τ τ' : Task F K} {s s' : S} {e : E} {c : Ctl F K V}
    {r : R} (hI : I s (τ.refs ρ + r)) (hL : L τ.top s) (hb : M.block τ.top s e s' c)
    (hn : τ.next M c = some τ') :
    I s' (τ'.refs ρ + r) ∧ L τ'.top s' ∧ (c.sleeps → ∀ u, L τ'.top u) := by
  have hI' : I s (ρ.frame τ.top + ((τ.conts.map ρ.cont).sum + r)) := by
    simpa only [Task.refs, add_assoc] using hI
  have hp := h.block _ _ _ _ _ _ hI' hL hb
  cases c with
  | goto f =>
    simp only [Task.next, Option.some.injEq] at hn
    subst hn
    exact ⟨by simpa only [Task.refs, add_assoc] using hp.1, hp.2, by simp [Ctl.sleeps]⟩
  | sleep f =>
    simp only [Task.next, Option.some.injEq] at hn
    subst hn
    exact ⟨by simpa only [Task.refs, add_assoc] using hp.1, hp.2 _, fun _ => hp.2⟩
  | call g k =>
    simp only [Task.next, Option.some.injEq] at hn
    subst hn
    refine ⟨?_, hp.2, by simp [Ctl.sleeps]⟩
    simpa only [Task.refs, List.map_cons, List.sum_cons, add_assoc] using hp.1
  | ret v =>
    simp only [Task.next] at hn
    cases hc : τ.conts with
    | nil => simp [hc] at hn
    | cons k ks =>
      simp only [hc, Option.some.injEq] at hn
      subst hn
      refine ⟨?_, h.resumed _ _ _, by simp [Ctl.sleeps]⟩
      have hp' : I s' (ρ.value v + ((τ.conts.map ρ.cont).sum + r)) := hp
      rw [hc, List.map_cons, List.sum_cons] at hp'
      simp only [Task.refs, h.resume]
      have e : ρ.cont k + ρ.value v + (ks.map ρ.cont).sum + r =
          ρ.value v + (ρ.cont k + (ks.map ρ.cont).sum + r) := by abel
      rw [e]
      exact hp'
  | panic => simp [Task.next] at hn

theorem Safe.step (h : Safe M ρ I L) {σ σ' : Sys T S F K} {l : Option (T × E)}
    (hσ : Sound ρ I L σ) (hs : Step M σ l σ') : Sound ρ I L σ' := by
  cases hs with
  | dispatch t hr =>
    refine ⟨hσ.shared, ?_, ?_⟩
    · intro u _ s
      exact hσ.asleep u (by simp [hr]) s
    · intro u _
      exact hσ.asleep u (by simp [hr]) _
  | interrupt s hi =>
    refine ⟨h.interrupt _ _ _ hσ.shared hi, hσ.asleep, ?_⟩
    intro t ht
    have hI := hσ.shared
    rw [Sys.refs_split ρ σ t, Task.refs, add_assoc] at hI
    exact h.interrupted _ _ _ _ hI (hσ.awake t ht) hi
  | exec t e s c τ hr hb hn =>
    have hI := hσ.shared
    rw [Sys.refs_split ρ σ t] at hI
    obtain ⟨hI', hL, hA⟩ := h.next hI (hσ.awake t hr) hb hn
    refine ⟨by rwa [Sys.refs_update], ?_, ?_⟩
    · intro u hu s'
      by_cases hut : u = t
      · subst hut
        simp only [Function.update_self]
        apply hA
        by_contra hc
        simp [hc] at hu
      · simp only [Function.update_of_ne hut]
        exact hσ.asleep u (by rw [hr]; simpa using Ne.symm hut) s'
    · intro u hu
      by_cases hc : c.sleeps = true
      · simp [hc] at hu
      · simp only [hc] at hu
        obtain rfl : t = u := by simpa using hu
        simpa using hL

theorem Safe.run (h : Safe M ρ I L) {σ₀ σ : Sys T S F K} {tr : List (T × E)}
    (h₀ : Sound ρ I L σ₀) (hr : Run M σ₀ tr σ) : Sound ρ I L σ :=
  hr.invariant (fun _ σ => Sound ρ I L σ) h₀ (fun _ _ _ _ hσ hs => h.step hσ hs)

end References

end Linux011.CooperativeTasks
