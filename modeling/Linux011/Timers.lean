import Mathlib

set_option autoImplicit false

/-!
# Kernel timers (add_timer and do_timer of kernel/sched.c)

The timers that wait form a list from `next_timer` on, each with the ticks that it waits after the one
before it. Accounting, the motors of the floppy drives and the scheduler are left out of `do_timer`.
-/
namespace Linux011.Timers

def TIME_REQUESTS : ℕ := 64

/-- An entry of `timer_list` that is in use. `serial` numbers the calls of `add_timer`, and `due` is
    the tick that was asked for; the code reads neither. -/
structure Timer (F : Type) where
  jiffies : ℤ
  fn : F
  serial : ℕ
  due : ℕ
  deriving DecidableEq

/-- A function that was called, for which timer and at which tick. -/
structure Fired (F : Type) where
  fn : F
  serial : ℕ
  due : ℕ
  tick : ℕ
  deriving DecidableEq

structure State (F : Type) where
  ticks : ℕ
  timers : List (Timer F)
  made : ℕ
  fired : List (Fired F)
  deriving DecidableEq

/-- What `add_timer` is called with; `none` is a null pointer. -/
abbrev Request (F : Type) : Type := ℤ × Option F

variable {F : Type}

/-- The loop of `add_timer`: `p` changes places with the timers that are due before it. -/
def exchange (p : Timer F) : List (Timer F) → List (Timer F)
  | [] => [p]
  | next :: rest =>
    if next.jiffies < p.jiffies then
      next :: exchange { p with jiffies := p.jiffies - next.jiffies } rest
    else p :: next :: rest

/-- `add_timer`; `none` is the panic when no entry is free. -/
def addTimer (s : State F) (request : Request F) : Option (State F) :=
  match request with
  | (_, none) => some s
  | (jiffies, some fn) =>
    if jiffies ≤ 0 then
      some { s with made := s.made + 1, fired := s.fired ++ [⟨fn, s.made, s.ticks, s.ticks⟩] }
    else if TIME_REQUESTS ≤ s.timers.length then none
    else
      let p := ⟨jiffies, fn, s.made, s.ticks + jiffies.toNat⟩
      some { s with made := s.made + 1, timers := exchange p s.timers }

/-- The first timer is taken out of the list and its function called. -/
def State.pop (s : State F) (t : Timer F) (rest : List (Timer F)) : State F :=
  { s with timers := rest, fired := s.fired ++ [⟨t.fn, t.serial, t.due, s.ticks⟩] }

/-- The loop of `do_timer`, for as many turns as given. The functions that are called may call
    `add_timer` themselves: `calls` are their calls, for one function after the other. -/
def expire : ℕ → List (List (Request F)) → State F → Option (State F)
  | n, calls, s => match s.timers with
    | [] => some s
    | t :: rest =>
      if t.jiffies ≤ 0 then match n with
        | 0 => none
        | n + 1 => ((calls.headD []).foldlM addTimer (s.pop t rest)).bind (expire n calls.tail)
      else some s

/-- `do_timer`: every turn of its loop ends a timer that was there. -/
def doTimer (calls : List (List (Request F))) (s : State F) : Option (State F) :=
  let s := { s with ticks := s.ticks + 1 }
  match s.timers with
  | [] => some s
  | t :: rest =>
    expire (rest.length + 1) calls { s with timers := { t with jiffies := t.jiffies - 1 } :: rest }

inductive Act (F : Type) where
  | add (request : Request F)
  | tick (calls : List (List (Request F)))

def step (s : State F) : Act F → Option (State F)
  | .add request => addTimer s request
  | .tick calls => doTimer calls s

def run (s : State F) (acts : List (Act F)) : Option (State F) := acts.foldlM step s

def start : State F := ⟨0, [], 0, []⟩

/-- Every timer was called for once at its tick, or waits for it. -/
structure OnTime (s : State F) : Prop where
  once : (s.fired.map Fired.serial ++ s.timers.map Timer.serial).Perm (List.range s.made)
  fired : ∀ c ∈ s.fired, c.tick = c.due
  waits : ∀ t ∈ s.timers, s.ticks < t.due

/-- The new timer is due after all that wait. -/
def Last (s : State F) (request : Request F) : Prop :=
  request.2 ≠ none → 0 < request.1 → ∀ t ∈ s.timers, (t.due : ℤ) < s.ticks + request.1

/-- So are those that are added one after another. -/
def AllLast : State F → List (Request F) → Prop
  | _, [] => True
  | s, a :: l => Last s a ∧ ∀ s', addTimer s a = some s' → AllLast s' l

/-- So are those that a step adds. -/
def Fine (s : State F) : Act F → Prop
  | .add request => Last s request
  | .tick calls => ∀ t rest, s.timers = t :: rest → t.jiffies = 1 →
    AllLast ({ s with ticks := s.ticks + 1 }.pop t rest) (calls.headD [])

/-- All steps of a run meet the condition. -/
def FineRun : State F → List (Act F) → Prop
  | _, [] => True
  | s, a :: acts => Fine s a ∧ ∀ s', step s a = some s' → FineRun s' acts

/-! ### The list -/

section
variable {p t : Timer F} {l : List (Timer F)} {b b' : ℤ}

theorem exchange_perm (p : Timer F) (l : List (Timer F)) :
    ((exchange p l).map Timer.serial).Perm (p.serial :: l.map Timer.serial) := by
  induction l generalizing p with
  | nil => exact .refl _
  | cons n l ih =>
    unfold exchange
    split_ifs
    · exact ((ih _).cons n.serial).trans (.swap _ _ _)
    · exact .refl _

/-- A timer that waits waits for at least a tick. -/
def Positive (l : List (Timer F)) : Prop := ∀ t ∈ l, 0 < t.jiffies

theorem exchange_positive (hp : 0 < p.jiffies) (h : Positive l) : Positive (exchange p l) := by
  induction l generalizing p with
  | nil =>
    intro t ht
    rwa [List.mem_singleton.mp ht]
  | cons n l ih =>
    obtain ⟨hn, hl⟩ := List.forall_mem_cons.mp h
    unfold exchange
    split_ifs with hlt
    · exact List.forall_mem_cons.mpr ⟨hn, ih (sub_pos.mpr hlt) hl⟩
    · exact List.forall_mem_cons.mpr ⟨hp, h⟩

/-- What is left until the timers are due is what they wait, from tick `b` on. -/
def Timed : ℤ → List (Timer F) → Prop
  | _, [] => True
  | b, t :: l => (t.due : ℤ) = b + t.jiffies ∧ Timed (b + t.jiffies) l

/-- Some timer waits longer. -/
def Late : ℤ → List (Timer F) → Prop
  | _, [] => False
  | b, t :: l => (t.due : ℤ) < b + t.jiffies ∨ Late (b + t.jiffies) l

theorem Timed.waits (h : Timed b l) (hp : Positive l) : ∀ t ∈ l, b < t.due := by
  induction l generalizing b with
  | nil => simp
  | cons n l ih =>
    obtain ⟨hn, hl⟩ := List.forall_mem_cons.mp hp
    refine List.forall_mem_cons.mpr ⟨by rw [h.1]; omega, ?_⟩
    intro t ht
    have := ih h.2 hl t ht
    omega

/-- Behind all others nothing changes for them. -/
theorem Timed.exchange (h : Timed b l) (hp : Positive l) (hd : (p.due : ℤ) = b + p.jiffies)
    (hlast : ∀ t ∈ l, t.due < p.due) : Timed b (exchange p l) := by
  induction l generalizing b p with
  | nil => exact ⟨hd, trivial⟩
  | cons n l ih =>
    obtain ⟨hn, hl⟩ := List.forall_mem_cons.mp hlast
    have hlt : n.jiffies < p.jiffies := by
      have := h.1
      omega
    unfold Timers.exchange
    rw [if_pos hlt]
    refine ⟨h.1, ih h.2 (fun t ht => hp t (List.mem_cons_of_mem n ht)) ?_ hl⟩
    dsimp only
    omega

theorem Late.mono (h : Late b l) (hb : b ≤ b') : Late b' l := by
  induction l generalizing b b' with
  | nil => exact h
  | cons n l ih =>
    refine Or.imp (fun h => ?_) (fun h => ih h (by omega)) h
    omega

theorem Late.exchange (h : Late b l) (hp : 0 < p.jiffies) : Late b (exchange p l) := by
  induction l generalizing b p with
  | nil => exact absurd h id
  | cons n l ih =>
    unfold Timers.exchange
    split_ifs with hlt
    · exact h.imp_right fun h => ih h (sub_pos.mpr hlt)
    · refine .inr (h.mono ?_)
      omega

/-- The timers behind the new one wait for it as well as before. -/
theorem Timed.late (h : Timed b l) (hp : 0 < p.jiffies) (hd : (p.due : ℤ) = b + p.jiffies)
    (hbehind : ∃ t ∈ l, p.due ≤ t.due) : Late b (Timers.exchange p l) := by
  induction l generalizing b p with
  | nil =>
    obtain ⟨t, ht, -⟩ := hbehind
    cases ht
  | cons n l ih =>
    obtain ⟨t, ht, hle⟩ := hbehind
    have hn := h.1
    unfold Timers.exchange
    split_ifs with hlt
    · have ht' : t ∈ l := by
        rcases List.mem_cons.mp ht with rfl | ht
        · omega
        · exact ht
      refine .inr (ih h.2 (sub_pos.mpr hlt) ?_ ⟨t, ht', hle⟩)
      dsimp only
      omega
    · refine .inr (.inl ?_)
      omega

end

/-! ### Steps -/

/-- So far everything is on time, and will be. -/
structure Right (s : State F) : Prop where
  positive : Positive s.timers
  timed : Timed s.ticks s.timers
  once : (s.fired.map Fired.serial ++ s.timers.map Timer.serial).Perm (List.range s.made)
  fired : ∀ c ∈ s.fired, c.tick = c.due

/-- Some function was called at another tick, or will be. -/
structure Spoilt (s : State F) : Prop where
  positive : Positive s.timers
  wrong : (∃ c ∈ s.fired, c.tick ≠ c.due) ∨ Late s.ticks s.timers

section
variable {s s' : State F} {a : Request F}

theorem Right.onTime (h : Right s) : OnTime s := by
  refine ⟨h.once, h.fired, ?_⟩
  intro t ht
  exact_mod_cast h.timed.waits h.positive t ht

/-- A timer joins the list. -/
theorem addTimer_cases (hs : addTimer s a = some s') :
    (a.2 = none ∧ s' = s) ∨
    (∃ fn, a.2 = some fn ∧ a.1 ≤ 0 ∧ s' = { s with
      made := s.made + 1, fired := s.fired ++ [⟨fn, s.made, s.ticks, s.ticks⟩] }) ∨
    (∃ fn, a.2 = some fn ∧ 0 < a.1 ∧ s' = { s with
      made := s.made + 1
      timers := exchange ⟨a.1, fn, s.made, s.ticks + a.1.toNat⟩ s.timers }) := by
  obtain ⟨jiffies, fn⟩ := a
  unfold addTimer at hs
  cases fn with
  | none => exact .inl ⟨rfl, (Option.some.inj hs).symm⟩
  | some fn =>
    dsimp only at hs
    split_ifs at hs with h0
    · exact .inr (.inl ⟨fn, rfl, h0, (Option.some.inj hs).symm⟩)
    · exact .inr (.inr ⟨fn, rfl, not_le.mp h0, (Option.some.inj hs).symm⟩)

theorem addTimer_positive (h : Positive s.timers) (hs : addTimer s a = some s') :
    Positive s'.timers := by
  rcases addTimer_cases hs with ⟨-, rfl⟩ | ⟨fn, -, -, rfl⟩ | ⟨fn, -, hpos, rfl⟩
  · exact h
  · exact h
  · exact exchange_positive hpos h

theorem Spoilt.add (h : Spoilt s) (hs : addTimer s a = some s') : Spoilt s' := by
  refine ⟨addTimer_positive h.positive hs, ?_⟩
  rcases addTimer_cases hs with ⟨-, rfl⟩ | ⟨fn, -, -, rfl⟩ | ⟨fn, -, hpos, rfl⟩
  · exact h.wrong
  · refine h.wrong.imp_left ?_
    rintro ⟨c, hc, hne⟩
    exact ⟨c, List.mem_append_left _ hc, hne⟩
  · exact h.wrong.imp_right fun hl => hl.exchange hpos

/-- One call of `add_timer` is right exactly if the new timer is the last one. -/
theorem Right.add (h : Right s) (hs : addTimer s a = some s') :
    (Last s a ∧ Right s') ∨ (¬ Last s a ∧ Spoilt s') := by
  have hpositive := addTimer_positive h.positive hs
  rcases addTimer_cases hs with ⟨hn, rfl⟩ | ⟨fn, hf, h0, rfl⟩ | ⟨fn, hf, hpos, rfl⟩
  · exact .inl ⟨fun hc => absurd hn hc, h⟩
  · refine .inl ⟨fun _ hc => absurd hc (not_lt.mpr h0), hpositive, h.timed, ?_, ?_⟩
    · have hone := (h.once.cons s.made).trans (List.perm_append_singleton _ _).symm
      rw [← List.range_succ] at hone
      refine List.Perm.trans ?_ hone
      rw [List.map_append, List.append_assoc]
      exact List.perm_middle
    · intro c hc
      rcases List.mem_append.mp hc with hc | hc
      · exact h.fired c hc
      · rw [List.mem_singleton.mp hc]
  · have hdue : ((s.ticks + a.1.toNat : ℕ) : ℤ) = s.ticks + a.1 := by omega
    have hlast : Last s a ↔ ∀ t ∈ s.timers, t.due < s.ticks + a.1.toNat := by
      unfold Last
      rw [← hdue]
      have hsome : a.2 ≠ none := by
        rw [hf]
        exact Option.some_ne_none fn
      simp only [hsome, hpos, ne_eq, not_false_eq_true, forall_const, Nat.cast_lt]
    by_cases hl : ∀ t ∈ s.timers, t.due < s.ticks + a.1.toNat
    · refine .inl ⟨hlast.mpr hl, hpositive, h.timed.exchange h.positive hdue hl, ?_, h.fired⟩
      have hone := (h.once.cons s.made).trans (List.perm_append_singleton _ _).symm
      rw [← List.range_succ] at hone
      refine List.Perm.trans ?_ hone
      exact ((exchange_perm _ s.timers).append_left _).trans List.perm_middle
    · refine .inr ⟨fun hc => hl (hlast.mp hc), hpositive, .inr (h.timed.late hpos hdue ?_)⟩
      push Not at hl
      exact hl

theorem adds_positive {l : List (Request F)} (h : Positive s.timers)
    (hs : l.foldlM addTimer s = some s') : Positive s'.timers := by
  induction l generalizing s with
  | nil => rwa [← Option.some.inj hs]
  | cons a l ih =>
    obtain ⟨s₁, hs₁, hs⟩ := Option.bind_eq_some_iff.mp hs
    exact ih (addTimer_positive h hs₁) hs

theorem Spoilt.adds {l : List (Request F)} (h : Spoilt s) (hs : l.foldlM addTimer s = some s') :
    Spoilt s' := by
  induction l generalizing s with
  | nil => rwa [← Option.some.inj hs]
  | cons a l ih =>
    obtain ⟨s₁, hs₁, hs⟩ := Option.bind_eq_some_iff.mp hs
    exact ih (h.add hs₁) hs

theorem Right.adds {l : List (Request F)} (h : Right s) (hs : l.foldlM addTimer s = some s') :
    (AllLast s l ∧ Right s') ∨ (¬ AllLast s l ∧ Spoilt s') := by
  induction l generalizing s with
  | nil =>
    rw [← Option.some.inj hs]
    exact .inl ⟨trivial, h⟩
  | cons a l ih =>
    obtain ⟨s₁, hs₁, hs⟩ := Option.bind_eq_some_iff.mp hs
    have hall : AllLast s (a :: l) ↔ Last s a ∧ AllLast s₁ l := by
      refine and_congr_right fun _ => ⟨fun hc => hc s₁ hs₁, fun hc s₂ hs₂ => ?_⟩
      rwa [← Option.some.inj (hs₁.symm.trans hs₂)]
    rw [hall]
    rcases h.add hs₁ with ⟨hl, h₁⟩ | ⟨hl, h₁⟩
    · rcases ih h₁ hs with ⟨hrest, h'⟩ | ⟨hrest, h'⟩
      · exact .inl ⟨⟨hl, hrest⟩, h'⟩
      · exact .inr ⟨fun hc => hrest hc.2, h'⟩
    · exact .inr ⟨fun hc => hl hc.1, h₁.adds hs⟩

theorem expire_positive (h : Positive s.timers) (n : ℕ) (calls : List (List (Request F))) :
    expire n calls s = some s := by
  unfold expire
  cases hl : s.timers with
  | nil => rfl
  | cons t rest =>
    have ht : 0 < t.jiffies := h t (by rw [hl]; exact List.mem_cons_self)
    exact if_neg (not_le.mpr ht)

/-- What one tick does before the function that is called adds timers. -/
inductive Ticked (s : State F) : State F → Prop where
  | nothing (h : s.timers = []) : Ticked s { s with ticks := s.ticks + 1 }
  | waits {t : Timer F} {rest : List (Timer F)} (h : s.timers = t :: rest) (h1 : t.jiffies ≠ 1) :
    Ticked s { s with
      ticks := s.ticks + 1, timers := { t with jiffies := t.jiffies - 1 } :: rest }
  | ends {t : Timer F} {rest : List (Timer F)} (h : s.timers = t :: rest) (h1 : t.jiffies = 1) :
    Ticked s ({ s with ticks := s.ticks + 1 }.pop t rest)

/-- As all waits are positive, at most one timer ends in a tick, and its function may add others. -/
theorem doTimer_ticked (h : Positive s.timers) (calls : List (List (Request F))) :
    ∃ s₁ l, Ticked s s₁ ∧ doTimer calls s = l.foldlM addTimer s₁ ∧
      (AllLast s₁ l ↔ Fine s (.tick calls)) ∧ (calls = [] → l = []) := by
  obtain ⟨ticks, timers, made, fired⟩ := s
  cases timers with
  | nil =>
    refine ⟨_, [], .nothing rfl, rfl, iff_of_true trivial ?_, fun _ => rfl⟩
    intro t rest hc
    cases hc
  | cons t rest =>
    obtain ⟨ht, hrest⟩ := List.forall_mem_cons.mp h
    by_cases h1 : t.jiffies = 1
    · refine ⟨_, calls.headD [], .ends rfl h1, ?_, ⟨?_, ?_⟩, ?_⟩
      · unfold doTimer expire
        dsimp only
        rw [if_pos (show t.jiffies - 1 ≤ 0 by omega)]
        cases hs : (calls.headD []).foldlM addTimer
            (State.pop ⟨ticks + 1, t :: rest, made, fired⟩ t rest) with
        | none => exact congrArg (fun r => r.bind (expire rest.length calls.tail)) hs
        | some s₁ =>
          refine (congrArg (fun r => r.bind (expire rest.length calls.tail)) hs).trans ?_
          have hpop : Positive (State.pop ⟨ticks + 1, t :: rest, made, fired⟩ t rest).timers := hrest
          exact expire_positive (adds_positive hpop hs) _ _
      · intro hl t' rest' he _
        obtain ⟨rfl, rfl⟩ := List.cons.inj he
        exact hl
      · exact fun hf => hf t rest rfl h1
      · rintro rfl
        rfl
    · have hpos : 0 < t.jiffies - 1 := by omega
      refine ⟨_, [], .waits rfl h1, ?_, iff_of_true trivial ?_, fun _ => rfl⟩
      · unfold doTimer
        exact expire_positive
          (show Positive ({ t with jiffies := t.jiffies - 1 } :: rest) from
            List.forall_mem_cons.mpr ⟨hpos, hrest⟩) _ _
      · intro t' rest' he h1'
        obtain ⟨rfl, rfl⟩ := List.cons.inj he
        exact absurd h1' h1

theorem Ticked.positive (h : Positive s.timers) (ht : Ticked s s') : Positive s'.timers := by
  cases ht with
  | nothing hl => exact h
  | @waits t rest hl h1 =>
    rw [hl] at h
    obtain ⟨ht, hrest⟩ := List.forall_mem_cons.mp h
    refine List.forall_mem_cons.mpr ⟨?_, hrest⟩
    dsimp only
    omega
  | @ends t rest hl h1 =>
    rw [hl] at h
    exact (List.forall_mem_cons.mp h).2

theorem Ticked.right (h : Right s) (ht : Ticked s s') : Right s' := by
  have hpos := ht.positive h.positive
  cases ht with
  | nothing hl =>
    refine ⟨hpos, ?_, h.once, h.fired⟩
    rw [hl]
    trivial
  | @waits t rest hl h1 =>
    have htimed := h.timed
    have honce := h.once
    rw [hl] at htimed honce
    have hb : ((s.ticks + 1 : ℕ) : ℤ) + (t.jiffies - 1) = s.ticks + t.jiffies := by
      push_cast
      omega
    refine ⟨hpos, ⟨?_, ?_⟩, honce, h.fired⟩
    · exact htimed.1.trans hb.symm
    · dsimp only
      rw [hb]
      exact htimed.2
  | @ends t rest hl h1 =>
    have htimed := h.timed
    have honce := h.once
    rw [hl] at htimed honce
    have hb : (s.ticks : ℤ) + t.jiffies = (s.ticks + 1 : ℕ) := by
      push_cast
      omega
    refine ⟨hpos, ?_, ?_, ?_⟩
    · have hrest := htimed.2
      rw [hb] at hrest
      exact hrest
    · unfold State.pop
      rw [List.map_append, List.append_assoc]
      exact honce
    · intro c hc
      rcases List.mem_append.mp hc with hc | hc
      · exact h.fired c hc
      · rw [List.mem_singleton.mp hc]
        have := htimed.1
        dsimp only
        omega

theorem Ticked.spoilt (h : Spoilt s) (ht : Ticked s s') : Spoilt s' := by
  have hpos := ht.positive h.positive
  cases ht with
  | nothing hl =>
    refine ⟨hpos, h.wrong.imp_right fun hlate => ?_⟩
    rw [hl] at hlate
    exact absurd hlate id
  | @waits t rest hl h1 =>
    refine ⟨hpos, h.wrong.imp_right fun hlate => ?_⟩
    rw [hl] at hlate
    have hb : ((s.ticks + 1 : ℕ) : ℤ) + (t.jiffies - 1) = s.ticks + t.jiffies := by
      push_cast
      omega
    unfold Late at hlate ⊢
    dsimp only
    rwa [hb]
  | @ends t rest hl h1 =>
    refine ⟨hpos, ?_⟩
    rcases h.wrong with ⟨c, hc, hne⟩ | hlate
    · exact .inl ⟨c, List.mem_append_left _ hc, hne⟩
    · rw [hl] at hlate
      rcases hlate with hlt | hlate
      · refine .inl ⟨_, List.mem_append_right _ (List.mem_singleton_self _), ?_⟩
        dsimp only
        omega
      · right
        have hb : (s.ticks : ℤ) + t.jiffies = (s.ticks + 1 : ℕ) := by
          push_cast
          omega
        rw [hb] at hlate
        exact hlate

theorem Right.step (h : Right s) {a : Act F} (hs : step s a = some s') :
    (Fine s a ∧ Right s') ∨ (¬ Fine s a ∧ Spoilt s') := by
  cases a with
  | add request => exact h.add hs
  | tick calls =>
    obtain ⟨s₁, l, ht, he, hfine, -⟩ := doTimer_ticked h.positive calls
    rw [← hfine]
    exact (ht.right h).adds (he.symm.trans hs)

theorem Spoilt.step (h : Spoilt s) {a : Act F} (hs : step s a = some s') : Spoilt s' := by
  cases a with
  | add request => exact h.add hs
  | tick calls =>
    obtain ⟨s₁, l, ht, he, -, -⟩ := doTimer_ticked h.positive calls
    exact (ht.spoilt h).adds (he.symm.trans hs)

/-! ### Runs -/

theorem run_append (s : State F) (acts acts' : List (Act F)) :
    run s (acts ++ acts') = (run s acts).bind fun s => run s acts' := List.foldlM_append

theorem Spoilt.run {acts : List (Act F)} (h : Spoilt s) (hs : run s acts = some s') : Spoilt s' := by
  induction acts generalizing s with
  | nil => rwa [← Option.some.inj hs]
  | cons a acts ih =>
    obtain ⟨s₁, hs₁, hs⟩ := Option.bind_eq_some_iff.mp hs
    exact ih (h.step hs₁) hs

theorem Right.run {acts : List (Act F)} (h : Right s) (hs : run s acts = some s') :
    (FineRun s acts ∧ Right s') ∨ (¬ FineRun s acts ∧ Spoilt s') := by
  induction acts generalizing s with
  | nil =>
    rw [← Option.some.inj hs]
    exact .inl ⟨trivial, h⟩
  | cons a acts ih =>
    obtain ⟨s₁, hs₁, hs⟩ := Option.bind_eq_some_iff.mp hs
    have hall : FineRun s (a :: acts) ↔ Fine s a ∧ FineRun s₁ acts := by
      refine and_congr_right fun _ => ⟨fun hc => hc s₁ hs₁, fun hc s₂ hs₂ => ?_⟩
      rwa [← Option.some.inj (hs₁.symm.trans hs₂)]
    rw [hall]
    rcases h.step hs₁ with ⟨hf, h₁⟩ | ⟨hf, h₁⟩
    · rcases ih h₁ hs with ⟨hrest, h'⟩ | ⟨hrest, h'⟩
      · exact .inl ⟨⟨hf, hrest⟩, h'⟩
      · exact .inr ⟨fun hc => hrest hc.2, h'⟩
    · exact .inr ⟨fun hc => hf hc.1, h₁.run hs⟩

/-- `n` ticks in which nothing is added. -/
def idle (n : ℕ) : List (Act F) := List.replicate n (.tick [])

theorem idle_fine (n : ℕ) (s : State F) : FineRun s (idle n) := by
  induction n generalizing s with
  | zero => trivial
  | succ n ih => exact ⟨fun _ _ _ _ => trivial, fun s' _ => ih s'⟩

theorem Ticked.due (ht : Ticked s s') : s'.ticks = s.ticks + 1 ∧
    ∀ t' ∈ s'.timers, ∃ t ∈ s.timers, t'.due = t.due := by
  cases ht with
  | nothing hl => exact ⟨rfl, fun t' ht' => ⟨t', ht', rfl⟩⟩
  | @waits t rest hl h1 =>
    refine ⟨rfl, ?_⟩
    rw [hl]
    intro t' ht'
    rcases List.mem_cons.mp ht' with rfl | ht'
    · exact ⟨t, List.mem_cons_self, rfl⟩
    · exact ⟨t', List.mem_cons_of_mem t ht', rfl⟩
  | @ends t rest hl h1 =>
    refine ⟨rfl, ?_⟩
    rw [hl]
    exact fun t' ht' => ⟨t', List.mem_cons_of_mem t ht', rfl⟩

/-- Time goes on. -/
theorem run_idle (h : Positive s.timers) (n : ℕ) : ∃ s', Timers.run s (idle n) = some s' ∧
    s'.ticks = s.ticks + n ∧ ∀ t' ∈ s'.timers, ∃ t ∈ s.timers, t'.due = t.due := by
  induction n generalizing s with
  | zero => exact ⟨s, rfl, rfl, fun t ht => ⟨t, ht, rfl⟩⟩
  | succ n ih =>
    obtain ⟨s₁, l, ht, he, -, hl⟩ := doTimer_ticked h []
    obtain rfl := hl rfl
    obtain ⟨hticks, hdue⟩ := ht.due
    obtain ⟨s', hs', hticks', hdue'⟩ := ih (ht.positive h)
    refine ⟨s', ?_, by omega, ?_⟩
    · exact (congrArg (fun r => r.bind fun s => Timers.run s (idle n)) he).trans hs'
    · intro t' ht'
      obtain ⟨t₁, ht₁, hd₁⟩ := hdue' t' ht'
      obtain ⟨t, ht, hd⟩ := hdue t₁ ht₁
      exact ⟨t, ht, hd₁.trans hd⟩

/-- Once something is wrong it comes out, if only enough time goes on. -/
theorem Spoilt.comes_out (h : Spoilt s) : ∃ n s', Timers.run s (idle n) = some s' ∧ ¬ OnTime s' := by
  obtain ⟨N, hN⟩ : ∃ N, ∀ t ∈ s.timers, t.due ≤ N := by
    refine ⟨(s.timers.map Timer.due).sum, fun t ht => ?_⟩
    exact List.single_le_sum (fun _ _ => Nat.zero_le _) _ (List.mem_map_of_mem ht)
  obtain ⟨s', hs', hticks, hdue⟩ := run_idle h.positive N
  refine ⟨N, s', hs', fun hon => ?_⟩
  rcases (h.run hs').wrong with ⟨c, hc, hne⟩ | hlate
  · exact hne (hon.fired c hc)
  · cases hl : s'.timers with
    | nil =>
      rw [hl] at hlate
      exact hlate
    | cons t' rest =>
      have ht' : t' ∈ s'.timers := by
        rw [hl]
        exact List.mem_cons_self
      obtain ⟨t, ht, hd⟩ := hdue t' ht'
      have hwait := hon.waits t' ht'
      have hle := hN t ht
      omega

theorem start_right : Right (start : State F) :=
  ⟨fun _ ht => absurd ht List.not_mem_nil, trivial, .refl _, fun _ hc => absurd hc List.not_mem_nil⟩

/-- All timers are called for at their ticks, as long as time goes on, exactly if each is added behind
    those that are due before it. -/
theorem timers_on_time {acts : List (Act F)} (h : Timers.run start acts = some s) :
    (∀ n s', Timers.run start (acts ++ idle n) = some s' → OnTime s') ↔ FineRun start acts := by
  have hgo : ∀ n, Timers.run start (acts ++ idle n) = Timers.run s (idle n) := by
    intro n
    rw [run_append, h, Option.bind_some]
  rcases start_right.run h with ⟨hfine, hright⟩ | ⟨hbad, hspoilt⟩
  · refine iff_of_true (fun n s' hs' => ?_) hfine
    rw [hgo] at hs'
    rcases hright.run hs' with ⟨-, h'⟩ | ⟨hc, -⟩
    · exact h'.onTime
    · exact absurd (idle_fine n s) hc
  · refine iff_of_false (fun hall => ?_) hbad
    obtain ⟨n, s', hs', hno⟩ := hspoilt.comes_out
    exact hno (hall n s' ((hgo n).trans hs'))

/-- A timer of five ticks and, after one, another one. -/
theorem timers_on_time_two : OnTime (⟨6, [], 2, [⟨0, 0, 5, 5⟩, ⟨1, 1, 6, 6⟩]⟩ : State ℕ) := by
  have hrun : Timers.run start [.add (5, some 0), .tick [], .add (5, some 1)] =
      some (⟨1, [⟨4, 0, 0, 5⟩, ⟨1, 1, 1, 6⟩], 2, []⟩ : State ℕ) := by
    decide +kernel
  have hfine : FineRun (start : State ℕ) [.add (5, some 0), .tick [], .add (5, some 1)] := by
    refine ⟨fun _ _ t ht => absurd ht List.not_mem_nil, fun s₁ hs₁ => ⟨?_, fun s₂ hs₂ => ?_⟩⟩
    · exact fun _ _ _ _ => trivial
    · have hs : (Timers.step start (.add (5, some 0))).bind (fun s => Timers.step s (.tick [])) =
          some (⟨1, [⟨4, 0, 0, 5⟩], 1, []⟩ : State ℕ) := by
        decide +kernel
      rw [hs₁, Option.bind_some, hs₂] at hs
      obtain rfl := Option.some.inj hs
      refine ⟨fun _ _ t ht => ?_, fun _ _ => trivial⟩
      rw [List.mem_singleton.mp ht]
      decide
  exact (timers_on_time hrun).mpr hfine 5 _ (by decide +kernel)

/-- The timer that is added second is due first, and the other one comes five ticks late. -/
theorem timer_late : Timers.run start ([.add (10, some 0), .add (5, some 1)] ++ idle 15) =
      some (⟨15, [], 2, [⟨1, 1, 5, 5⟩, ⟨0, 0, 10, 15⟩]⟩ : State ℕ) ∧
    ¬ OnTime (⟨15, [], 2, [⟨1, 1, 5, 5⟩, ⟨0, 0, 10, 15⟩]⟩ : State ℕ) := by
  refine ⟨by decide +kernel, fun hon => ?_⟩
  exact absurd (hon.fired ⟨0, 0, 10, 15⟩ (by decide)) (by decide)

end

end Linux011.Timers
