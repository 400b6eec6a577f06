import Linux011.ProcessTree
import Mathlib

set_option autoImplicit false

/-! # Every task has a father that can wait for it -/
namespace Linux011.ProcessTree
open WaitQueue (TaskState)
open Scheduler (NR_TASKS)

/-- Not a zombie, and not about to become one. -/
def Task.Alive (t : Task) : Prop := t.state ≠ .zombie ∧ t.place ≠ .dead ∧ ∀ code, t.place ≠ .closing code

def Place.serials : Place → List ℕ
  | .releasing child => [child.serial]
  | _ => []

/-- The task itself and the child it is about to report. -/
def Task.serials (t : Task) : List ℕ := t.serial :: t.place.serials

structure Inv (s : Tasks) : Prop where
  init : ∃ t, s.task 1 = some t ∧ t.pid = 1 ∧ t.Alive
  inside : ∀ i t, s.task i = some t → i < NR_TASKS
  unique : ∀ i j t u, s.task i = some t → s.task j = some u → t.pid = u.pid → i = j
  fathers : ∀ i t, 2 ≤ i → s.task i = some t → ∃ j u, s.task j = some u ∧ u.pid = t.father ∧ u.Alive
  pids : ∀ i t, s.task i = some t → 0 ≤ t.pid ∧ (1 ≤ i → 0 < t.pid)
  last : 0 ≤ s.lastPid
  dead : ∀ i t, s.task i = some t → (t.state = .zombie ↔ t.place = .dead)
  own : ∀ i t, s.task i = some t → t.serials.Nodup ∧ ∀ n ∈ t.serials, n < s.born ∧
    n ∉ s.returned.map fun r => r.2.serial
  apart : ∀ i j t u, s.task i = some t → s.task j = some u → i ≠ j → t.serials.Disjoint u.serials
  reaped : ∀ i t c, s.task i = some t → t.place = .releasing c → c.father = t.pid
  once : (s.returned.map fun r => r.2.serial).Nodup ∧ ∀ r ∈ s.returned, r.2.serial < s.born ∧
    r.2.father = r.1

@[simp] theorem set_self (s : Tasks) (i : ℕ) (t : Option Task) : (s.set i t).task i = t :=
  Function.update_self ..

theorem set_other (s : Tasks) {i j : ℕ} (t : Option Task) (h : j ≠ i) :
    (s.set i t).task j = s.task j :=
  Function.update_of_ne h ..

variable {s s' : Tasks} {i : ℕ} {t t' cur : Task}

/-- A task in the table is replaced by one with the same number. It may stop being alive if it has
    no children left. -/
theorem Inv.replace (h : Inv s) (ht : s.task i = some t) (hpid : t'.pid = t.pid)
    (hserials : t'.serials = t.serials)
    (hfather : t'.father = t.father ∨ t'.father = 1)
    (halive : t.Alive → t'.Alive ∨ i ≠ 1 ∧ ∀ j u, 2 ≤ j → s.task j = some u → u.father ≠ t.pid)
    (hdead : t'.state = .zombie ↔ t'.place = .dead)
    (hreaped : ∀ c, t'.place = .releasing c → c.father = t'.pid) : Inv (s.set i (some t')) := by
  -- every task of the new table has one of the old table behind it
  have hold : ∀ j u, (s.set i (some t')).task j = some u → ∃ u₀, s.task j = some u₀ ∧
      u.pid = u₀.pid ∧ u.serials = u₀.serials ∧ (u.father = u₀.father ∨ u.father = 1) ∧
      (j ≠ i → u = u₀) ∧ (j = i → u = t') := by
    intro j u hu
    by_cases hj : j = i
    · subst hj
      rw [set_self] at hu
      obtain rfl := Option.some.inj hu
      exact ⟨t, ht, hpid, hserials, hfather, fun hc => absurd rfl hc, fun _ => rfl⟩
    · rw [set_other _ _ hj] at hu
      exact ⟨u, hu, rfl, rfl, .inl rfl, fun _ => rfl, fun hc => absurd hc hj⟩
  have hkept : ∀ j u, s.task j = some u → u.Alive →
      (∃ k v, 2 ≤ k ∧ s.task k = some v ∧ v.father = u.pid) ∨ j = 1 →
      ∃ u', (s.set i (some t')).task j = some u' ∧ u'.pid = u.pid ∧ u'.Alive := by
    intro j u hu hua hwhy
    by_cases hj : j = i
    · subst hj
      obtain rfl : t = u := Option.some.inj (ht.symm.trans hu)
      refine ⟨t', set_self .., hpid, ?_⟩
      rcases halive hua with ha | ⟨hne, hno⟩
      · exact ha
      · rcases hwhy with ⟨k, v, hk, hv, hvf⟩ | rfl
        · exact absurd hvf (hno k v hk hv)
        · exact absurd rfl hne
    · exact ⟨u, by rw [set_other _ _ hj, hu], rfl, hua⟩
  obtain ⟨t₁, ht₁, hp₁, ha₁⟩ := h.init
  obtain ⟨t₁', ht₁', hp₁', ha₁'⟩ := hkept 1 t₁ ht₁ ha₁ (.inr rfl)
  refine ⟨⟨t₁', ht₁', by rw [hp₁', hp₁], ha₁'⟩, ?_, ?_, ?_, ?_, h.last, ?_, ?_, ?_, ?_, h.once⟩
  · intro j u hu
    obtain ⟨u₀, hu₀, -⟩ := hold j u hu
    exact h.inside j u₀ hu₀
  · intro j k u v hu hv he
    obtain ⟨u₀, hu₀, hup, -⟩ := hold j u hu
    obtain ⟨v₀, hv₀, hvp, -⟩ := hold k v hv
    exact h.unique j k u₀ v₀ hu₀ hv₀ (by rw [← hup, ← hvp, he])
  · intro j u hj hu
    obtain ⟨u₀, hu₀, -, -, hf, -⟩ := hold j u hu
    rcases hf with hf | hf
    · obtain ⟨k, v, hv, hvp, hva⟩ := h.fathers j u₀ hj hu₀
      obtain ⟨v', hv', hvp', hva'⟩ := hkept k v hv hva (.inl ⟨j, u₀, hj, hu₀, hvp.symm⟩)
      exact ⟨k, v', hv', by rw [hvp', hvp, hf], hva'⟩
    · exact ⟨1, t₁', ht₁', by rw [hp₁', hp₁, hf], ha₁'⟩
  · intro j u hu
    obtain ⟨u₀, hu₀, hup, -⟩ := hold j u hu
    rw [hup]
    exact h.pids j u₀ hu₀
  · intro j u hu
    obtain ⟨u₀, hu₀, -, -, -, hne, heq⟩ := hold j u hu
    by_cases hj : j = i
    · rw [heq hj]
      exact hdead
    · rw [hne hj]
      exact h.dead j u₀ hu₀
  · intro j u hu
    obtain ⟨u₀, hu₀, -, hus, -⟩ := hold j u hu
    rw [hus]
    exact h.own j u₀ hu₀
  · intro j k u v hu hv hjk
    obtain ⟨u₀, hu₀, -, hus, -⟩ := hold j u hu
    obtain ⟨v₀, hv₀, -, hvs, -⟩ := hold k v hv
    rw [hus, hvs]
    exact h.apart j k u₀ v₀ hu₀ hv₀ hjk
  · intro j u c hu hc
    obtain ⟨u₀, hu₀, -, -, -, hne, heq⟩ := hold j u hu
    by_cases hj : j = i
    · rw [heq hj] at hc ⊢
      exact hreaped c hc
    · rw [hne hj] at hc ⊢
      exact h.reaped j u₀ c hu₀ hc

theorem set_same {o : Option Task} (h : s.task i = o) : s.set i o = s := by
  unfold Tasks.set
  rw [← h, Function.update_eq_self]

theorem modify_some (f : Task → Task) (h : s.task i = some t) : s.modify i f = s.set i (some (f t)) := by
  unfold Tasks.modify
  rw [h, Option.map_some]

/-- Signals, states of living tasks and the like. -/
theorem Inv.modify (h : Inv s) (i : ℕ) (f : Task → Task)
    (hf : ∀ t, s.task i = some t → (f t).pid = t.pid ∧ (f t).serial = t.serial ∧
      (f t).father = t.father ∧ (f t).place = t.place ∧ ((f t).state = .zombie ↔ t.state = .zombie)) :
    Inv (s.modify i f) := by
  cases ht : s.task i with
  | none =>
    unfold Tasks.modify
    rw [ht, Option.map_none, set_same ht]
    exact h
  | some t =>
    obtain ⟨hp, hs, hfa, hpl, hst⟩ := hf t ht
    rw [modify_some f ht]
    refine h.replace ht hp ?_ (.inl hfa) ?_ ?_ ?_
    · unfold Task.serials
      rw [hs, hpl]
    · intro ha
      left
      unfold Task.Alive at ha ⊢
      rw [hpl]
      exact ⟨fun hz => ha.1 (hst.mp hz), ha.2⟩
    · rw [hst, hpl]
      exact h.dead i t ht
    · intro c hc
      rw [hpl] at hc
      rw [hp]
      exact h.reaped i t c ht hc

/-- A task that is not alive leaves the table. -/
theorem Inv.remove (h : Inv s) (ht : s.task i = some t) (hna : ¬ t.Alive) : Inv (s.set i none) := by
  have hold : ∀ j u, (s.set i none).task j = some u → j ≠ i ∧ s.task j = some u := by
    intro j u hu
    by_cases hj : j = i
    · subst hj
      rw [set_self] at hu
      exact absurd hu (by simp)
    · rw [set_other _ _ hj] at hu
      exact ⟨hj, hu⟩
  have hkept : ∀ j u, s.task j = some u → u.Alive → (s.set i none).task j = some u := by
    intro j u hu ha
    have hj : j ≠ i := by
      rintro rfl
      obtain rfl := Option.some.inj (ht.symm.trans hu)
      exact hna ha
    rw [set_other _ _ hj, hu]
  obtain ⟨t₁, ht₁, hp₁, ha₁⟩ := h.init
  refine ⟨⟨t₁, hkept 1 t₁ ht₁ ha₁, hp₁, ha₁⟩, ?_, ?_, ?_, ?_, h.last, ?_, ?_, ?_, ?_, h.once⟩
  · intro j u hu
    exact h.inside j u (hold j u hu).2
  · intro j k u v hu hv he
    exact h.unique j k u v (hold j u hu).2 (hold k v hv).2 he
  · intro j u hj hu
    obtain ⟨k, v, hv, hvp, hva⟩ := h.fathers j u hj (hold j u hu).2
    exact ⟨k, v, hkept k v hv hva, hvp, hva⟩
  · intro j u hu
    exact h.pids j u (hold j u hu).2
  · intro j u hu
    exact h.dead j u (hold j u hu).2
  · intro j u hu
    exact h.own j u (hold j u hu).2
  · intro j k u v hu hv hjk
    exact h.apart j k u v (hold j u hu).2 (hold k v hv).2 hjk
  · intro j u c hu hc
    exact h.reaped j u c (hold j u hu).2 hc

/-! ### exit -/

/-- The running task has number `pid` and is at `p`. -/
def Running (s : Tasks) (pid : ℤ) (p : Place) : Prop :=
  ∃ t, s.task s.current = some t ∧ t.pid = pid ∧ t.place = p

theorem Running.set {pid : ℤ} {p : Place} (h : Running s pid p) (ht : s.task i = some t)
    (hpid : t'.pid = t.pid) (hplace : t'.place = t.place) : Running (s.set i (some t')) pid p := by
  obtain ⟨u, hu, hup, hpl⟩ := h
  by_cases hi : s.current = i
  · refine ⟨t', by rw [show (s.set i (some t')).current = i from hi, set_self], ?_⟩
    rw [hi, ht] at hu
    obtain rfl := Option.some.inj hu
    exact ⟨by rw [hpid, hup], by rw [hplace, hpl]⟩
  · exact ⟨u, by rw [show (s.set i (some t')).current = s.current from rfl, set_other _ _ hi, hu],
      hup, hpl⟩

theorem Running.modify {pid : ℤ} {p : Place} (h : Running s pid p) (i : ℕ) (f : Task → Task)
    (hf : ∀ t, (f t).pid = t.pid ∧ (f t).place = t.place) : Running (s.modify i f) pid p := by
  cases ht : s.task i with
  | none =>
    unfold Tasks.modify
    rw [ht, Option.map_none, set_same ht]
    exact h
  | some t =>
    rw [modify_some f ht]
    exact h.set ht (hf t).1 (hf t).2

/-- Slot `j` holds no child of `pid`. -/
def NoChild (s : Tasks) (pid : ℤ) (j : ℕ) : Prop := ∀ t, s.task j = some t → t.father ≠ pid

theorem NoChild.set {pid : ℤ} {j : ℕ} (h : NoChild s pid j) (hf : j = i → t'.father ≠ pid) :
    NoChild (s.set i (some t')) pid j := by
  intro u hu
  by_cases hj : j = i
  · subst hj
    rw [set_self] at hu
    obtain rfl := Option.some.inj hu
    exact hf rfl
  · rw [set_other _ _ hj] at hu
    exact h u hu

theorem NoChild.modify {pid : ℤ} {j : ℕ} (h : NoChild s pid j) (i : ℕ) (f : Task → Task)
    (hf : ∀ t, (f t).father = t.father) : NoChild (s.modify i f) pid j := by
  cases ht : s.task i with
  | none =>
    unfold Tasks.modify
    rw [ht, Option.map_none, set_same ht]
    exact h
  | some t =>
    rw [modify_some f ht]
    refine h.set fun hj => ?_
    subst hj
    rw [hf]
    exact h t ht

/-- One turn of the loop over the children. -/
theorem reparent_turn {pid : ℤ} {p : Place} (h : Inv s) (hr : Running s pid p) (h1 : pid ≠ 1)
    (i : ℕ) : Inv (reparent pid s i) ∧ Running (reparent pid s i) pid p ∧
      NoChild (reparent pid s i) pid i ∧
      ∀ j, NoChild s pid j → NoChild (reparent pid s i) pid j := by
  unfold reparent
  split
  · next ht => exact ⟨h, hr, fun t hu => absurd (ht.symm.trans hu) (by simp), fun j hj => hj⟩
  · next t ht =>
    split
    · have hinv : Inv (s.set i (some { t with father := 1 })) :=
        h.replace ht rfl rfl (.inr rfl) (fun ha => .inl ha) (h.dead i t ht)
          (fun c hc => h.reaped i t c ht hc)
      have hrun : Running (s.set i (some { t with father := 1 })) pid p := hr.set ht rfl rfl
      have hnone : ∀ j, j = i ∨ NoChild s pid j →
          NoChild (s.set i (some { t with father := 1 })) pid j := by
        intro j hj u hu
        by_cases hji : j = i
        · subst hji
          rw [set_self] at hu
          obtain rfl := Option.some.inj hu
          exact fun hc => h1 hc.symm
        · rw [set_other _ _ hji] at hu
          rcases hj with rfl | hj
          · exact absurd rfl hji
          · exact hj u hu
      dsimp only
      split
      · refine ⟨hinv.modify 1 _ fun u hu => ⟨rfl, rfl, rfl, rfl, Iff.rfl⟩,
          hrun.modify 1 _ fun u => ⟨rfl, rfl⟩, (hnone i (.inl rfl)).modify 1 _ fun u => rfl,
          fun j hj => (hnone j (.inr hj)).modify 1 _ fun u => rfl⟩
      · exact ⟨hinv, hrun, hnone i (.inl rfl), fun j hj => hnone j (.inr hj)⟩
    · next hne =>
      refine ⟨h, hr, fun u hu => ?_, fun j hj => hj⟩
      obtain rfl := Option.some.inj (ht.symm.trans hu)
      exact hne

theorem reparent_all {pid : ℤ} {p : Place} (h : Inv s) (hr : Running s pid p) (h1 : pid ≠ 1)
    (l : List ℕ) : Inv (l.foldl (reparent pid) s) ∧ Running (l.foldl (reparent pid) s) pid p ∧
      ∀ j ∈ l, NoChild (l.foldl (reparent pid) s) pid j := by
  induction l using List.reverseRecOn with
  | nil => exact ⟨h, hr, fun j hj => absurd hj List.not_mem_nil⟩
  | append_singleton l i ih =>
    obtain ⟨hinv, hrun, hnone⟩ := ih
    obtain ⟨h1, h2, h3, h4⟩ := reparent_turn hinv hrun h1 i
    rw [List.foldl_append]
    refine ⟨h1, h2, fun j hj => ?_⟩
    rcases List.mem_append.mp hj with hj | hj
    · exact h4 j (hnone j hj)
    · rw [List.mem_singleton.mp hj]
      exact h3

/-- The running task has a number of its own. -/
theorem Inv.not_init (h : Inv s) (hc : s.task s.current = some cur) (h1 : s.current ≠ 1) :
    cur.pid ≠ 1 := by
  obtain ⟨t₁, ht₁, hp₁, -⟩ := h.init
  intro hp
  exact h1 (h.unique _ _ cur t₁ hc ht₁ (by rw [hp, hp₁]))

theorem Inv.enterExit (h : Inv s) (hc : s.task s.current = some cur) (hp : cur.place = .user)
    (h1 : s.current ≠ 1) (code : ℤ) : Inv (enterExit s cur code) := by
  obtain ⟨hinv, ⟨t, ht, htp, hpl⟩, hnone⟩ :=
    reparent_all h ⟨cur, hc, rfl, hp⟩ (h.not_init hc h1) (List.range NR_TASKS)
  unfold ProcessTree.enterExit
  have hcur : ∀ l : List ℕ, (l.foldl (reparent cur.pid) s).current = s.current := by
    intro l
    induction l using List.reverseRecOn with
    | nil => rfl
    | append_singleton l i ih =>
      rw [List.foldl_append]
      change (reparent cur.pid (l.foldl (reparent cur.pid) s) i).current = s.current
      rw [← ih]
      unfold reparent
      split
      · rfl
      · split
        · dsimp only
          split <;> rfl
        · rfl
  rw [← hcur (List.range NR_TASKS), modify_some _ ht]
  refine hinv.replace ht rfl ?_ (.inl rfl) ?_ ?_ ?_
  · unfold Task.serials
    rw [hpl]
    rfl
  · intro _
    right
    rw [hcur] at *
    refine ⟨h1, fun j u _ hu => ?_⟩
    rw [htp]
    exact hnone j (List.mem_range.mpr (hinv.inside j u hu)) u hu
  · have hd := hinv.dead _ t ht
    rw [hpl] at hd
    simpa using hd
  · intro c hc'
    exact absurd hc' (by simp)

theorem hangUp_turn {pid session : ℤ} {p : Place} (h : Inv s) (hr : Running s pid p) (i : ℕ) :
    Inv (hangUp session s i) ∧ Running (hangUp session s i) pid p ∧
      (hangUp session s i).current = s.current := by
  unfold hangUp
  split
  · exact ⟨h, hr, rfl⟩
  · next t ht =>
    split
    · have hm := modify_some (fun t => { t with signal := t.signal ||| sighup }) ht
      rw [← hm]
      exact ⟨h.modify i _ fun u _ => ⟨rfl, rfl, rfl, rfl, Iff.rfl⟩,
        hr.modify i _ fun u => ⟨rfl, rfl⟩, rfl⟩
    · exact ⟨h, hr, rfl⟩

theorem killSession_all {pid : ℤ} {p : Place} (h : Inv s) (hr : Running s pid p) (session : ℤ) :
    Inv (killSession s session) ∧ Running (killSession s session) pid p ∧
      (killSession s session).current = s.current := by
  unfold killSession
  generalize ((List.range NR_TASKS).filter fun i => 1 ≤ i).reverse = l
  induction l using List.reverseRecOn with
  | nil => exact ⟨h, hr, rfl⟩
  | append_singleton l i ih =>
    obtain ⟨hinv, hrun, hcur⟩ := ih
    obtain ⟨h1, h2, h3⟩ := hangUp_turn hinv hrun i
    rw [List.foldl_append]
    exact ⟨h1, h2, h3.trans hcur⟩

/-- The father is told, or the task releases itself. -/
theorem Inv.tellFather (h : Inv s) (hc : s.task s.current = some cur) (hna : ¬ cur.Alive)
    {pid : ℤ} (hs : tellFather s pid = some s') : Inv s' := by
  unfold ProcessTree.tellFather at hs
  split at hs
  · obtain rfl := Option.some.inj hs
    exact h.modify _ _ fun u _ => ⟨rfl, rfl, rfl, rfl, Iff.rfl⟩
  · unfold release at hs
    split at hs
    · exact absurd hs (by simp)
    · obtain rfl := Option.some.inj hs
      exact h.remove hc hna

theorem Inv.leaveExit (h : Inv s) (hc : s.task s.current = some cur) {code : ℤ}
    (hp : cur.place = .closing code) (hs : leaveExit s cur code = some s') : Inv s' := by
  have hkill : ∃ s₁, (if cur.leader then killSession s cur.session else s) = s₁ ∧ Inv s₁ ∧
      Running s₁ cur.pid (.closing code) := by
    split
    · obtain ⟨h1, h2, -⟩ := killSession_all h ⟨cur, hc, rfl, hp⟩ cur.session
      exact ⟨_, rfl, h1, h2⟩
    · exact ⟨s, rfl, h, cur, hc, rfl, hp⟩
  obtain ⟨s₁, he, h₁, t, ht, -, hpl⟩ := hkill
  unfold ProcessTree.leaveExit at hs
  simp only [he] at hs
  rw [modify_some _ ht] at hs
  have h₂ : Inv (s₁.set s₁.current (some { t with state := .zombie, exitCode := code, place := .dead })) := by
    refine h₁.replace ht rfl ?_ (.inl rfl) (fun ha => absurd hpl (ha.2.2 code)) ⟨fun _ => rfl, fun _ => rfl⟩
      fun c hc' => absurd hc' (by simp)
    unfold Task.serials
    rw [hpl]
    rfl
  exact h₂.tellFather (set_self ..) (fun ha => ha.1 rfl) hs

/-! ### waitpid -/

theorem scan_zombie {pid : ℤ} {options n : ℕ} {flag : Bool}
    (h : scan s cur pid options n flag = .zombie i t) :
    1 ≤ i ∧ s.task i = some t ∧ i ≠ s.current ∧ t.father = cur.pid ∧ t.state = .zombie := by
  induction n generalizing flag with
  | zero => simp [scan] at h
  | succ n ih =>
    simp only [scan] at h
    split at h
    · exact ih h
    · next u hu =>
      split at h
      · exact ih h
      · next hsel =>
        simp only [not_or, Decidable.not_not] at hsel
        split at h
        · split at h
          · exact ih h
          · exact absurd h (by simp)
        · next hz =>
          obtain ⟨rfl, rfl⟩ := Found.zombie.inj h
          exact ⟨Nat.succ_pos n, hu, hsel.1, hsel.2.1, hz⟩
        · exact ih h

/-- Between two places of a living task that report no child. -/
theorem Inv.move (h : Inv s) (hc : s.task s.current = some cur) (hp : cur.place.serials = []) (f : Task → Task)
    (hf : (f cur).pid = cur.pid ∧ (f cur).serial = cur.serial ∧ (f cur).father = cur.father ∧
      (f cur).state ≠ .zombie)
    (hplace : (f cur).place = .user ∨ ∃ pid options, (f cur).place = .waiting pid options) :
    Inv (s.modify s.current f) := by
  obtain ⟨hpid, hserial, hfather, hstate⟩ := hf
  rw [modify_some f hc]
  have hlive : (f cur).Alive ∧ (f cur).place.serials = [] ∧ (f cur).place ≠ .dead ∧
      ∀ c, (f cur).place ≠ .releasing c := by
    unfold Task.Alive
    rcases hplace with he | ⟨pid, options, he⟩ <;> rw [he] <;> simp [Place.serials, hstate]
  refine h.replace hc hpid ?_ (.inl hfather) (fun _ => .inl hlive.1) ?_ ?_
  · unfold Task.serials
    rw [hserial, hp, hlive.2.1]
  · exact ⟨fun hz => absurd hz hstate, fun hd => absurd hd hlive.2.2.1⟩
  · intro c hc'
    exact absurd hc' (hlive.2.2.2 c)

/-- The child that was found goes from the table to the task that waits for it. -/
theorem Inv.reap (h : Inv s) (hc : s.task s.current = some cur) (ha : cur.Alive)
    (hp : cur.place.serials = []) (ht : s.task i = some t) (hi : i ≠ s.current)
    (hf : t.father = cur.pid) (hz : t.state = .zombie) :
    Inv (putPlace (s.set i none) (.releasing ⟨t.serial, t.pid, t.father, t.exitCode⟩)) := by
  have h₁ := h.remove ht fun ha' => ha'.1 hz
  have hcur : (s.set i none).task s.current = some cur := by rw [set_other _ _ hi.symm, hc]
  have hmine := h.own _ cur hc
  have hchild := h.own i t ht
  have hserial : ∀ j u, (s.set i none).task j = some u → t.serial ∉ u.serials := by
    intro j u hu hmem
    by_cases hj : j = i
    · subst hj
      rw [set_self] at hu
      exact absurd hu (by simp)
    · rw [set_other _ _ hj] at hu
      exact h.apart i j t u ht hu (Ne.symm hj) List.mem_cons_self hmem
  have hserials : cur.serials = [cur.serial] := by
    unfold Task.serials
    rw [hp]
  unfold putPlace
  rw [show (s.set i none).current = s.current from rfl, modify_some _ hcur]
  -- the new record of the task that waits, and what is in the table apart from it
  have hnew : ∀ j u, ((s.set i none).set s.current (some { cur with
      place := .releasing ⟨t.serial, t.pid, t.father, t.exitCode⟩ })).task j = some u →
      j = s.current ∧ u = { cur with place := .releasing ⟨t.serial, t.pid, t.father, t.exitCode⟩ } ∨
        j ≠ s.current ∧ (s.set i none).task j = some u := by
    intro j u hu
    by_cases hj : j = s.current
    · subst hj
      rw [set_self] at hu
      exact .inl ⟨rfl, (Option.some.inj hu).symm⟩
    · rw [set_other _ _ hj] at hu
      exact .inr ⟨hj, hu⟩
  have hback : ∀ j u, ((s.set i none).set s.current (some { cur with
      place := .releasing ⟨t.serial, t.pid, t.father, t.exitCode⟩ })).task j = some u →
      ∃ u₀, (s.set i none).task j = some u₀ ∧ u.pid = u₀.pid ∧ u.father = u₀.father := by
    intro j u hu
    rcases hnew j u hu with ⟨rfl, rfl⟩ | ⟨-, hu⟩
    · exact ⟨cur, hcur, rfl, rfl⟩
    · exact ⟨u, hu, rfl, rfl⟩
  have hlive : ∀ j u, (s.set i none).task j = some u → u.Alive →
      ∃ u', ((s.set i none).set s.current (some { cur with
        place := .releasing ⟨t.serial, t.pid, t.father, t.exitCode⟩ })).task j = some u' ∧
        u'.pid = u.pid ∧ u'.Alive := by
    intro j u hu hua
    by_cases hj : j = s.current
    · subst hj
      obtain rfl := Option.some.inj (hcur.symm.trans hu)
      exact ⟨_, set_self .., rfl, hua.1, by simp, by simp⟩
    · exact ⟨u, by rw [set_other _ _ hj, hu], rfl, hua⟩
  obtain ⟨t₁, ht₁, hp₁, ha₁⟩ := h₁.init
  obtain ⟨t₁', ht₁', hp₁', ha₁'⟩ := hlive 1 t₁ ht₁ ha₁
  refine ⟨⟨t₁', ht₁', hp₁'.trans hp₁, ha₁'⟩, ?_, ?_, ?_, ?_, h.last, ?_, ?_, ?_, ?_, h.once⟩
  · intro j u hu
    obtain ⟨u₀, hu₀, -⟩ := hback j u hu
    exact h₁.inside j u₀ hu₀
  · intro j k u v hu hv he
    obtain ⟨u₀, hu₀, hup, -⟩ := hback j u hu
    obtain ⟨v₀, hv₀, hvp, -⟩ := hback k v hv
    exact h₁.unique j k u₀ v₀ hu₀ hv₀ (by rw [← hup, ← hvp, he])
  · intro j u hj hu
    obtain ⟨u₀, hu₀, -, huf⟩ := hback j u hu
    obtain ⟨k, v, hv, hvp, hva⟩ := h₁.fathers j u₀ hj hu₀
    obtain ⟨v', hv', hvp', hva'⟩ := hlive k v hv hva
    exact ⟨k, v', hv', by rw [hvp', hvp, huf], hva'⟩
  · intro j u hu
    obtain ⟨u₀, hu₀, hup, -⟩ := hback j u hu
    rw [hup]
    exact h₁.pids j u₀ hu₀
  · intro j u hu
    rcases hnew j u hu with ⟨rfl, rfl⟩ | ⟨-, hu⟩
    · exact ⟨fun hs => absurd hs ha.1, fun hd => absurd hd (by simp)⟩
    · exact h₁.dead j u hu
  · intro j u hu
    rcases hnew j u hu with ⟨rfl, rfl⟩ | ⟨-, hu⟩
    · change [cur.serial, t.serial].Nodup ∧ ∀ n ∈ [cur.serial, t.serial], n < s.born ∧ _
      have hne : cur.serial ≠ t.serial := by
        intro he
        exact hserial _ cur hcur (by rw [hserials, he]; exact List.mem_singleton_self _)
      refine ⟨by simpa using hne, fun n hn => ?_⟩
      rcases List.mem_cons.mp hn with rfl | hn
      · exact hmine.2 _ List.mem_cons_self
      · rw [List.mem_singleton.mp hn]
        exact hchild.2 _ List.mem_cons_self
    · exact h₁.own j u hu
  · intro j k u v hu hv hjk
    rcases hnew j u hu with ⟨rfl, rfl⟩ | ⟨-, hu⟩
    · rcases hnew k v hv with ⟨rfl, rfl⟩ | ⟨-, hv⟩
      · exact absurd rfl hjk
      · change [cur.serial, t.serial].Disjoint v.serials
        have hd := h₁.apart _ k cur v hcur hv hjk
        rw [hserials] at hd
        intro n hn hnv
        rcases List.mem_cons.mp hn with rfl | hn
        · exact hd (List.mem_singleton_self _) hnv
        · rw [List.mem_singleton.mp hn] at hnv
          exact hserial k v hv hnv
    · rcases hnew k v hv with ⟨rfl, rfl⟩ | ⟨-, hv⟩
      · change u.serials.Disjoint [cur.serial, t.serial]
        have hd := h₁.apart j _ u cur hu hcur hjk
        rw [hserials] at hd
        intro n hnu hn
        rcases List.mem_cons.mp hn with rfl | hn
        · exact hd hnu (List.mem_singleton_self _)
        · rw [List.mem_singleton.mp hn] at hnu
          exact hserial j u hu hnu
      · exact h₁.apart j k u v hu hv hjk
  · intro j u c hu hc'
    rcases hnew j u hu with ⟨rfl, rfl⟩ | ⟨-, hu⟩
    · obtain rfl := Place.releasing.inj hc'
      exact hf
    · exact h₁.reaped j u c hu hc'

theorem Inv.sysWaitpid (h : Inv s) (hc : s.task s.current = some cur) (ha : cur.Alive)
    (hp : cur.place.serials = []) {pid : ℤ} {options : ℕ}
    (hs : sysWaitpid s cur pid options = some s') : Inv s' := by
  have huser : Inv (putPlace s .user) :=
    h.move hc hp _ ⟨rfl, rfl, rfl, ha.1⟩ (.inl rfl)
  unfold ProcessTree.sysWaitpid at hs
  split at hs
  · obtain rfl := Option.some.inj hs
    exact huser
  · next i t hscan =>
    obtain ⟨h1, ht, hi, hf, hz⟩ := scan_zombie hscan
    unfold release at hs
    rw [if_neg (by omega), Option.map_some] at hs
    obtain rfl := Option.some.inj hs
    exact h.reap hc ha hp ht hi hf hz
  · obtain rfl := Option.some.inj hs
    exact huser
  · split at hs
    · obtain rfl := Option.some.inj hs
      exact huser
    · obtain rfl := Option.some.inj hs
      exact h.move hc hp _ ⟨rfl, rfl, rfl, by simp⟩ (.inr ⟨pid, options, rfl⟩)

/-- `waitpid` returns the status of the child it has released. -/
theorem Inv.giveBack (h : Inv s) (hc : s.task s.current = some cur) (hs : cur.state ≠ .zombie)
    {child : Reaped} (hp : cur.place = .releasing child) :
    Inv { putPlace s .user with returned := s.returned ++ [(cur.pid, child)] } := by
  have hserials : cur.serials = [cur.serial, child.serial] := by
    unfold Task.serials
    rw [hp]
    rfl
  obtain ⟨hnodup, hmine⟩ := h.own _ cur hc
  rw [hserials] at hnodup hmine
  obtain ⟨hchild, hchild'⟩ := hmine child.serial (by simp)
  have hlive : cur.Alive := ⟨hs, by rw [hp]; simp, by rw [hp]; simp⟩
  -- the table, with one serial number less
  have hnew : ∀ j u, (putPlace s .user).task j = some u →
      ∃ u₀, s.task j = some u₀ ∧ u.pid = u₀.pid ∧ u.father = u₀.father ∧ u.state = u₀.state ∧
        u.serials ⊆ u₀.serials ∧ u.serials.Nodup ∧ child.serial ∉ u.serials ∧
        (u.Alive ↔ u₀.Alive) ∧ (u.place = u₀.place ∨ u.place = .user ∧ u₀.place = .releasing child) := by
    intro j u hu
    unfold putPlace at hu
    rw [modify_some _ hc] at hu
    by_cases hj : j = s.current
    · subst hj
      rw [set_self] at hu
      obtain rfl := Option.some.inj hu
      refine ⟨cur, hc, rfl, rfl, rfl, ?_, List.nodup_singleton _, ?_, ⟨fun _ => hlive, fun _ => ?_⟩,
        .inr ⟨rfl, hp⟩⟩
      · rw [hserials]
        intro n hn
        rw [List.mem_singleton.mp hn]
        exact List.mem_cons_self
      · intro hmem
        have := List.mem_singleton.mp hmem
        simp [this] at hnodup
      · exact ⟨hs, by simp, by simp⟩
    · rw [set_other _ _ hj] at hu
      refine ⟨u, hu, rfl, rfl, rfl, fun _ hn => hn, (h.own j u hu).1, ?_, Iff.rfl, .inl rfl⟩
      intro hmem
      exact h.apart j _ u cur hu hc hj hmem (by rw [hserials]; simp)
  have hkept : ∀ j u, s.task j = some u → u.Alive →
      ∃ u', (putPlace s .user).task j = some u' ∧ u'.pid = u.pid ∧ u'.Alive := by
    intro j u hu hua
    unfold putPlace
    rw [modify_some _ hc]
    by_cases hj : j = s.current
    · subst hj
      obtain rfl := Option.some.inj (hc.symm.trans hu)
      exact ⟨_, set_self .., rfl, hs, by simp, by simp⟩
    · exact ⟨u, by rw [set_other _ _ hj, hu], rfl, hua⟩
  obtain ⟨t₁, ht₁, hp₁, ha₁⟩ := h.init
  obtain ⟨t₁', ht₁', hp₁', ha₁'⟩ := hkept 1 t₁ ht₁ ha₁
  refine ⟨⟨t₁', ht₁', hp₁'.trans hp₁, ha₁'⟩, ?_, ?_, ?_, ?_, h.last, ?_, ?_, ?_, ?_, ?_, ?_⟩
  · intro j u hu
    obtain ⟨u₀, hu₀, -⟩ := hnew j u hu
    exact h.inside j u₀ hu₀
  · intro j k u v hu hv he
    obtain ⟨u₀, hu₀, hup, -⟩ := hnew j u hu
    obtain ⟨v₀, hv₀, hvp, -⟩ := hnew k v hv
    exact h.unique j k u₀ v₀ hu₀ hv₀ (by rw [← hup, ← hvp, he])
  · intro j u hj hu
    obtain ⟨u₀, hu₀, -, huf, -⟩ := hnew j u hu
    obtain ⟨k, v, hv, hvp, hva⟩ := h.fathers j u₀ hj hu₀
    obtain ⟨v', hv', hvp', hva'⟩ := hkept k v hv hva
    exact ⟨k, v', hv', by rw [hvp', hvp, huf], hva'⟩
  · intro j u hu
    obtain ⟨u₀, hu₀, hup, -⟩ := hnew j u hu
    rw [hup]
    exact h.pids j u₀ hu₀
  · intro j u hu
    obtain ⟨u₀, hu₀, -, -, hst, -, -, -, -, hpl⟩ := hnew j u hu
    rw [hst, h.dead j u₀ hu₀]
    rcases hpl with hpl | ⟨hpl, hpl'⟩
    · rw [hpl]
    · rw [hpl, hpl']
      simp
  · intro j u hu
    obtain ⟨u₀, hu₀, -, -, -, hsub, hnd, hno, -⟩ := hnew j u hu
    refine ⟨hnd, fun n hn => ?_⟩
    obtain ⟨hlt, hret⟩ := (h.own j u₀ hu₀).2 n (hsub hn)
    refine ⟨hlt, ?_⟩
    change n ∉ (s.returned ++ [(cur.pid, child)]).map fun r => r.2.serial
    rw [List.map_append, List.mem_append, not_or]
    refine ⟨hret, fun hmem => ?_⟩
    obtain rfl : n = child.serial := List.mem_singleton.mp hmem
    exact hno hn
  · intro j k u v hu hv hjk
    obtain ⟨u₀, hu₀, -, -, -, husub, -⟩ := hnew j u hu
    obtain ⟨v₀, hv₀, -, -, -, hvsub, -⟩ := hnew k v hv
    intro n hnu hnv
    exact h.apart j k u₀ v₀ hu₀ hv₀ hjk (husub hnu) (hvsub hnv)
  · intro j u c hu hc'
    obtain ⟨u₀, hu₀, hup, -, -, -, -, -, -, hpl⟩ := hnew j u hu
    rcases hpl with hpl | ⟨hpl, -⟩
    · rw [hup]
      exact h.reaped j u₀ c hu₀ (by rw [← hpl, hc'])
    · rw [hc'] at hpl
      exact absurd hpl (by simp)
  · change ((s.returned ++ [(cur.pid, child)]).map fun r => r.2.serial).Nodup
    rw [List.map_append, List.nodup_append]
    refine ⟨h.once.1, List.nodup_singleton _, fun n hn m hm => ?_⟩
    rintro rfl
    obtain rfl : n = child.serial := List.mem_singleton.mp hm
    exact hchild' hn
  · intro r hr
    rcases List.mem_append.mp hr with hr | hr
    · exact h.once.2 r hr
    · rw [List.mem_singleton.mp hr]
      exact ⟨hchild, h.reaped _ cur child hc hp⟩

/-! ### fork -/

theorem findPid_free {task : ℕ → Option Task} {fuel : ℕ} {last pid : ℤ}
    (h : findPid task fuel last = some pid) (hl : 0 ≤ last) : pidUsed task pid = false ∧ 0 < pid := by
  have hpos : ∀ last : ℤ, 0 ≤ last → 0 < nextPid last := by
    intro last hl
    unfold nextPid
    split <;> omega
  induction fuel generalizing last with
  | zero => simp [findPid] at h
  | succ fuel ih =>
    simp only [findPid] at h
    split at h
    · exact ih h (le_of_lt (hpos last hl))
    · next hfree =>
      obtain rfl := Option.some.inj h
      exact ⟨by simpa using hfree, hpos last hl⟩

theorem pidUsed_false {task : ℕ → Option Task} {pid : ℤ} (h : pidUsed task pid = false)
    (hi : i < NR_TASKS) (ht : task i = some t) : t.pid ≠ pid := by
  intro hp
  have hall := List.any_eq_false.mp h i (List.mem_range.mpr hi)
  rw [ht] at hall
  simp [hp] at hall

theorem findSlot_some {task : ℕ → Option Task} (h : findSlot task = some i) :
    1 ≤ i ∧ i < NR_TASKS ∧ task i = none := by
  have hp := List.find?_some h
  have hm := List.mem_range.mp (List.mem_of_find?_eq_some h)
  simp only [Bool.and_eq_true, decide_eq_true_eq, Option.isNone_iff_eq_none] at hp
  exact ⟨hp.1, hm, hp.2⟩

/-- A new task in a free slot, with the running one as its father. -/
theorem Inv.copyProcess (h : Inv s) (hc : s.task s.current = some cur) (ha : cur.Alive)
    (hfree : pidUsed s.task s.lastPid = false) (hpos : 0 < s.lastPid) (h1 : 1 ≤ i)
    (hlt : i < NR_TASKS) (hi : s.task i = none) (memory : Bool) :
    Inv (copyProcess s cur i memory) := by
  unfold ProcessTree.copyProcess
  split
  case isFalse => exact h
  generalize hchild : ({ cur with
    pid := s.lastPid, father := cur.pid, signal := 0, leader := false, state := TaskState.running,
    serial := s.born, place := Place.user } : Task) = child
  have hcp : child.pid = s.lastPid := by rw [← hchild]
  have hcf : child.father = cur.pid := by rw [← hchild]
  have hcs : child.serials = [s.born] := by rw [← hchild]; rfl
  have hca : child.Alive := by rw [← hchild]; exact ⟨by simp, by simp, by simp⟩
  have hnew : ∀ j u, (s.set i (some child)).task j = some u →
      j = i ∧ u = child ∨ j ≠ i ∧ s.task j = some u := by
    intro j u hu
    by_cases hj : j = i
    · subst hj
      rw [set_self] at hu
      exact .inl ⟨rfl, (Option.some.inj hu).symm⟩
    · rw [set_other _ _ hj] at hu
      exact .inr ⟨hj, hu⟩
  have hkept : ∀ j u, s.task j = some u → (s.set i (some child)).task j = some u := by
    intro j u hu
    have hj : j ≠ i := by
      rintro rfl
      rw [hi] at hu
      exact absurd hu (by simp)
    rw [set_other _ _ hj, hu]
  obtain ⟨t₁, ht₁, hp₁, ha₁⟩ := h.init
  refine ⟨⟨t₁, hkept 1 t₁ ht₁, hp₁, ha₁⟩, ?_, ?_, ?_, ?_, h.last, ?_, ?_, ?_, ?_, h.once.1, ?_⟩
  · intro j u hu
    rcases hnew j u hu with ⟨rfl, -⟩ | ⟨-, hu⟩
    · exact hlt
    · exact h.inside j u hu
  · intro j k u v hu hv he
    rcases hnew j u hu with ⟨rfl, rfl⟩ | ⟨-, hu'⟩ <;>
      rcases hnew k v hv with ⟨rfl, rfl⟩ | ⟨-, hv'⟩
    · rfl
    · exact absurd (by rw [← he, hcp]) (pidUsed_false hfree (h.inside k v hv') hv')
    · exact absurd (by rw [he, hcp]) (pidUsed_false hfree (h.inside j u hu') hu')
    · exact h.unique j k u v hu' hv' he
  · intro j u hj hu
    rcases hnew j u hu with ⟨rfl, rfl⟩ | ⟨-, hu⟩
    · exact ⟨s.current, cur, hkept _ cur hc, hcf.symm, ha⟩
    · obtain ⟨k, v, hv, hvp, hva⟩ := h.fathers j u hj hu
      exact ⟨k, v, hkept k v hv, hvp, hva⟩
  · intro j u hu
    rcases hnew j u hu with ⟨rfl, rfl⟩ | ⟨-, hu⟩
    · rw [hcp]
      exact ⟨le_of_lt hpos, fun _ => hpos⟩
    · exact h.pids j u hu
  · intro j u hu
    rcases hnew j u hu with ⟨rfl, rfl⟩ | ⟨-, hu⟩
    · exact ⟨fun hz => absurd hz hca.1, fun hd => absurd hd hca.2.1⟩
    · exact h.dead j u hu
  · intro j u hu
    rcases hnew j u hu with ⟨rfl, rfl⟩ | ⟨-, hu⟩
    · rw [hcs]
      refine ⟨List.nodup_singleton _, fun n hn => ?_⟩
      rw [List.mem_singleton.mp hn]
      refine ⟨Nat.lt_succ_self _, fun hmem => ?_⟩
      obtain ⟨r, hr, he⟩ := List.mem_map.mp hmem
      have := (h.once.2 r hr).1
      omega
    · obtain ⟨h1, h2⟩ := h.own j u hu
      exact ⟨h1, fun n hn => ⟨Nat.lt_succ_of_lt (h2 n hn).1, (h2 n hn).2⟩⟩
  · intro j k u v hu hv hjk
    rcases hnew j u hu with ⟨rfl, rfl⟩ | ⟨-, hu'⟩ <;>
      rcases hnew k v hv with ⟨rfl, rfl⟩ | ⟨-, hv'⟩
    · exact absurd rfl hjk
    · rw [hcs]
      intro n hn hnv
      have := ((h.own k v hv').2 n hnv).1
      rw [List.mem_singleton.mp hn] at this
      exact absurd this (lt_irrefl _)
    · rw [hcs]
      intro n hnu hn
      have := ((h.own j u hu').2 n hnu).1
      rw [List.mem_singleton.mp hn] at this
      exact absurd this (lt_irrefl _)
    · exact h.apart j k u v hu' hv' hjk
  · intro j u c hu hc'
    rcases hnew j u hu with ⟨rfl, rfl⟩ | ⟨-, hu⟩
    · rw [← hchild] at hc'
      exact absurd hc' (by simp)
    · exact h.reaped j u c hu hc'
  · intro r hr
    obtain ⟨h1, h2⟩ := h.once.2 r hr
    exact ⟨Nat.lt_succ_of_lt h1, h2⟩

theorem Inv.sysFork (h : Inv s) (hc : s.task s.current = some cur) (ha : cur.Alive) {memory : Bool}
    (hs : sysFork s cur memory = some s') : Inv s' := by
  unfold ProcessTree.sysFork at hs
  obtain ⟨pid, hpid, rfl⟩ := Option.map_eq_some_iff.mp hs
  obtain ⟨hfree, hpos⟩ := findPid_free hpid h.last
  have h' : Inv { s with lastPid := pid } :=
    ⟨h.init, h.inside, h.unique, h.fathers, h.pids, le_of_lt hpos, h.dead, h.own, h.apart, h.reaped,
      h.once⟩
  dsimp only
  split
  · exact h'
  · next nr hnr =>
    obtain ⟨h1, hlt, hnone⟩ := findSlot_some hnr
    exact h'.copyProcess hc ha hfree hpos h1 hlt hnone memory

/-! ### Runs -/

theorem Inv.runCurrent (h : Inv s) (hc : s.task s.current = some cur) {a : Act}
    (hs : runCurrent s cur a = some s') : Inv s' := by
  have hlive : ∀ p, cur.place = p → p ≠ .dead → (∀ code, p ≠ .closing code) → cur.Alive := by
    rintro p rfl hd hcl
    exact ⟨fun hz => hd ((h.dead _ cur hc).mp hz), hd, hcl⟩
  unfold ProcessTree.runCurrent at hs
  split at hs
  · split at hs
    · next hp =>
      split at hs
      · obtain rfl := Option.some.inj hs
        exact h
      · obtain rfl := Option.some.inj hs
        exact h.modify _ _ fun u _ => ⟨rfl, rfl, rfl, rfl, Iff.rfl⟩
    · exact absurd hs (by simp)
  · split at hs
    · next hp => exact h.sysFork hc (hlive _ hp (by simp) (by simp)) hs
    · exact absurd hs (by simp)
  · split at hs
    · next hp =>
      split at hs
      · exact absurd hs (by simp)
      · next h1 =>
        obtain rfl := Option.some.inj hs
        exact h.enterExit hc hp h1 _
    · exact absurd hs (by simp)
  · split at hs
    · next hp =>
      exact h.sysWaitpid hc (hlive _ hp (by simp) (by simp)) (by rw [hp]; rfl) hs
    · exact absurd hs (by simp)
  · split at hs
    · exact absurd hs (by simp)
    · exact absurd hs (by simp)
    · next hnz hnd =>
      obtain rfl := Option.some.inj hs
      refine h.modify _ _ fun u hu => ⟨rfl, rfl, rfl, rfl, ?_⟩
      obtain rfl := Option.some.inj (hc.symm.trans hu)
      exact ⟨fun hz => absurd hz hnz, fun hz => absurd ((h.dead _ cur hc).mp hz) hnd⟩
  · split at hs
    · next hp => exact h.leaveExit hc hp hs
    · next hp =>
      have ha := hlive _ hp (by simp) (by simp)
      have h' : Inv (s.set s.current (some { cur with signal := cur.signal &&& ~~~sigchld })) :=
        h.replace hc rfl rfl (.inl rfl) (fun ha => .inl ha) (h.dead _ cur hc)
          (fun c hc' => h.reaped _ cur c hc hc')
      dsimp only at hs
      split at hs
      · exact h'.sysWaitpid (set_self ..) ha (by rw [hp]; rfl) hs
      · obtain rfl := Option.some.inj hs
        exact h'.move (set_self ..) (by rw [hp]; rfl) _ ⟨rfl, rfl, rfl, ha.1⟩ (.inl rfl)
    · next hp =>
      obtain rfl := Option.some.inj hs
      exact h.giveBack hc (hlive _ hp (by simp) (by simp)).1 hp
    · exact absurd hs (by simp)
  · exact absurd hs (by simp)

theorem Inv.step (h : Inv s) {a : Act} (hs : step s a = some s') : Inv s' := by
  unfold ProcessTree.step at hs
  split at hs
  · split at hs
    · split at hs
      · obtain rfl := Option.some.inj hs
        exact ⟨h.init, h.inside, h.unique, h.fathers, h.pids, h.last, h.dead, h.own, h.apart,
          h.reaped, h.once⟩
      · exact absurd hs (by simp)
    · exact absurd hs (by simp)
  · split at hs
    · next i _ t ht =>
      split at hs
      · next hst =>
        obtain rfl := Option.some.inj hs
        have hnz : t.state ≠ .zombie := by
          rcases hst with he | he <;> rw [he] <;> simp
        have hm := modify_some (fun t => { t with state := .running }) ht
        rw [← hm]
        refine h.modify i _ fun u hu => ⟨rfl, rfl, rfl, rfl, ?_⟩
        obtain rfl := Option.some.inj (ht.symm.trans hu)
        exact ⟨fun hz => absurd hz (by simp), fun hz => absurd hz hnz⟩
      · exact absurd hs (by simp)
    · exact absurd hs (by simp)
  · obtain rfl := Option.some.inj hs
    exact h.modify _ _ fun u _ => ⟨rfl, rfl, rfl, rfl, Iff.rfl⟩
  · split at hs
    · next cur hc =>
      split at hs
      · exact h.runCurrent hc hs
      · exact absurd hs (by simp)
    · exact absurd hs (by simp)

theorem boot_task {i : ℕ} {t : Task} (h : boot.task i = some t) :
    i = 0 ∧ t = ⟨0, -1, 0, 0, false, true, .running, 0, 0, 0, .user⟩ ∨
      i = 1 ∧ t = ⟨1, 0, 0, 0, false, true, .running, 0, 0, 1, .user⟩ := by
  change (if i = 0 then _ else if i = 1 then _ else none) = some t at h
  split_ifs at h with h0 h1
  · exact .inl ⟨h0, (Option.some.inj h).symm⟩
  · exact .inr ⟨h1, (Option.some.inj h).symm⟩

theorem boot_inv : Inv boot := by
  refine ⟨⟨_, rfl, rfl, by simp, by simp, by simp⟩, ?_, ?_, ?_, ?_, by decide, ?_, ?_, ?_, ?_, ?_⟩
  · intro i t h
    rcases boot_task h with ⟨rfl, -⟩ | ⟨rfl, -⟩ <;> decide
  · intro i j t u h h' hp
    rcases boot_task h with ⟨rfl, rfl⟩ | ⟨rfl, rfl⟩ <;>
      rcases boot_task h' with ⟨rfl, rfl⟩ | ⟨rfl, rfl⟩ <;> first | rfl | exact absurd hp (by decide)
  · intro i t hi h
    rcases boot_task h with ⟨rfl, -⟩ | ⟨rfl, -⟩ <;> omega
  · intro i t h
    rcases boot_task h with ⟨rfl, rfl⟩ | ⟨rfl, rfl⟩ <;> decide
  · intro i t h
    rcases boot_task h with ⟨rfl, rfl⟩ | ⟨rfl, rfl⟩ <;> simp
  · intro i t h
    rcases boot_task h with ⟨rfl, rfl⟩ | ⟨rfl, rfl⟩ <;> simp [Task.serials, Place.serials, boot]
  · intro i j t u h h' hij
    rcases boot_task h with ⟨rfl, rfl⟩ | ⟨rfl, rfl⟩ <;>
      rcases boot_task h' with ⟨rfl, rfl⟩ | ⟨rfl, rfl⟩ <;>
      first | exact absurd rfl hij | simp [Task.serials, Place.serials]
  · intro i t c h hc
    rcases boot_task h with ⟨rfl, rfl⟩ | ⟨rfl, rfl⟩ <;> exact absurd hc (by simp)
  · exact ⟨List.nodup_nil, fun r hr => absurd hr List.not_mem_nil⟩

theorem Reachable.inv (h : Reachable s) : Inv s := by
  induction h with
  | boot => exact boot_inv
  | step a _ hs ih => exact ih.step hs

/-! ### What follows -/

/-- The walk of `waitpid` for the number of a zombie comes to that zombie. -/
theorem Inv.scan_finds (h : Inv s) (ht : s.task i = some t) (h1 : 1 ≤ i) (hz : t.state = .zombie)
    (hf : t.father = cur.pid) (hi : i ≠ s.current) (options : ℕ) {n : ℕ} (hn : i ≤ n) (flag : Bool) :
    scan s cur t.pid options n flag = .zombie i t := by
  have hpos := (h.pids i t ht).2 h1
  have hsel : ∀ u, selected cur t.pid u = decide (u.pid = t.pid) := by
    intro u
    unfold selected
    rw [if_pos hpos]
  induction n generalizing flag with
  | zero => omega
  | succ n ih =>
    rcases Nat.eq_or_lt_of_le hn with rfl | hlt
    · simp only [scan, ht, hsel]
      rw [if_neg (by simp [hi, hf])]
      simp only [hz]
    · simp only [scan]
      split
      · exact ih (by omega) flag
      · next u hu =>
        have hne : u.pid ≠ t.pid := fun he => absurd (h.unique _ i u t hu ht he) (by omega)
        rw [if_pos (by simp [hsel, hne])]
        exact ih (by omega) flag

theorem Inv.findFather (h : Inv s) (h2 : 2 ≤ i) (ht : s.task i = some t) (h0 : t.father ≠ 0) :
    ∃ j u, findFather s.task t.father = some j ∧ s.task j = some u ∧ u.pid = t.father ∧
      u.state ≠ .zombie := by
  obtain ⟨k, v, hv, hvp, hva⟩ := h.fathers i t h2 ht
  unfold ProcessTree.findFather
  rw [if_pos h0]
  have hsome : (findTask s.task t.father).isSome := by
    unfold findTask
    rw [List.find?_isSome]
    exact ⟨k, List.mem_range.mpr (h.inside k v hv), by simp [hv, hvp]⟩
  obtain ⟨j, hj⟩ := Option.isSome_iff_exists.mp hsome
  have hany := List.find?_some hj
  obtain ⟨u, hu, hup⟩ : ∃ u, s.task j = some u ∧ u.pid = t.father := by
    cases hu : s.task j with
    | none => simp [hu] at hany
    | some u => exact ⟨u, rfl, by simpa [hu] using hany⟩
  obtain rfl := h.unique j k u v hu hv (by rw [hup, hvp])
  obtain rfl := Option.some.inj (hu.symm.trans hv)
  exact ⟨j, u, hj, hu, hup, hva.1⟩

/-- In every reachable state the father of a task in the slots from 2 on is there and no zombie;
    `tell_father` finds it unless it is task 0, every zombie is found by the `waitpid` of a living
    father, and no exited task is returned twice or to someone else. -/
theorem parenthood (h : Reachable s) :
    (∀ i t, 2 ≤ i → s.task i = some t →
      ∃ j u, s.task j = some u ∧ u.pid = t.father ∧ u.state ≠ .zombie) ∧
    (∀ i t, 2 ≤ i → s.task i = some t → t.father ≠ 0 →
      ∃ j u, findFather s.task t.father = some j ∧ s.task j = some u ∧ u.pid = t.father ∧
        u.state ≠ .zombie) ∧
    (∀ i t, 2 ≤ i → s.task i = some t → t.state = .zombie →
      ∃ j u, s.task j = some u ∧ u.pid = t.father ∧ u.Alive ∧
        ∀ options, scan { s with current := j } u t.pid options (NR_TASKS - 1) false = .zombie i t) ∧
    (s.returned.map fun r => r.2.serial).Nodup ∧ ∀ r ∈ s.returned, r.2.father = r.1 := by
  have hinv := h.inv
  refine ⟨?_, ?_, ?_, hinv.once.1, fun r hr => (hinv.once.2 r hr).2⟩
  · intro i t hi ht
    obtain ⟨j, u, hu, hup, hua⟩ := hinv.fathers i t hi ht
    exact ⟨j, u, hu, hup, hua.1⟩
  · intro i t hi ht h0
    exact hinv.findFather hi ht h0
  · intro i t hi ht hz
    obtain ⟨j, u, hu, hup, hua⟩ := hinv.fathers i t hi ht
    have hij : i ≠ j := by
      rintro rfl
      obtain rfl := Option.some.inj (ht.symm.trans hu)
      exact hua.1 hz
    refine ⟨j, u, hu, hup, hua, fun options => ?_⟩
    have h' : Inv { s with current := j } := ⟨hinv.init, hinv.inside, hinv.unique, hinv.fathers,
      hinv.pids, hinv.last, hinv.dead, hinv.own, hinv.apart, hinv.reaped, hinv.once⟩
    have hlt := hinv.inside i t ht
    exact h'.scan_finds ht (by omega) hz hup.symm hij options (by omega) false

theorem Reachable.acts (h : Reachable s) {l : List Act} (hl : l.foldlM ProcessTree.step s = some s') :
    Reachable s' := by
  induction l generalizing s with
  | nil =>
    obtain rfl := Option.some.inj hl
    exact h
  | cons a l ih =>
    obtain ⟨s₁, hs, hl⟩ := Option.bind_eq_some_iff.mp hl
    exact ih (.step a h hs) hl

theorem parenthood_waited : ∃ s, Reachable s ∧ (s.returned.map fun r => r.2.pid) = [2] ∧
    (s.returned.map fun r => r.2.serial).Nodup := by
  have hr : ([.fork true, .waitpid (-1) 0, .dispatch 2, .exit 0, .go, .rouse 1, .dispatch 1, .go,
    .go] : List Act).foldlM step boot = some _ := rfl
  have h := Reachable.boot.acts hr
  exact ⟨_, h, rfl, (parenthood h).2.2.2.1⟩

/-- A second child of task 0 is about to exit: its father is not looked for. -/
theorem father_not_found : ∃ s t, Reachable s ∧ s.current = 2 ∧ s.task 2 = some t ∧
    t.place = .closing 0 ∧ findFather s.task t.father = none := by
  have hr : ([.dispatch 0, .fork true, .dispatch 2, .exit 0] : List Act).foldlM step boot = some _ :=
    rfl
  exact ⟨_, _, Reachable.boot.acts hr, rfl, rfl, rfl, rfl⟩

end Linux011.ProcessTree
