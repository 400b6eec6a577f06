import Linux011.FileTables
import Linux011.Holders

set_option autoImplicit false

/-!
# Counts of files and references of inodes

Between any two steps of any tasks, `f_count` is the number of descriptors of a file, and each
reference to an inode that was given out is held by one entry in use, one link of a task, or one call
that is under way.
-/
namespace Linux011.FileTables
open Minix (File NR_OPEN NR_FILE Slot)
open Holders

variable {s s' : State} {p q : Task} {w u : Wait} {fd fd' : Fd} {f g : FileNr} {i j : Slot}

/-- The inode that a call holds where it sleeps. -/
def Wait.holds : Wait → Option Slot
  | .openTty _ _ i => some i
  | .checking _ _ _ _ i => some i
  | .closing i _ => i
  | .chPut _ i => some i
  | .putting i _ => some i
  | .execHeld _ i => some i
  | .execInterp i => some i
  | .execSwap i => some i
  | _ => Option.none

/-- The descriptors and entries that a call has taken and not yet filled. -/
def Wait.claims : Wait → List (Fd × FileNr)
  | .opening fd f _ => [(fd, f)]
  | .openTty fd f _ => [(fd, f)]
  | .checking fd f _ _ _ => [(fd, f)]
  | .piping fd₀ fd₁ f₀ f₁ => [(fd₀, f₀), (fd₁, f₁)]
  | _ => []

/-- How much of a task `do_exit` has put. -/
def Wait.left : Wait → (Fd → Prop) × (Link → Prop)
  | .closing _ (.exit rest) => (fun fd => fd ∉ rest, fun _ => False)
  | .exitPut .pwd => (fun _ => True, fun _ => False)
  | .exitPut .root => (fun _ => True, fun l => l = .pwd)
  | .exitPut .executable => (fun _ => True, fun l => l ≠ .executable)
  | _ => (fun _ => False, fun _ => False)

def State.claimed (s : State) (f : FileNr) : Prop := ∃ p fd, (fd, f) ∈ (s.wait p).claims

open Classical in
noncomputable def State.entry (s : State) (f : FileNr) : Option Slot :=
  if (s.file f).count = 0 ∨ s.claimed f then none else (s.file f).inode

/-- The counts are right at a point where each task sleeps or is in user mode. -/
structure Balanced (s : State) : Prop where
  counts : ∀ f, (s.file f).count = total s.filp f
  refs : ∀ i, s.refs i =
    holders s.entry i + total s.link i + holders (fun p => (s.wait p).holds) i
  claims : ∀ p fd f, (fd, f) ∈ (s.wait p).claims →
    s.filp p fd = some f ∧ (s.file f).count = 1 ∧ s.closeOnExec p fd = false
  apart : ∀ p, (s.wait p).claims.Nodup
  flags : ∀ p fd, s.closeOnExec p fd = true → s.filp p fd ≠ none
  opened : ∀ f, (s.file f).count ≠ 0 → ¬s.claimed f → (s.file f).inode ≠ none
  away : ∀ p, s.alive p = false ∨ s.zombie p = true →
    (∀ fd, s.filp p fd = none) ∧ (∀ l, s.link p l = none) ∧ s.wait p = .none
  left : ∀ p, (∀ fd, (s.wait p).left.1 fd → s.filp p fd = none) ∧
    ∀ l, (s.wait p).left.2 l → s.link p l = none

/-! ### Claims -/

theorem Balanced.claim_unique (h : Balanced s) (hp : (fd, f) ∈ (s.wait p).claims)
    (hq : s.filp q fd' = some f) : q = p ∧ fd' = fd := by
  obtain ⟨hfilp, hcount, -⟩ := h.claims p fd f hp
  have htotal := h.counts f
  rw [hcount] at htotal
  exact total_unique htotal.ge hq hfilp

def State.others (s : State) (p : Task) (f : FileNr) : Prop :=
  ∃ q fd, q ≠ p ∧ (fd, f) ∈ (s.wait q).claims

theorem claimed_setWait (s : State) (p : Task) (w : Wait) (f : FileNr) :
    (s.setWait p w).claimed f ↔ (∃ fd, (fd, f) ∈ w.claims) ∨ s.others p f := by
  constructor
  · rintro ⟨q, fd, hmem⟩
    by_cases hq : q = p
    · subst hq
      rw [State.setWait_self] at hmem
      exact .inl ⟨fd, hmem⟩
    · rw [State.setWait_ne s w hq] at hmem
      exact .inr ⟨q, fd, hq, hmem⟩
  · rintro (⟨fd, hmem⟩ | ⟨q, fd, hq, hmem⟩)
    · exact ⟨p, fd, (s.setWait_self p w).symm ▸ hmem⟩
    · exact ⟨q, fd, (s.setWait_ne w hq).symm ▸ hmem⟩

theorem holders_wait (h : ∀ q, q ≠ p → s'.wait q = s.wait q) (w u : Wait) (i : Slot) :
    holders (fun q => ((s'.setWait p u).wait q).holds) i + share w.holds i =
      holders (fun q => ((s.setWait p w).wait q).holds) i + share u.holds i := by
  have heq : ∀ (t : State) (v : Wait), (∀ q, q ≠ p → t.wait q = s.wait q) →
      (fun q => ((t.setWait p v).wait q).holds) =
        Function.update (fun q => (s.wait q).holds) p v.holds := fun t v ht => by
    funext q
    by_cases hq : q = p
    · subst hq
      rw [State.setWait_self, Function.update_self]
    · rw [State.setWait_ne t v hq, ht q hq, Function.update_of_ne hq]
  have hold := holders_update (fun q => (s.wait q).holds) p w.holds i
  have hnew := holders_update (fun q => (s.wait q).holds) p u.holds i
  rw [heq s w fun _ _ => rfl, heq s' u h]
  omega

/-- What a running task may have changed: its own, and entries that no other task has taken. -/
structure Own (s s' : State) (p : Task) : Prop where
  filp : ∀ q, q ≠ p → s'.filp q = s.filp q
  close : ∀ q, q ≠ p → s'.closeOnExec q = s.closeOnExec q
  link : ∀ q, q ≠ p → s'.link q = s.link q
  wait : ∀ q, q ≠ p → s'.wait q = s.wait q
  alive : s'.alive = s.alive
  zombie : s'.zombie = s.zombie
  file : ∀ f, s.others p f → (s'.file f).count = (s.file f).count

theorem total_row {α : Type} [Fintype α] {β : Type} [DecidableEq β] {r r' : Task → α → Option β}
    (h : ∀ q, q ≠ p → r' q = r q) (b : β) :
    total r' b + holders (r p) b = total r b + holders (r' p) b := by
  have heq : r' = Function.update r p (r' p) := by
    funext q
    by_cases hq : q = p
    · subst hq
      rw [Function.update_self]
    · rw [h q hq, Function.update_of_ne hq]
  rw [heq, Function.update_self]
  exact total_update r p (r' p) b

theorem Balanced.change (h : Balanced (s.setWait p w)) (hp : s.alive p = true ∧ s.zombie p = false)
    (ho : Own s s' p)
    (hcounts : ∀ f, (s'.file f).count + holders (s.filp p) f =
      (s.file f).count + holders (s'.filp p) f)
    (hrefs : ∀ i, s'.refs i + (holders (s.setWait p w).entry i + holders (s.link p) i +
        share w.holds i) =
      s.refs i + (holders (s'.setWait p u).entry i + holders (s'.link p) i + share u.holds i))
    (hclaims : ∀ fd f, (fd, f) ∈ u.claims →
      s'.filp p fd = some f ∧ (s'.file f).count = 1 ∧ s'.closeOnExec p fd = false)
    (hapart : u.claims.Nodup)
    (hflags : ∀ fd, s'.closeOnExec p fd = true → s'.filp p fd ≠ none)
    (hopened : ∀ f, (s'.file f).count ≠ 0 → ¬(s'.setWait p u).claimed f → (s'.file f).inode ≠ none)
    (hleft : (∀ fd, u.left.1 fd → s'.filp p fd = none) ∧
      ∀ l, u.left.2 l → s'.link p l = none) : Balanced (s'.setWait p u) := by
  refine ⟨fun f => ?_, fun i => ?_, fun q fd f hmem => ?_, fun q => ?_, fun q fd hq => ?_, hopened,
    fun q hq => ?_, fun q => ?_⟩
  · have hrow := total_row ho.filp f
    have hcount : (s.file f).count = total s.filp f := h.counts f
    have hnew := hcounts f
    change (s'.file f).count = total s'.filp f
    omega
  · have hlink := total_row ho.link i
    have hwait := holders_wait ho.wait w u i
    have hold : s.refs i = holders (s.setWait p w).entry i + total s.link i + _ := h.refs i
    have hnew := hrefs i
    change s'.refs i = holders (s'.setWait p u).entry i + total s'.link i + _
    omega
  · by_cases hqp : q = p
    · subst hqp
      rw [State.setWait_self] at hmem
      exact hclaims fd f hmem
    · rw [State.setWait_ne s' u hqp, ho.wait q hqp] at hmem
      have hold := h.claims q fd f (by rw [State.setWait_ne s w hqp]; exact hmem)
      change s'.filp q fd = some f ∧ (s'.file f).count = 1 ∧ s'.closeOnExec q fd = false
      rw [ho.filp q hqp, ho.close q hqp, ho.file f ⟨q, fd, hqp, hmem⟩]
      exact hold
  · by_cases hqp : q = p
    · subst hqp
      rw [State.setWait_self]
      exact hapart
    · rw [State.setWait_ne s' u hqp, ho.wait q hqp]
      have hold := h.apart q
      rw [State.setWait_ne s w hqp] at hold
      exact hold
  · change s'.filp q fd ≠ none
    change s'.closeOnExec q fd = true at hq
    by_cases hqp : q = p
    · subst hqp
      exact hflags fd hq
    · rw [ho.filp q hqp]
      rw [ho.close q hqp] at hq
      exact h.flags q fd hq
  · change s'.alive q = false ∨ s'.zombie q = true at hq
    rw [ho.alive, ho.zombie] at hq
    have hqp : q ≠ p := by
      rintro rfl
      rw [hp.1, hp.2] at hq
      simp at hq
    obtain ⟨hfilp, hlink, hwait⟩ := h.away q hq
    rw [State.setWait_ne s w hqp] at hwait
    refine ⟨fun fd => ?_, fun l => ?_, ?_⟩
    · change s'.filp q fd = none
      rw [ho.filp q hqp]
      exact hfilp fd
    · change s'.link q l = none
      rw [ho.link q hqp]
      exact hlink l
    · rw [State.setWait_ne s' u hqp, ho.wait q hqp]
      exact hwait
  · by_cases hqp : q = p
    · subst hqp
      rw [State.setWait_self]
      exact hleft
    · rw [State.setWait_ne s' u hqp, ho.wait q hqp]
      have hold := h.left q
      rw [State.setWait_ne s w hqp] at hold
      change (∀ fd, (s.wait q).left.1 fd → s'.filp q fd = none) ∧
        ∀ l, (s.wait q).left.2 l → s'.link q l = none
      rw [ho.filp q hqp, ho.link q hqp]
      exact hold

end Linux011.FileTables
