import Linux011.FileCounts

set_option autoImplicit false

/-!
# What keeps the counts right

A call takes a descriptor and an entry, gives them back, fills the entry, closes or duplicates a
descriptor, and changes a link.
-/
namespace Linux011.FileTables
open Minix (File NR_OPEN NR_FILE Slot)
open Holders

variable {s s' : State} {p q : Task} {w u : Wait} {d d' : Fd} {f g : FileNr} {i j : Slot}

def State.lives (s : State) (p : Task) : Prop := s.alive p = true ∧ s.zombie p = false

/-- What `do_exit` has put is gone. -/
def State.without (s : State) (p : Task) (w : Wait) : Prop :=
  (∀ d, w.left.1 d → s.filp p d = none) ∧ ∀ l, w.left.2 l → s.link p l = none

/-- A call other than `exit`. -/
def Wait.stays (w : Wait) : Prop := w.left = (fun _ => False, fun _ => False)

theorem Wait.stays.without (h : w.stays) (s : State) (p : Task) : s.without p w := by
  unfold State.without
  rw [h]
  exact ⟨fun _ hf => hf.elim, fun _ hf => hf.elim⟩

def State.setRefs (s : State) (r : Slot → ℕ) : State := { s with refs := r }

theorem State.setCount_count (s : State) (f g : FileNr) (n : ℕ) :
    ((s.setCount f n).file g).count = if g = f then n else (s.file g).count := by
  unfold State.setCount State.setFile
  by_cases hg : g = f
  · subst hg
    simp
  · simp [hg]

theorem State.setCount_inode (s : State) (f g : FileNr) (n : ℕ) :
    ((s.setCount f n).file g).inode = (s.file g).inode := by
  unfold State.setCount State.setFile
  by_cases hg : g = f
  · subst hg
    simp
  · simp [hg]

theorem State.setFile_self (s : State) (f : FileNr) (x : File) : (s.setFile f x).file f = x :=
  Function.update_self _ _ _

theorem State.setFile_ne (s : State) (x : File) (h : g ≠ f) : (s.setFile f x).file g = s.file g :=
  Function.update_of_ne h _ _

theorem State.setFilp_row (s : State) (p : Task) (d : Fd) (v : Option FileNr) :
    (s.setFilp p d v).filp p = Function.update (s.filp p) d v := by
  simp [State.setFilp]

theorem State.setLink_row (s : State) (p : Task) (l : Link) (v : Option Slot) :
    (s.setLink p l v).link p = Function.update (s.link p) l v := by
  simp [State.setLink]

/-! ### Entries -/

theorem entry_zero (h : (s.file f).count = 0) : s.entry f = none := if_pos (.inl h)

theorem entry_claimed (h : s.claimed f) : s.entry f = none := if_pos (.inr h)

theorem entry_open (h : (s.file f).count ≠ 0) (hc : ¬s.claimed f) : s.entry f = (s.file f).inode :=
  if_neg fun ho => ho.elim h hc

theorem others_congr (hw : ∀ q, q ≠ p → s'.wait q = s.wait q) : s'.others p f ↔ s.others p f := by
  constructor
  · rintro ⟨q, d, hq, hmem⟩
    exact ⟨q, d, hq, hw q hq ▸ hmem⟩
  · rintro ⟨q, d, hq, hmem⟩
    exact ⟨q, d, hq, (hw q hq).symm ▸ hmem⟩

theorem entry_congr (hw : ∀ q, q ≠ p → s'.wait q = s.wait q)
    (hzero : (s'.file f).count = 0 ↔ (s.file f).count = 0)
    (hinode : (s'.file f).inode = (s.file f).inode)
    (hclaims : (∃ d, (d, f) ∈ u.claims) ↔ ∃ d, (d, f) ∈ w.claims) :
    (s'.setWait p u).entry f = (s.setWait p w).entry f := by
  have hclaimed : (s'.setWait p u).claimed f ↔ (s.setWait p w).claimed f := by
    rw [claimed_setWait, claimed_setWait, others_congr hw, hclaims]
  by_cases hz : (s.file f).count = 0
  · rw [entry_zero (s := s'.setWait p u) (hzero.2 hz), entry_zero (s := s.setWait p w) hz]
  by_cases hcl : (s.setWait p w).claimed f
  · rw [entry_claimed (hclaimed.2 hcl), entry_claimed hcl]
  · rw [entry_open (s := s'.setWait p u) (mt hzero.1 hz) (mt hclaimed.1 hcl),
      entry_open (s := s.setWait p w) hz hcl]
    exact hinode

/-- A file that is open at a descriptor of the running task is not half open elsewhere. -/
theorem Balanced.not_others_slot (h : Balanced (s.setWait p w)) (hf : s.filp p d = some f) :
    ¬s.others p f := by
  rintro ⟨q, d', hq, hmem⟩
  have hmem' : (d', f) ∈ ((s.setWait p w).wait q).claims := by
    rw [State.setWait_ne s w hq]
    exact hmem
  exact hq (h.claim_unique hmem' hf).1.symm

theorem Balanced.not_others_zero (h : Balanced (s.setWait p w)) (hf : (s.file f).count = 0) :
    ¬s.others p f := by
  rintro ⟨q, d, hq, hmem⟩
  have hmem' : (d, f) ∈ ((s.setWait p w).wait q).claims := by
    rw [State.setWait_ne s w hq]
    exact hmem
  have hcount : (s.file f).count = 1 := (h.claims q d f hmem').2.1
  omega

theorem Balanced.own_claims (h : Balanced (s.setWait p w)) (hmem : (d, f) ∈ w.claims) :
    s.filp p d = some f ∧ (s.file f).count = 1 ∧ s.closeOnExec p d = false :=
  h.claims p d f ((s.setWait_self p w).symm ▸ hmem)

/-- Two claims of a call are of different descriptors and of different files. -/
theorem Balanced.claims_ne (h : Balanced (s.setWait p w)) {rest : List (Fd × FileNr)}
    (hw : w.claims.Perm ((d, f) :: rest)) (hmem : (d', g) ∈ rest) : d' ≠ d ∧ g ≠ f := by
  have hnodup : ((d, f) :: rest).Nodup := by
    have hap := h.apart p
    rw [State.setWait_self] at hap
    exact hw.nodup_iff.1 hap
  have hnot : (d, f) ∉ rest := (List.nodup_cons.1 hnodup).1
  have hfirst := h.own_claims (hw.mem_iff.2 (List.mem_cons_self ..))
  have hsecond := h.own_claims (hw.mem_iff.2 (List.mem_cons_of_mem _ hmem))
  constructor
  · rintro rfl
    rw [hfirst.1] at hsecond
    cases hsecond.1
    exact hnot hmem
  · rintro rfl
    have hself : (d, g) ∈ ((s.setWait p w).wait p).claims := by
      rw [State.setWait_self]
      exact hw.mem_iff.2 (List.mem_cons_self ..)
    obtain ⟨-, rfl⟩ := h.claim_unique hself hsecond.1
    exact hnot hmem

theorem Balanced.flag_clear (h : Balanced (s.setWait p w)) (hfd : s.filp p d = none) :
    s.closeOnExec p d = false := by
  cases hc : s.closeOnExec p d with
  | false => rfl
  | true => exact absurd hfd (h.flags p d hc)

/-- What a call holds is counted. -/
theorem held_count (s : State) (p : Task) (w : Wait) (i : Slot) :
    share w.holds i ≤ holders (fun q => ((s.setWait p w).wait q).holds) i := by
  have hmove : holders (fun q => ((s.setWait p .none).wait q).holds) i + share w.holds i =
      holders (fun q => ((s.setWait p w).wait q).holds) i + share none i :=
    holders_wait (fun _ _ => rfl) w .none i
  rw [share_none] at hmove
  omega

theorem Balanced.held_le (h : Balanced (s.setWait p w)) (i : Slot) : share w.holds i ≤ s.refs i := by
  have hrefs : s.refs i = _ + _ + holders (fun q => ((s.setWait p w).wait q).holds) i := h.refs i
  have hheld := held_count s p w i
  omega

theorem Balanced.link_le (h : Balanced (s.setWait p w)) (l : Link) (i : Slot) :
    share (s.link p l) i + share w.holds i ≤ s.refs i := by
  have hrefs : s.refs i = _ + total s.link i +
    holders (fun q => ((s.setWait p w).wait q).holds) i := h.refs i
  have hheld := held_count s p w i
  have hrow := holders_le_total s.link p i
  have hlink := holders_update (s.link p) l none i
  have hzero : share (none : Option Slot) i = 0 := share_none i
  omega

/-- An entry that is filled holds its inode. -/
theorem entry_filled {v : Option FileNr} {x : File} {r : Slot → ℕ} (hx : x.count ≠ 0)
    (hu : ∀ d, (d, f) ∉ u.claims) (ho : ¬s.others p f) :
    ((((s.setFilp p d v).setFile f x).setRefs r).setWait p u).entry f = x.inode := by
  have hself := (s.setFilp p d v).setFile_self f x
  rw [entry_open]
  · change (((s.setFilp p d v).setFile f x).file f).inode = x.inode
    rw [hself]
  · change (((s.setFilp p d v).setFile f x).file f).count ≠ 0
    rw [hself]
    exact hx
  · rw [claimed_setWait]
    rintro (⟨d, hmem⟩ | ho')
    · exact hu d hmem
    · exact ho ho'

/-- An entry that the running task has open. -/
theorem Balanced.slot_open (h : Balanced (s.setWait p w)) (hf : s.filp p d = some f) (hw : w.claims = []) :
    (s.file f).count ≠ 0 ∧ ¬(s.setWait p w).claimed f := by
  constructor
  · intro hzero
    have htotal := h.counts f
    change (s.file f).count = total s.filp f at htotal
    rw [hzero] at htotal
    exact total_zero.1 htotal.symm p d hf
  · rw [claimed_setWait, hw]
    rintro (⟨d', hmem⟩ | ho)
    · cases hmem
    · exact h.not_others_slot hf ho

/-! ### Moves -/

section
variable (h : Balanced (s.setWait p w)) (hp : s.lives p)
include h hp

/-- References go from the call to where it sleeps next. -/
theorem Balanced.recall {r : Slot → ℕ} (hclaims : u.claims = w.claims)
    (hr : ∀ i, r i + share w.holds i = s.refs i + share u.holds i) (hleft : s.without p u) :
    Balanced ((s.setRefs r).setWait p u) := by
  have hentry : ∀ f, ((s.setRefs r).setWait p u).entry f = (s.setWait p w).entry f :=
    fun f => entry_congr (fun _ _ => rfl) .rfl rfl (by rw [hclaims])
  apply h.change hp
  · exact ⟨fun _ _ => rfl, fun _ _ => rfl, fun _ _ => rfl, fun _ _ => rfl, rfl, rfl, fun _ _ => rfl⟩
  · exact fun _ => rfl
  · intro i
    have hsame := holders_congr hentry i
    have hmove := hr i
    change r i + _ = s.refs i + (_ + holders (s.link p) i + _)
    omega
  · rw [hclaims]
    exact fun d f hmem => h.own_claims hmem
  · have hap := h.apart p
    rw [State.setWait_self] at hap
    exact hclaims ▸ hap
  · exact fun d hfd => h.flags p d hfd
  · intro f hf hnot
    refine h.opened f hf fun hcl => hnot ?_
    rw [claimed_setWait, hclaims]
    exact (claimed_setWait s p w f).1 hcl
  · exact hleft

/-- One descriptor and one entry change, which no other task has taken. -/
theorem Balanced.move {v : Option FileNr} {x : File} {r : Slot → ℕ} {e : Option Slot}
    (ho : ¬s.others p f) (hslot : ∀ g, g ≠ f → share (s.filp p d) g = share v g)
    (hcount : x.count + share (s.filp p d) f = (s.file f).count + share v f)
    (he : ((((s.setFilp p d v).setFile f x).setRefs r).setWait p u).entry f = e)
    (hr : ∀ i, r i + (share ((s.setWait p w).entry f) i + share w.holds i) =
      s.refs i + (share e i + share u.holds i))
    (hclaims : ∀ d' g, g ≠ f → ((d', g) ∈ u.claims ↔ (d', g) ∈ w.claims))
    (hown : ∀ d', (d', f) ∈ u.claims → d' = d ∧ v = some f ∧ x.count = 1 ∧ s.closeOnExec p d = false)
    (hkeep : ∀ g, g ≠ f → (d, g) ∉ u.claims) (hapart : u.claims.Nodup)
    (hflag : v = none → s.closeOnExec p d = false)
    (hinode : x.count ≠ 0 → (∀ d', (d', f) ∉ u.claims) → x.inode ≠ none)
    (hleft : (s.setFilp p d v).without p u) :
    Balanced ((((s.setFilp p d v).setFile f x).setRefs r).setWait p u) := by
  have hself : ((s.setFilp p d v).setFile f x).file f = x := State.setFile_self _ f x
  have hne : ∀ g, g ≠ f → ((s.setFilp p d v).setFile f x).file g = s.file g := fun g hg =>
    State.setFile_ne _ x hg
  have hrow : ((s.setFilp p d v).setFile f x).filp p = Function.update (s.filp p) d v :=
    s.setFilp_row p d v
  have hentry : ∀ g, g ≠ f →
      ((((s.setFilp p d v).setFile f x).setRefs r).setWait p u).entry g =
        (s.setWait p w).entry g := fun g hg => by
    apply entry_congr
    · exact fun _ _ => rfl
    · change (((s.setFilp p d v).setFile f x).file g).count = 0 ↔ _
      rw [hne g hg]
    · change (((s.setFilp p d v).setFile f x).file g).inode = _
      rw [hne g hg]
    · simp only [hclaims _ g hg]
  apply h.change hp
  · refine ⟨fun q hq => Function.update_of_ne hq _ _, fun _ _ => rfl, fun _ _ => rfl, fun _ _ => rfl,
      rfl, rfl, fun g hg => ?_⟩
    have hgf : g ≠ f := by
      rintro rfl
      exact ho hg
    exact congrArg File.count (hne g hgf)
  · intro g
    have hmove := holders_update (s.filp p) d v g
    change (((s.setFilp p d v).setFile f x).file g).count + _ =
      _ + holders (((s.setFilp p d v).setFile f x).filp p) g
    rw [hrow]
    by_cases hg : g = f
    · subst hg
      rw [hself]
      omega
    · have hshare := hslot g hg
      rw [hne g hg]
      omega
  · intro i
    have hmove := holders_at hentry i
    have hrefs := hr i
    rw [he] at hmove
    change r i + (_ + holders (s.link p) i + _) = s.refs i + (_ + holders (s.link p) i + _)
    omega
  · intro d' g hmem
    change ((s.setFilp p d v).setFile f x).filp p d' = some g ∧
      (((s.setFilp p d v).setFile f x).file g).count = 1 ∧ s.closeOnExec p d' = false
    rw [hrow]
    by_cases hg : g = f
    · subst hg
      obtain ⟨rfl, hclaim⟩ := hown d' hmem
      rw [Function.update_self, hself]
      exact hclaim
    · have hfd : d' ≠ d := by
        rintro rfl
        exact hkeep g hg hmem
      rw [Function.update_of_ne hfd, hne g hg]
      exact h.own_claims ((hclaims d' g hg).1 hmem)
  · exact hapart
  · intro d' hc
    change ((s.setFilp p d v).setFile f x).filp p d' ≠ none
    rw [hrow]
    by_cases hfd : d' = d
    · subst hfd
      rw [Function.update_self]
      intro hv
      exact Bool.false_ne_true ((hflag hv).symm.trans hc)
    · rw [Function.update_of_ne hfd]
      exact h.flags p d' hc
  · intro g hg hnot
    change (((s.setFilp p d v).setFile f x).file g).count ≠ 0 at hg
    change (((s.setFilp p d v).setFile f x).file g).inode ≠ none
    rw [claimed_setWait] at hnot
    by_cases hgf : g = f
    · subst hgf
      rw [hself] at hg ⊢
      exact hinode hg fun d' hmem => hnot (.inl ⟨d', hmem⟩)
    · rw [hne g hgf] at hg ⊢
      refine h.opened g hg fun hcl => hnot ?_
      simp only [hclaims _ g hgf]
      exact (claimed_setWait s p w g).1 hcl
  · exact hleft

/-- A descriptor and an entry are taken. -/
theorem Balanced.claim (hfd : s.filp p d = none) (hf : (s.file f).count = 0)
    (hclaims : u.claims.Perm ((d, f) :: w.claims)) (hholds : u.holds = w.holds) (hw : u.stays) :
    Balanced (((s.setFilp p d (some f)).setCount f 1).setWait p u) := by
  have hold : ∀ d' g, (d', g) ∈ w.claims → d' ≠ d ∧ g ≠ f := fun d' g hmem => by
    obtain ⟨hfilp, hcount, -⟩ := h.own_claims hmem
    constructor
    · rintro rfl
      rw [hfd] at hfilp
      cases hfilp
    · rintro rfl
      omega
  have hmem : (d, f) ∈ u.claims := hclaims.mem_iff.2 (List.mem_cons_self ..)
  have hcases : ∀ d' g, (d', g) ∈ u.claims ↔ (d' = d ∧ g = f) ∨ (d', g) ∈ w.claims := fun d' g => by
    rw [hclaims.mem_iff, List.mem_cons, Prod.mk.injEq]
  have hap := h.apart p
  rw [State.setWait_self] at hap
  refine h.move hp (f := f) (x := { s.file f with count := 1 }) (r := s.refs) (e := none)
    (h.not_others_zero hf) (fun g hg => ?_) ?_ ?_ (fun i => ?_) (fun d' g hg => ?_) (fun d' hfd' => ?_)
    (fun g hg hg' => ?_) ?_ (fun hv => nomatch hv) (fun _ hnot => absurd hmem (hnot d)) (hw.without _ p)
  · rw [hfd, share_none, share_ne (Ne.symm hg)]
  · rw [hfd, share_none, share_self, hf]
  · exact entry_claimed ((claimed_setWait _ p u f).2 (.inl ⟨d, hmem⟩))
  · rw [entry_zero (s := s.setWait p w) hf, hholds]
  · rw [hcases]
    simp [hg]
  · rcases (hcases d' f).1 hfd' with heq | hfd'
    · exact ⟨heq.1, rfl, rfl, h.flag_clear hfd⟩
    · exact absurd rfl (hold d' f hfd').2
  · rcases (hcases d g).1 hg' with heq | hg'
    · exact hg heq.2
    · exact (hold d g hg').1 rfl
  · exact hclaims.nodup_iff.2 (List.nodup_cons.2 ⟨fun hm => (hold d f hm).1 rfl, hap⟩)

/-- They are given back. -/
theorem Balanced.unclaim (hclaims : w.claims.Perm ((d, f) :: u.claims)) (hholds : u.holds = w.holds)
    (hw : u.stays) : Balanced (((s.setFilp p d none).setCount f 0).setWait p u) := by
  have hmem : (d, f) ∈ w.claims := hclaims.mem_iff.2 (List.mem_cons_self ..)
  obtain ⟨hfilp, hcount, hclose⟩ := h.own_claims hmem
  have hap := h.apart p
  rw [State.setWait_self] at hap
  refine h.move hp (f := f) (x := { s.file f with count := 0 }) (r := s.refs) (e := none)
    (h.not_others_slot hfilp) (fun g hg => ?_) ?_ ?_ (fun i => ?_) (fun d' g hg => ?_) (fun d' hfd' => ?_)
    (fun g hg hg' => (h.claims_ne hclaims hg').1 rfl) (List.nodup_cons.1 (hclaims.nodup_iff.1 hap)).2
    (fun _ => hclose) (fun hx => absurd rfl hx) (hw.without _ p)
  · rw [hfilp, share_none, share_ne (Ne.symm hg)]
  · rw [hfilp, share_none, share_self, hcount]
  · refine entry_zero ?_
    change (((s.setFilp p d none).setFile f { s.file f with count := 0 }).file f).count = 0
    rw [State.setFile_self]
  · rw [entry_claimed ((claimed_setWait s p w f).2 (.inl ⟨d, hmem⟩)), hholds]
  · rw [hclaims.mem_iff, List.mem_cons, Prod.mk.injEq]
    simp [hg]
  · exact absurd rfl (h.claims_ne hclaims hfd').2

/-- The entry is filled. -/
theorem Balanced.settle {x : File} {r : Slot → ℕ} (hclaims : w.claims.Perm ((d, f) :: u.claims))
    (hx : x.count = 1) (hi : x.inode = some i)
    (hr : ∀ j, r j + share w.holds j = s.refs j + (share (some i) j + share u.holds j)) (hw : u.stays) :
    Balanced (((s.setFile f x).setRefs r).setWait p u) := by
  have hmem : (d, f) ∈ w.claims := hclaims.mem_iff.2 (List.mem_cons_self ..)
  obtain ⟨hfilp, hcount, -⟩ := h.own_claims hmem
  have hap := h.apart p
  rw [State.setWait_self] at hap
  have hsame : s.setFile f x = (s.setFilp p d (some f)).setFile f x := by
    unfold State.setFilp
    rw [← hfilp, Function.update_eq_self, Function.update_eq_self]
  have hnot : ∀ d', (d', f) ∉ u.claims := fun d' hfd' => (h.claims_ne hclaims hfd').2 rfl
  rw [hsame]
  refine h.move hp (f := f) (x := x) (r := r) (e := some i) (h.not_others_slot hfilp) (fun g hg => ?_) ?_ ?_
    (fun j => ?_) (fun d' g hg => ?_) (fun d' hfd' => absurd hfd' (hnot d'))
    (fun g hg hg' => (h.claims_ne hclaims hg').1 rfl) (List.nodup_cons.1 (hclaims.nodup_iff.1 hap)).2
    (fun hv => nomatch hv) (fun _ _ hno => ?_) (hw.without _ p)
  · rw [hfilp]
  · rw [hfilp, hx, hcount]
  · have hx0 : x.count ≠ 0 := by omega
    rw [entry_filled hx0 hnot (h.not_others_slot hfilp), hi]
  · rw [entry_claimed ((claimed_setWait s p w f).2 (.inl ⟨d, hmem⟩)), share_none]
    have hrefs := hr j
    omega
  · rw [hclaims.mem_iff, List.mem_cons, Prod.mk.injEq]
    simp [hg]
  · rw [hi] at hno
    cases hno

/-- A descriptor is closed; the last one leaves the inode to the call. -/
theorem Balanced.drop {n : ℕ} (hf : s.filp p d = some f) (hclose : s.closeOnExec p d = false)
    (hn : n + 1 = (s.file f).count) (hw : w.claims = []) (hholds : w.holds = none) (hw' : u.claims = [])
    (hholds' : u.holds = if n = 0 then (s.file f).inode else none)
    (hleft : (s.setFilp p d none).without p u) :
    Balanced (((s.setFilp p d none).setCount f n).setWait p u) := by
  have hopen := h.slot_open hf hw
  refine h.move hp (f := f) (x := { s.file f with count := n }) (r := s.refs)
    (e := if n = 0 then none else (s.file f).inode) (h.not_others_slot hf) (fun g hg => ?_) ?_ ?_ (fun i => ?_)
    (fun d' g hg => by rw [hw, hw']) (fun d' hfd' => ?_) (fun g hg hg' => ?_) ?_ (fun _ => hclose)
    (fun hx _ => ?_) hleft
  · rw [hf, share_none, share_ne (Ne.symm hg)]
  · rw [hf, share_none, share_self]
    exact hn
  · by_cases hz : n = 0
    · rw [if_pos hz]
      refine entry_zero ?_
      change (((s.setFilp p d none).setFile f { s.file f with count := n }).file f).count = 0
      rw [State.setFile_self]
      exact hz
    · rw [if_neg hz]
      exact entry_filled hz (by simp [hw']) (h.not_others_slot hf)
  · rw [entry_open (s := s.setWait p w) hopen.1 hopen.2, hholds, hholds', share_none]
    change s.refs i + (share (s.file f).inode i + 0) = _
    split_ifs with hz
    · rw [share_none]
      omega
    · rw [share_none]
  · rw [hw'] at hfd'
    cases hfd'
  · rw [hw'] at hg'
    cases hg'
  · rw [hw']
    exact List.nodup_nil
  · exact h.opened f hopen.1 hopen.2

/-- A descriptor is another one's file. -/
theorem Balanced.dup (hf : s.filp p d = some f) (hfd : s.filp p d' = none) (hw : w.claims = [])
    (hw' : u.claims = []) (hholds : u.holds = w.holds) (hleft : u.stays) :
    Balanced (((s.setFilp p d' (some f)).setCount f ((s.file f).count + 1)).setWait p u) := by
  have hopen := h.slot_open hf hw
  refine h.move hp (f := f) (x := { s.file f with count := (s.file f).count + 1 }) (r := s.refs)
    (e := (s.file f).inode) (h.not_others_slot hf) (fun g hg => ?_) ?_ ?_ (fun i => ?_)
    (fun _ g hg => by rw [hw, hw']) (fun _ hmem => ?_) (fun g hg hg' => ?_) ?_ (fun hv => nomatch hv)
    (fun hx _ => ?_) (hleft.without _ p)
  · rw [hfd, share_none, share_ne (Ne.symm hg)]
  · rw [hfd, share_none, share_self]
  · exact entry_filled (Nat.succ_ne_zero _) (by simp [hw']) (h.not_others_slot hf)
  · rw [entry_open (s := s.setWait p w) hopen.1 hopen.2, hholds]
    rfl
  · rw [hw'] at hmem
    cases hmem
  · rw [hw'] at hg'
    cases hg'
  · rw [hw']
    exact List.nodup_nil
  · exact h.opened f hopen.1 hopen.2

/-- Only an entry's flags and position change. -/
theorem Balanced.setFile {x : File} (hx : x.count = (s.file f).count) (hi : x.inode = (s.file f).inode) :
    Balanced ((s.setFile f x).setWait p w) := by
  have hsame : ∀ g, ((s.setFile f x).file g).count = (s.file g).count ∧
      ((s.setFile f x).file g).inode = (s.file g).inode := fun g => by
    by_cases hg : g = f
    · subst hg
      rw [State.setFile_self]
      exact ⟨hx, hi⟩
    · rw [State.setFile_ne s x hg]
      exact ⟨rfl, rfl⟩
  have hentry : ∀ g, ((s.setFile f x).setWait p w).entry g = (s.setWait p w).entry g := fun g =>
    entry_congr (fun _ _ => rfl) (by rw [(hsame g).1]) (hsame g).2 .rfl
  have hap := h.apart p
  have hleft := h.left p
  rw [State.setWait_self] at hap hleft
  apply h.change hp
  · exact ⟨fun _ _ => rfl, fun _ _ => rfl, fun _ _ => rfl, fun _ _ => rfl, rfl, rfl,
      fun g _ => (hsame g).1⟩
  · intro g
    rw [(hsame g).1]
    rfl
  · intro i
    rw [holders_congr hentry]
    rfl
  · intro d g hmem
    rw [(hsame g).1]
    exact h.own_claims hmem
  · exact hap
  · exact fun d hfd => h.flags p d hfd
  · intro g hg hnot
    rw [(hsame g).1] at hg
    rw [(hsame g).2]
    exact h.opened g hg hnot
  · exact hleft

theorem Balanced.setClose {v : Bool} (hv : v = true → s.filp p d ≠ none) (hw : w.claims = []) :
    Balanced ((s.setClose p d v).setWait p w) := by
  have hleft := h.left p
  rw [State.setWait_self] at hleft
  apply h.change hp
  · exact ⟨fun _ _ => rfl, fun q hq => Function.update_of_ne hq _ _, fun _ _ => rfl, fun _ _ => rfl,
      rfl, rfl, fun _ _ => rfl⟩
  · exact fun _ => rfl
  · exact fun _ => rfl
  · intro d' g hmem
    rw [hw] at hmem
    cases hmem
  · rw [hw]
    exact List.nodup_nil
  · intro d' hc
    by_cases hfd : d' = d
    · subst hfd
      simp only [State.setClose, Function.update_self] at hc
      exact hv hc
    · simp only [State.setClose, Function.update_self, Function.update_of_ne hfd] at hc
      exact h.flags p d' hc
  · exact h.opened
  · exact hleft

/-- A link is another inode. -/
theorem Balanced.relink {l : Link} {v : Option Slot} {r : Slot → ℕ} (hw : w.claims = []) (hw' : u.claims = [])
    (hr : ∀ i, r i + (share (s.link p l) i + share w.holds i) = s.refs i + (share v i + share u.holds i))
    (hleft : (s.setLink p l v).without p u) :
    Balanced (((s.setLink p l v).setRefs r).setWait p u) := by
  have hentry : ∀ f, (((s.setLink p l v).setRefs r).setWait p u).entry f = (s.setWait p w).entry f :=
    fun f => entry_congr (fun _ _ => rfl) .rfl rfl (by rw [hw, hw'])
  apply h.change hp
  · exact ⟨fun _ _ => rfl, fun _ _ => rfl, fun q hq => Function.update_of_ne hq _ _, fun _ _ => rfl,
      rfl, rfl, fun _ _ => rfl⟩
  · exact fun _ => rfl
  · intro i
    have hmove := holders_update (s.link p) l v i
    have hrefs := hr i
    rw [holders_congr hentry, show ((s.setLink p l v).setRefs r).link p = _ from s.setLink_row p l v]
    change r i + _ = _
    omega
  · intro d' g hmem
    rw [hw'] at hmem
    cases hmem
  · rw [hw']
    exact List.nodup_nil
  · exact fun d hfd => h.flags p d hfd
  · intro f hf hnot
    refine h.opened f hf fun hcl => hnot ?_
    rw [claimed_setWait, hw']
    rw [claimed_setWait, hw] at hcl
    exact hcl
  · exact hleft

omit hp in
theorem Balanced.setTty (tty : Task → ℤ) (leader : Task → Bool) :
    Balanced ({ s with tty := tty, leader := leader }.setWait p w) :=
  ⟨h.counts, h.refs, h.claims, h.apart, h.flags, h.opened, h.away, h.left⟩

end

/-! ### A child, and the end of a task -/

/-- `do_exit` is done. -/
theorem Balanced.gone (h : Balanced (s.setWait p .none)) (hf : ∀ d, s.filp p d = none)
    (hl : ∀ l, s.link p l = none) :
    Balanced ({ s with zombie := Function.update s.zombie p true }.setWait p .none) := by
  refine ⟨h.counts, h.refs, h.claims, h.apart, h.flags, h.opened, fun q hq => ?_, h.left⟩
  by_cases hqp : q = p
  · subst hqp
    exact ⟨hf, hl, State.setWait_self _ q .none⟩
  · refine h.away q (hq.imp id fun hz => ?_)
    change Function.update s.zombie p true q = true at hz
    rw [Function.update_of_ne hqp] at hz
    exact hz

theorem Balanced.release (h : Balanced s) (hp : s.zombie p = true) :
    Balanced { s with
      alive := Function.update s.alive p false, zombie := Function.update s.zombie p false } := by
  refine ⟨h.counts, h.refs, h.claims, h.apart, h.flags, h.opened, fun q hq => ?_, h.left⟩
  by_cases hqp : q = p
  · subst hqp
    exact h.away q (.inr hp)
  · refine h.away q ?_
    change Function.update s.alive p false q = false ∨ Function.update s.zombie p false q = true at hq
    rw [Function.update_of_ne hqp, Function.update_of_ne hqp] at hq
    exact hq

theorem holders_link (row : Link → Option Slot) (i : Slot) :
    holders row i = share (row .pwd) i + share (row .root) i + share (row .executable) i := by
  have huniv : (Finset.univ : Finset Link) = {.pwd, .root, .executable} := rfl
  unfold holders FiniteCount.tally share
  rw [Finset.card_filter, huniv, Finset.sum_insert (by decide), Finset.sum_insert (by decide),
    Finset.sum_singleton, Nat.add_assoc]

theorem State.share_eq (s : State) (v : Option Slot) :
    s.share v = s.setRefs fun i => s.refs i + Holders.share v i := by
  cases v with
  | none => rfl
  | some j =>
    have hrefs : Function.update s.refs j (s.refs j + 1) = fun i => s.refs i + Holders.share (some j) i := by
      funext i
      by_cases hi : i = j
      · subst hi
        rw [Function.update_self, share_self]
      · rw [Function.update_of_ne hi, share_ne (Ne.symm hi)]
        rfl
    change s.setRefs (Function.update s.refs j (s.refs j + 1)) = _
    rw [hrefs]

/-- The counts of a child's files. -/
theorem countRow_file (row : Fd → Option FileNr) (l : List Fd) (file : FileNr → File) (f : FileNr)
    (h : (file f).count + l.countP (fun d => row d = some f) < 65536) :
    (countRow row l file f).count = (file f).count + l.countP (fun d => row d = some f) ∧
      (countRow row l file f).inode = (file f).inode := by
  induction l generalizing file with
  | nil => exact ⟨rfl, rfl⟩
  | cons d rest ih =>
    rw [List.countP_cons] at h ⊢
    unfold countRow
    cases hrow : row d with
    | none =>
      simp only [hrow] at h ⊢
      simpa using ih file (by simpa using h)
    | some g =>
      simp only [hrow] at h ⊢
      by_cases hg : g = f
      · subst hg
        have hih := ih (Function.update file g { file g with count := ((file g).count + 1) % 65536 })
        simp only [Function.update_self] at hih
        simp only [decide_true, if_true] at h ⊢
        rw [Nat.mod_eq_of_lt (by omega)] at hih ⊢
        obtain ⟨hcount, hinode⟩ := hih (by omega)
        exact ⟨by omega, hinode⟩
      · have hih := ih (Function.update file g { file g with count := ((file g).count + 1) % 65536 })
        rw [Function.update_of_ne (Ne.symm hg)] at hih
        have hsome : ¬some g = some f := fun he => hg (Option.some.inj he)
        simp only [hsome, decide_false, Bool.false_eq_true, if_false, Nat.add_zero] at h ⊢
        exact hih h

theorem holders_row (row : Fd → Option FileNr) (f : FileNr) :
    (List.finRange NR_OPEN).countP (fun d => row d = some f) = holders row f := by
  rw [List.countP_eq_length_filter]
  rfl

theorem holders_le (row : Fd → Option FileNr) (f : FileNr) : holders row f ≤ 20 := by
  rw [← holders_row]
  exact (List.countP_le_length).trans (List.length_finRange).le

theorem total_le (r : Task → Fd → Option FileNr) (f : FileNr) : total r f ≤ 1280 := by
  unfold total
  calc ∑ p, holders (r p) f ≤ ∑ _p : Task, 20 := Finset.sum_le_sum fun p _ => holders_le (r p) f
    _ = 1280 := by rw [Finset.sum_const, Finset.card_univ, Fintype.card_fin, smul_eq_mul]; rfl

/-- What the child `c` of `p` has. -/
structure Copied (s s' : State) (p c : Task) : Prop where
  file : ∀ f, (s'.file f).count = (countRow (s.filp p) (List.finRange NR_OPEN) s.file f).count ∧
    (s'.file f).inode = (countRow (s.filp p) (List.finRange NR_OPEN) s.file f).inode
  filp : s'.filp = Function.update s.filp c (s.filp p)
  close : s'.closeOnExec = Function.update s.closeOnExec c (s.closeOnExec p)
  link : s'.link = Function.update s.link c (s.link p)
  alive : s'.alive = Function.update s.alive c true
  zombie : s'.zombie = Function.update s.zombie c false
  wait : s'.wait = s.wait
  refs : ∀ i, s'.refs i = s.refs i + holders (s.link p) i

theorem copyProcess_copied (s : State) (p c : Task) : Copied s (copyProcess p c s) p c := by
  have hlink : Function.update s.link c (s.link p) p = s.link p := by
    by_cases hpc : p = c
    · rw [hpc, Function.update_self]
    · rw [Function.update_of_ne hpc]
  unfold copyProcess
  simp only [State.share_eq]
  refine ⟨fun _ => ⟨rfl, rfl⟩, rfl, rfl, rfl, rfl, rfl, rfl, fun i => ?_⟩
  rw [holders_link]
  simp only [State.setRefs, hlink, Nat.add_assoc]

/-- A row that was empty is the father's. -/
theorem total_copy {α β : Type} [Fintype α] [DecidableEq β] {r : Task → α → Option β} {p c : Task}
    (hc : ∀ a, r c a = none) (b : β) :
    total (Function.update r c (r p)) b = total r b + holders (r p) b := by
  have hrow := total_update r c (r p) b
  have hzero : holders (r c) b = 0 := holders_zero.2 fun a ha => nomatch (hc a).symm.trans ha
  omega

/-- The child has all that its father has, and each thing is counted once more. -/
theorem Balanced.fork {c : Task} (h : Balanced s) (hp : s.ready p) (hc : s.alive c = false) :
    Balanced (copyProcess p c s) := by
  obtain ⟨hfilp, hlink, hwait⟩ := h.away c (.inl hc)
  obtain ⟨hfile, hfilp', hclose', hlink', halive', hzombie', hwait', hrefs'⟩ := copyProcess_copied s p c
  generalize copyProcess p c s = t at *
  have hcount : ∀ f, (t.file f).count = (s.file f).count + holders (s.filp p) f ∧
      (t.file f).inode = (s.file f).inode := fun f => by
    rw [(hfile f).1, (hfile f).2, ← holders_row]
    apply countRow_file
    have hle := holders_le (s.filp p) f
    have htotal := total_le s.filp f
    rw [← h.counts f] at htotal
    rw [holders_row]
    omega
  have hzero : ∀ f, (t.file f).count = 0 ↔ (s.file f).count = 0 := fun f => by
    have hle := holders_le_total s.filp p f
    rw [← h.counts f] at hle
    rw [(hcount f).1]
    omega
  have hclaimed : ∀ f, t.claimed f ↔ s.claimed f := fun f => by
    unfold State.claimed
    rw [hwait']
  have hentry : ∀ f, t.entry f = s.entry f := fun f => by
    by_cases hz : (s.file f).count = 0
    · rw [entry_zero hz, entry_zero ((hzero f).2 hz)]
    by_cases hcl : s.claimed f
    · rw [entry_claimed hcl, entry_claimed ((hclaimed f).2 hcl)]
    · rw [entry_open hz hcl, entry_open (mt (hzero f).1 hz) (mt (hclaimed f).1 hcl), (hcount f).2]
  refine ⟨fun f => ?_, fun i => ?_, fun q d f hmem => ?_, fun q => ?_, fun q d hq => ?_, fun f hf hnot => ?_,
    fun q hq => ?_, fun q => ?_⟩
  · rw [(hcount f).1, hfilp', total_copy hfilp, h.counts f]
  · have hold := h.refs i
    rw [hrefs' i, hlink', total_copy hlink, holders_congr hentry, hwait']
    omega
  · rw [hwait'] at hmem
    have hqc : q ≠ c := by
      rintro rfl
      rw [hwait] at hmem
      cases hmem
    -- the father is in no call, so what `q` has taken he has not
    have hfather : holders (s.filp p) f = 0 := by
      rw [holders_zero]
      intro d' hfd'
      obtain ⟨rfl, -⟩ := h.claim_unique hmem hfd'
      rw [hp.2.2] at hmem
      cases hmem
    rw [(hcount f).1, hfather, hfilp', hclose', Function.update_of_ne hqc, Function.update_of_ne hqc]
    exact h.claims q d f hmem
  · rw [hwait']
    exact h.apart q
  · rw [hclose'] at hq
    rw [hfilp']
    by_cases hqc : q = c
    · subst hqc
      rw [Function.update_self] at hq ⊢
      exact h.flags p d hq
    · rw [Function.update_of_ne hqc] at hq ⊢
      exact h.flags q d hq
  · rw [(hcount f).2]
    exact h.opened f (mt (hzero f).2 hf) (mt (hclaimed f).2 hnot)
  · rw [halive', hzombie'] at hq
    have hqc : q ≠ c := by
      rintro rfl
      simp at hq
    rw [Function.update_of_ne hqc, Function.update_of_ne hqc] at hq
    rw [hfilp', hlink', hwait', Function.update_of_ne hqc, Function.update_of_ne hqc]
    exact h.away q hq
  · rw [hwait']
    by_cases hqc : q = c
    · subst hqc
      rw [hwait]
      exact Wait.stays.without (w := .none) rfl t q
    · rw [hfilp', hlink', Function.update_of_ne hqc, Function.update_of_ne hqc]
      exact h.left q

end Linux011.FileTables
