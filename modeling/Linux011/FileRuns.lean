import Linux011.FileMoves

set_option autoImplicit false

/-!
# The file table over any run of all tasks
-/
namespace Linux011.FileTables
open Minix (File NR_OPEN NR_FILE Slot isChr isBlk)
open Holders

variable {s s' : State} {p q : Task} {w u : Wait} {d d' : Fd} {f g : FileNr} {i j : Slot} {r : ℤ}

/-- A call comes to a point where the counts are right, and not to a panic. -/
def Turn.Fine (p : Task) : Turn → Prop
  | .ret _ s => Balanced (s.setWait p .none)
  | .wait w s => Balanced (s.setWait p w)
  | .gone s => Balanced (s.setWait p .none)
  | .fileCount => False
  | .freeInode => False

def Closed.Fine (p : Task) (next : Next) : Closed → Prop
  | .done _ s => Balanced (s.setWait p (.closing none next)) ∧ s.lives p
  | .put v s => Balanced (s.setWait p (.closing v next))
  | .fileCount => False

theorem iput_eq {v : Option Slot} (hle : ∀ i, share v i ≤ s.refs i) (next : State → Turn) :
    iput v s next = next (s.setRefs fun i => s.refs i - share v i) := by
  cases v with
  | none => rfl
  | some i =>
    have hi := hle i
    rw [share_self] at hi
    have hrefs : Function.update s.refs i (s.refs i - 1) = fun j => s.refs j - share (some i) j := by
      funext j
      by_cases hj : j = i
      · subst hj
        rw [Function.update_self, share_self]
      · rw [Function.update_of_ne hj, share_ne (Ne.symm hj), Nat.sub_zero]
    have hpos : s.refs i ≠ 0 := by omega
    change (if s.refs i = 0 then Turn.freeInode else
      next (s.setRefs (Function.update s.refs i (s.refs i - 1)))) = _
    rw [if_neg hpos, hrefs]

theorem grab_eq (s : State) (i : Slot) (n : ℕ) :
    s.grab i n = s.setRefs fun j => s.refs j + n * share (some i) j := by
  have hrefs : Function.update s.refs i (s.refs i + n) = fun j => s.refs j + n * share (some i) j := by
    funext j
    by_cases hj : j = i
    · subst hj
      rw [Function.update_self, share_self, Nat.mul_one]
    · rw [Function.update_of_ne hj, share_ne (Ne.symm hj), Nat.mul_zero, Nat.add_zero]
  unfold State.grab State.setRefs
  rw [hrefs]

theorem firstFd_free {row : Fd → Option FileNr} {arg : ℕ} (h : firstFd row arg = some d) : row d = none := by
  have hp := List.find?_some h
  simp only [decide_eq_true_eq] at hp
  exact hp.2

theorem firstFile_free {file : FileNr → File} (h : firstFile file = some f) : (file f).count = 0 := by
  have hp := List.find?_some h
  simpa using hp

section
variable (h : Balanced (s.setWait p w)) (hp : s.lives p)
include h hp

/-- `iput` of what the call holds. -/
theorem Balanced.put (hclaims : u.claims = w.claims) (hholds : u.holds = none) (hleft : s.without p u) :
    Balanced ((s.setRefs fun i => s.refs i - share w.holds i).setWait p u) :=
  h.recall hp hclaims (fun i => by
    have hle := h.held_le i
    rw [hholds, share_none]
    omega) hleft

theorem Balanced.again (hclaims : u.claims = w.claims) (hholds : u.holds = w.holds)
    (hleft : s.without p u) : Balanced (s.setWait p u) :=
  h.recall (r := s.refs) hp hclaims (fun i => by rw [hholds]) hleft

/-- A call gets an inode. -/
theorem Balanced.grab (i : Slot) (hclaims : u.claims = w.claims) (hheld : w.holds = none)
    (hholds : u.holds = some i) (hleft : s.without p u) :
    Balanced ((s.grab i 1).setWait p u) := by
  rw [grab_eq]
  refine h.recall hp hclaims (fun j => ?_) hleft
  rw [hheld, hholds, share_none]
  omega

/-! ### `sys_open` -/

theorem openEnd_fine (flag mode : UInt16) (hclaims : w.claims = [(d, f)]) (hholds : w.holds = some i) :
    (openEnd d f flag mode i s).Fine p := by
  refine h.settle (d := d) (u := .none) (i := i) (r := s.refs) hp ?_ rfl rfl (fun j => ?_) rfl
  · rw [hclaims]
    exact .refl _
  · rw [hholds]
    rfl

theorem openUndo_fine (r : ℤ) (hclaims : w.claims = [(d, f)]) (hholds : w.holds = none) :
    (openUndo p d f r s).Fine p := by
  refine h.unclaim (d := d) (u := .none) hp ?_ hholds.symm rfl
  rw [hclaims]
  exact .refl _

end

theorem sysOpen_fine (h : Balanced (s.setWait p .none)) (hp : s.lives p) (flag : UInt16) :
    (sysOpen p flag s).Fine p := by
  unfold sysOpen
  cases hfd : firstFd (s.filp p) 0 with
  | none => exact h
  | some d =>
    have hclose := h.setClose (d := d) (v := false) hp nofun rfl
    cases hf : firstFile s.file with
    | none =>
      simp only [show (s.setClose p d false).file = s.file from rfl, hf]
      exact hclose
    | some f =>
      have hzero := firstFile_free hf
      simp only [show (s.setClose p d false).file = s.file from rfl, hf, hzero]
      exact hclose.claim (u := .opening d f flag) hp (firstFd_free hfd) hzero (.refl _) rfl rfl

theorem opened_fine {flag : UInt16} (h : Balanced (s.setWait p (.opening d f flag))) (hp : s.lives p) (a : Answer) :
    (opened p d f flag a s).Fine p := by
  cases a with
  | error r => exact openUndo_fine h hp r rfl rfl
  | found i mode zone =>
    have hgrab : ∀ u : Wait, u.claims = [(d, f)] → u.holds = some i → u.stays →
        Balanced ((s.grab i 1).setWait p u) := fun u hc hh hs => h.grab hp i hc rfl hh (hs.without s p)
    have hheld := hgrab (.openTty d f i) rfl rfl rfl
    have hend : (openEnd d f flag mode i (s.grab i 1)).Fine p := openEnd_fine hheld hp flag mode rfl rfl
    unfold opened
    dsimp only
    split_ifs
    · exact openEnd_fine (hheld.setTty _ _) hp flag mode rfl rfl
    · exact hend
    · exact hheld
    · exact hend
    · exact hgrab (.checking d f flag mode i) rfl rfl rfl
    · exact hend

/-! ### `dupfd` and `sys_close` -/

theorem dupfd_fine (h : Balanced (s.setWait p .none)) (hp : s.lives p) (d arg : ℕ) :
    (dupfd p d arg s).Fine p := by
  unfold dupfd
  by_cases hfd : d < NR_OPEN
  · rw [dif_pos hfd]
    cases hf : s.filp p ⟨d, hfd⟩ with
    | none => exact h
    | some f =>
      by_cases harg : arg ≥ NR_OPEN
      · simp only [if_pos harg]
        exact h
      · simp only [if_neg harg]
        cases hfree : firstFd (s.filp p) arg with
        | none => exact h
        | some d' =>
          have hclose := h.setClose (d := d') (v := false) hp nofun rfl
          have hmod : ((s.file f).count + 1) % 65536 = (s.file f).count + 1 := by
            have hcount : (s.file f).count = total s.filp f := h.counts f
            have hle := total_le s.filp f
            exact Nat.mod_eq_of_lt (by omega)
          simp only [hmod]
          exact hclose.dup (u := .none) hp hf (firstFd_free hfree) rfl rfl rfl rfl
  · rw [dif_neg hfd]
    exact h

/-- A descriptor is closed in order to do `next`. -/
theorem sysClose_fine (h : Balanced (s.setWait p w)) (hp : s.lives p) (d : ℕ) {n : Next}
    (hclaims : w.claims = []) (hholds : w.holds = none)
    (hleft : ∀ (t : State) (v : Option Slot),
      (∀ d' : Fd, t.filp p d' ≠ none → s.filp p d' ≠ none ∧ d'.val ≠ d) →
        t.without p (.closing v n)) : (sysClose p d s).Fine p n := by
  unfold sysClose
  by_cases hfd : d < NR_OPEN
  · rw [dif_pos hfd]
    have hclear := h.setClose (d := ⟨d, hfd⟩) (v := false) hp nofun hclaims
    have hoff : (s.setClose p ⟨d, hfd⟩ false).closeOnExec p ⟨d, hfd⟩ = false := by
      simp [State.setClose]
    cases hf : s.filp p ⟨d, hfd⟩ with
    | none =>
      simp only [show (s.setClose p ⟨d, hfd⟩ false).filp = s.filp from rfl, hf]
      refine ⟨hclear.again hp hclaims.symm hholds.symm (hleft _ _ fun d' hfd' => ⟨hfd', ?_⟩), hp⟩
      rintro rfl
      exact hfd' hf
    | some f =>
      have hopen : (s.file f).count ≠ 0 := (h.slot_open hf hclaims).1
      have hwithout : ∀ v, ((s.setClose p ⟨d, hfd⟩ false).setFilp p ⟨d, hfd⟩ none).without p (.closing v n) :=
        fun v => hleft _ v fun d' hfd' => by
          rw [State.setFilp_row] at hfd'
          have hne : d' ≠ ⟨d, hfd⟩ := by
            rintro rfl
            rw [Function.update_self] at hfd'
            exact hfd' rfl
          rw [Function.update_of_ne hne] at hfd'
          exact ⟨hfd', fun he => hne (Fin.ext he)⟩
      have hn : (s.file f).count - 1 + 1 = ((s.setClose p ⟨d, hfd⟩ false).file f).count := by
        change _ = (s.file f).count
        omega
      simp only [show (s.setClose p ⟨d, hfd⟩ false).filp = s.filp from rfl, hf]
      change Closed.Fine p n (if (s.file f).count = 0 then _ else _)
      rw [if_neg hopen]
      simp only [State.setCount_count, State.setCount_inode, if_true]
      change Closed.Fine p n (if (s.file f).count - 1 ≠ 0 then _ else _)
      by_cases hlast : (s.file f).count - 1 = 0
      · rw [if_neg (not_not.2 hlast)]
        exact hclear.drop (u := .closing (s.file f).inode n) hp hf hoff hn hclaims hholds rfl
          (if_pos hlast).symm (hwithout _)
      · rw [if_pos hlast]
        exact ⟨hclear.drop (u := .closing none n) hp hf hoff hn hclaims hholds rfl
          (if_neg hlast).symm (hwithout _), hp⟩
  · rw [dif_neg hfd]
    exact ⟨h.again hp hclaims.symm hholds.symm (hleft s none fun d' hfd' => ⟨hfd', by omega⟩), hp⟩

/-- `sys_close` has come back at once, or sleeps in `iput`. -/
theorem Closed.Fine.turn {c : Closed} {n : Next} (h : c.Fine p n)
    (hgo : ∀ r t, Balanced (t.setWait p (.closing none n)) → t.lives p → (n.go p r t).Fine p) :
    (c.turn p n).Fine p := by
  cases c with
  | done r t => exact hgo r t h.1 h.2
  | put v t => exact h
  | fileCount => exact h

/-- The loop of `do_execve` over `close_on_exec`. -/
theorem execClose_fine (rest : List Fd) (h : Balanced (s.setWait p .none)) (hp : s.lives p) :
    (execClose p rest s).Fine p := by
  induction rest generalizing s with
  | nil =>
    refine h.change (u := .none) hp ?_ (fun _ => rfl) (fun _ => rfl) nofun List.nodup_nil (fun d hc => ?_)
      h.opened (Wait.stays.without (w := .none) rfl s p)
    · exact ⟨fun _ _ => rfl, fun q hq => Function.update_of_ne hq _ _, fun _ _ => rfl, fun _ _ => rfl, rfl,
        rfl, fun _ _ => rfl⟩
    · change Function.update s.closeOnExec p (fun _ => false) p d = true at hc
      rw [Function.update_self] at hc
      cases hc
  | cons d rest ih =>
    unfold execClose
    by_cases hc : s.closeOnExec p d = true
    · rw [if_pos hc]
      have hclose := sysClose_fine (n := .exec rest) h hp d rfl rfl fun t v _ =>
        Wait.stays.without (w := .closing v (.exec rest)) rfl t p
      change ((sysClose p d s).turn p (.exec rest)).Fine p
      exact hclose.turn fun r t ht hp => ih (ht.again hp rfl rfl (Wait.stays.without (w := .none) rfl t p)) hp
    · rw [if_neg hc]
      exact ih h hp

/-- The loop of `do_exit` over `filp`: what it has passed is closed. -/
theorem exitClose_fine (rest : List Fd) (h : Balanced (s.setWait p (.closing none (.exit rest)))) (hp : s.lives p) :
    (exitClose p rest s).Fine p := by
  induction rest generalizing s with
  | nil =>
    have hleft := h.left p
    rw [State.setWait_self] at hleft
    exact h.again (u := .exitPut .pwd) hp rfl rfl ⟨fun d _ => hleft.1 d (List.not_mem_nil), nofun⟩
  | cons d rest ih =>
    have hleft : ∀ d', d' ∉ d :: rest → s.filp p d' = none := by
      have hold := h.left p
      rw [State.setWait_self] at hold
      exact hold.1
    unfold exitClose
    by_cases hf : (s.filp p d).isSome = true
    · rw [if_pos hf]
      have hclose := sysClose_fine (n := .exit rest) h hp d rfl rfl fun t v ht =>
        ⟨fun d' hfd' => by
          by_contra hopen
          obtain ⟨hopen', hne⟩ := ht d' hopen
          exact hopen' (hleft d' (List.not_mem_cons_of_ne_of_not_mem (fun he => hne (congrArg Fin.val he)) hfd')), nofun⟩
      change ((sysClose p d s).turn p (.exit rest)).Fine p
      exact hclose.turn fun r t ht hp => ih ht hp
    · rw [if_neg hf]
      refine ih (h.again hp rfl rfl ⟨fun d' hfd' => ?_, nofun⟩) hp
      by_cases hne : d' = d
      · subst hne
        exact Option.not_isSome_iff_eq_none.1 hf
      · exact hleft d' (List.not_mem_cons_of_ne_of_not_mem hne hfd')

theorem Next.go_fine (next : Next) (h : Balanced (s.setWait p (.closing none next))) (hp : s.lives p) (r : ℤ) :
    (next.go p r s).Fine p := by
  have hnone : Balanced (s.setWait p .none) :=
    h.again hp rfl rfl (Wait.stays.without (w := .none) rfl s p)
  cases next with
  | done => exact hnone
  | dup oldfd newfd => exact dupfd_fine hnone hp oldfd newfd
  | exec rest => exact execClose_fine rest hnone hp
  | exit rest => exact exitClose_fine rest h hp

theorem close_fine (h : Balanced (s.setWait p .none)) (hp : s.lives p) (d : ℕ) (next : Next)
    (hnext : ∀ v, (Wait.closing v next).stays) : ((sysClose p d s).turn p next).Fine p := by
  have hclose := sysClose_fine (n := next) h hp d rfl rfl fun t v _ => (hnext v).without t p
  exact hclose.turn fun r t ht hp => next.go_fine ht hp r

theorem sysFcntl_fine (h : Balanced (s.setWait p .none)) (hp : s.lives p) (d cmd arg : ℕ) :
    (sysFcntl p d cmd arg s).Fine p := by
  unfold sysFcntl
  by_cases hfd : d < NR_OPEN
  · rw [dif_pos hfd]
    cases hf : s.filp p ⟨d, hfd⟩ with
    | none => exact h
    | some f =>
      have hopen : s.filp p ⟨d, hfd⟩ ≠ none := by
        rw [hf]
        nofun
      match cmd with
      | 0 => exact dupfd_fine h hp d arg
      | 1 => exact h
      | 2 => exact h.setClose hp (fun _ => hopen) rfl
      | 3 => exact h
      | 4 => exact h.setFile hp rfl rfl
      | _ + 5 => exact h
  · rw [dif_neg hfd]
    exact h

/-! ### `sys_pipe` -/

theorem filter_two {α : Type} {l rest : List α} {q : α → Bool} {a b : α} (hl : l.Nodup)
    (h : l.filter q = a :: b :: rest) : q a = true ∧ q b = true ∧ a ≠ b := by
  have ha : a ∈ l.filter q := h ▸ List.mem_cons_self ..
  have hb : b ∈ l.filter q := h ▸ List.mem_cons_of_mem _ (List.mem_cons_self ..)
  have hnodup : (a :: b :: rest).Nodup := h ▸ hl.filter q
  refine ⟨List.of_mem_filter ha, List.of_mem_filter hb, ?_⟩
  rintro rfl
  exact (List.nodup_cons.1 hnodup).1 (List.mem_cons_self ..)

theorem sysPipe_fine (h : Balanced (s.setWait p .none)) (hp : s.lives p) : (sysPipe p s).Fine p := by
  unfold sysPipe
  split
  next f₀ f₁ _ hfiles =>
    split
    next fd₀ fd₁ _ hfds =>
      obtain ⟨hf₀, hf₁, hf⟩ := filter_two (List.nodup_finRange _) hfiles
      obtain ⟨hfd₀, hfd₁, hfd⟩ := filter_two (List.nodup_finRange _) hfds
      simp only [decide_eq_true_eq] at hf₀ hf₁ hfd₀ hfd₁
      have hfirst := h.claim (u := .opening fd₀ f₀ 0) hp hfd₀ hf₀ (.refl _) rfl rfl
      refine hfirst.claim (d := fd₁) (f := f₁) (u := .piping fd₀ fd₁ f₀ f₁) hp ?_ ?_ (.swap ..) rfl rfl
      · change (s.setFilp p fd₀ (some f₀)).filp p fd₁ = none
        rw [State.setFilp_row, Function.update_of_ne hfd.symm]
        exact hfd₁
      · rw [State.setCount_count, if_neg hf.symm]
        exact hf₁
    · exact h
  · exact h

theorem piped_fine {fd₀ fd₁ : Fd} {f₀ f₁ : FileNr} (h : Balanced (s.setWait p (.piping fd₀ fd₁ f₀ f₁)))
    (hp : s.lives p) (a : Option Slot) : (piped p fd₀ fd₁ f₀ f₁ a s).Fine p := by
  cases a with
  | none =>
    have hfirst := h.unclaim (d := fd₀) (f := f₀) (u := .opening fd₁ f₁ 0) hp (.refl _) rfl rfl
    exact hfirst.unclaim (d := fd₁) (f := f₁) (u := .none) hp (.refl _) rfl rfl
  | some i =>
    have hne : f₁ ≠ f₀ := (h.claims_ne (w := .piping fd₀ fd₁ f₀ f₁) (.refl _) (List.mem_cons_self ..)).2
    have hcount₀ := (h.own_claims (w := .piping fd₀ fd₁ f₀ f₁) (List.mem_cons_self ..)).2.1
    have hcount₁ := (h.own_claims (w := .piping fd₀ fd₁ f₀ f₁)
      (List.mem_cons_of_mem _ (List.mem_cons_self ..))).2.1
    unfold piped
    simp only [grab_eq]
    -- the first end fills its entry and leaves the second reference to the call
    have hfirst := h.settle (d := fd₀) (f := f₀) (i := i) (u := .openTty fd₁ f₁ i)
      (x := { s.file f₀ with inode := some i, pos := 0, mode := 1 })
      (r := fun j => s.refs j + 2 * share (some i) j) hp (.refl _) hcount₀ rfl (fun j => by
        change _ + share none j = s.refs j + (share (some i) j + share (some i) j)
        rw [share_none]
        omega) rfl
    refine hfirst.settle (d := fd₁) (f := f₁) (i := i) (u := .none) (r := fun j => s.refs j + 2 * share (some i) j)
      hp (.refl _) ?_ rfl (fun j => ?_) rfl
    · change (((s.setFile f₀ _).file f₁)).count = 1
      rw [State.setFile_ne _ _ hne]
      exact hcount₁
    · rfl

/-! ### Working directory, programs, and the end -/

theorem chFound_fine {l : Link} (h : Balanced (s.setWait p (.chNamei l))) (hp : s.lives p)
    (a : Option (Slot × Bool)) : (chFound l a s).Fine p := by
  match a with
  | none => exact h.again hp rfl rfl (Wait.stays.without (w := .none) rfl s p)
  | some (i, isDir) =>
    unfold chFound
    dsimp only
    split_ifs
    · exact h.grab (u := .chPut l i) hp i rfl rfl rfl (Wait.stays.without (w := .chPut l i) rfl s p)
    · exact h.grab (u := .putting i (-ENOTDIR)) hp i rfl rfl rfl
        (Wait.stays.without (w := .putting i (-ENOTDIR)) rfl s p)

theorem execFound_fine {sh : Bool} (h : Balanced (s.setWait p (.execNamei sh))) (hp : s.lives p)
    (a : Option Slot) : (execFound sh a s).Fine p := by
  cases a with
  | none => exact h.again hp rfl rfl (Wait.stays.without (w := .none) rfl s p)
  | some i => exact h.grab (u := .execHeld sh i) hp i rfl rfl rfl (Wait.stays.without (w := .execHeld sh i) rfl s p)

theorem execHeader_fine {sh : Bool} (h : Balanced (s.setWait p (.execHeld sh i))) (hp : s.lives p) (x : Header) :
    (execHeader p sh i x s).Fine p := by
  have hnext : ∀ u : Wait, u.claims = [] → u.holds = some i → u.stays → Balanced (s.setWait p u) :=
    fun u hc hh hs => h.again hp hc hh (hs.without s p)
  cases x with
  | refused r => exact hnext (.putting i r) rfl rfl rfl
  | script =>
    cases sh with
    | true => exact hnext (.putting i (-ENOEXEC)) rfl rfl rfl
    | false => exact hnext (.execInterp i) rfl rfl rfl
  | program =>
    unfold execHeader
    dsimp only
    split_ifs with hexe
    · exact hnext (.execSwap i) rfl rfl rfl
    · refine execClose_fine _ ?_ hp
      refine h.relink (l := .executable) (v := some i) (r := s.refs) (u := .none) hp rfl rfl (fun j => ?_)
        (Wait.stays.without (w := .none) rfl _ p)
      rw [Option.not_isSome_iff_eq_none.1 hexe]
      change _ + (share none j + share (some i) j) = _ + (share (some i) j + share none j)
      rw [share_none]
      omega

/-- `iput` of a link, which is then `v`. -/
theorem Balanced.swap (h : Balanced (s.setWait p w)) (hp : s.lives p) {l : Link} {v : Option Slot}
    (hclaims : w.claims = []) (hclaims' : u.claims = []) (hv : w.holds = v) (hholds : u.holds = none)
    (hleft : (s.setLink p l v).without p u) :
    Balanced (((s.setRefs fun i => s.refs i - share (s.link p l) i).setLink p l v).setWait p u) := by
  refine h.relink (r := fun i => s.refs i - share (s.link p l) i) hp hclaims hclaims' (fun i => ?_) hleft
  have hle := h.link_le l i
  rw [hv, hholds, share_none] at *
  omega

theorem exitPut_fine {l : Link} (h : Balanced (s.setWait p (.exitPut l))) (hp : s.lives p) :
    (exitPut p l s).Fine p := by
  have hle : ∀ i, share (s.link p l) i ≤ s.refs i := fun i => (Nat.le_add_right ..).trans (h.link_le l i)
  have hleft := h.left p
  rw [State.setWait_self] at hleft
  have hrow : ∀ k, k ≠ l → (s.setLink p l none).link p k = s.link p k := fun k hk => by
    rw [State.setLink_row, Function.update_of_ne hk]
  have hself : (s.setLink p l none).link p l = none := by
    rw [State.setLink_row, Function.update_self]
  unfold exitPut
  rw [iput_eq hle]
  cases l with
  | pwd =>
    refine h.swap (u := .exitPut .root) hp rfl rfl rfl rfl ⟨hleft.1, ?_⟩
    rintro k rfl
    exact hself
  | root =>
    refine h.swap (u := .exitPut .executable) hp rfl rfl rfl rfl ⟨hleft.1, fun k hk => ?_⟩
    by_cases hkr : k = .root
    · rw [hkr]
      exact hself
    · rw [hrow k hkr]
      cases k with
      | pwd => exact hleft.2 .pwd rfl
      | root => exact absurd rfl hkr
      | executable => exact absurd rfl hk
  | executable =>
    have hlast := h.swap (l := .executable) (v := none) (u := .none) hp rfl rfl rfl rfl
      (Wait.stays.without (w := .none) rfl _ p)
    refine hlast.gone (fun d => hleft.1 d trivial) fun k => ?_
    by_cases hk : k = .executable
    · rw [hk]
      exact hself
    · exact (hrow k hk).trans (hleft.2 k hk)

/-! ### Calls -/

theorem enter_fine (h : Balanced (s.setWait p .none)) (hp : s.lives p) (c : Syscall) : (enter p c s).Fine p := by
  have hnext : ∀ u : Wait, u.claims = [] → u.holds = none → u.stays → Balanced (s.setWait p u) :=
    fun u hc hh hs => h.again hp hc hh (hs.without s p)
  cases c with
  | «open» flag => exact sysOpen_fine h hp flag
  | close d => exact close_fine h hp d .done fun _ => rfl
  | dup fildes => exact dupfd_fine h hp fildes 0
  | dup2 oldfd newfd => exact close_fine h hp newfd (.dup oldfd newfd) fun _ => rfl
  | fcntl d cmd arg => exact sysFcntl_fine h hp d cmd arg
  | pipe => exact sysPipe_fine h hp
  | chdir => exact hnext (.chNamei .pwd) rfl rfl rfl
  | chroot => exact hnext (.chNamei .root) rfl rfl rfl
  | execve => exact hnext (.execNamei false) rfl rfl rfl
  | setsid suser pid =>
    change (sysSetsid p suser pid s).Fine p
    unfold sysSetsid
    split_ifs
    · exact h
    · exact h.setTty _ _
  | exit =>
    refine exitClose_fine _ (h.again hp rfl rfl ⟨fun d hfd => ?_, nofun⟩) hp
    exact absurd (List.mem_finRange d) hfd

theorem iput_fine {u : Wait} {v : Option Slot} {next : State → Turn} (h : Balanced (s.setWait p w))
    (hp : s.lives p) (hv : w.holds = v) (hclaims : u.claims = w.claims) (hholds : u.holds = none)
    (hleft : s.without p u)
    (hnext : ∀ t : State, Balanced (t.setWait p u) → t.lives p → (next t).Fine p) :
    (iput v s next).Fine p := by
  subst hv
  rw [iput_eq h.held_le]
  exact hnext _ (h.put hp hclaims hholds hleft) hp

theorem resume_fine (h : Balanced (s.setWait p w)) (hp : s.lives p) {x : Reply} {t : Turn}
    (ht : resume p w x s = some t) : t.Fine p := by
  have hstay : ∀ u : Wait, u.stays → s.without p u := fun u hs => hs.without s p
  have hlink : ∀ l i, share (s.link p l) i ≤ s.refs i := fun l i => (Nat.le_add_right ..).trans (h.link_le l i)
  unfold resume at ht
  split at ht <;> cases ht
  case h_1 a => exact opened_fine h hp a
  case h_2 d f i =>
    exact iput_fine (u := .opening d f 0) h hp rfl rfl rfl (hstay _ rfl) fun t ht hp =>
      openUndo_fine ht hp (-EPERM) rfl rfl
  case h_3 flag mode _ => exact openEnd_fine h hp flag mode rfl rfl
  case h_4 v next =>
    have hleft : (Wait.closing none next).left = (Wait.closing v next).left := by cases next <;> rfl
    have hold := h.left p
    rw [State.setWait_self, ← hleft] at hold
    exact iput_fine (u := .closing none next) h hp rfl rfl rfl hold fun t ht hp => next.go_fine ht hp 0
  case h_5 a => exact piped_fine h hp a
  case h_6 a => exact chFound_fine h hp a
  case h_7 l i =>
    rw [iput_eq (hlink l)]
    exact h.swap (u := .none) hp rfl rfl rfl rfl (Wait.stays.without (w := .none) rfl _ p)
  case h_8 i r => exact iput_fine (u := .none) h hp rfl rfl rfl (hstay _ rfl) fun t ht _ => ht
  case h_9 a => exact execFound_fine h hp a
  case h_10 a => exact execHeader_fine h hp a
  case h_11 i r => exact iput_fine (u := .none) h hp rfl rfl rfl (hstay _ rfl) fun t ht _ => ht
  case h_12 i =>
    exact iput_fine (u := .execNamei true) h hp rfl rfl rfl (hstay _ rfl) fun t ht _ => ht
  case h_13 i =>
    rw [iput_eq (hlink .executable)]
    exact execClose_fine _
      (h.swap (u := .none) hp rfl rfl rfl rfl (Wait.stays.without (w := .none) rfl _ p)) hp
  case h_14 l => exact exitPut_fine h hp

/-! ### Runs -/

theorem Turn.Fine.state {t : Turn} (h : t.Fine p) : ∃ s, t.state p = some s ∧ Balanced s := by
  cases t with
  | ret r s => exact ⟨_, rfl, h⟩
  | wait w s => exact ⟨_, rfl, h⟩
  | gone s => exact ⟨_, rfl, h⟩
  | fileCount => exact h.elim
  | freeInode => exact h.elim

theorem State.setWait_same (s : State) (p : Task) : s.setWait p (s.wait p) = s := by
  unfold State.setWait
  rw [Function.update_eq_self]

theorem Balanced.enter (h : Balanced s) (hp : s.ready p) (c : Syscall) : (enter p c s).Fine p := by
  obtain ⟨halive, hzombie, hwait⟩ := hp
  rw [← s.setWait_same p, hwait] at h
  exact enter_fine h ⟨halive, hzombie⟩ c

theorem Balanced.resume (h : Balanced s) {x : Reply} {t : Turn} (ht : resume p (s.wait p) x s = some t) :
    t.Fine p := by
  have hp : s.lives p := by
    unfold State.lives
    by_contra hnot
    have hwait := (h.away p (by cases ha : s.alive p <;> cases hz : s.zombie p <;> simp_all)).2.2
    rw [hwait] at ht
    cases ht
  rw [← s.setWait_same p] at h
  exact resume_fine h hp ht

theorem Step.balanced (hs : Step s s') (h : Balanced s) : Balanced s' := by
  cases hs with
  | enter hp ht =>
    obtain ⟨s', ht', hs'⟩ := (h.enter hp _).state
    cases ht.symm.trans ht'
    exact hs'
  | resume hr ht =>
    obtain ⟨s', ht', hs'⟩ := (h.resume hr).state
    cases ht.symm.trans ht'
    exact hs'
  | fork hp hc => exact h.fork hp hc
  | release hz => exact h.release hz

theorem boot_balanced (i : Slot) : Balanced (State.boot i) := by
  have hrow : (State.boot i).link = Function.update (fun _ _ => none) ⟨1, by decide⟩
      fun l => if l = .executable then none else some i := by
    funext p l
    by_cases hp : p = ⟨1, by decide⟩
    · rw [hp, Function.update_self]
      cases l <;> rfl
    · rw [Function.update_of_ne hp]
      exact if_neg fun hc => hp (Fin.ext hc.1)
  refine ⟨fun f => (total_zero.2 nofun).symm, fun j => ?_, nofun, fun _ => List.nodup_nil, nofun,
    fun f hf => absurd rfl hf, fun p hp => ⟨fun _ => rfl, fun l => if_neg fun hc => ?_, rfl⟩,
    fun p => Wait.stays.without (w := .none) rfl _ p⟩
  · have htotal := total_update (fun (_ : Task) (_ : Link) => none) ⟨1, by decide⟩
      (fun l => if l = .executable then none else some i) j
    have hentry : holders (State.boot i).entry j = 0 := holders_zero.2 fun f hf => by
      rw [entry_zero (s := State.boot i) rfl] at hf
      cases hf
    have hzero : total (fun (_ : Task) (_ : Link) => none) j = 0 := total_zero.2 nofun
    rw [holders_none, hzero, holders_link, ← hrow] at htotal
    simp only [reduceCtorEq, if_false, if_true, share_none] at htotal
    have hwait : holders (fun p => ((State.boot i).wait p).holds) j = 0 := holders_none j
    rw [hentry, hwait, Nat.zero_add, Nat.add_zero]
    change (if j = i then 2 else 0) = _
    by_cases hj : j = i
    · subst hj
      rw [share_self] at htotal
      rw [if_pos rfl]
      omega
    · rw [share_ne (Ne.symm hj)] at htotal
      rw [if_neg hj]
      omega
  · have hle : p.val ≤ 1 := hc.1.le
    rcases hp with hp | hp
    · exact Bool.false_ne_true (hp.symm.trans (decide_eq_true hle))
    · cases hp

/-- In any run of all tasks, wherever they sleep: `f_count` counts the descriptors of a file, each
    reference to an inode is held once, and no call comes to `panic`. -/
theorem counts_balanced (i : Slot) {s : State} (h : Relation.ReflTransGen Step (State.boot i) s) :
    Balanced s ∧
      (∀ p c, s.ready p → ∃ s', (enter p c s).state p = some s') ∧
      ∀ p x t, resume p (s.wait p) x s = some t → ∃ s', t.state p = some s' := by
  have hs : Balanced s := by
    induction h with
    | refl => exact boot_balanced i
    | tail _ hstep ih => exact hstep.balanced ih
  refine ⟨hs, fun p c hp => ?_, fun p x t ht => ?_⟩
  · obtain ⟨s', hs', -⟩ := (hs.enter hp c).state
    exact ⟨s', hs'⟩
  · obtain ⟨s', hs', -⟩ := (hs.resume ht).state
    exact ⟨s', hs'⟩

/-- The second task opens a file while the first makes a pipe. -/
theorem counts_balanced_open : ∃ s, (s.file 0).count = 1 ∧ (s.file 2).count = 1 ∧ Balanced s := by
  let s₁ := ((enter ⟨1, by decide⟩ (.open 0) (State.boot 0)).state ⟨1, by decide⟩).get (by decide +kernel)
  let s₂ := ((enter ⟨0, by decide⟩ .pipe s₁).state ⟨0, by decide⟩).get (by decide +kernel)
  have h₁ : Step (State.boot 0) s₁ := .enter ⟨rfl, rfl, rfl⟩ (Option.some_get _).symm
  have h₂ : Step s₁ s₂ := .enter ⟨rfl, rfl, rfl⟩ (Option.some_get _).symm
  exact ⟨s₂, by decide +kernel, by decide +kernel, (counts_balanced 0 (.tail (.single h₁) h₂)).1⟩

end Linux011.FileTables
