import Linux011.ConsoleRuns
import Mathlib

set_option autoImplicit false

/-! # The saved cursor -/
namespace Linux011.Console

/-! ### Functions that do not look at the saved position -/

section Store

/-- A screen with another saved position. -/
def Screen.store (s : Screen) (x y : ℕ) : Screen := { s with savedX := x, savedY := y }

/-- What `f` does is the same whatever the saved position is, and `f` leaves it and the display alone. -/
structure Blind (f : Screen → Screen) (s : Screen) : Prop where
  video : (f s).video = s.video
  store : ∀ x y, f (s.store x y) = (f s).store x y

variable {f g : Screen → Screen} {s : Screen}

theorem Blind.saved (h : Blind f s) : (f s).savedX = s.savedX ∧ (f s).savedY = s.savedY := by
  have hown : f s = (f s).store s.savedX s.savedY := h.store s.savedX s.savedY
  constructor
  · rw [hown]
    rfl
  · rw [hown]
    rfl

theorem Blind.at {t : Screen} {x y : ℕ} (h : Blind f s) (ht : t = s.store x y) :
    f t = (f s).store x y := by
  rw [ht]
  exact h.store x y

theorem Blind.congr (h : Blind f s) (hs : g s = f s) (hg : ∀ x y, g (s.store x y) = f (s.store x y)) :
    Blind g s := by
  refine ⟨?_, ?_⟩
  · rw [hs]
    exact h.video
  · intro x y
    rw [hg, hs]
    exact h.store x y

theorem Blind.comp (hg : Blind g (f s)) (hf : Blind f s) : Blind (fun s => g (f s)) s := by
  refine ⟨hg.video.trans hf.video, ?_⟩
  intro x y
  rw [hf.store, hg.store]

theorem Blind.iterate (hf : ∀ s, Blind f s) (n : ℕ) : Blind f^[n] s := by
  induction n generalizing s with
  | zero => exact ⟨rfl, fun _ _ => rfl⟩
  | succ n ih => exact Blind.comp (g := f^[n]) ih (hf s)

theorem Blind.ite {p : Screen → Prop} [DecidablePred p] (hp : ∀ x y, p (s.store x y) ↔ p s)
    (hf : Blind f s) (hg : Blind g s) : Blind (fun s => if p s then f s else g s) s := by
  by_cases h : p s
  · exact hf.congr (if_pos h) fun x y => if_pos ((hp x y).2 h)
  · exact hg.congr (if_neg h) fun x y => if_neg ((hp x y).not.2 h)

end Store

variable {s : Screen}

theorem gotoxy_blind (newX newY : ℕ) : Blind (gotoxy · newX newY) s :=
  .ite (fun _ _ => Iff.rfl) ⟨rfl, fun _ _ => rfl⟩ ⟨rfl, fun _ _ => rfl⟩

theorem scrupLines_blind : Blind scrupLines s := ⟨rfl, fun _ _ => rfl⟩

theorem scrdown_blind : Blind scrdown s := ⟨rfl, fun _ _ => rfl⟩

theorem scrup_blind : Blind scrup s := by
  refine .ite (fun _ _ => Iff.rfl) (.ite (fun _ _ => Iff.rfl) ?_ scrupLines_blind) scrupLines_blind
  exact .ite (fun _ _ => Iff.rfl) ⟨rfl, fun _ _ => rfl⟩ ⟨rfl, fun _ _ => rfl⟩

theorem lf_blind : Blind lf s := .ite (fun _ _ => Iff.rfl) ⟨rfl, fun _ _ => rfl⟩ scrup_blind

theorem ri_blind : Blind ri s := .ite (fun _ _ => Iff.rfl) ⟨rfl, fun _ _ => rfl⟩ scrdown_blind

theorem del_blind : Blind del s := .ite (fun _ _ => Iff.rfl) ⟨rfl, fun _ _ => rfl⟩ ⟨rfl, fun _ _ => rfl⟩

theorem csiJ_blind (par : ℕ) : Blind (csiJ · par) s := by
  rcases par with _ | _ | _ | n <;> exact ⟨rfl, fun _ _ => rfl⟩

theorem csiK_blind (par : ℕ) : Blind (csiK · par) s := by
  rcases par with _ | _ | _ | n
  · exact Blind.ite (p := fun s => s.x ≥ s.video.columns) (f := id)
      (g := fun s => erase s (subl s.video.columns s.x) s.pos)
      (fun _ _ => Iff.rfl) ⟨rfl, fun _ _ => rfl⟩ ⟨rfl, fun _ _ => rfl⟩
  all_goals exact ⟨rfl, fun _ _ => rfl⟩

theorem insertChar_blind : Blind insertChar s := ⟨rfl, fun _ _ => rfl⟩

theorem deleteChar_blind : Blind deleteChar s :=
  .ite (fun _ _ => Iff.rfl) ⟨rfl, fun _ _ => rfl⟩ ⟨rfl, fun _ _ => rfl⟩

theorem insertLine_blind : Blind insertLine s := ⟨rfl, fun _ _ => rfl⟩

theorem deleteLine_blind : Blind deleteLine s := by
  have h : Blind scrup { s with top := s.y, bottom := s.video.lines } := scrup_blind
  refine ⟨h.video, ?_⟩
  intro x y
  exact congrArg (fun t : Screen => { t with top := s.top, bottom := s.bottom }) (h.store x y)

theorem wrap_blind : Blind wrap s :=
  .comp (f := fun s => { s with x := subl s.x s.video.columns, pos := subl s.pos s.video.sizeRow })
    lf_blind ⟨rfl, fun _ _ => rfl⟩

theorem putChar_blind (c : ℕ) : Blind (putChar · c) s :=
  .comp (f := fun s => if s.x ≥ s.video.columns then wrap s else s)
    (g := fun s => { s with
      mem := s.mem.write s.pos (s.attr * 256 + c), pos := addl s.pos 2, x := addl s.x 1 })
    ⟨rfl, fun _ _ => rfl⟩ (.ite (fun _ _ => Iff.rfl) wrap_blind ⟨rfl, fun _ _ => rfl⟩)

theorem tab_blind : Blind tab s :=
  .comp (f := fun s => { s with
      x := addl s.x (8 - s.x % 8), pos := addl s.pos (mull (8 - s.x % 8) 2) })
    (g := fun s => if s.x > s.video.columns then wrap s else s)
    (.ite (fun _ _ => Iff.rfl) wrap_blind ⟨rfl, fun _ _ => rfl⟩) ⟨rfl, fun _ _ => rfl⟩

theorem plain_blind (eraseKey c : ℕ) : Blind (plain eraseKey · c) s := by
  refine .ite (fun _ _ => Iff.rfl) (putChar_blind c) ?_
  refine .ite (fun _ _ => Iff.rfl) ⟨rfl, fun _ _ => rfl⟩ ?_
  refine .ite (fun _ _ => Iff.rfl) lf_blind ?_
  refine .ite (fun _ _ => Iff.rfl) ⟨rfl, fun _ _ => rfl⟩ ?_
  refine .ite (fun _ _ => Iff.rfl) del_blind ?_
  refine .ite (fun _ _ => Iff.rfl) (.ite (fun _ _ => Iff.rfl) ⟨rfl, fun _ _ => rfl⟩ ⟨rfl, fun _ _ => rfl⟩) ?_
  refine .ite (fun _ _ => Iff.rfl) tab_blind ?_
  exact .ite (fun _ _ => Iff.rfl) ⟨rfl, fun _ _ => rfl⟩ ⟨rfl, fun _ _ => rfl⟩

theorem setRegion_blind : Blind setRegion s := by
  refine .comp (f := fun s => setPar s 0 (fromOne (s.par 0)))
    (g := fun s => (fun s => if s.par 0 < s.par 1 ∧ s.par 1 ≤ s.video.lines then
      { s with top := s.par 0, bottom := s.par 1 } else s)
      (if s.par 1 = 0 then setPar s 1 s.video.lines else s)) ?_ ⟨rfl, fun _ _ => rfl⟩
  refine .comp (f := fun s => if s.par 1 = 0 then setPar s 1 s.video.lines else s)
    (g := fun s => if s.par 0 < s.par 1 ∧ s.par 1 ≤ s.video.lines then
      { s with top := s.par 0, bottom := s.par 1 } else s) ?_ ?_
  · exact .ite (fun _ _ => Iff.rfl) ⟨rfl, fun _ _ => rfl⟩ ⟨rfl, fun _ _ => rfl⟩
  · exact .ite (fun _ _ => Iff.rfl) ⟨rfl, fun _ _ => rfl⟩ ⟨rfl, fun _ _ => rfl⟩

theorem csi_video (s : Screen) (c : ℕ) : (csi s c).video = s.video := by
  unfold csi
  simp only
  split
  case h_14 => exact (csiJ_blind _).video
  case h_15 => exact (csiK_blind _).video
  case h_16 => exact (Blind.iterate (fun _ => insertLine_blind) _).video
  case h_17 => exact (Blind.iterate (fun _ => deleteLine_blind) _).video
  case h_18 => exact (Blind.iterate (fun _ => deleteChar_blind) _).video
  case h_19 => exact (Blind.iterate (fun _ => insertChar_blind) _).video
  case h_21 => exact setRegion_blind.video
  case h_20 | h_22 | h_24 => rfl
  all_goals exact (gotoxy_blind _ _).video

theorem csi_blind {c : ℕ} (hsave : c ≠ 115) (hrestore : c ≠ 117) : Blind (csi · c) s := by
  refine ⟨csi_video s c, ?_⟩
  intro x y
  unfold csi
  simp only
  split
  · exact (gotoxy_blind _ _).at rfl
  · exact (gotoxy_blind _ _).at rfl
  · exact (gotoxy_blind _ _).at rfl
  · exact (gotoxy_blind _ _).at rfl
  · exact (gotoxy_blind _ _).at rfl
  · exact (gotoxy_blind _ _).at rfl
  · exact (gotoxy_blind _ _).at rfl
  · exact (gotoxy_blind _ _).at rfl
  · exact (gotoxy_blind _ _).at rfl
  · exact (gotoxy_blind _ _).at rfl
  · exact (gotoxy_blind _ _).at rfl
  · exact (gotoxy_blind _ _).at rfl
  · exact (gotoxy_blind _ _).at rfl
  · exact (csiJ_blind _).at rfl
  · exact (csiK_blind _).at rfl
  · exact (Blind.iterate (fun _ => insertLine_blind) _).at rfl
  · exact (Blind.iterate (fun _ => deleteLine_blind) _).at rfl
  · exact (Blind.iterate (fun _ => deleteChar_blind) _).at rfl
  · exact (Blind.iterate (fun _ => insertChar_blind) _).at rfl
  · rfl
  · exact setRegion_blind.at rfl
  · exact absurd rfl hsave
  · exact absurd rfl hrestore
  · rfl

theorem parameter_blind {c : ℕ} (hsave : c ≠ 115) (hrestore : c ≠ 117) :
    Blind (parameter · c) s :=
  .ite (fun _ _ => Iff.rfl) ⟨rfl, fun _ _ => rfl⟩
    (.ite (fun _ _ => Iff.rfl) ⟨rfl, fun _ _ => rfl⟩ (csi_blind hsave hrestore))

/-- The characters that `ESC` goes with, other than `7` and `8`. -/
def Known (c : ℕ) : Prop := c = 91 ∨ c = 69 ∨ c = 77 ∨ c = 68 ∨ c = 90

instance (c : ℕ) : Decidable (Known c) := inferInstanceAs (Decidable (_ ∨ _))

theorem escape_blind {c : ℕ} (h : Known c) : Blind (escape · c) s := by
  obtain rfl | rfl | rfl | rfl | rfl := h
  · exact ⟨rfl, fun _ _ => rfl⟩
  · have hgoto := gotoxy_blind (s := { s with state := 0 }) 0 (addl s.y 1)
    exact ⟨hgoto.video, fun x y => hgoto.store x y⟩
  · exact Blind.comp (f := fun s => { s with state := 0 }) ri_blind ⟨rfl, fun _ _ => rfl⟩
  · exact Blind.comp (f := fun s => { s with state := 0 }) lf_blind ⟨rfl, fun _ _ => rfl⟩
  · exact ⟨rfl, fun _ _ => rfl⟩

theorem escape_other {c : ℕ} (h : ¬Known c) : escape s c =
    if s.x = 55 then saveCur { s with state := 0 }
    else if s.x = 56 then restoreCur { s with state := 0 }
    else { s with state := 0 } := by
  simp only [Known, not_or] at h
  simp only [escape, h, if_false]

/-! ### Requests -/

/-- A byte for `con_write` together with the erase character of the terminal, or the end of a call. -/
inductive Event where
  | byte (eraseKey : ℕ) (c : UInt8)
  | done
  deriving DecidableEq

def step (s : Screen) : Event → Screen
  | .byte eraseKey c => putByte eraseKey s c.toNat
  | .done => setCursor s

/-- `c` ends a CSI sequence, or follows `ESC [` at once. -/
def EndsCsi (s : Screen) (c : ℕ) : Event → Prop
  | .byte _ b => 2 ≤ s.state ∧ s.state ≤ 4 ∧ b.toNat = c
  | .done => False

def FollowsEsc (s : Screen) (c : ℕ) : Event → Prop
  | .byte _ b => s.state = 1 ∧ b.toNat = c
  | .done => False

/-- `ESC 7` or `CSI s`. -/
def SaveRequest (s : Screen) (e : Event) : Prop := FollowsEsc s 55 e ∨ EndsCsi s 115 e

/-- `ESC 8` or `CSI u`. -/
def RestoreRequest (s : Screen) (e : Event) : Prop := FollowsEsc s 56 e ∨ EndsCsi s 117 e

/-- A byte after `ESC` that is no command of `con_write`, apart from `7` and `8`. -/
def Unknown (s : Screen) : Event → Prop
  | .byte _ b => s.state = 1 ∧ ¬Known b.toNat
  | .done => False

def Screen.at (s : Screen) : ℕ × ℕ := (s.x, s.y)

def Screen.saved (s : Screen) : ℕ × ℕ := (s.savedX, s.savedY)

/-- `pos` is the address of the cell under the cursor. -/
def Screen.Placed (s : Screen) : Prop := s.pos = s.origin + s.y * s.video.sizeRow + 2 * s.x

/-- An event does to the saved position what was asked for, and the saved position has no influence on
    any other event. -/
structure Right (s : Screen) (e : Event) : Prop where
  saves : SaveRequest s e → (step s e).saved = s.at
  keeps : ¬SaveRequest s e → (step s e).saved = s.saved
  restores : RestoreRequest s e → (step s e).at = s.saved ∧ (step s e).Placed
  moves : ¬SaveRequest s e → ¬RestoreRequest s e → ∀ x y,
    (step (s.store x y) e).at = (step s e).at ∧ (step (s.store x y) e).pos = (step s e).pos

/-- The cursor column agrees with the character when `con_write` decides whether to save or to restore,
    or what it does wrongly has no effect. -/
def Clear (s : Screen) : Event → Prop
  | .byte _ c => s.state = 1 → ¬Known c.toNat →
      c.toNat = 55 ∧ s.x = 55 ∨ c.toNat = 56 ∧ s.x = 56 ∨
      c.toNat ≠ 55 ∧ c.toNat ≠ 56 ∧ s.x ≠ 55 ∧ s.x ≠ 56 ∨
      s.saved = s.at ∧ (c.toNat = 55 ∨ c.toNat = 56 ∨ s.x ≠ 56)
  | .done => True

instance (s : Screen) : (e : Event) → Decidable (Clear s e)
  | .byte _ c => inferInstanceAs (Decidable (s.state = 1 → ¬Known c.toNat →
      c.toNat = 55 ∧ s.x = 55 ∨ c.toNat = 56 ∧ s.x = 56 ∨
      c.toNat ≠ 55 ∧ c.toNat ≠ 56 ∧ s.x ≠ 55 ∧ s.x ≠ 56 ∨
      s.saved = s.at ∧ (c.toNat = 55 ∨ c.toNat = 56 ∨ s.x ≠ 56)))
  | .done => inferInstanceAs (Decidable True)

/-- The saved position is on the screen. -/
structure Good (s : Screen) : Prop where
  inv : Inv s
  x_le : s.savedX ≤ s.video.columns
  y_lt : s.savedY < s.video.lines

section Steps

variable {e : Event} {k : ℕ} {c : UInt8}

theorem step_plain (h : s.state = 0) : step s (.byte k c) = plain k s c.toNat := by
  rw [step, putByte, h]
  rfl

theorem step_escape (h : s.state = 1) : step s (.byte k c) = escape s c.toNat := by
  rw [step, putByte, h]
  rfl

theorem step_first (h : s.state = 2) : step s (.byte k c) =
    if c.toNat = 63 then { s with par := fun _ => 0, npar := 0, state := 3, ques := c.toNat = 63 }
    else parameter { s with par := fun _ => 0, npar := 0, state := 3, ques := c.toNat = 63 } c.toNat := by
  rw [step, putByte, h]
  rfl

theorem step_parameter (h : s.state = 3) : step s (.byte k c) = parameter s c.toNat := by
  rw [step, putByte, h]
  rfl

theorem step_csi (h : s.state = 4) : step s (.byte k c) = csi s c.toNat := by
  rw [step, putByte, h]
  rfl

theorem step_none (h : 5 ≤ s.state) : step s (.byte k c) = s := by
  obtain ⟨n, hn⟩ := Nat.exists_eq_add_of_le' h
  rw [step, putByte, hn]
  rfl

theorem gotoxy_on (newX newY : ℕ) (hx : newX ≤ s.video.columns) (hy : newY < s.video.lines) :
    (gotoxy s newX newY).at = (newX, newY) ∧ (gotoxy s newX newY).state = s.state := by
  rw [gotoxy, if_neg (by omega)]
  exact ⟨rfl, rfl⟩

theorem restoreCur_at (hx : s.savedX ≤ s.video.columns) (hy : s.savedY < s.video.lines) :
    (restoreCur s).at = s.saved :=
  (gotoxy_on _ _ hx hy).1

theorem gotoxy_saved (newX newY : ℕ) : (gotoxy s newX newY).saved = s.saved := by
  unfold gotoxy
  split <;> rfl

/-- What comes to the end of a CSI sequence. -/
theorem step_ends {n : ℕ} (h : EndsCsi s n e) (hn : 64 ≤ n) :
    ∃ t, step s e = csi t n ∧ t.video = s.video ∧ t.at = s.at ∧ t.saved = s.saved := by
  cases e with
  | done => exact h.elim
  | byte k c =>
    obtain ⟨hlo, hhi, rfl⟩ := h
    have hpar (t : Screen) : parameter t c.toNat = csi t c.toNat := by
      rw [parameter, if_neg (by omega), if_neg (by omega)]
    obtain h2 | h3 | h4 : s.state = 2 ∨ s.state = 3 ∨ s.state = 4 := by omega
    · rw [step_first h2, if_neg (by omega), hpar]
      exact ⟨_, rfl, rfl, rfl, rfl⟩
    · rw [step_parameter h3, hpar]
      exact ⟨_, rfl, rfl, rfl, rfl⟩
    · rw [step_csi h4]
      exact ⟨_, rfl, rfl, rfl, rfl⟩

theorem ends_saves (h : EndsCsi s 115 e) : (step s e).saved = s.at := by
  obtain ⟨t, hstep, -, hat, -⟩ := step_ends h (by decide)
  rw [hstep, ← hat]
  rfl

theorem ends_restores (hs : Good s) (h : EndsCsi s 117 e) :
    (step s e).at = s.saved ∧ (step s e).saved = s.saved := by
  obtain ⟨t, hstep, hvideo, -, hsaved⟩ := step_ends h (by decide)
  have hrestore : csi t 117 = restoreCur { t with state := 0 } := rfl
  obtain ⟨hx, hy⟩ := Prod.mk.inj hsaved
  have hat := restoreCur_at (s := { t with state := 0 }) (by rw [hvideo, hx]; exact hs.x_le)
    (by rw [hvideo, hy]; exact hs.y_lt)
  rw [hstep, hrestore, hat]
  exact ⟨hsaved, (gotoxy_saved _ _).trans hsaved⟩

theorem step_blind (hs : ¬EndsCsi s 115 e) (hr : ¬EndsCsi s 117 e) (hu : ¬Unknown s e) :
    Blind (step · e) s := by
  cases e with
  | done => exact ⟨rfl, fun _ _ => rfl⟩
  | byte k c =>
    by_cases h0 : s.state = 0
    · exact (plain_blind k c.toNat).congr (step_plain h0) fun _ _ => step_plain h0
    by_cases h1 : s.state = 1
    · have hknown : Known c.toNat := by_contra fun h => hu ⟨h1, h⟩
      exact (escape_blind hknown).congr (step_escape h1) fun _ _ => step_escape h1
    by_cases h5 : 5 ≤ s.state
    · exact Blind.congr (f := id) ⟨rfl, fun _ _ => rfl⟩ (step_none h5) fun _ _ => step_none h5
    have hsave : c.toNat ≠ 115 := fun h => hs ⟨by omega, by omega, h⟩
    have hrestore : c.toNat ≠ 117 := fun h => hr ⟨by omega, by omega, h⟩
    obtain h2 | h3 | h4 : s.state = 2 ∨ s.state = 3 ∨ s.state = 4 := by omega
    · refine Blind.congr (Blind.comp
        (f := fun s => { s with par := fun _ => 0, npar := 0, state := 3, ques := c.toNat = 63 })
        (g := fun s => if c.toNat = 63 then s else parameter s c.toNat) ?_ ⟨rfl, fun _ _ => rfl⟩)
        (step_first h2) fun _ _ => step_first h2
      exact .ite (fun _ _ => Iff.rfl) ⟨rfl, fun _ _ => rfl⟩ (parameter_blind hsave hrestore)
    · exact (parameter_blind hsave hrestore).congr (step_parameter h3) fun _ _ => step_parameter h3
    · exact (csi_blind hsave hrestore).congr (step_csi h4) fun _ _ => step_csi h4

end Steps

/-! ### Every event -/

section Events

variable {e : Event} {k : ℕ} {c : UInt8}

theorem step_unknown (h : Unknown s (.byte k c)) : step s (.byte k c) =
    if s.x = 55 then saveCur { s with state := 0 }
    else if s.x = 56 then restoreCur { s with state := 0 }
    else { s with state := 0 } := by
  rw [step_escape h.1, escape_other h.2]

theorem unknown_saves (h : Unknown s (.byte k c)) (hx : s.x = 55) :
    (step s (.byte k c)).at = s.at ∧ (step s (.byte k c)).pos = s.pos ∧
      (step s (.byte k c)).saved = s.at := by
  rw [step_unknown h, if_pos hx]
  exact ⟨rfl, rfl, rfl⟩

theorem unknown_restores (hs : Good s) (h : Unknown s (.byte k c)) (hx : s.x = 56) :
    (step s (.byte k c)).at = s.saved ∧ (step s (.byte k c)).saved = s.saved := by
  rw [step_unknown h, if_neg (by omega), if_pos hx]
  exact ⟨restoreCur_at hs.x_le hs.y_lt, gotoxy_saved _ _⟩

theorem unknown_nothing (h : Unknown s (.byte k c)) (h55 : s.x ≠ 55) (h56 : s.x ≠ 56) :
    (step s (.byte k c)).at = s.at ∧ (step s (.byte k c)).pos = s.pos ∧
      (step s (.byte k c)).saved = s.saved := by
  rw [step_unknown h, if_neg h55, if_neg h56]
  exact ⟨rfl, rfl, rfl⟩

theorem step_saved (hs : Good s) (e : Event) :
    (step s e).saved = s.saved ∨ (step s e).saved = s.at := by
  by_cases hsave : EndsCsi s 115 e
  · exact .inr (ends_saves hsave)
  by_cases hrestore : EndsCsi s 117 e
  · exact .inl (ends_restores hs hrestore).2
  by_cases hu : Unknown s e
  · cases e with
    | done => exact hu.elim
    | byte k c =>
      by_cases h55 : s.x = 55
      · exact .inr (unknown_saves hu h55).2.2
      by_cases h56 : s.x = 56
      · exact .inl (unknown_restores hs hu h56).2
      · exact .inl (unknown_nothing hu h55 h56).2.2
  · have hsaved := (step_blind hsave hrestore hu).saved
    exact .inl (Prod.ext hsaved.1 hsaved.2)

theorem step_video (e : Event) : (step s e).video = s.video := by
  by_cases hsave : EndsCsi s 115 e
  · obtain ⟨t, hstep, hvideo, -⟩ := step_ends hsave (by decide)
    rw [hstep, csi_video, hvideo]
  by_cases hrestore : EndsCsi s 117 e
  · obtain ⟨t, hstep, hvideo, -⟩ := step_ends hrestore (by decide)
    rw [hstep, csi_video, hvideo]
  by_cases hu : Unknown s e
  · cases e with
    | done => exact hu.elim
    | byte k c =>
      rw [step_unknown hu]
      split_ifs
      · rfl
      · exact (gotoxy_blind _ _).video
      · rfl
  · exact (step_blind hsave hrestore hu).video

theorem Good.step (hs : Good s) (e : Event) : Good (step s e) := by
  have hinv : Inv (Console.step s e) := by
    cases e with
    | done => exact hs.inv.quiet rfl rfl rfl rfl rfl hs.inv.npar_lt rfl rfl rfl rfl
    | byte k c => exact hs.inv.putByte k c.toNat
  have hvideo : (Console.step s e).video = s.video := step_video e
  obtain h | h := step_saved hs e
  · obtain ⟨hx, hy⟩ := Prod.mk.inj h
    exact ⟨hinv, by rw [hx, hvideo]; exact hs.x_le, by rw [hy, hvideo]; exact hs.y_lt⟩
  · obtain ⟨hx, hy⟩ := Prod.mk.inj h
    exact ⟨hinv, by rw [hx, hvideo]; exact hs.inv.x_le, by rw [hy, hvideo]; exact hs.inv.y_lt⟩

theorem not_ends_of_follows {m n : ℕ} (h : FollowsEsc s m e) : ¬EndsCsi s n e := by
  cases e with
  | done => exact h.elim
  | byte k c =>
    intro hends
    have h1 := h.1
    have h2 := hends.1
    omega

theorem unknown_of_follows {n : ℕ} (h : FollowsEsc s n e) (hn : ¬Known n) : Unknown s e := by
  cases e with
  | done => exact h.elim
  | byte k c =>
    obtain ⟨h1, rfl⟩ := h
    exact ⟨h1, hn⟩

/-- Apart from what follows `ESC`, `con_write` is right. -/
theorem right_of_known (hs : Good s) (hu : ¬Unknown s e) : Right s e := by
  have hnosave : ¬FollowsEsc s 55 e := fun h => hu (unknown_of_follows h (by decide))
  have hnorestore : ¬FollowsEsc s 56 e := fun h => hu (unknown_of_follows h (by decide))
  have hsaves : SaveRequest s e ↔ EndsCsi s 115 e := or_iff_right hnosave
  have hrestores : RestoreRequest s e ↔ EndsCsi s 117 e := or_iff_right hnorestore
  refine ⟨fun h => ends_saves (hsaves.1 h), ?_, ?_, ?_⟩
  · intro h
    by_cases hrestore : EndsCsi s 117 e
    · exact (ends_restores hs hrestore).2
    · have hsaved := (step_blind (hsaves.not.1 h) hrestore hu).saved
      exact Prod.ext hsaved.1 hsaved.2
  · intro h
    exact ⟨(ends_restores hs (hrestores.1 h)).1, (hs.step e).inv.pos_eq⟩
  · intro h h' x y
    rw [(step_blind (hsaves.not.1 h) (hrestores.not.1 h') hu).store x y]
    exact ⟨rfl, rfl⟩

/-- A column other than the one that the restored cursor has. -/
theorem unknown_moves (hs : Good s) (h : Unknown s (.byte k c)) (hx : s.x = 56) :
    ∃ x y, (step (s.store x y) (.byte k c)).at ≠ (step s (.byte k c)).at := by
  have hwide := hs.inv.fits.wide
  refine ⟨if s.savedX = 0 then 1 else 0, s.savedY, ?_⟩
  have hle : (if s.savedX = 0 then 1 else 0) ≤ s.video.columns := by split <;> omega
  have hgood : Good (s.store (if s.savedX = 0 then 1 else 0) s.savedY) :=
    ⟨hs.inv.quiet rfl rfl rfl rfl rfl hs.inv.npar_lt rfl rfl rfl rfl, hle, hs.y_lt⟩
  rw [(unknown_restores hgood h hx).1, (unknown_restores hs h hx).1]
  intro heq
  have hsame : (if s.savedX = 0 then 1 else 0) = s.savedX := (Prod.mk.inj heq).1
  split at hsame <;> omega

theorem right_unknown (hs : Good s) (h : Unknown s (.byte k c)) :
    Right s (.byte k c) ↔ c.toNat = 55 ∧ s.x = 55 ∨ c.toNat = 56 ∧ s.x = 56 ∨
      c.toNat ≠ 55 ∧ c.toNat ≠ 56 ∧ s.x ≠ 55 ∧ s.x ≠ 56 ∨
      s.saved = s.at ∧ (c.toNat = 55 ∨ c.toNat = 56 ∨ s.x ≠ 56) := by
  have hsaves : SaveRequest s (.byte k c) ↔ c.toNat = 55 := by
    constructor
    · rintro (h' | h')
      · exact h'.2
      · exact absurd h' (not_ends_of_follows (m := c.toNat) ⟨h.1, rfl⟩)
    · exact fun h' => .inl ⟨h.1, h'⟩
  have hrestores : RestoreRequest s (.byte k c) ↔ c.toNat = 56 := by
    constructor
    · rintro (h' | h')
      · exact h'.2
      · exact absurd h' (not_ends_of_follows (m := c.toNat) ⟨h.1, rfl⟩)
    · exact fun h' => .inl ⟨h.1, h'⟩
  have hplaced := (hs.step (.byte k c)).inv.pos_eq
  constructor
  · intro hright
    by_cases h55 : s.x = 55
    · obtain ⟨hat, -, hsaved⟩ := unknown_saves h h55
      by_cases hc : c.toNat = 55
      · exact .inl ⟨hc, h55⟩
      · have hkeeps := hright.keeps (hsaves.not.2 hc)
        exact .inr (.inr (.inr ⟨hkeeps.symm.trans hsaved, .inr (.inr (by omega))⟩))
    by_cases h56 : s.x = 56
    · obtain ⟨hat, hsaved⟩ := unknown_restores hs h h56
      by_cases hc : c.toNat = 56
      · exact .inr (.inl ⟨hc, h56⟩)
      by_cases hc' : c.toNat = 55
      · have hsave := hright.saves (hsaves.2 hc')
        exact .inr (.inr (.inr ⟨hsaved.symm.trans hsave, .inl hc'⟩))
      · obtain ⟨x, y, hne⟩ := unknown_moves hs h h56
        exact absurd (hright.moves (hsaves.not.2 hc') (hrestores.not.2 hc) x y).1 hne
    · obtain ⟨hat, -, hsaved⟩ := unknown_nothing h h55 h56
      by_cases hc : c.toNat = 55
      · have hsave := hright.saves (hsaves.2 hc)
        exact .inr (.inr (.inr ⟨hsaved.symm.trans hsave, .inl hc⟩))
      by_cases hc' : c.toNat = 56
      · have hrestore := (hright.restores (hrestores.2 hc')).1
        exact .inr (.inr (.inr ⟨hrestore.symm.trans hat, .inr (.inl hc')⟩))
      · exact .inr (.inr (.inl ⟨hc, hc', h55, h56⟩))
  · intro hclear
    by_cases h55 : s.x = 55
    · obtain ⟨hat, -, hsaved⟩ := unknown_saves h h55
      have hsame : c.toNat ≠ 55 → s.saved = s.at := by
        intro hc
        obtain hclear | hclear | hclear | hclear := hclear <;> first | omega | exact hclear.1
      refine ⟨fun _ => hsaved, ?_, ?_, ?_⟩
      · intro hno
        rw [hsaved, hsame (hsaves.not.1 hno)]
      · intro hrestore
        have hc := hrestores.1 hrestore
        exact ⟨by rw [hat, hsame (by omega)], hplaced⟩
      · intro _ _ x y
        obtain ⟨hat', hpos', -⟩ := unknown_saves (s := s.store x y) (k := k) (c := c) h h55
        exact ⟨hat'.trans hat.symm, hpos'.trans (unknown_saves h h55).2.1.symm⟩
    by_cases h56 : s.x = 56
    · obtain ⟨hat, hsaved⟩ := unknown_restores hs h h56
      refine ⟨?_, fun _ => hsaved, fun _ => ⟨hat, hplaced⟩, ?_⟩
      · intro hsave
        have hc := hsaves.1 hsave
        obtain hclear | hclear | hclear | hclear := hclear <;>
          first | omega | exact hsaved.trans hclear.1
      · intro hno hno'
        have hc := hsaves.not.1 hno
        have hc' := hrestores.not.1 hno'
        omega
    · obtain ⟨hat, hpos, hsaved⟩ := unknown_nothing h h55 h56
      have hsame : c.toNat = 55 ∨ c.toNat = 56 → s.saved = s.at := by
        intro hc
        obtain hclear | hclear | hclear | hclear := hclear <;> first | omega | exact hclear.1
      refine ⟨?_, fun _ => hsaved, ?_, ?_⟩
      · intro hsave
        rw [hsaved, hsame (.inl (hsaves.1 hsave))]
      · intro hrestore
        exact ⟨by rw [hat, hsame (.inr (hrestores.1 hrestore))], hplaced⟩
      · intro _ _ x y
        obtain ⟨hat', hpos', -⟩ := unknown_nothing (s := s.store x y) (k := k) (c := c) h h55 h56
        exact ⟨hat'.trans hat.symm, hpos'.trans hpos.symm⟩

theorem right_iff (hs : Good s) (e : Event) : Right s e ↔ Clear s e := by
  by_cases hu : Unknown s e
  · cases e with
    | done => exact hu.elim
    | byte k c => exact (right_unknown hs hu).trans ⟨fun h _ _ => h, fun h => h hu.1 hu.2⟩
  · refine iff_of_true (right_of_known hs hu) ?_
    cases e with
    | done => trivial
    | byte k c => exact fun h1 hc => absurd ⟨h1, hc⟩ hu

end Events

/-! ### Every stream -/

section Streams

variable {l : List Event}

/-- A property of every event of a stream and of the screen that it finds. -/
def Throughout (P : Screen → Event → Prop) (s : Screen) (l : List Event) : Prop :=
  ∀ before e after, l = before ++ e :: after → P (before.foldl step s) e

/-- After a save request, any bytes without a further one, and a restore request, the cursor is back. -/
def Returns (s : Screen) (l : List Event) : Prop :=
  ∀ before save between restore after, l = before ++ save :: (between ++ restore :: after) →
    SaveRequest (before.foldl step s) save →
    Throughout (fun s e => ¬SaveRequest s e) ((before ++ [save]).foldl step s) between →
    RestoreRequest ((before ++ save :: between).foldl step s) restore →
    ((before ++ save :: (between ++ [restore])).foldl step s).at = (before.foldl step s).at ∧
      ((before ++ save :: (between ++ [restore])).foldl step s).Placed

theorem Throughout.tail {P : Screen → Event → Prop} {e : Event}
    (h : Throughout P s (e :: l)) : Throughout P (step s e) l := by
  intro before e' after hl
  exact h (e :: before) e' after (by rw [hl, List.cons_append])

theorem Throughout.nil {P : Screen → Event → Prop} : Throughout P s [] := by
  intro before e after hl
  simp at hl

theorem Throughout.cons {P : Screen → Event → Prop} {e : Event} (he : P s e)
    (h : Throughout P (step s e) l) : Throughout P s (e :: l) := by
  intro before e' after hl
  cases before with
  | nil =>
    obtain ⟨rfl, -⟩ := List.cons_eq_cons.1 hl
    exact he
  | cons b before =>
    obtain ⟨rfl, htail⟩ := List.cons_eq_cons.1 hl
    exact h before e' after htail

theorem Throughout.suffix {P : Screen → Event → Prop} {before : List Event}
    (h : Throughout P s (before ++ l)) : Throughout P (before.foldl step s) l := by
  induction before generalizing s with
  | nil => exact h
  | cons e before ih => exact ih h.tail

theorem Throughout.front {P : Screen → Event → Prop} {after : List Event}
    (h : Throughout P s (l ++ after)) : Throughout P s l := by
  intro before e rest hl
  exact h before e (rest ++ after) (by rw [hl, List.append_assoc, List.cons_append])

theorem Throughout.head {P : Screen → Event → Prop} {e : Event} (h : Throughout P s (e :: l)) :
    P s e :=
  h [] e l rfl

theorem saved_kept (h : Throughout Right s l) (hno : Throughout (fun s e => ¬SaveRequest s e) s l) :
    (l.foldl step s).saved = s.saved := by
  induction l generalizing s with
  | nil => rfl
  | cons e l ih => exact (ih h.tail hno.tail).trans (h.head.keeps hno.head)

theorem returns_of_right (h : Throughout Right s l) : Returns s l := by
  rintro before save between restore after rfl hsave hno hrestore
  have hsuffix := h.suffix
  have hkept := saved_kept hsuffix.tail.front (by rw [List.foldl_append] at hno; exact hno)
  have hlast := hsuffix.tail.suffix.head
  have hsaved := hsuffix.head.saves hsave
  rw [List.foldl_append, List.foldl_cons] at hrestore
  rw [List.foldl_append, List.foldl_cons, List.foldl_append, List.foldl_cons, List.foldl_nil]
  obtain ⟨hat, hplaced⟩ := hlast.restores hrestore
  exact ⟨hat.trans (hkept.trans hsaved), hplaced⟩

theorem throughout_iff (hs : Good s) : Throughout Right s l ↔ Throughout Clear s l := by
  have hgood : ∀ before : List Event, Good (before.foldl step s) := by
    intro before
    induction before generalizing s with
    | nil => exact hs
    | cons e before ih => exact ih (hs.step e)
  constructor
  · intro h before e after hl
    exact (right_iff (hgood before) e).1 (h before e after hl)
  · intro h before e after hl
    exact (right_iff (hgood before) e).2 (h before e after hl)

theorem conInit_good {b : Boot} (h : b.Fits) (hb : b.OnScreen) (cell : ℕ → ℕ) :
    Good (conInit b cell) := by
  have hinv := conInit_inv h hb cell
  have hsaved : (conInit b cell).saved = (0, 0) := gotoxy_saved _ _
  obtain ⟨hx, hy⟩ := Prod.mk.inj hsaved
  exact ⟨hinv, by rw [hx]; exact Nat.zero_le _, by rw [hy]; exact hinv.fits.some⟩

/-- The saved cursor is kept and given back if and only if the column of the cursor agrees with the
    character whenever `con_write` compares it in the place of the character. -/
theorem saved_cursor_iff {b : Boot} (h : b.Fits) (hb : b.OnScreen) (cell : ℕ → ℕ) (l : List Event) :
    Returns (conInit b cell) l ∧ Throughout Right (conInit b cell) l ↔
      Throughout Clear (conInit b cell) l := by
  have hiff := throughout_iff (l := l) (conInit_good h hb cell)
  constructor
  · exact fun hright => hiff.1 hright.2
  · exact fun hclear => ⟨returns_of_right (hiff.2 hclear), hiff.2 hclear⟩

/-- `ESC 7` in column 55 and, one letter on, `ESC 8` in column 56. -/
theorem saved_cursor_iff_color :
    Returns (conInit (colorBoot 55 3) fun _ => 0)
        [.byte 127 27, .byte 127 55, .byte 127 65, .byte 127 27, .byte 127 56] ∧
      Throughout Right (conInit (colorBoot 55 3) fun _ => 0)
        [.byte 127 27, .byte 127 55, .byte 127 65, .byte 127 27, .byte 127 56] :=
  (saved_cursor_iff (colorBoot_fits 55 3) (by decide) _ _).mpr <|
    .cons (by decide +kernel) <| .cons (by decide +kernel) <| .cons (by decide +kernel) <|
      .cons (by decide +kernel) <| .cons (by decide +kernel) .nil

/-- `ESC 7` and `ESC 8` are lost in all columns but two. -/
theorem escape_ignored {k : ℕ} {c : UInt8} (h : s.state = 0) (hc : ¬Known c.toNat) (h55 : s.x ≠ 55)
    (h56 : s.x ≠ 56) :
    step (step s (.byte k 27)) (.byte k c) = { s with state := 0 } := by
  have hesc : step s (.byte k 27) = { s with state := 1 } := step_plain h
  rw [hesc, step_unknown ⟨rfl, hc⟩, if_neg h55, if_neg h56]

theorem not_saveRequest {e : Event} (h : s.state = 0) : ¬SaveRequest s e := by
  cases e with
  | done => exact fun hsave => hsave.elim id id
  | byte k c =>
    rintro (hsave | hsave)
    · exact absurd hsave.1 (by omega)
    · exact absurd hsave.1 (by omega)

/-- The cursor is saved in column 3, and a carriage return follows: it stays in column 0. -/
theorem return_lost (h : s.state = 0) (hx : s.x = 3) :
    ¬Returns s [.byte 127 27, .byte 127 55, .byte 127 13, .byte 127 27, .byte 127 56] := by
  intro hreturns
  have hesc : step s (.byte 127 27) = { s with state := 1 } := step_plain h
  have hsave := escape_ignored (s := s) (k := 127) (c := 55) h (by decide) (by omega) (by omega)
  have hreturn : step { s with state := 0 } (.byte 127 13) = cr { s with state := 0 } :=
    step_plain rfl
  have hesc' : step (cr { s with state := 0 }) (.byte 127 27) =
      { cr { s with state := 0 } with state := 1 } := step_plain rfl
  have hrestore := escape_ignored (s := cr { s with state := 0 }) (k := 127) (c := 56) rfl
    (by decide) (Nat.zero_ne_add_one _) (Nat.zero_ne_add_one _)
  have hbetween : Throughout (fun s e => ¬SaveRequest s e) { s with state := 0 }
      [.byte 127 13, .byte 127 27] := by
    intro before e after hl
    rcases before with _ | ⟨b, _ | ⟨b', before⟩⟩
    · exact not_saveRequest rfl
    · obtain ⟨rfl, -⟩ := List.cons_eq_cons.1 hl
      rw [List.foldl_cons, List.foldl_nil, hreturn]
      exact not_saveRequest rfl
    · simp at hl
  obtain ⟨hat, -⟩ := hreturns [.byte 127 27] (.byte 127 55) [.byte 127 13, .byte 127 27]
    (.byte 127 56) [] rfl (.inl ⟨congrArg Screen.state hesc, rfl⟩)
    (by
      rw [List.cons_append, List.nil_append, List.foldl_cons, List.foldl_cons, List.foldl_nil, hsave]
      exact hbetween)
    (.inl ⟨by
      simp only [List.cons_append, List.nil_append, List.foldl_cons, List.foldl_nil]
      rw [hsave, hreturn, hesc'], rfl⟩)
  simp only [List.cons_append, List.nil_append, List.foldl_cons, List.foldl_nil] at hat
  rw [hsave, hreturn, hrestore, hesc] at hat
  have hcol : 0 = s.x := (Prod.mk.inj hat).1
  omega

theorem cursor_not_restored : (colorBoot 3 0).Fits ∧ (colorBoot 3 0).OnScreen ∧
    ¬Returns (conInit (colorBoot 3 0) fun _ => 0)
      [.byte 127 27, .byte 127 55, .byte 127 13, .byte 127 27, .byte 127 56] := by
  refine ⟨colorBoot_fits 3 0, by decide, ?_⟩
  obtain ⟨hat, hstate⟩ := gotoxy_on (s := conStart (colorBoot 3 0) fun _ => 0) 3 0
    (by decide) (by decide)
  exact return_lost hstate (Prod.mk.inj hat).1

end Streams

end Linux011.Console
