import Linux011.ConsoleSafety
import Mathlib

set_option autoImplicit false

/-! # Every byte written to the console -/
namespace Linux011.Console

variable {s : Screen}

theorem scrup_x (s : Screen) : (scrup s).x = s.x := by
  unfold Console.scrup
  split
  · split
    · dsimp only
      split <;> rfl
    · rfl
  · rfl

theorem lf_x (s : Screen) : (lf s).x = s.x := by
  unfold Console.lf
  split
  · rfl
  · exact scrup_x s

theorem lf_video (s : Screen) : (lf s).video = s.video := by
  unfold Console.lf
  split
  · rfl
  · exact scrup_video s

/-- A column behind the last one is a column of the next line. -/
theorem Inv.wrap (h : Inv s) {x pos : ℕ} (hx : s.video.columns ≤ x)
    (hx' : x ≤ s.video.columns + s.video.columns)
    (hp : pos = s.origin + s.y * s.video.sizeRow + 2 * x) (hw : pos < WORD) :
    Inv (wrap { s with x := x, pos := pos }) ∧
      (wrap { s with x := x, pos := pos }).x = x - s.video.columns := by
  have hrow := h.fits.row
  have hxs : subl x s.video.columns = x - s.video.columns := subl_eq hx (by omega)
  have hps : subl pos s.video.sizeRow = pos - s.video.sizeRow := subl_eq (by omega) hw
  unfold Console.wrap
  rw [lf_x]
  simp only [hxs, hps]
  exact ⟨(h.moveX (by omega) (by omega)).lf, trivial⟩

/-- The cursor is brought into the line before a character is written. -/
theorem Inv.room (h : Inv s) : Inv (if s.x ≥ s.video.columns then Console.wrap s else s) ∧
    (if s.x ≥ s.video.columns then Console.wrap s else s).x < s.video.columns ∧
    (if s.x ≥ s.video.columns then Console.wrap s else s).video = s.video := by
  have hx := h.x_le
  have hwide := h.fits.wide
  split
  · next hfull =>
    obtain ⟨hinv, hcol⟩ := h.wrap hfull (by omega) h.pos_eq
      (by have := h.small.2; omega)
    refine ⟨hinv, ?_, lf_video _⟩
    have hcol : (Console.wrap s).x = s.x - s.video.columns := hcol
    omega
  · exact ⟨h, by omega, rfl⟩

theorem Inv.putChar (h : Inv s) (c : ℕ) : Inv (putChar s c) := by
  obtain ⟨hinv, hcol, hv⟩ := h.room
  unfold Console.putChar
  simp only
  generalize (if s.x ≥ s.video.columns then Console.wrap s else s) = s' at hinv hcol hv ⊢
  obtain ⟨hlo, hhi⟩ := hinv.cursor
  have hpos := hinv.pos_eq
  have hsmall := hinv.small.2
  have hrow := hinv.fits.row
  have hwide := hinv.fits.wide
  rw [← hv] at hcol
  rw [addl_eq (by omega : s'.pos + 2 < WORD), addl_eq (by omega : s'.x + 1 < WORD)]
  exact (hinv.moveX hcol (by omega)).mem (hinv.inside.write (by omega) (by omega) _)

theorem Inv.tab (h : Inv s) : Inv (tab s) := by
  have hx := h.x_le
  have hpos := h.pos_eq
  have hsmall := h.small.2
  have hrow := h.fits.row
  have hwide := h.fits.wide
  have hmod := Nat.mod_lt s.x (by omega : 8 > 0)
  have hadd : addl s.x (8 - s.x % 8) = s.x + (8 - s.x % 8) := addl_eq (by omega)
  have hmul : mull (8 - s.x % 8) 2 = 2 * (8 - s.x % 8) := by
    rw [mull_eq (by omega), Nat.mul_comm]
  have hp : addl s.pos (2 * (8 - s.x % 8)) = s.pos + 2 * (8 - s.x % 8) := addl_eq (by omega)
  unfold Console.tab
  simp only [hadd, hmul, hp]
  split
  · next hgt =>
    have hgt : s.x + (8 - s.x % 8) > s.video.columns := hgt
    exact (h.wrap (by omega) (by omega) (by omega) (by omega)).1
  · next hle =>
    have hle : ¬ s.x + (8 - s.x % 8) > s.video.columns := hle
    exact h.moveX (by omega) (by omega)

/-- States of the escape sequence, registers and queues have no part in the invariant. -/
theorem Inv.quiet (h : Inv s) {s' : Screen} (hv : s'.video = s.video) (hx : s'.x = s.x)
    (hy : s'.y = s.y) (ht : s'.top = s.top) (hb : s'.bottom = s.bottom) (hn : s'.npar < NPAR)
    (hp : s'.pos = s.pos) (he : s'.scrEnd = s.scrEnd) (ho : s'.origin = s.origin)
    (hm : s'.mem = s.mem) : Inv s' := by
  refine ⟨?_, ?_, ?_, ?_, ?_, hn, ?_, ?_, ?_, ?_, ?_⟩
  · rw [hv]
    exact h.fits
  · rw [hx, hv]
    exact h.x_le
  · rw [hy, hv]
    exact h.y_lt
  · rw [ht, hb]
    exact h.top_lt
  · rw [hb, hv]
    exact h.bottom_le
  · rw [hp, ho, hy, hv, hx]
    exact h.pos_eq
  · rw [he, ho, hv]
    exact h.scrEnd_eq
  · rw [hv, ho]
    exact h.start_le
  · rw [he, hv]
    exact h.end_le
  · rw [hm, hv]
    exact h.inside

theorem Inv.plain (h : Inv s) (eraseKey c : ℕ) : Inv (plain eraseKey s c) := by
  fun_cases Console.plain eraseKey s c
  · exact h.putChar c
  · exact h.quiet rfl rfl rfl rfl rfl h.npar_lt rfl rfl rfl rfl
  · exact h.lf
  · exact h.cr
  · exact h.del
  · next hx => exact (h.back hx).2
  · exact h
  · exact h.tab
  · exact h.quiet rfl rfl rfl rfl rfl h.npar_lt rfl rfl rfl rfl
  · exact h

theorem Inv.setPar (h : Inv s) (i n : ℕ) : Inv (setPar s i n) :=
  h.quiet rfl rfl rfl rfl rfl h.npar_lt rfl rfl rfl rfl

theorem Inv.state (h : Inv s) (n : ℕ) : Inv { s with state := n } :=
  h.quiet rfl rfl rfl rfl rfl h.npar_lt rfl rfl rfl rfl

theorem Inv.saveCur (h : Inv s) : Inv (saveCur s) :=
  h.quiet rfl rfl rfl rfl rfl h.npar_lt rfl rfl rfl rfl

theorem Inv.escape (h : Inv s) (c : ℕ) : Inv (escape s c) := by
  have h₀ := h.state 0
  unfold Console.escape
  dsimp only
  split_ifs
  · exact h.state 2
  · exact h₀.gotoxy _ _
  · exact h₀.ri
  · exact h₀.lf
  · exact h₀.quiet rfl rfl rfl rfl rfl h.npar_lt rfl rfl rfl rfl
  · exact h₀.saveCur
  · exact h₀.gotoxy _ _
  · exact h₀

theorem Inv.setRegion (h : Inv s) : Inv (setRegion s) := by
  have h₁ := h.setPar 0 (fromOne (s.par 0))
  unfold Console.setRegion
  simp only
  split
  · have h₂ := h₁.setPar 1 s.video.lines
    split
    · next hlt => exact { h₂ with top_lt := hlt.1, bottom_le := hlt.2 }
    · exact h₂
  · split
    · next hlt => exact { h₁ with top_lt := hlt.1, bottom_le := hlt.2 }
    · exact h₁

theorem Inv.csi (h : Inv s) (c : ℕ) : Inv (csi s c) := by
  have h₀ := h.state 0
  have hone := h₀.setPar 0 (atLeastOne (s.par 0))
  have hzero := h₀.setPar 0 (fromOne (s.par 0))
  unfold Console.csi
  simp only
  split
  · exact hzero.gotoxy _ _
  · exact hzero.gotoxy _ _
  · exact hone.gotoxy _ _
  · exact hone.gotoxy _ _
  · exact hone.gotoxy _ _
  · exact hone.gotoxy _ _
  · exact hone.gotoxy _ _
  · exact hone.gotoxy _ _
  · exact hone.gotoxy _ _
  · exact hone.gotoxy _ _
  · exact hzero.gotoxy _ _
  · exact (hzero.setPar 1 _).gotoxy _ _
  · exact (hzero.setPar 1 _).gotoxy _ _
  · exact h₀.csiJ _
  · exact h₀.csiK _
  · exact h₀.iterate (fun _ h => h.insertLine) _
  · exact h₀.iterate (fun _ h => h.deleteLine) _
  · exact h₀.iterate (fun _ h => h.deleteChar) _
  · exact h₀.iterate (fun _ h => h.insertChar) _
  · exact h₀.quiet rfl rfl rfl rfl rfl h.npar_lt rfl rfl rfl rfl
  · exact h₀.setRegion
  · exact h₀.saveCur
  · exact h₀.gotoxy _ _
  · exact h₀

theorem Inv.parameter (h : Inv s) (c : ℕ) : Inv (parameter s c) := by
  unfold Console.parameter
  split
  · next hc =>
    refine h.quiet rfl rfl rfl rfl rfl ?_ rfl rfl rfl rfl
    change s.npar + 1 < NPAR
    omega
  · split
    · exact h.setPar _ _
    · exact h.csi c

theorem Inv.putByte (h : Inv s) (eraseKey c : ℕ) : Inv (putByte eraseKey s c) := by
  unfold Console.putByte
  split
  · exact h.plain eraseKey c
  · exact h.escape c
  · have h₂ : Inv { s with par := fun _ => 0, npar := 0, state := 3, ques := c = 63 } :=
      h.quiet rfl rfl rfl rfl rfl (Nat.succ_pos 15) rfl rfl rfl rfl
    simp only
    split
    · exact h₂
    · exact h₂.parameter c
  · exact h.parameter c
  · exact h.csi c
  · exact h

theorem Inv.bytes (h : Inv s) (eraseKey : ℕ) (l : List UInt8) :
    Inv (l.foldl (fun s c => Console.putByte eraseKey s c.toNat) s) := by
  induction l generalizing s with
  | nil => exact h
  | cons c l ih => exact ih (h.putByte eraseKey c.toNat)

theorem Inv.conWrite (h : Inv s) (chunk : ℕ × List UInt8) : Inv (conWrite s chunk) := by
  have hl := h.bytes chunk.1 chunk.2
  exact hl.quiet rfl rfl rfl rfl rfl hl.npar_lt rfl rfl rfl rfl

theorem Inv.run (h : Inv s) (chunks : List (ℕ × List UInt8)) :
    Inv (chunks.foldl Console.conWrite s) := by
  induction chunks generalizing s with
  | nil => exact h
  | cons chunk chunks ih => exact ih (h.conWrite chunk)

/-! ### From `con_init` on -/

/-- What the claims of the boot code come to: an even number of columns, at least eight, and a
    screen that is not larger than the memory of the display. -/
structure Boot.Fits (b : Boot) : Prop where
  even : b.columns % 2 = 0
  wide : 8 ≤ b.columns
  fits : ORIG_VIDEO_LINES * (2 * b.columns) ≤ (display b).2.2.1 - (display b).2.1

/-- The cursor of the BIOS is on the screen, or right behind a line of it. -/
def Boot.OnScreen (b : Boot) : Prop :=
  b.origX.toNat ≤ b.columns ∧ b.origY.toNat < ORIG_VIDEO_LINES

instance (b : Boot) : Decidable b.OnScreen := inferInstanceAs (Decidable (_ ∧ _))

theorem WORD_eq : WORD = 4294967296 := by
  unfold WORD
  rfl

/-- The four kinds of display. -/
theorem display_cases (b : Boot) :
    4 ≤ (display b).2.1 ∧ (display b).2.1 ≤ (display b).2.2.1 ∧ (display b).2.2.1 ≤ 0xbc000 ∧
      (display b).2.2.2.length = 4 := by
  unfold display
  split_ifs <;> decide

theorem Boot.Fits.video {b : Boot} (h : b.Fits) : (video b).Fits ∧ (video b).lines = 25 ∧
    (video b).columns = b.columns ∧ b.columns ≤ 255 := by
  obtain ⟨h1, h2, h3, -⟩ := display_cases b
  have hcol : b.columns ≤ 255 := by
    have := b.videoMode.toNat_lt
    unfold Boot.columns
    omega
  have hfits := h.fits
  have hrow : mull b.columns 2 = 2 * b.columns := by
    rw [mull_eq (by rw [WORD_eq]; omega), Nat.mul_comm]
  refine ⟨⟨hrow, h.even, h.wide, Nat.succ_pos 24, ?_, h1, ?_⟩, rfl, rfl, hcol⟩
  · change (display b).2.1 + ORIG_VIDEO_LINES * mull b.columns 2 ≤ (display b).2.2.1
    rw [hrow]
    omega
  · change (display b).2.2.1 + (display b).2.2.1 < WORD
    rw [WORD_eq]
    omega

/-- `con_init` puts the cursor where the BIOS had it, if that is on the screen. -/
theorem conInit_inv {b : Boot} (h : b.Fits) (hb : b.OnScreen) (cell : ℕ → ℕ) :
    Inv (conInit b cell) := by
  obtain ⟨hv, hlines, hcols, -⟩ := h.video
  have hfits := hv.fits
  have hrow := hv.row
  have hword := hv.word
  have hlow := hv.low
  have hwide := hv.wide
  have hscr : addl (video b).memStart (mull (video b).lines (video b).sizeRow) =
      (video b).memStart + (video b).lines * (video b).sizeRow := by
    rw [mull_eq (by omega), addl_eq (by omega)]
  have hone := Nat.le_mul_of_pos_left (video b).sizeRow hv.some
  -- `gotoxy` does not look at `pos`
  have hstart : Inv { conStart b cell with pos := (video b).memStart } := by
    refine ⟨hv, Nat.zero_le _, hv.some, hv.some, le_refl _, Nat.succ_pos 15, ?_, hscr, le_refl _, ?_, ?_⟩
    · change (video b).memStart = (video b).memStart + 0 * (video b).sizeRow + 2 * 0
      omega
    · change addl (video b).memStart (mull (video b).lines (video b).sizeRow) ≤ (video b).memEnd
      rw [hscr]
      exact hfits
    · have hlen := (display_cases b).2.2.2
      change (VideoMemory.showText (display b).2.2.2
        (subl (addl (video b).memStart (video b).sizeRow) 8) ⟨cell, []⟩).Inside
          (video b).memStart (video b).memEnd
      rw [addl_eq (by omega), subl_eq (by omega) (by omega)]
      exact VideoMemory.Inside.showText (by omega) _ (fun a ha => absurd ha List.not_mem_nil)
        (by omega) (by rw [hlen]; omega)
  obtain ⟨hx, hy⟩ := hb
  have hin : ¬ (b.origX.toNat > (video b).columns ∨ b.origY.toNat ≥ (video b).lines) := by
    rw [hcols, hlines]
    unfold ORIG_VIDEO_LINES at hy
    omega
  have hsame : gotoxy { conStart b cell with pos := (video b).memStart } b.origX.toNat b.origY.toNat =
      conInit b cell := (if_neg hin).trans (if_neg hin).symm
  rw [← hsame]
  exact hstart.gotoxy _ _

/-- `gotoxy` refuses a position off the screen, and `pos` stays `0`. -/
theorem conInit_lost {b : Boot} (h : b.Fits) (hb : ¬ b.OnScreen) (cell : ℕ → ℕ) :
    conInit b cell = conStart b cell := by
  obtain ⟨-, hlines, hcols, -⟩ := h.video
  have hout : b.origX.toNat > (video b).columns ∨ b.origY.toNat ≥ (video b).lines := by
    rw [hcols, hlines]
    unfold Boot.OnScreen ORIG_VIDEO_LINES at hb
    omega
  exact if_pos hout

/-- All is well after every byte of every stream, in whatever chunks it is written. -/
def SafeAfterBytes (b : Boot) (cell : ℕ → ℕ) : Prop :=
  ∀ (chunks : List (ℕ × List UInt8)) (eraseKey : ℕ) (l : List UInt8) (c : UInt8),
    Safe (putByte eraseKey (l.foldl (fun s c => putByte eraseKey s c.toNat)
      (chunks.foldl conWrite (conInit b cell))) c.toNat)

theorem Boot.Fits.lost {b : Boot} (h : b.Fits) (hb : ¬ b.OnScreen) (cell : ℕ → ℕ) :
    ¬ SafeAfterBytes b cell := by
  intro hall
  have hlow := h.video.1.low
  have hsafe := hall [] 127 [] 7
  change Safe (putByte 127 (conInit b cell) 7) at hsafe
  rw [conInit_lost h hb cell] at hsafe
  -- a bell leaves the position as it is
  change Safe (sysbeep (conStart b cell)) at hsafe
  have hpos : 0 = (Console.video b).memStart + 0 * (Console.video b).sizeRow + 2 * 0 := hsafe.pos_eq
  omega

/-- The console stays in video memory if and only if the BIOS has left the cursor on the screen. -/
theorem con_write_safe {b : Boot} (h : b.Fits) (cell : ℕ → ℕ) :
    SafeAfterBytes b cell ↔ b.OnScreen := by
  constructor
  · intro hall
    by_contra hb
    exact h.lost hb cell hall
  · intro hb chunks eraseKey l c
    have hrun := (conInit_inv h hb cell).run chunks
    exact ((hrun.bytes eraseKey l).putByte _ _).safe

/-- A color display with eighty columns. -/
def colorBoot (origX origY : UInt8) : Boot := ⟨origX, origY, 20483, 0⟩

theorem colorBoot_fits (origX origY : UInt8) : (colorBoot origX origY).Fits := by
  have hcols : (colorBoot origX origY).columns = 80 := by simp [Boot.columns, colorBoot]
  have hdisplay : display (colorBoot origX origY) = (.egac, 0xb8000, 0xbc000, [69, 71, 65, 99]) := by
    simp [display, colorBoot]
  refine ⟨?_, ?_, ?_⟩
  · rw [hcols]
  · rw [hcols]
    decide
  · rw [hcols, hdisplay]
    decide

theorem con_write_safe_color : SafeAfterBytes (colorBoot 0 10) (fun _ => 0) :=
  (con_write_safe (colorBoot_fits 0 10) _).mpr (by decide)

/-- The cursor was in line 30 of a screen with more lines: the first character goes to address 0. -/
theorem written_to_zero :
    (colorBoot 0 30).Fits ∧ ¬ SafeAfterBytes (colorBoot 0 30) (fun _ => 0) ∧
      0 ∈ (putByte 127 (conInit (colorBoot 0 30) fun _ => 0) 65).mem.touched := by
  have hfits := colorBoot_fits 0 30
  refine ⟨hfits, hfits.lost (by decide) _, ?_⟩
  rw [conInit_lost hfits (by decide)]
  change 0 ∈ (putChar (conStart (colorBoot 0 30) fun _ => 0) 65).mem.touched
  unfold putChar
  rw [if_neg (by decide)]
  exact List.mem_cons_self

end Linux011.Console
