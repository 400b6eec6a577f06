import Linux011.ConsolePicture
import Linux011.ConsoleRuns
import Mathlib

set_option autoImplicit false

/-!
# Scrolling by the hardware and by copying

Every operation of the console does to the screen what it does to the picture, whether the display
scrolls by moving `origin` or by copying lines.
-/
namespace Linux011.Console

/-! ### String instructions -/

section VideoMemory
variable {m : VideoMemory} {o : ℕ}

theorem cells_write (k v : ℕ) : (m.write (o + 2 * k) v).cells o = fillCells k 1 v (m.cells o) := by
  funext i
  simp only [VideoMemory.cells, VideoMemory.write, fillCells, Function.update_apply]
  split_ifs <;> first | rfl | omega

theorem cells_stosw_up (v n : ℕ) {k : ℕ} (hw : o + 2 * (k + n) < WORD) :
    (m.stosw true v n (o + 2 * k)).cells o = fillCells k n v (m.cells o) := by
  induction n generalizing m k with
  | zero => exact (fillCells_zero k v _).symm
  | succ n ih =>
    have hnext : addl (o + 2 * k) 2 = o + 2 * (k + 1) := addl_eq (by omega)
    simp only [VideoMemory.stosw, VideoMemory.forward, if_true, hnext]
    rw [ih (by omega), cells_write]
    funext i
    simp only [fillCells]
    split_ifs <;> first | rfl | omega

theorem cells_stosw_down (v n : ℕ) {k : ℕ} (hn : n ≤ k + 1) (hw : o + 2 * k < WORD) :
    (m.stosw false v n (o + 2 * k)).cells o = fillCells (k + 1 - n) n v (m.cells o) := by
  induction n generalizing m k with
  | zero => exact (fillCells_zero _ v _).symm
  | succ n ih =>
    simp only [VideoMemory.stosw, VideoMemory.forward, Bool.false_eq_true, if_false]
    cases k with
    | zero =>
      obtain rfl : n = 0 := by omega
      exact cells_write 0 v
    | succ k =>
      have hnext : subl (o + 2 * (k + 1)) 2 = o + 2 * k := by
        rw [subl_eq (by omega) hw]
        omega
      rw [hnext, ih (by omega) (by omega), cells_write]
      funext i
      simp only [fillCells]
      split_ifs <;> first | rfl | omega

/-- The two cells that one turn of `movsl` copies. -/
theorem movsl_turn (si di a : ℕ) (hs : si + 2 < WORD) (hd : di + 2 < WORD) :
    ((((m.read si).2.read (addl si 2)).2.write di (m.read si).1).write (addl di 2)
      ((m.read si).2.read (addl si 2)).1).cell a =
      if a = di + 2 then m.cell (si + 2) else if a = di then m.cell si else m.cell a := by
  rw [addl_eq hs, addl_eq hd]
  simp only [VideoMemory.read, VideoMemory.write, Function.update_apply]

theorem movsl_up_frame (n : ℕ) {si di a : ℕ} (hs : si + 4 * n < WORD) (hd : di + 4 * n < WORD)
    (ha : a < di ∨ di + 4 * n ≤ a + 1) : (m.movsl true n si di).2.cell a = m.cell a := by
  induction n generalizing m si di with
  | zero => rfl
  | succ n ih =>
    have hsi : addl si 4 = si + 4 := addl_eq (by omega)
    have hdi : addl di 4 = di + 4 := addl_eq (by omega)
    simp only [VideoMemory.movsl, VideoMemory.forward, if_true, hsi, hdi]
    rw [ih (by omega) (by omega) (by omega), movsl_turn si di a (by omega) (by omega),
      if_neg (by omega), if_neg (by omega)]

/-- A block that is copied to lower addresses, where it may overlap itself. -/
theorem movsl_up_cell (n : ℕ) {si di j : ℕ} (hle : di ≤ si) (hs : si + 4 * n < WORD)
    (hj : j < 2 * n) : (m.movsl true n si di).2.cell (di + 2 * j) = m.cell (si + 2 * j) := by
  induction n generalizing m si di j with
  | zero => omega
  | succ n ih =>
    have hsi : addl si 4 = si + 4 := addl_eq (by omega)
    have hdi : addl di 4 = di + 4 := addl_eq (by omega)
    simp only [VideoMemory.movsl, VideoMemory.forward, if_true, hsi, hdi]
    obtain hfirst | ⟨i, rfl⟩ : j < 2 ∨ ∃ i, j = i + 2 := by
      by_cases h : j < 2
      · exact Or.inl h
      · exact Or.inr ⟨j - 2, by omega⟩
    · rw [movsl_up_frame n (by omega) (by omega) (by omega),
        movsl_turn si di _ (by omega) (by omega)]
      obtain rfl | rfl : j = 0 ∨ j = 1 := by omega
      · rw [if_neg (by omega), if_pos (by omega)]
        rfl
      · rw [if_pos (by omega)]
    · have hcell := ih (m := ((((m.read si).2.read (addl si 2)).2.write di (m.read si).1).write
        (addl di 2) ((m.read si).2.read (addl si 2)).1)) (by omega : di + 4 ≤ si + 4)
        (by omega) (by omega : i < 2 * n)
      rw [show di + 2 * (i + 2) = di + 4 + 2 * i by omega, hcell,
        movsl_turn si di _ (by omega) (by omega), if_neg (by omega), if_neg (by omega)]
      rw [show si + 2 * (i + 2) = si + 4 + 2 * i by omega]

theorem cells_movsl_up (n : ℕ) {a b : ℕ} (hba : b ≤ a) (hw : o + 2 * a + 4 * n < WORD) :
    (m.movsl true n (o + 2 * a) (o + 2 * b)).2.cells o = copyCells a b (2 * n) (m.cells o) := by
  funext k
  simp only [copyCells]
  split
  · next hk =>
    have hcell := movsl_up_cell (m := m) n (by omega : o + 2 * b ≤ o + 2 * a) hw
      (by omega : k - b < 2 * n)
    have hdst : o + 2 * b + 2 * (k - b) = o + 2 * k := by omega
    have hsrc : o + 2 * a + 2 * (k - b) = o + 2 * (a + (k - b)) := by omega
    rwa [hdst, hsrc] at hcell
  · exact movsl_up_frame n hw (by omega) (by omega)

theorem movsl_down_frame (n : ℕ) {si di a : ℕ} (hs : 4 * n ≤ si) (hle : si ≤ di)
    (hd : di + 4 < WORD) (ha : a + 4 * n < di + 4 ∨ di + 4 ≤ a) :
    (m.movsl false n si di).2.cell a = m.cell a := by
  induction n generalizing m si di with
  | zero => rfl
  | succ n ih =>
    have hsi : subl si 4 = si - 4 := subl_eq (by omega) (by omega)
    have hdi : subl di 4 = di - 4 := subl_eq (by omega) (by omega)
    simp only [VideoMemory.movsl, VideoMemory.forward, Bool.false_eq_true, if_false, hsi, hdi]
    rw [ih (by omega) (by omega) (by omega) (by omega),
      movsl_turn si di a (by omega) (by omega), if_neg (by omega), if_neg (by omega)]

/-- A block that is copied to higher addresses; `j` counts from its end. -/
theorem movsl_down_cell (n : ℕ) {si di j : ℕ} (hs : 4 * n ≤ si) (hle : si ≤ di)
    (hd : di + 4 < WORD) (hj : j < 2 * n) :
    (m.movsl false n si di).2.cell (di + 2 - 2 * j) = m.cell (si + 2 - 2 * j) := by
  induction n generalizing m si di j with
  | zero => omega
  | succ n ih =>
    have hsi : subl si 4 = si - 4 := subl_eq (by omega) (by omega)
    have hdi : subl di 4 = di - 4 := subl_eq (by omega) (by omega)
    simp only [VideoMemory.movsl, VideoMemory.forward, Bool.false_eq_true, if_false, hsi, hdi]
    obtain hfirst | ⟨i, rfl⟩ : j < 2 ∨ ∃ i, j = i + 2 := by
      by_cases h : j < 2
      · exact Or.inl h
      · exact Or.inr ⟨j - 2, by omega⟩
    · rw [movsl_down_frame n (by omega) (by omega) (by omega) (by omega),
        movsl_turn si di _ (by omega) (by omega)]
      obtain rfl | rfl : j = 0 ∨ j = 1 := by omega
      · rw [if_pos (by omega)]
        rfl
      · rw [if_neg (by omega), if_pos (by omega)]
        rfl
    · have hcell := ih (m := ((((m.read si).2.read (addl si 2)).2.write di (m.read si).1).write
        (addl di 2) ((m.read si).2.read (addl si 2)).1)) (by omega : 4 * n ≤ si - 4)
        (by omega : si - 4 ≤ di - 4) (by omega) (by omega : i < 2 * n)
      rw [show di + 2 - 2 * (i + 2) = di - 4 + 2 - 2 * i by omega, hcell,
        movsl_turn si di _ (by omega) (by omega), if_neg (by omega), if_neg (by omega)]
      rw [show si + 2 - 2 * (i + 2) = si - 4 + 2 - 2 * i by omega]

/-- The blocks end before the cells `a` and `b`. -/
theorem cells_movsl_down (n : ℕ) {a b : ℕ} (ho : 4 ≤ o) (hn : 2 * n ≤ a) (hab : a ≤ b)
    (hw : o + 2 * b < WORD) :
    (m.movsl false n (o + 2 * a - 4) (o + 2 * b - 4)).2.cells o =
      copyCells (a - 2 * n) (b - 2 * n) (2 * n) (m.cells o) := by
  funext k
  simp only [copyCells]
  split
  · next hk =>
    have hcell := movsl_down_cell (m := m) n (by omega : 4 * n ≤ o + 2 * a - 4)
      (by omega : o + 2 * a - 4 ≤ o + 2 * b - 4) (by omega) (by omega : b - 1 - k < 2 * n)
    have hdst : o + 2 * b - 4 + 2 - 2 * (b - 1 - k) = o + 2 * k := by omega
    have hsrc : o + 2 * a - 4 + 2 - 2 * (b - 1 - k) = o + 2 * (a - 2 * n + (k - (b - 2 * n))) := by
      omega
    rwa [hdst, hsrc] at hcell
  · exact movsl_down_frame n (by omega) (by omega) (by omega) (by omega)

theorem cells_insertLoop (n old : ℕ) {k : ℕ} (hw : o + 2 * (k + n) + 2 < WORD) :
    (m.insertLoop (n + 1) (o + 2 * k) old).cells o =
      fillCells k 1 old (copyCells k (k + 1) n (m.cells o)) := by
  have hnext : addl (o + 2 * k) 2 = o + 2 * (k + 1) := addl_eq (by omega)
  induction n generalizing m k old with
  | zero =>
    rw [copyCells_zero]
    exact cells_write k old
  | succ n ih =>
    rw [VideoMemory.insertLoop]
    simp only [VideoMemory.read, hnext]
    rw [ih _ (by omega) (addl_eq (by omega)), cells_write]
    funext i
    simp only [fillCells, copyCells]
    split_ifs <;> first | rfl | omega | exact congrArg (fun j => m.cell (o + 2 * j)) (by omega)

theorem cells_deleteLoop (erase n : ℕ) {k : ℕ} (hw : o + 2 * (k + n) + 2 < WORD) :
    (m.deleteLoop erase n (o + 2 * k)).cells o =
      fillCells (k + n) 1 erase (copyCells (k + 1) k n (m.cells o)) := by
  induction n generalizing m k with
  | zero =>
    rw [copyCells_zero]
    exact cells_write k erase
  | succ n ih =>
    have hnext : addl (o + 2 * k) 2 = o + 2 * (k + 1) := addl_eq (by omega)
    simp only [VideoMemory.deleteLoop, VideoMemory.read, hnext]
    rw [ih (by omega), cells_write]
    funext i
    simp only [fillCells, copyCells]
    split_ifs <;> first | rfl | omega | exact congrArg (fun j => m.cell (o + 2 * j)) (by omega)

end VideoMemory

/-! ### Cells of the screen -/

variable {s : Screen}

/-- All cells of the screen lie below the end of video memory. -/
theorem Inv.screen_end (h : Inv s) :
    s.origin + 2 * (s.video.lines * s.video.columns) ≤ s.video.memEnd ∧ s.video.memEnd < WORD := by
  have hend := h.end_le
  have hw := h.fits.word
  rw [h.scrEnd_eq, h.fits.row, Nat.mul_left_comm] at hend
  exact ⟨hend, by omega⟩

/-- The address of a line is that of its first cell. -/
theorem Inv.line_cell (h : Inv s) (k : ℕ) :
    s.origin + k * s.video.sizeRow = s.origin + 2 * (k * s.video.columns) := by
  rw [h.fits.row, Nat.mul_left_comm]

theorem Inv.pos_cell (h : Inv s) : s.pos = s.origin + 2 * (view s).cursor := by
  have hpos := h.pos_eq
  rw [h.line_cell] at hpos
  change s.pos = s.origin + 2 * (s.y * s.video.columns + s.x)
  omega

/-- The line of the cursor ends inside the screen. -/
theorem Inv.cursor_line (h : Inv s) :
    (view s).cursor + (s.video.columns - s.x) = s.y * s.video.columns + s.video.columns ∧
      s.y * s.video.columns + s.video.columns ≤ s.video.lines * s.video.columns := by
  have hx := h.x_le
  refine ⟨?_, line_le s.video.columns h.y_lt⟩
  change s.y * s.video.columns + s.x + (s.video.columns - s.x) =
    s.y * s.video.columns + s.video.columns
  omega

theorem view_x (s : Screen) : (view s).x = s.x := rfl

theorem view_state (s : Screen) : (view s).state = s.state := rfl

theorem view_mem (s : Screen) (m : VideoMemory) :
    view { s with mem := m } =
      { view s with cells := clip (s.video.lines * s.video.columns) (m.cells s.origin) } := rfl

theorem view_cells {m : VideoMemory} {f : ℕ → ℕ}
    (h : clip (s.video.lines * s.video.columns) (m.cells s.origin) = f) :
    view { s with mem := m } = { view s with cells := f } := by
  rw [view_mem, h]

/-- A character in the cell of the cursor. -/
theorem view_write (h : Inv s) (hx : s.x < s.video.columns) (v : ℕ) :
    view { s with mem := s.mem.write s.pos v } =
      { view s with cells := fillCells (view s).cursor 1 v (view s).cells } := by
  obtain ⟨hline, hle⟩ := h.cursor_line
  rw [view_mem, h.pos_cell, cells_write, clip_fill v _ (by omega)]
  rfl

theorem view_erase (h : Inv s) {count start k : ℕ} (hstart : start = s.origin + 2 * k)
    (hk : k + count ≤ s.video.lines * s.video.columns) :
    view (erase s count start) = (view s).erase count k := by
  have hend := h.screen_end
  subst hstart
  unfold Console.erase
  rw [view_mem, cells_stosw_up _ _ (by omega), clip_fill _ _ hk]
  rfl

/-! ### Scrolling -/

/-- The lines of a scrolling region in cells. -/
theorem region_cells {t b n c : ℕ} (htb : t < b) (hbn : b ≤ n) (hc : c % 2 = 0) :
    2 * ((b - t - 1) * c / 2) = (b - t - 1) * c ∧ (t + 1) * c = t * c + c ∧
      (t + 1) * c + (b - t - 1) * c = b * c ∧ b * c ≤ n * c ∧ (b - 1) * c + c = b * c := by
  have hdiv : (b - t - 1) * c % 2 = 0 := by rw [Nat.mul_mod, hc, Nat.mul_zero, Nat.zero_mod]
  have hone : b - 1 + 1 = b := by omega
  have hall : t + 1 + (b - t - 1) = b := by omega
  refine ⟨by omega, Nat.succ_mul t c, ?_, Nat.mul_le_mul_right c hbn, ?_⟩
  · rw [← Nat.add_mul, hall]
  · rw [← Nat.succ_mul, Nat.succ_eq_add_one, hone]

theorem view_scrupLines (h : Inv s) : view (scrupLines s) = (view s).scrup := by
  have htop := h.top_lt
  have hlines := h.bottom_le
  have hend := h.screen_end
  have hlow := h.fits.low
  have hstart := h.start_le
  obtain ⟨hcount, hsucc, hregion, hle, hlast⟩ := region_cells htop hlines h.fits.even
  obtain ⟨hdi, -⟩ := h.address (by omega : s.top ≤ s.video.lines)
  obtain ⟨hsi, -⟩ := h.address (by omega : s.top + 1 ≤ s.video.lines)
  have hone : addl s.top 1 = s.top + 1 := by
    have := Nat.le_mul_of_pos_right (s.top + 1) (by have := h.fits.wide; omega : 0 < s.video.columns)
    exact addl_eq (by omega)
  rw [h.line_cell] at hdi hsi
  have hinside := h.inside.movsl_up (by have := h.fits.word; omega)
    ((s.bottom - s.top - 1) * s.video.columns / 2)
    (by omega : s.video.memStart ≤ s.origin + 2 * ((s.top + 1) * s.video.columns)) (by omega)
    (by omega : s.video.memStart ≤ s.origin + 2 * (s.top * s.video.columns)) (by omega)
  have hleft : s.origin + 2 * (s.top * s.video.columns) +
      4 * ((s.bottom - s.top - 1) * s.video.columns / 2) =
      s.origin + 2 * ((s.bottom - 1) * s.video.columns) := by omega
  simp only [Console.scrupLines, h.count, hone, hdi, hsi, hinside.2]
  rw [view_mem, hleft, cells_stosw_up _ _ (by omega), cells_movsl_up _ (by omega) (by omega), hcount,
    clip_fill _ _ (by omega), clip_copy _ (by omega) (by omega)]
  rfl

theorem view_scrdown (h : Inv s) : view (scrdown s) = (view s).scrdown := by
  have htop := h.top_lt
  have hlines := h.bottom_le
  have hend := h.screen_end
  have hlow := h.fits.low
  have hwide := h.fits.wide
  have hstart := h.start_le
  obtain ⟨hcount, hsucc, hregion, hle, hlast⟩ := region_cells htop hlines h.fits.even
  obtain ⟨hdi, -⟩ := h.address hlines
  obtain ⟨hsi, -⟩ := h.address (by omega : s.bottom - 1 ≤ s.video.lines)
  have hone : subl s.bottom 1 = s.bottom - 1 := by
    have := Nat.le_mul_of_pos_right s.bottom (by omega : 0 < s.video.columns)
    exact subl_eq (by omega) (by omega)
  rw [h.line_cell] at hdi hsi
  have hbottom : s.bottom * s.video.columns ≤ s.video.lines * s.video.columns := hle
  have hinside := h.inside.movsl_down (by have := h.fits.word; omega) hlow
    ((s.bottom - s.top - 1) * s.video.columns / 2)
    (by omega : s.video.memStart + 4 * ((s.bottom - s.top - 1) * s.video.columns / 2) ≤
      s.origin + 2 * ((s.bottom - 1) * s.video.columns) - 4 + 4) (by omega)
    (by omega : s.video.memStart + 4 * ((s.bottom - s.top - 1) * s.video.columns / 2) ≤
      s.origin + 2 * (s.bottom * s.video.columns) - 4 + 4) (by omega)
  have hleft : s.origin + 2 * (s.bottom * s.video.columns) - 4 -
      4 * ((s.bottom - s.top - 1) * s.video.columns / 2) + 2 =
      s.origin + 2 * (s.top * s.video.columns + s.video.columns - 1) := by omega
  have hfirst : s.top * s.video.columns + s.video.columns - 1 + 1 - s.video.columns =
      s.top * s.video.columns := by omega
  have hsrc : (s.bottom - 1) * s.video.columns - (s.bottom - s.top - 1) * s.video.columns =
      s.top * s.video.columns := by omega
  have hdst : s.bottom * s.video.columns - (s.bottom - s.top - 1) * s.video.columns =
      (s.top + 1) * s.video.columns := by omega
  simp only [Console.scrdown, h.count, hone, hdi, hsi]
  rw [subl_eq (by omega : 4 ≤ s.origin + 2 * (s.bottom * s.video.columns)) (by omega),
    subl_eq (by omega : 4 ≤ s.origin + 2 * ((s.bottom - 1) * s.video.columns)) (by omega),
    hinside.2, addl_eq (by omega), hleft, view_mem, cells_stosw_down _ _ (by omega) (by omega),
    cells_movsl_down _ (by omega) (by omega) (by omega) (by omega), hcount, hfirst, hsrc, hdst,
    clip_fill _ _ (by omega), clip_copy _ (by omega) (by omega)]
  rfl

/-- Video memory after all lines of the screen have moved up by one, wherever the screen is now. -/
theorem view_scrolled (htop : s.top = 0) (hbottom : s.bottom = s.video.lines)
    (hlines : 0 < s.video.lines) {m : VideoMemory} {o : ℕ}
    (hup : ∀ k < (s.video.lines - 1) * s.video.columns,
      m.cells o k = s.mem.cells s.origin (s.video.columns + k))
    (hlast : ∀ k < s.video.columns,
      m.cells o ((s.video.lines - 1) * s.video.columns + k) = s.video.eraseChar) :
    clip (s.video.lines * s.video.columns) (m.cells o) = (view s).scrup.cells := by
  have hall : s.video.lines * s.video.columns =
      (s.video.lines - 1) * s.video.columns + s.video.columns := by
    rw [← Nat.succ_mul, Nat.succ_eq_add_one, Nat.sub_add_cancel hlines]
  change _ = fillCells ((s.bottom - 1) * s.video.columns) s.video.columns s.video.eraseChar
    (copyCells ((s.top + 1) * s.video.columns) (s.top * s.video.columns)
      ((s.bottom - s.top - 1) * s.video.columns) (view s).cells)
  rw [htop, hbottom, Nat.zero_mul, Nat.zero_add, Nat.one_mul, Nat.sub_zero]
  funext k
  simp only [clip, fillCells, copyCells]
  by_cases hk : k < s.video.lines * s.video.columns
  · rw [if_pos hk]
    by_cases hfirst : k < (s.video.lines - 1) * s.video.columns
    · rw [if_neg (by omega), if_pos (by omega), Nat.sub_zero, hup k hfirst]
      exact (if_pos (by omega : s.video.columns + k < s.video.lines * s.video.columns)).symm
    · have hcell := hlast (k - (s.video.lines - 1) * s.video.columns) (by omega)
      rw [Nat.add_sub_cancel' (by omega)] at hcell
      rw [if_pos (by omega), hcell]
  · rw [if_neg hk, if_neg (by omega), if_neg (by omega)]
    exact (if_neg hk).symm

theorem cells_add (m : VideoMemory) (o c k : ℕ) :
    m.cells (o + 2 * c) k = m.cells o (c + k) := by
  unfold VideoMemory.cells
  rw [Nat.mul_add, Nat.add_assoc]

/-- The screen moves to the next line of video memory, or back to the start of video memory: the
    same as copying all lines. -/
theorem view_scrup (h : Inv s) : view (scrup s) = (view s).scrup := by
  unfold Console.scrup
  split
  case isFalse => exact view_scrupLines h
  split
  case isFalse => exact view_scrupLines h
  next hall =>
    have hw := h.fits.word
    have hrow := h.fits.row
    have hstart := h.start_le
    have hend := h.screen_end
    have hscr := h.scrEnd_eq
    rw [h.line_cell] at hscr
    have hfits := h.fits.fits
    obtain ⟨hcount, hsucc, hregion, -, hlast⟩ :=
      region_cells h.fits.some (le_refl s.video.lines) h.fits.even
    have hdouble := h.count
    have hone : subl s.video.lines 0 = s.video.lines := by
      have := Nat.le_mul_of_pos_right s.video.lines
        (by have := h.fits.wide; omega : 0 < s.video.columns)
      exact subl_eq (by omega) (by omega)
    rw [hall.1, hall.2, hone] at hdouble
    have ho : addl s.origin s.video.sizeRow = s.origin + 2 * s.video.columns := by
      rw [addl_eq (by omega), hrow]
    have he : addl s.scrEnd s.video.sizeRow = s.scrEnd + s.video.sizeRow := addl_eq (by omega)
    rw [Nat.sub_zero] at hcount hdouble
    simp only [ho, he, hdouble, setOrigin]
    have hscrolled {m : VideoMemory} {o : ℕ} :=
      view_scrolled (m := m) (o := o) hall.1 hall.2 h.fits.some
    split
    · next hfull =>
      have hleft := (h.inside.movsl_up (by omega) ((s.video.lines - 1) * s.video.columns / 2)
        (by omega : s.video.memStart ≤ s.origin + 2 * s.video.columns) (by omega)
        (le_refl s.video.memStart) (by omega)).2
      have hdst : s.video.memStart + 4 * ((s.video.lines - 1) * s.video.columns / 2) =
          s.video.memStart + 2 * ((s.video.lines - 1) * s.video.columns) := by omega
      rw [hleft, hdst]
      refine congrArg (fun c => { view s with cells := c }) (hscrolled (fun k hk => ?_) fun k hk => ?_)
      · rw [cells_stosw_up _ _ (by omega)]
        exact (if_neg (by omega)).trans ((movsl_up_cell _ (by omega) (by omega) (by omega)).trans
          (cells_add s.mem s.origin s.video.columns k))
      · rw [cells_stosw_up _ _ (by omega)]
        exact if_pos (by omega)
    · next hfull =>
      have hlastLine : subl (s.scrEnd + s.video.sizeRow) s.video.sizeRow =
          s.origin + 2 * s.video.columns + 2 * ((s.video.lines - 1) * s.video.columns) := by
        rw [subl_eq (by omega) (by omega)]
        omega
      rw [hlastLine]
      refine congrArg (fun c => { view s with cells := c }) (hscrolled (fun k hk => ?_) fun k hk => ?_)
      · rw [cells_stosw_up _ _ (by omega)]
        exact (if_neg (by omega)).trans (cells_add s.mem s.origin s.video.columns k)
      · rw [cells_stosw_up _ _ (by omega)]
        exact if_pos (by omega)

/-! ### The cursor keys -/

theorem view_gotoxy (s : Screen) (newX newY : ℕ) :
    view (gotoxy s newX newY) = (view s).gotoxy newX newY := by
  unfold Console.gotoxy
  split
  · next hout => exact (if_pos hout).symm
  · next hin => exact (if_neg hin).symm

theorem view_lf (h : Inv s) : view (lf s) = (view s).lf := by
  obtain ⟨hl, -⟩ := h.small
  have hy := h.y_lt
  have hw := h.fits.word
  have hwide := h.fits.wide
  have hrow := h.fits.row
  have hone : addl s.y 1 = s.y + 1 := addl_eq (by omega)
  unfold Console.lf
  rw [hone]
  split
  · next hlt => exact (if_pos hlt).symm
  · next hge => exact (view_scrup h).trans (if_neg hge).symm

theorem view_ri (h : Inv s) : view (ri s) = (view s).ri := by
  obtain ⟨hl, -⟩ := h.small
  have hy := h.y_lt
  have hw := h.fits.word
  unfold Console.ri
  split
  · next hgt =>
    rw [subl_eq (by omega : 1 ≤ s.y) (by omega)]
    exact (if_pos hgt).symm
  · next hle => exact (view_scrdown h).trans (if_neg hle).symm

theorem view_back (h : Inv s) (hx : s.x ≠ 0) :
    view { s with x := subl s.x 1, pos := subl s.pos 2 } = (view s).back := by
  have hsmall := h.small.2
  have hle := h.x_le
  have hrow := h.fits.row
  rw [subl_eq (by omega : 1 ≤ s.x) (by omega)]
  rfl

theorem view_del (h : Inv s) : view (del s) = (view s).del := by
  unfold Console.del
  split
  · next hx =>
    have hback := (h.back hx).2
    have hview := view_back h hx
    have hcol : subl s.x 1 < s.video.columns := by
      have hle := h.x_le
      have hsmall := h.small.2
      have hrow := h.fits.row
      rw [subl_eq (by omega) (by omega)]
      omega
    have hwrite := view_write hback hcol s.video.eraseChar
    rw [hview] at hwrite
    exact hwrite.trans (if_pos hx).symm
  · next hx => exact (if_neg hx).symm

/-! ### Erasing, inserting and deleting -/

theorem view_csiJ (h : Inv s) (par : ℕ) : view (csiJ s par) = (view s).csiJ par := by
  obtain ⟨hend, hw⟩ := h.screen_end
  have hpos := h.pos_cell
  have hscr := h.scrEnd_eq
  rw [h.line_cell] at hscr
  obtain ⟨hline, hle⟩ := h.cursor_line
  fun_cases Console.csiJ s par
  · have hcount : subl s.scrEnd s.pos / 2 =
        s.video.lines * s.video.columns - (view s).cursor := by
      rw [subl_eq (by omega : s.pos ≤ s.scrEnd) (by omega)]
      omega
    rw [hcount]
    exact view_erase h hpos (by omega)
  · have hcount : subl s.pos s.origin / 2 = (view s).cursor := by
      rw [subl_eq (by omega : s.origin ≤ s.pos) (by omega)]
      omega
    rw [hcount]
    exact view_erase h rfl (by omega)
  · have hcount : mull s.video.columns s.video.lines = s.video.lines * s.video.columns := by
      rw [mull_eq (by rw [Nat.mul_comm]; omega), Nat.mul_comm]
    rw [hcount]
    exact view_erase h rfl (by omega)
  · next h0 h1 h2 =>
    rcases par with _ | _ | _ | n
    · exact absurd rfl h0
    · exact absurd rfl h1
    · exact absurd rfl h2
    · rfl

theorem view_csiK (h : Inv s) (par : ℕ) : view (csiK s par) = (view s).csiK par := by
  obtain ⟨hend, hw⟩ := h.screen_end
  have hpos := h.pos_cell
  have hx := h.x_le
  have hsmall := h.small.2
  have hrow := h.fits.row
  obtain ⟨hline, hle⟩ := h.cursor_line
  have hcol : subl s.pos (mull s.x 2) = s.origin + 2 * (s.y * s.video.columns) := by
    have heq := h.pos_eq
    rw [h.line_cell] at heq
    rw [h.double, subl_eq (by omega) (by omega)]
    omega
  fun_cases Console.csiK s par
  · next hfull => exact (if_pos hfull).symm
  · next hlt =>
    rw [subl_eq (by omega : s.x ≤ s.video.columns) (by omega)]
    exact (view_erase h hpos (by omega)).trans (if_neg hlt).symm
  · have hcount : s.y * s.video.columns + (if s.x < s.video.columns then s.x else s.video.columns) ≤
        s.video.lines * s.video.columns := by
      split <;> omega
    exact view_erase h hcol hcount
  · exact view_erase h hcol hle
  · next h0 h1 h2 =>
    rcases par with _ | _ | _ | n
    · exact absurd rfl h0
    · exact absurd rfl h1
    · exact absurd rfl h2
    · rfl

theorem view_insertChar (h : Inv s) : view (insertChar s) = (view s).insertChar := by
  obtain ⟨hend, hw⟩ := h.screen_end
  obtain ⟨hline, hle⟩ := h.cursor_line
  have hpos := h.pos_cell
  unfold Console.insertChar Picture.insertChar
  split
  · next hfull =>
    have hnone : s.video.columns - s.x = 0 := Nat.sub_eq_zero_of_le hfull
    rw [hnone]
    rfl
  · next hlt =>
    have hlt : ¬ s.x ≥ s.video.columns := hlt
    obtain ⟨n, hn⟩ : ∃ n, s.video.columns - s.x = n + 1 := ⟨s.video.columns - s.x - 1, by omega⟩
    have hn' : (view s).columns - (view s).x - 1 = n := by
      change s.video.columns - s.x - 1 = n
      omega
    rw [hn', hn]
    refine view_cells ?_
    rw [hpos, cells_insertLoop _ _ (by omega), clip_fill _ _ (by omega),
      clip_copy _ (by omega) (by omega)]
    rfl

theorem view_deleteChar (h : Inv s) : view (deleteChar s) = (view s).deleteChar := by
  obtain ⟨hend, hw⟩ := h.screen_end
  obtain ⟨hline, hle⟩ := h.cursor_line
  have hpos := h.pos_cell
  unfold Console.deleteChar
  split
  · next hfull => exact (if_pos hfull).symm
  · next hlt =>
    refine (view_cells ?_).trans (if_neg hlt).symm
    rw [hpos, cells_deleteLoop _ _ (by omega), clip_fill _ _ (by omega),
      clip_copy _ (by omega) (by omega)]
    rfl

theorem view_insertLine (h : Inv s) : view (insertLine s) = (view s).insertLine :=
  congrArg (fun p => { p with top := s.top, bottom := s.bottom }) (view_scrdown h.below)

theorem view_deleteLine (h : Inv s) : view (deleteLine s) = (view s).deleteLine :=
  congrArg (fun p => { p with top := s.top, bottom := s.bottom }) (view_scrup h.below)

theorem view_iterate {f : Screen → Screen} {g : Picture → Picture} (hf : ∀ s, Inv s → Inv (f s))
    (hview : ∀ s, Inv s → view (f s) = g (view s)) (n : ℕ) (h : Inv s) :
    view (f^[n] s) = g^[n] (view s) := by
  induction n generalizing s with
  | zero => rfl
  | succ n ih =>
    rw [Function.iterate_succ_apply, Function.iterate_succ_apply, ih (hf s h), hview s h]

/-! ### Characters -/

theorem view_wrap (h : Inv s) {x pos : ℕ} (hx : s.video.columns ≤ x)
    (hx' : x ≤ s.video.columns + s.video.columns)
    (hp : pos = s.origin + s.y * s.video.sizeRow + 2 * x) (hw : pos < WORD) :
    view (wrap { s with x := x, pos := pos }) = { view s with x := x }.wrap := by
  have hrow := h.fits.row
  have hxs : subl x s.video.columns = x - s.video.columns := subl_eq hx (by omega)
  have hps : subl pos s.video.sizeRow = pos - s.video.sizeRow := subl_eq (by omega) hw
  unfold Console.wrap
  simp only [hxs, hps]
  exact view_lf (h.moveX (by omega) (by omega))

theorem view_putChar (h : Inv s) (c : ℕ) : view (putChar s c) = (view s).putChar c := by
  obtain ⟨hinv, hcol, hv⟩ := h.room
  have hroom : view (if s.x ≥ s.video.columns then wrap s else s) =
      if s.x ≥ s.video.columns then (view s).wrap else view s := by
    split
    · next hfull =>
      exact view_wrap h hfull (by have := h.x_le; omega) h.pos_eq (by have := h.small.2; omega)
    · rfl
  unfold Console.putChar
  change _ = { (if s.x ≥ s.video.columns then (view s).wrap else view s) with
    cells := fillCells (if s.x ≥ s.video.columns then (view s).wrap else view s).cursor 1
      ((if s.x ≥ s.video.columns then (view s).wrap else view s).attr * 256 + c)
      (if s.x ≥ s.video.columns then (view s).wrap else view s).cells,
    x := (if s.x ≥ s.video.columns then (view s).wrap else view s).x + 1 }
  rw [← hroom]
  simp only
  generalize (if s.x ≥ s.video.columns then Console.wrap s else s) = s' at hinv hcol hv ⊢
  have hsmall := hinv.small.2
  have hrow := hinv.fits.row
  rw [← hv] at hcol
  rw [addl_eq (by omega : s'.x + 1 < WORD)]
  exact congrArg (fun p : Picture => { p with x := s'.x + 1 }) (view_write hinv hcol _)

theorem view_tab (h : Inv s) : view (tab s) = (view s).tab := by
  have hx := h.x_le
  have hpos := h.pos_eq
  have hsmall := h.small.2
  have hrow := h.fits.row
  have hwide := h.fits.wide
  have hmod := Nat.mod_lt s.x (by omega : 8 > 0)
  have hadd : addl s.x (8 - s.x % 8) = s.x + (8 - s.x % 8) := addl_eq (by omega)
  have hmul : mull (8 - s.x % 8) 2 = 2 * (8 - s.x % 8) := by
    rw [mull_eq (by omega), Nat.mul_comm]
  have hp : addl s.pos (2 * (8 - s.x % 8)) = s.pos + 2 * (8 - s.x % 8) := addl_eq (by omega)
  unfold Console.tab
  simp only [hadd, hmul, hp]
  split
  · next hgt =>
    have hgt : s.x + (8 - s.x % 8) > s.video.columns := hgt
    exact (view_wrap h (by omega) (by omega) (by omega) (by omega)).trans (if_pos hgt).symm
  · next hle => exact (if_neg hle).symm

theorem view_plain (h : Inv s) (eraseKey c : ℕ) :
    view (plain eraseKey s c) = (view s).plain eraseKey c := by
  unfold Console.plain Picture.plain
  rw [view_x]
  split_ifs with h1 h2 h3 h4 h5 h6 hx h7 h8
  · exact view_putChar h c
  · rfl
  · exact view_lf h
  · rfl
  · exact view_del h
  · exact view_back h hx
  · rfl
  · exact view_tab h
  · rfl
  · rfl

/-! ### Escape sequences -/

theorem view_escape (h : Inv s) (c : ℕ) : view (escape s c) = (view s).escape c := by
  have h₀ := h.state 0
  unfold Console.escape Picture.escape
  simp only
  split
  · rfl
  split
  · exact view_gotoxy _ _ _
  split
  · exact view_ri h₀
  split
  · exact view_lf h₀
  split
  · rfl
  split
  · next h55 => exact (if_pos h55).symm
  · next h55 =>
    split
    · next h56 => exact (view_gotoxy _ _ _).trans ((if_neg h55).trans (if_pos h56)).symm
    · next h56 => exact ((if_neg h55).trans (if_neg h56)).symm

theorem view_setRegion (s : Screen) : view (setRegion s) = (view s).setRegion := by
  have hregion (t : Screen) :
      view (if t.par 0 < t.par 1 ∧ t.par 1 ≤ t.video.lines then
        { t with top := t.par 0, bottom := t.par 1 } else t) =
      if (view t).par 0 < (view t).par 1 ∧ (view t).par 1 ≤ (view t).lines then
        { view t with top := (view t).par 0, bottom := (view t).par 1 } else view t := by
    split
    · next h => exact (if_pos h).symm
    · next h => exact (if_neg h).symm
  have hlines (t : Screen) :
      view (if t.par 1 = 0 then setPar t 1 t.video.lines else t) =
      if (view t).par 1 = 0 then (view t).setPar 1 (view t).lines else view t := by
    split
    · next h => exact (if_pos h).symm
    · next h => exact (if_neg h).symm
  refine (hregion _).trans ?_
  rw [hlines]
  rfl

theorem view_csi (h : Inv s) (c : ℕ) : view (csi s c) = (view s).csi c := by
  have h₀ := h.state 0
  unfold Console.csi
  simp only
  split
  · exact view_gotoxy _ _ _
  · exact view_gotoxy _ _ _
  · exact view_gotoxy _ _ _
  · exact view_gotoxy _ _ _
  · exact view_gotoxy _ _ _
  · exact view_gotoxy _ _ _
  · exact view_gotoxy _ _ _
  · exact view_gotoxy _ _ _
  · exact view_gotoxy _ _ _
  · exact view_gotoxy _ _ _
  · exact view_gotoxy _ _ _
  · exact view_gotoxy _ _ _
  · exact view_gotoxy _ _ _
  · exact view_csiJ h₀ _
  · exact view_csiK h₀ _
  · exact view_iterate (fun _ h => h.insertLine) (fun _ h => view_insertLine h) _ h₀
  · exact view_iterate (fun _ h => h.deleteLine) (fun _ h => view_deleteLine h) _ h₀
  · exact view_iterate (fun _ h => h.deleteChar) (fun _ h => view_deleteChar h) _ h₀
  · exact view_iterate (fun _ h => h.insertChar) (fun _ h => view_insertChar h) _ h₀
  · rfl
  · exact view_setRegion _
  · rfl
  · exact view_gotoxy _ _ _
  · unfold Picture.csi
    simp only
    rfl

theorem view_parameter (h : Inv s) (c : ℕ) : view (parameter s c) = (view s).parameter c := by
  unfold Console.parameter
  split
  · next hnext => exact (if_pos hnext).symm
  · next hnext =>
    refine Eq.trans ?_ (if_neg hnext).symm
    split
    · rfl
    · exact view_csi h c

theorem view_putByte (h : Inv s) (eraseKey c : ℕ) :
    view (putByte eraseKey s c) = (view s).putByte eraseKey c := by
  unfold Console.putByte Picture.putByte
  rw [view_state]
  generalize s.state = state
  rcases state with _ | _ | _ | _ | _ | n
  · exact view_plain h eraseKey c
  · exact view_escape h c
  · have h₂ : Inv { s with par := fun _ => 0, npar := 0, state := 3, ques := c = 63 } :=
      h.quiet rfl rfl rfl rfl rfl (Nat.succ_pos 15) rfl rfl rfl rfl
    simp only
    split
    · rfl
    · exact view_parameter h₂ c
  · exact view_parameter h c
  · exact view_csi h c
  · rfl

/-! ### Streams of bytes -/

theorem view_bytes (h : Inv s) (eraseKey : ℕ) (l : List UInt8) :
    view (l.foldl (fun s c => putByte eraseKey s c.toNat) s) =
      l.foldl (fun p c => p.putByte eraseKey c.toNat) (view s) := by
  induction l generalizing s with
  | nil => rfl
  | cons c l ih =>
    rw [List.foldl_cons, List.foldl_cons, ih (h.putByte eraseKey c.toNat),
      view_putByte h eraseKey c.toNat]

theorem view_conWrite (h : Inv s) (chunk : ℕ × List UInt8) :
    view (conWrite s chunk) = chunk.2.foldl (fun p c => p.putByte chunk.1 c.toNat) (view s) :=
  view_bytes h chunk.1 chunk.2

theorem view_run (h : Inv s) (chunks : List (ℕ × List UInt8)) :
    view (chunks.foldl conWrite s) =
      chunks.foldl (fun p chunk => chunk.2.foldl (fun p c => p.putByte chunk.1 c.toNat) p) (view s) := by
  induction chunks generalizing s with
  | nil => rfl
  | cons chunk chunks ih =>
    rw [List.foldl_cons, List.foldl_cons, ih (h.conWrite chunk), view_conWrite h chunk]

/-- The same cells in the same order, the same cursor among them, the same scrolling region and the
    same state of the parser. -/
structure SameScreen (s t : Screen) : Prop where
  view_eq : view s = view t
  cursor_eq : s.pos - s.origin = t.pos - t.origin
  end_eq : s.scrEnd - s.origin = t.scrEnd - t.origin

theorem SameScreen.of_view {t : Screen} (hs : Inv s) (ht : Inv t) (h : view s = view t) :
    SameScreen s t := by
  have hscr : s.scrEnd - s.origin = 2 * ((view s).lines * (view s).columns) := by
    rw [hs.scrEnd_eq, hs.line_cell, Nat.add_sub_cancel_left]
    rfl
  have hscr' : t.scrEnd - t.origin = 2 * ((view t).lines * (view t).columns) := by
    rw [ht.scrEnd_eq, ht.line_cell, Nat.add_sub_cancel_left]
    rfl
  refine ⟨h, ?_, by rw [hscr, hscr', h]⟩
  rw [hs.pos_cell, ht.pos_cell, h, Nat.add_sub_cancel_left, Nat.add_sub_cancel_left]

/-- Two consoles that show the same go on to do so after every byte of every stream, in whatever
    chunks it is written: whether a display moves `origin` or copies cannot be seen. -/
theorem scrolling_is_copying {t : Screen} (hs : Inv s) (ht : Inv t) (h : view s = view t)
    (chunks : List (ℕ × List UInt8)) (eraseKey : ℕ) (l : List UInt8) :
    SameScreen (l.foldl (fun s c => putByte eraseKey s c.toNat) (chunks.foldl conWrite s))
      (l.foldl (fun s c => putByte eraseKey s c.toNat) (chunks.foldl conWrite t)) := by
  have hs' := hs.run chunks
  have ht' := ht.run chunks
  refine SameScreen.of_view (hs'.bytes eraseKey l) (ht'.bytes eraseKey l) ?_
  rw [view_bytes hs' eraseKey l, view_bytes ht' eraseKey l, view_run hs chunks, view_run ht chunks, h]

/-- The console of a color display after `con_init`. -/
def egaScreen : Screen := conInit (colorBoot 0 24) fun _ => 0x720

/-- The same on a display with half the memory that is not an EGA. -/
def cgaScreen : Screen :=
  { egaScreen with video := { egaScreen.video with type := .cga, memEnd := 0xba000 } }

theorem cgaScreen_inv : Inv cgaScreen := by
  have h : Inv egaScreen := conInit_inv (colorBoot_fits 0 24) (by decide) _
  refine { h with fits := { h.fits with fits := ?_, word := ?_ }, end_le := ?_, inside := ?_ }
  · decide +kernel
  · decide +kernel
  · decide +kernel
  · change ∀ a ∈ cgaScreen.mem.touched, cgaScreen.video.memStart ≤ a ∧ a + 2 ≤ cgaScreen.video.memEnd
    decide +kernel

/-- The cursor is in the last line: a line feed moves the origin of one of them only. -/
theorem scrolling_is_copying_color :
    egaScreen.video.type = .egac ∧ cgaScreen.video.type = .cga ∧
      (putByte 127 egaScreen 10).origin = 0xb80a0 ∧ (putByte 127 cgaScreen 10).origin = 0xb8000 ∧
      SameScreen (putByte 127 egaScreen 10) (putByte 127 cgaScreen 10) :=
  ⟨by decide +kernel, rfl, by decide +kernel, by decide +kernel,
    scrolling_is_copying (conInit_inv (colorBoot_fits 0 24) (by decide) _) cgaScreen_inv rfl [] 127
      [10]⟩

end Linux011.Console
