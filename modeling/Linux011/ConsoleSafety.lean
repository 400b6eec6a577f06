import Linux011.Console
import Mathlib

set_option autoImplicit false

/-! # The console stays in video memory -/
namespace Linux011.Console

/-! ### Cells -/

/-- All cells that were touched lie from `lo` to `hi`. -/
def VideoMemory.Inside (lo hi : ℕ) (m : VideoMemory) : Prop := ∀ a ∈ m.touched, lo ≤ a ∧ a + 2 ≤ hi

section VideoMemory
variable {lo hi : ℕ} {m : VideoMemory}

theorem VideoMemory.Inside.touch (h : m.Inside lo hi) {a : ℕ} (hlo : lo ≤ a) (hhi : a + 2 ≤ hi)
    {m' : VideoMemory} (hm : m'.touched = a :: m.touched) : m'.Inside lo hi := by
  intro b hb
  rw [hm] at hb
  rcases List.mem_cons.mp hb with rfl | hb
  · exact ⟨hlo, hhi⟩
  · exact h b hb

theorem VideoMemory.Inside.write (h : m.Inside lo hi) {a : ℕ} (hlo : lo ≤ a) (hhi : a + 2 ≤ hi)
    (v : ℕ) : (m.write a v).Inside lo hi :=
  h.touch hlo hhi rfl

theorem VideoMemory.Inside.read (h : m.Inside lo hi) {a : ℕ} (hlo : lo ≤ a) (hhi : a + 2 ≤ hi) :
    (m.read a).2.Inside lo hi :=
  h.touch hlo hhi rfl

theorem VideoMemory.Inside.stosw_up (hw : hi < WORD) (v n : ℕ) {di : ℕ} (h : m.Inside lo hi)
    (hlo : lo ≤ di) (hhi : di + 2 * n ≤ hi) : (m.stosw true v n di).Inside lo hi := by
  induction n generalizing m di with
  | zero => exact h
  | succ n ih =>
    have hnext : addl di 2 = di + 2 := addl_eq (by omega)
    simp only [VideoMemory.stosw, VideoMemory.forward, if_true, hnext]
    exact ih (h.write hlo (by omega) v) (by omega) (by omega)

theorem VideoMemory.Inside.stosw_down (hw : hi < WORD) (v n : ℕ) {di : ℕ} (h : m.Inside lo hi)
    (hlo : lo + 2 * n ≤ di + 2) (hhi : di + 2 ≤ hi) : (m.stosw false v n di).Inside lo hi := by
  induction n generalizing m di with
  | zero => exact h
  | succ n ih =>
    simp only [VideoMemory.stosw, VideoMemory.forward, Bool.false_eq_true, if_false]
    have h := h.write (by omega : lo ≤ di) hhi v
    cases n with
    | zero => exact h
    | succ n =>
      have hnext : subl di 2 = di - 2 := subl_eq (by omega) (by omega)
      rw [hnext]
      exact ih h (by omega) (by omega)

theorem VideoMemory.Inside.move (h : m.Inside lo hi) (hw : hi < WORD) {si di : ℕ} (hs : lo ≤ si)
    (hs' : si + 4 ≤ hi) (hd : lo ≤ di) (hd' : di + 4 ≤ hi) (v w : ℕ) :
    ((((m.read si).2.read (addl si 2)).2.write di v).write (addl di 2) w).Inside lo hi := by
  rw [addl_eq (by omega : si + 2 < WORD), addl_eq (by omega : di + 2 < WORD)]
  have h := (h.read hs (by omega)).read (by omega : lo ≤ si + 2) (by omega)
  exact (h.write hd (by omega) v).write (by omega) (by omega) w

theorem VideoMemory.Inside.movsl_up (hw : hi < WORD) (n : ℕ) {si di : ℕ} (h : m.Inside lo hi)
    (hs : lo ≤ si) (hs' : si + 4 * n ≤ hi) (hd : lo ≤ di) (hd' : di + 4 * n ≤ hi) :
    (m.movsl true n si di).2.Inside lo hi ∧ (m.movsl true n si di).1 = di + 4 * n := by
  induction n generalizing m si di with
  | zero => exact ⟨h, rfl⟩
  | succ n ih =>
    have hsi : addl si 4 = si + 4 := addl_eq (by omega)
    have hdi : addl di 4 = di + 4 := addl_eq (by omega)
    simp only [VideoMemory.movsl, VideoMemory.forward, if_true, hsi, hdi]
    have h := h.move hw hs (by omega) hd (by omega) (m.read si).1
      ((m.read si).2.read (addl si 2)).1
    obtain ⟨hin, hend⟩ := ih h (by omega) (by omega : si + 4 + 4 * n ≤ hi) (by omega)
      (by omega : di + 4 + 4 * n ≤ hi)
    exact ⟨hin, by rw [hend]; omega⟩

theorem VideoMemory.Inside.movsl_down (hw : hi < WORD) (hlo : 4 ≤ lo) (n : ℕ) {si di : ℕ}
    (h : m.Inside lo hi) (hs : lo + 4 * n ≤ si + 4) (hs' : si + 4 ≤ hi) (hd : lo + 4 * n ≤ di + 4)
    (hd' : di + 4 ≤ hi) :
    (m.movsl false n si di).2.Inside lo hi ∧ (m.movsl false n si di).1 = di - 4 * n := by
  induction n generalizing m si di with
  | zero => exact ⟨h, rfl⟩
  | succ n ih =>
    have hsi : subl si 4 = si - 4 := subl_eq (by omega) (by omega)
    have hdi : subl di 4 = di - 4 := subl_eq (by omega) (by omega)
    simp only [VideoMemory.movsl, VideoMemory.forward, Bool.false_eq_true, if_false, hsi, hdi]
    have h := h.move hw (by omega : lo ≤ si) hs' (by omega : lo ≤ di) hd' (m.read si).1
      ((m.read si).2.read (addl si 2)).1
    obtain ⟨hin, hend⟩ := ih h (by omega : lo + 4 * n ≤ si - 4 + 4) (by omega)
      (by omega : lo + 4 * n ≤ di - 4 + 4) (by omega)
    exact ⟨hin, by rw [hend]; omega⟩

theorem VideoMemory.Inside.insertLoop (hw : hi < WORD) (n : ℕ) {p old : ℕ} (h : m.Inside lo hi)
    (hlo : lo ≤ p) (hhi : p + 2 * n ≤ hi) : (m.insertLoop n p old).Inside lo hi := by
  induction n generalizing m p old with
  | zero => exact h
  | succ n ih =>
    have hnext : addl p 2 = p + 2 := addl_eq (by omega)
    simp only [VideoMemory.insertLoop, hnext]
    exact ih ((h.read hlo (by omega)).write hlo (by omega) old) (by omega) (by omega)

theorem VideoMemory.Inside.deleteLoop (hw : hi < WORD) (v n : ℕ) {p : ℕ} (h : m.Inside lo hi)
    (hlo : lo ≤ p) (hhi : p + 2 * n + 2 ≤ hi) : (m.deleteLoop v n p).Inside lo hi := by
  induction n generalizing m p with
  | zero => exact h.write hlo (by omega) v
  | succ n ih =>
    have hnext : addl p 2 = p + 2 := addl_eq (by omega)
    simp only [VideoMemory.deleteLoop, hnext]
    have h := h.read (by omega : lo ≤ p + 2) (by omega)
    exact ih (h.write hlo (by omega) _) (by omega) (by omega)

theorem VideoMemory.Inside.showText (hw : hi < WORD) (l : List ℕ) {p : ℕ} (h : m.Inside lo hi)
    (hlo : lo ≤ p) (hhi : p + 2 * l.length ≤ hi) : (m.showText l p).Inside lo hi := by
  induction l generalizing m p with
  | nil => exact h
  | cons c l ih =>
    rw [List.length_cons] at hhi
    have hnext : addl p 2 = p + 2 := addl_eq (by omega)
    simp only [VideoMemory.showText, hnext]
    exact ih ((h.read hlo (by omega)).write hlo (by omega) _) (by omega) (by omega)

end VideoMemory

/-! ### The invariant -/

/-- A display that `con_init` has found, with an even number of columns and a screen that fits. -/
structure Video.Fits (v : Video) : Prop where
  row : v.sizeRow = 2 * v.columns
  even : v.columns % 2 = 0
  wide : 8 ≤ v.columns
  some : 0 < v.lines
  fits : v.memStart + v.lines * v.sizeRow ≤ v.memEnd
  low : 4 ≤ v.memStart
  word : v.memEnd + v.memEnd < WORD

/-- The five position variables agree, and all cells touched so far are in video memory. -/
structure Safe (s : Screen) : Prop where
  x_le : s.x ≤ s.video.columns
  y_lt : s.y < s.video.lines
  top_lt : s.top < s.bottom
  bottom_le : s.bottom ≤ s.video.lines
  npar_lt : s.npar < NPAR
  pos_eq : s.pos = s.origin + s.y * s.video.sizeRow + 2 * s.x
  scrEnd_eq : s.scrEnd = s.origin + s.video.lines * s.video.sizeRow
  start_le : s.video.memStart ≤ s.origin
  end_le : s.scrEnd ≤ s.video.memEnd
  cells : ∀ a ∈ s.mem.touched, s.video.memStart ≤ a ∧ a ≤ s.video.memEnd

/-- `Safe` with the cells as a whole. -/
structure Inv (s : Screen) : Prop where
  fits : s.video.Fits
  x_le : s.x ≤ s.video.columns
  y_lt : s.y < s.video.lines
  top_lt : s.top < s.bottom
  bottom_le : s.bottom ≤ s.video.lines
  npar_lt : s.npar < NPAR
  pos_eq : s.pos = s.origin + s.y * s.video.sizeRow + 2 * s.x
  scrEnd_eq : s.scrEnd = s.origin + s.video.lines * s.video.sizeRow
  start_le : s.video.memStart ≤ s.origin
  end_le : s.scrEnd ≤ s.video.memEnd
  inside : s.mem.Inside s.video.memStart s.video.memEnd

theorem Inv.safe {s : Screen} (h : Inv s) : Safe s :=
  ⟨h.x_le, h.y_lt, h.top_lt, h.bottom_le, h.npar_lt, h.pos_eq, h.scrEnd_eq, h.start_le, h.end_le,
    fun a ha => ⟨(h.inside a ha).1, by have := (h.inside a ha).2; omega⟩⟩

/-- Line `y` of `n` ends inside the screen. -/
theorem line_le {y n : ℕ} (r : ℕ) (h : y < n) : y * r + r ≤ n * r := by
  rw [← Nat.succ_mul]
  exact Nat.mul_le_mul_right r h

variable {s : Screen}

theorem Inv.line (h : Inv s) {y : ℕ} (hy : y < s.video.lines) :
    s.video.memStart ≤ s.origin + y * s.video.sizeRow ∧
      s.origin + y * s.video.sizeRow + s.video.sizeRow ≤ s.video.memEnd := by
  have hl := line_le s.video.sizeRow hy
  have := h.end_le
  rw [h.scrEnd_eq] at this
  have := h.start_le
  exact ⟨by omega, by omega⟩

/-- The cursor cell, unless the cursor is behind the last column. -/
theorem Inv.cursor (h : Inv s) : s.video.memStart + 2 * s.x ≤ s.pos ∧
    s.pos + 2 * (s.video.columns - s.x) ≤ s.video.memEnd := by
  obtain ⟨h1, h2⟩ := h.line h.y_lt
  have := h.fits.row
  have := h.x_le
  rw [h.pos_eq]
  exact ⟨by omega, by omega⟩

/-! ### Moving the cursor -/

theorem Inv.gotoxy (h : Inv s) (newX newY : ℕ) : Inv (gotoxy s newX newY) := by
  unfold Console.gotoxy
  split
  · exact h
  · next hxy =>
    obtain ⟨hx, hy⟩ : newX ≤ s.video.columns ∧ newY < s.video.lines := by omega
    obtain ⟨h1, h2⟩ := h.line hy
    have hw := h.fits.word
    have hrow := h.fits.row
    refine { h with x_le := hx, y_lt := hy, pos_eq := ?_ }
    change addl (addl s.origin (mull newY s.video.sizeRow)) (mull newX 2) =
      s.origin + newY * s.video.sizeRow + 2 * newX
    rw [mull_eq (by omega : newY * s.video.sizeRow < WORD), mull_eq (by omega : newX * 2 < WORD),
      addl_eq (by omega : s.origin + newY * s.video.sizeRow < WORD), addl_eq (by omega),
      Nat.mul_comm newX]

theorem Inv.mem (h : Inv s) {m : VideoMemory} (hm : m.Inside s.video.memStart s.video.memEnd) :
    Inv { s with mem := m } := { h with inside := hm }

/-! ### Scrolling -/

/-- The lines of a scrolling region in bytes. -/
theorem region_bytes {t b n c : ℕ} (r : ℕ) (htb : t < b) (hbn : b ≤ n) (hr : r = 2 * c) (hc : c % 2 = 0) :
    4 * ((b - t - 1) * c / 2) = b * r - t * r - r ∧ t * r + r ≤ b * r ∧ b * r ≤ n * r ∧
      (b - 1) * r = b * r - r ∧ (t + 1) * r = t * r + r := by
  have hdiv : (b - t - 1) * c % 2 = 0 := by rw [Nat.mul_mod, hc, Nat.mul_zero, Nat.zero_mod]
  have hrow : 2 * ((b - t - 1) * c) = (b - t - 1) * r := by rw [hr, Nat.mul_left_comm]
  have hsub : (b - t - 1) * r = b * r - t * r - r := by rw [Nat.sub_mul, Nat.sub_mul, Nat.one_mul]
  have hle := line_le r htb
  refine ⟨by omega, hle, Nat.mul_le_mul_right r hbn, by rw [Nat.sub_mul, Nat.one_mul],
    Nat.succ_mul t r⟩

/-- The address of line `k`, also of the one behind the last. -/
theorem Inv.address (h : Inv s) {k : ℕ} (hk : k ≤ s.video.lines) :
    addl s.origin (mull s.video.sizeRow k) = s.origin + k * s.video.sizeRow ∧
      s.origin + k * s.video.sizeRow ≤ s.video.memEnd := by
  have hle := Nat.mul_le_mul_right s.video.sizeRow hk
  have hend := h.end_le
  rw [h.scrEnd_eq] at hend
  have hw := h.fits.word
  rw [mull_eq (by rw [Nat.mul_comm]; omega), Nat.mul_comm, addl_eq (by omega)]
  exact ⟨rfl, by omega⟩

/-- The number of double words in all lines of the region but one. -/
theorem Inv.count (h : Inv s) :
    mull (subl (subl s.bottom s.top) 1) s.video.columns / 2 =
      (s.bottom - s.top - 1) * s.video.columns / 2 := by
  have hw := h.fits.word
  have htop := h.top_lt
  have hlines := h.bottom_le
  have hfits := h.fits.fits
  have hwide := h.fits.wide
  have hrow := h.fits.row
  have hone : s.video.lines * 1 ≤ s.video.lines * s.video.sizeRow :=
    Nat.mul_le_mul_left _ (by omega)
  have hle : (s.bottom - s.top - 1) * s.video.columns ≤ s.video.lines * s.video.sizeRow :=
    Nat.mul_le_mul (by omega) (by omega)
  rw [subl_eq (by omega : s.top ≤ s.bottom) (by omega), subl_eq (by omega) (by omega),
    mull_eq (by omega)]

theorem Inv.scrupLines (h : Inv s) : Inv (scrupLines s) := by
  have htop := h.top_lt
  have hlines := h.bottom_le
  have hw := h.fits.word
  have hrow := h.fits.row
  have hstart := h.start_le
  obtain ⟨h4, htb, hbl, -, hsucc⟩ := region_bytes s.video.sizeRow htop hlines hrow h.fits.even
  obtain ⟨hdi, -⟩ := h.address (by omega : s.top ≤ s.video.lines)
  obtain ⟨hsi, -⟩ := h.address (by omega : s.top + 1 ≤ s.video.lines)
  obtain ⟨-, hend⟩ := h.address hlines
  have hone : addl s.top 1 = s.top + 1 := by
    have := Nat.le_mul_of_pos_right (s.top + 1) (by have := h.fits.wide; omega : 0 < s.video.sizeRow)
    exact addl_eq (by omega)
  rw [hsucc] at hsi
  simp only [Console.scrupLines, h.count, hone, hdi, hsi]
  obtain ⟨hin, hleft⟩ := h.inside.movsl_up (by omega) ((s.bottom - s.top - 1) * s.video.columns / 2)
    (by omega : s.video.memStart ≤ s.origin + (s.top * s.video.sizeRow + s.video.sizeRow))
    (by omega) (by omega : s.video.memStart ≤ s.origin + s.top * s.video.sizeRow) (by omega)
  refine h.mem (hin.stosw_up (by omega) _ _ ?_ ?_) <;> rw [hleft] <;> omega

theorem Inv.scrdown (h : Inv s) : Inv (scrdown s) := by
  have htop := h.top_lt
  have hlines := h.bottom_le
  have hw := h.fits.word
  have hlow := h.fits.low
  have hrow := h.fits.row
  have hwide := h.fits.wide
  have hstart := h.start_le
  obtain ⟨h4, htb, hbl, hpred, -⟩ := region_bytes s.video.sizeRow htop hlines hrow h.fits.even
  obtain ⟨hdi, hend⟩ := h.address hlines
  obtain ⟨hsi, -⟩ := h.address (by omega : s.bottom - 1 ≤ s.video.lines)
  have hone : subl s.bottom 1 = s.bottom - 1 := by
    have := Nat.le_mul_of_pos_right s.bottom (by omega : 0 < s.video.sizeRow)
    exact subl_eq (by omega) (by omega)
  rw [hpred] at hsi
  simp only [Console.scrdown, h.count, hone, hdi, hsi]
  rw [subl_eq (by omega : 4 ≤ s.origin + s.bottom * s.video.sizeRow) (by omega),
    subl_eq (by omega : 4 ≤ s.origin + (s.bottom * s.video.sizeRow - s.video.sizeRow)) (by omega)]
  obtain ⟨hin, hleft⟩ := h.inside.movsl_down (by omega) hlow
    ((s.bottom - s.top - 1) * s.video.columns / 2)
    (by omega : s.video.memStart + 4 * ((s.bottom - s.top - 1) * s.video.columns / 2) ≤
      s.origin + (s.bottom * s.video.sizeRow - s.video.sizeRow) - 4 + 4) (by omega)
    (by omega : s.video.memStart + 4 * ((s.bottom - s.top - 1) * s.video.columns / 2) ≤
      s.origin + s.bottom * s.video.sizeRow - 4 + 4) (by omega)
  refine h.mem (hin.stosw_down (by omega) _ _ ?_ ?_) <;> rw [hleft, addl_eq (by omega)] <;> omega

theorem Inv.scrup (h : Inv s) : Inv (scrup s) := by
  unfold Console.scrup
  split
  case isFalse => exact h.scrupLines
  split
  case isFalse => exact h.scrupLines
  next hall =>
    have hw := h.fits.word
    have hrow := h.fits.row
    have hstart := h.start_le
    have hend := h.end_le
    have hscr := h.scrEnd_eq
    have hfits := h.fits.fits
    have hpos := h.pos_eq
    have hx := h.x_le
    have hline := line_le s.video.sizeRow h.y_lt
    obtain ⟨h4, hle, -, -, -⟩ :=
      region_bytes s.video.sizeRow h.fits.some (le_refl s.video.lines) hrow h.fits.even
    have hcount := h.count
    have hone : subl s.video.lines 0 = s.video.lines := by
      have := Nat.le_mul_of_pos_right s.video.lines
        (by have := h.fits.wide; omega : 0 < s.video.sizeRow)
      exact subl_eq (by omega) (by omega)
    rw [hall.1, hall.2, hone] at hcount
    have ho : addl s.origin s.video.sizeRow = s.origin + s.video.sizeRow := addl_eq (by omega)
    have he : addl s.scrEnd s.video.sizeRow = s.scrEnd + s.video.sizeRow := addl_eq (by omega)
    have hp : addl s.pos s.video.sizeRow = s.pos + s.video.sizeRow := addl_eq (by omega)
    simp only [ho, he, hp, hcount]
    split
    · next hfull =>
      have hback : subl (s.origin + s.video.sizeRow) s.video.memStart =
          s.origin + s.video.sizeRow - s.video.memStart := subl_eq (by omega) (by omega)
      obtain ⟨hin, hleft⟩ := h.inside.movsl_up (by omega)
        ((s.video.lines - 0 - 1) * s.video.columns / 2)
        (by omega : s.video.memStart ≤ s.origin + s.video.sizeRow) (by omega)
        (le_refl s.video.memStart) (by omega)
      rw [hback, subl_eq (by omega : _ ≤ s.scrEnd + s.video.sizeRow) (by omega),
        subl_eq (by omega : _ ≤ s.pos + s.video.sizeRow) (by omega)]
      refine ⟨h.fits, h.x_le, h.y_lt, h.top_lt, h.bottom_le, h.npar_lt, ?_, ?_, ?_, ?_, ?_⟩
      · change s.pos + s.video.sizeRow - (s.origin + s.video.sizeRow - s.video.memStart) =
          s.video.memStart + s.y * s.video.sizeRow + 2 * s.x
        omega
      · change s.scrEnd + s.video.sizeRow - (s.origin + s.video.sizeRow - s.video.memStart) =
          s.video.memStart + s.video.lines * s.video.sizeRow
        omega
      · exact le_refl s.video.memStart
      · change s.scrEnd + s.video.sizeRow - (s.origin + s.video.sizeRow - s.video.memStart) ≤
          s.video.memEnd
        omega
      · exact hin.stosw_up (by omega) _ _ (by rw [hleft]; omega) (by rw [hleft]; omega)
    · next hfull =>
      rw [subl_eq (by omega : s.video.sizeRow ≤ s.scrEnd + s.video.sizeRow) (by omega)]
      refine ⟨h.fits, h.x_le, h.y_lt, h.top_lt, h.bottom_le, h.npar_lt, ?_, ?_, ?_, ?_, ?_⟩
      · change s.pos + s.video.sizeRow =
          s.origin + s.video.sizeRow + s.y * s.video.sizeRow + 2 * s.x
        omega
      · change s.scrEnd + s.video.sizeRow =
          s.origin + s.video.sizeRow + s.video.lines * s.video.sizeRow
        omega
      · change s.video.memStart ≤ s.origin + s.video.sizeRow
        omega
      · exact Nat.le_of_not_lt hfull
      · exact h.inside.stosw_up (by omega) _ _ (by omega) (by omega)

/-! ### The cursor keys -/

/-- The counts of lines and columns are far below the word size. -/
theorem Inv.small (h : Inv s) : s.video.lines + s.video.sizeRow ≤ s.video.memEnd + 1 ∧
    s.pos + s.video.sizeRow < WORD := by
  have hfits := h.fits.fits
  have hsome := h.fits.some
  have hwide := h.fits.wide
  have hrow := h.fits.row
  have hw := h.fits.word
  have hlow := h.fits.low
  have hcur := h.cursor.2
  have hx := h.x_le
  obtain ⟨n, hn⟩ : ∃ n, s.video.lines = n + 1 := ⟨s.video.lines - 1, by omega⟩
  obtain ⟨r, hr⟩ : ∃ r, s.video.sizeRow = r + 1 := ⟨s.video.sizeRow - 1, by omega⟩
  have hprod : s.video.lines + s.video.sizeRow ≤ s.video.lines * s.video.sizeRow + 1 := by
    rw [hn, hr]
    nlinarith [Nat.zero_le (n * r)]
  obtain ⟨h1, h2⟩ := h.line h.y_lt
  exact ⟨by omega, by omega⟩

theorem Inv.moveX (h : Inv s) {x pos : ℕ} (hx : x ≤ s.video.columns)
    (hp : pos = s.origin + s.y * s.video.sizeRow + 2 * x) : Inv { s with x := x, pos := pos } :=
  { h with x_le := hx, pos_eq := hp }

theorem Inv.lf (h : Inv s) : Inv (lf s) := by
  obtain ⟨hl, hp⟩ := h.small
  have hy := h.y_lt
  have hw := h.fits.word
  have hwide := h.fits.wide
  have hrow := h.fits.row
  have hb := h.bottom_le
  have hone : addl s.y 1 = s.y + 1 := addl_eq (by omega)
  unfold Console.lf
  split
  · next hlt =>
    have hpos := h.pos_eq
    have hsucc : (s.y + 1) * s.video.sizeRow = s.y * s.video.sizeRow + s.video.sizeRow :=
      Nat.succ_mul s.y s.video.sizeRow
    rw [hone] at hlt ⊢
    refine { h with y_lt := ?_, pos_eq := ?_ }
    · change s.y + 1 < s.video.lines
      omega
    · change addl s.pos s.video.sizeRow = s.origin + (s.y + 1) * s.video.sizeRow + 2 * s.x
      rw [addl_eq (by omega)]
      omega
  · exact h.scrup

theorem Inv.ri (h : Inv s) : Inv (ri s) := by
  obtain ⟨hl, hp⟩ := h.small
  have hy := h.y_lt
  have hw := h.fits.word
  unfold Console.ri
  split
  · next hgt =>
    have hpos := h.pos_eq
    have hsucc := line_le s.video.sizeRow (by omega : s.y - 1 < s.y)
    have hpred : (s.y - 1) * s.video.sizeRow = s.y * s.video.sizeRow - s.video.sizeRow := by
      rw [Nat.sub_mul, Nat.one_mul]
    rw [subl_eq (by omega : 1 ≤ s.y) (by omega)]
    refine { h with y_lt := ?_, pos_eq := ?_ }
    · change s.y - 1 < s.video.lines
      omega
    · change subl s.pos s.video.sizeRow = s.origin + (s.y - 1) * s.video.sizeRow + 2 * s.x
      rw [subl_eq (by omega) (by omega)]
      omega
  · exact h.scrdown

theorem Inv.double (h : Inv s) : mull s.x 2 = 2 * s.x := by
  have := h.small.2
  have := h.x_le
  have := h.fits.row
  rw [mull_eq (by omega), Nat.mul_comm]

theorem Inv.cr (h : Inv s) : Inv (cr s) := by
  have hpos := h.pos_eq
  have hsmall := h.small.2
  unfold Console.cr
  rw [h.double, subl_eq (by omega) (by omega)]
  exact h.moveX (Nat.zero_le _) (by omega)

/-- One column to the left. -/
theorem Inv.back (h : Inv s) (hx : s.x ≠ 0) :
    subl s.pos 2 = s.pos - 2 ∧ Inv { s with x := subl s.x 1, pos := subl s.pos 2 } := by
  have hpos := h.pos_eq
  have hsmall := h.small.2
  have hle := h.x_le
  have hrow := h.fits.row
  rw [subl_eq (by omega : 2 ≤ s.pos) (by omega), subl_eq (by omega : 1 ≤ s.x) (by omega)]
  exact ⟨rfl, h.moveX (by omega) (by omega)⟩

theorem Inv.del (h : Inv s) : Inv (del s) := by
  unfold Console.del
  split
  · next hx =>
    obtain ⟨hp, hback⟩ := h.back hx
    have hlow := h.cursor.1
    have hhigh := h.cursor.2
    rw [hp] at hback ⊢
    exact hback.mem (h.inside.write (by omega) (by omega) _)
  · exact h

/-! ### Erasing, inserting and deleting -/

theorem Inv.erase (h : Inv s) {count start : ℕ} (hlo : s.video.memStart ≤ start)
    (hhi : start + 2 * count ≤ s.video.memEnd) : Inv (erase s count start) :=
  h.mem (h.inside.stosw_up (by have := h.fits.word; omega) _ _ hlo hhi)

theorem Inv.csiJ (h : Inv s) (par : ℕ) : Inv (csiJ s par) := by
  have hpos := h.pos_eq
  have hx := h.x_le
  have hrow := h.fits.row
  have hscr := h.scrEnd_eq
  have hend := h.end_le
  have hstart := h.start_le
  have hw := h.fits.word
  have hline := line_le s.video.sizeRow h.y_lt
  fun_cases Console.csiJ s par
  · rw [subl_eq (by omega : s.pos ≤ s.scrEnd) (by omega)]
    exact h.erase (by omega) (by omega)
  · rw [subl_eq (by omega : s.origin ≤ s.pos) (by omega)]
    exact h.erase hstart (by omega)
  · have hall : 2 * (s.video.columns * s.video.lines) = s.video.lines * s.video.sizeRow := by
      rw [hrow, Nat.mul_comm s.video.columns, Nat.mul_left_comm]
    rw [mull_eq (by omega)]
    exact h.erase hstart (by omega)
  · exact h

theorem Inv.csiK (h : Inv s) (par : ℕ) : Inv (csiK s par) := by
  have hpos := h.pos_eq
  have hx := h.x_le
  have hrow := h.fits.row
  have hsmall := h.small.2
  obtain ⟨hlo, hhi⟩ := h.line h.y_lt
  have hcol : subl s.pos (mull s.x 2) = s.origin + s.y * s.video.sizeRow := by
    rw [h.double, subl_eq (by omega) (by omega)]
    omega
  fun_cases Console.csiK s par
  · exact h
  · next hlt =>
    rw [subl_eq (by omega : s.x ≤ s.video.columns) (by omega)]
    exact h.erase (by omega) (by omega)
  · rw [hcol]
    refine h.erase hlo ?_
    split <;> omega
  · rw [hcol]
    exact h.erase hlo (by omega)
  · exact h

theorem Inv.insertChar (h : Inv s) : Inv (insertChar s) := by
  obtain ⟨hlo, hhi⟩ := h.cursor
  exact h.mem (h.inside.insertLoop (by have := h.fits.word; omega) _ (by omega) hhi)

theorem Inv.deleteChar (h : Inv s) : Inv (deleteChar s) := by
  obtain ⟨hlo, hhi⟩ := h.cursor
  unfold Console.deleteChar
  split
  · exact h
  · exact h.mem (h.inside.deleteLoop (by have := h.fits.word; omega) _ _ (by omega) (by omega))

/-- A scrolling region is put back after the work on the lines below the cursor. -/
theorem Inv.region (h : Inv s) {s' : Screen} (h' : Inv s') (hv : s'.video = s.video) :
    Inv { s' with top := s.top, bottom := s.bottom } :=
  { h' with top_lt := h.top_lt, bottom_le := by rw [hv]; exact h.bottom_le }

theorem Inv.below (h : Inv s) : Inv { s with top := s.y, bottom := s.video.lines } :=
  { h with top_lt := h.y_lt, bottom_le := le_refl _ }

theorem scrup_video (s : Screen) : (scrup s).video = s.video := by
  unfold Console.scrup
  split
  · split
    · dsimp only
      split <;> rfl
    · rfl
  · rfl

theorem Inv.insertLine (h : Inv s) : Inv (insertLine s) := h.region h.below.scrdown rfl

theorem Inv.deleteLine (h : Inv s) : Inv (deleteLine s) :=
  h.region h.below.scrup (scrup_video _)

theorem Inv.iterate {f : Screen → Screen} (hf : ∀ s, Inv s → Inv (f s)) (n : ℕ) (h : Inv s) :
    Inv (f^[n] s) := by
  induction n generalizing s with
  | zero => exact h
  | succ n ih => exact ih (hf s h)

end Linux011.Console
