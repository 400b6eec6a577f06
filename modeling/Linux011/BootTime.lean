import Mathlib

set_option autoImplicit false

/-!
# The time at boot (time_init of init/main.c and kernel_mktime of kernel/mktime.c)

The registers of the clock hold two digits in BCD each, so the year comes without its century.
-/
namespace Linux011.BootTime

section Calendar

def leap (y : ℕ) : Bool := y % 4 = 0 ∧ (y % 100 ≠ 0 ∨ y % 400 = 0)

def monthDays (y m : ℕ) : ℕ :=
  if m = 2 then (if leap y then 29 else 28)
  else if m = 4 ∨ m = 6 ∨ m = 9 ∨ m = 11 then 30 else 31

def yearDays (y : ℕ) : ℕ := if leap y then 366 else 365

/-- Days from 1970-01-01 to the first of January of the year 1970 + n. -/
def daysBeforeYear (n : ℕ) : ℕ := ∑ k ∈ Finset.range n, yearDays (1970 + k)

/-- Days from the first of January to the first of month m. -/
def daysBeforeMonth (y m : ℕ) : ℕ := ∑ k ∈ Finset.range (m - 1), monthDays y (k + 1)

/-- A second of the calendar, from 1970-01-01 to 2038-01-19. -/
structure Instant where
  year : ℕ
  month : ℕ
  day : ℕ
  hour : ℕ
  min : ℕ
  sec : ℕ
  first : 1970 ≤ year
  last : ¬[2038, 1, 19] < [year, month, day]
  month_pos : 1 ≤ month
  month_le : month ≤ 12
  day_pos : 1 ≤ day
  day_le : day ≤ monthDays year month
  hour_lt : hour < 24
  min_lt : min < 60
  sec_lt : sec < 60

variable (i j : Instant)

def Instant.days : ℕ :=
  daysBeforeYear (i.year - 1970) + daysBeforeMonth i.year i.month + (i.day - 1)

/-- The seconds since the epoch. -/
def Instant.seconds : ℕ := 86400 * i.days + 3600 * i.hour + 60 * i.min + i.sec

def Instant.Before : Prop :=
  [i.year, i.month, i.day, i.hour, i.min, i.sec] < [j.year, j.month, j.day, j.hour, j.min, j.sec]

variable {i j}

theorem Instant.year_le : i.year ≤ 2038 := by
  have h := i.last
  simp only [List.cons_lt_cons_iff] at h
  omega

theorem daysBeforeMonth_succ (y : ℕ) {m : ℕ} (h : 1 ≤ m) :
    daysBeforeMonth y (m + 1) = daysBeforeMonth y m + monthDays y m := by
  obtain ⟨k, rfl⟩ := Nat.exists_eq_add_of_le' h
  simp [daysBeforeMonth, Finset.sum_range_succ]

theorem daysBeforeMonth_mono (y : ℕ) : Monotone (daysBeforeMonth y) := by
  intro m m' h
  exact Finset.sum_le_sum_of_subset (Finset.range_mono (by omega))

theorem daysBeforeYear_mono : Monotone daysBeforeYear := by
  intro n n' h
  exact Finset.sum_le_sum_of_subset (Finset.range_mono h)

theorem daysBeforeMonth_year (y : ℕ) : daysBeforeMonth y 13 = yearDays y := by
  cases h : leap y <;> simp [daysBeforeMonth, Finset.sum_range_succ, monthDays, yearDays, h]

/-- The day of the year, counted from 0. -/
theorem Instant.day_lt : daysBeforeMonth i.year i.month + (i.day - 1) < yearDays i.year := by
  have h := daysBeforeMonth_mono i.year (show i.month + 1 ≤ 13 from by have := i.month_le; omega)
  rw [daysBeforeMonth_succ _ i.month_pos, daysBeforeMonth_year] at h
  have := i.day_le
  have := i.day_pos
  omega

theorem days_lt_of_year (h : i.year < j.year) : i.days < j.days := by
  have hmono := daysBeforeYear_mono (show i.year - 1970 + 1 ≤ j.year - 1970 from by
    have := i.first; omega)
  have hyear : daysBeforeYear (i.year - 1970 + 1) =
      daysBeforeYear (i.year - 1970) + yearDays i.year := by
    rw [daysBeforeYear, Finset.sum_range_succ, Nat.add_sub_cancel' i.first]
    rfl
  have hday := i.day_lt
  unfold Instant.days
  omega

theorem days_lt_of_month (hy : i.year = j.year) (h : i.month < j.month) : i.days < j.days := by
  have hmono := daysBeforeMonth_mono i.year (show i.month + 1 ≤ j.month from h)
  rw [daysBeforeMonth_succ _ i.month_pos] at hmono
  have := i.day_le
  have := i.day_pos
  unfold Instant.days
  rw [← hy]
  omega

theorem Instant.seconds_lt (h : i.Before j) : i.seconds < j.seconds := by
  have hi := i.hour_lt
  have := i.min_lt
  have := i.sec_lt
  have := i.day_pos
  have hdays : i.days < j.days ∨ i.days = j.days ∧
      [i.hour, i.min, i.sec] < [j.hour, j.min, j.sec] := by
    rw [Instant.Before, List.cons_lt_cons_iff] at h
    obtain h | ⟨hy, h⟩ := h
    · exact .inl (days_lt_of_year h)
    rw [List.cons_lt_cons_iff] at h
    obtain h | ⟨hm, h⟩ := h
    · exact .inl (days_lt_of_month hy h)
    rw [List.cons_lt_cons_iff] at h
    unfold Instant.days
    rw [hy, hm]
    obtain h | ⟨hd, h⟩ := h
    · exact .inl (by omega)
    · exact .inr ⟨by rw [hd], h⟩
  unfold Instant.seconds
  obtain h | ⟨hd, h⟩ := hdays
  · omega
  · simp only [List.cons_lt_cons_iff, List.not_lt_nil, and_false, or_false] at h
    omega

theorem before_or_after (i j : Instant) : i.Before j ∨ i = j ∨ j.Before i := by
  rcases lt_trichotomy [i.year, i.month, i.day, i.hour, i.min, i.sec]
    [j.year, j.month, j.day, j.hour, j.min, j.sec] with h | h | h
  · exact .inl h
  · refine .inr (.inl ?_)
    cases i
    cases j
    simp only [List.cons.injEq] at h
    simp [h]
  · exact .inr (.inr h)

theorem Instant.eq_of_seconds (h : i.seconds = j.seconds) : i = j := by
  obtain hlt | heq | hlt := before_or_after i j
  · exact absurd (Instant.seconds_lt hlt) (by omega)
  · exact heq
  · exact absurd (Instant.seconds_lt hlt) (by omega)

end Calendar

section Clock

/-- The registers 0, 2, 4, 7, 8 and 9 of the clock. -/
structure Registers where
  sec : ℕ
  min : ℕ
  hour : ℕ
  mday : ℕ
  mon : ℕ
  year : ℕ
  deriving DecidableEq

def bcd (n : ℕ) : ℕ := n / 10 * 16 + n % 10

/-- What the registers show at an instant: the year has lost its century. -/
def Instant.registers (i : Instant) : Registers :=
  ⟨bcd i.sec, bcd i.min, bcd i.hour, bcd i.day, bcd i.month, bcd (i.year % 100)⟩

/-- What one pass of the loop of `time_init` reads: the registers and the seconds once more. -/
structure Pass where
  time : Registers
  again : ℕ
  deriving DecidableEq

/-- When a pass reads: an instant for every register, in the order of the reads. -/
structure Reads where
  sec : Instant
  min : Instant
  hour : Instant
  mday : Instant
  mon : Instant
  year : Instant
  again : Instant
  order : [sec, min, hour, mday, mon, year, again].Pairwise fun i j => i.seconds ≤ j.seconds
  minute : again.seconds < sec.seconds + 60

def Reads.pass (r : Reads) : Pass :=
  ⟨⟨r.sec.registers.sec, r.min.registers.min, r.hour.registers.hour, r.mday.registers.mday,
    r.mon.registers.mon, r.year.registers.year⟩, r.again.registers.sec⟩

end Clock

section Source

/-- A 32-bit `int` or `long`. -/
def int (x : ℤ) : ℤ := x.bmod (2 ^ 32)

def MINUTE : ℤ := 60
def HOUR : ℤ := 60 * MINUTE
def DAY : ℤ := 24 * HOUR
def YEAR : ℤ := 365 * DAY

/-- The table counts 29 days for February. -/
def month : List ℤ :=
  [0, DAY * 31, DAY * (31 + 29), DAY * (31 + 29 + 31), DAY * (31 + 29 + 31 + 30),
    DAY * (31 + 29 + 31 + 30 + 31), DAY * (31 + 29 + 31 + 30 + 31 + 30),
    DAY * (31 + 29 + 31 + 30 + 31 + 30 + 31), DAY * (31 + 29 + 31 + 30 + 31 + 30 + 31 + 31),
    DAY * (31 + 29 + 31 + 30 + 31 + 30 + 31 + 31 + 30),
    DAY * (31 + 29 + 31 + 30 + 31 + 30 + 31 + 31 + 30 + 31),
    DAY * (31 + 29 + 31 + 30 + 31 + 30 + 31 + 31 + 30 + 31 + 30)]

structure Tm where
  sec : ℤ
  min : ℤ
  hour : ℤ
  mday : ℤ
  mon : ℤ
  year : ℤ

/-- `kernel_mktime`. Division and remainder of C round towards zero; the months of a clock are in the
    table. -/
def kernelMktime (tm : Tm) : ℤ :=
  let year := int (tm.year - 70)
  let res := int (YEAR * year + DAY * (year + 1).tdiv 4)
  let res := int (res + month.getD tm.mon.toNat 0)
  let res := if 1 < tm.mon ∧ (year + 2).tmod 4 ≠ 0 then int (res - DAY) else res
  let res := int (res + DAY * (tm.mday - 1))
  let res := int (res + HOUR * tm.hour)
  let res := int (res + MINUTE * tm.min)
  int (res + tm.sec)

def BCD_TO_BIN (val : ℕ) : ℕ := (val &&& 15) + (val >>> 4) * 10

/-- The end of `time_init`, after its loop. -/
def startupTime (time : Registers) : ℤ :=
  kernelMktime ⟨BCD_TO_BIN time.sec, BCD_TO_BIN time.min, BCD_TO_BIN time.hour,
    BCD_TO_BIN time.mday, BCD_TO_BIN time.mon - 1, BCD_TO_BIN time.year⟩

/-- `time_init`: passes are read until the seconds stand still over one. -/
def timeInit : List Pass → Option ℤ
  | [] => none
  | p :: rest => if p.time.sec ≠ p.again then timeInit rest else some (startupTime p.time)

end Source

section Epoch

variable (i : Instant)

theorem bcd_to_bin (n : ℕ) : BCD_TO_BIN (bcd n) = n := by
  have hand : bcd n &&& 15 = bcd n % 16 := Nat.and_two_pow_sub_one_eq_mod (bcd n) 4
  have hshift : bcd n >>> 4 = bcd n / 16 := Nat.shiftRight_eq_div_pow (bcd n) 4
  rw [BCD_TO_BIN, hand, hshift]
  unfold bcd
  omega

theorem bcd_injective : Function.Injective bcd :=
  Function.LeftInverse.injective bcd_to_bin

theorem daysBeforeYear_eq {n : ℕ} (h : n ≤ 130) : daysBeforeYear n = 365 * n + (n + 1) / 4 := by
  induction n with
  | zero => rfl
  | succ n ih =>
    have hleap : leap (1970 + n) = decide ((1970 + n) % 4 = 0) := by
      simp only [leap, decide_eq_decide]
      omega
    have hsum : daysBeforeYear (n + 1) = daysBeforeYear n + yearDays (1970 + n) :=
      Finset.sum_range_succ _ n
    rw [hsum, ih (by omega), yearDays, hleap]
    simp only [decide_eq_true_eq]
    split <;> omega

theorem leap_iff {y : ℕ} (h : 1970 ≤ y) (h' : y ≤ 2038) : leap y = decide (y % 4 = 0) := by
  simp only [leap, decide_eq_decide]
  omega

/-- The table counts one day more than the calendar after the February of a common year. -/
theorem month_table {y m : ℕ} (h : 1 ≤ m) (h' : m ≤ 12) :
    month.getD (m - 1) 0 - (if 2 < m ∧ ¬leap y then DAY else 0) = DAY * daysBeforeMonth y m := by
  interval_cases m <;> cases hy : leap y <;>
    simp [month, daysBeforeMonth, Finset.sum_range_succ, monthDays, hy, DAY, HOUR, MINUTE]

/-- The year that `kernel_mktime` computes with. -/
def Instant.shortYear : ℤ := ((i.year % 100 : ℕ) : ℤ) - 70

theorem startupTime_eq : startupTime i.registers =
    int (DAY * (365 * i.shortYear + (i.shortYear + 1).tdiv 4 + daysBeforeMonth i.year i.month +
      (i.day - 1)) + HOUR * i.hour + MINUTE * i.min + i.sec) := by
  have hyear : int i.shortYear = i.shortYear := by
    refine Int.bmod_eq_of_le_mul_two ?_ ?_ <;> unfold Instant.shortYear <;> push_cast <;> omega
  have hmon : ((i.month : ℤ) - 1).toNat = i.month - 1 := by omega
  have hcommon : (1 < (i.month : ℤ) - 1 ∧ (i.shortYear + 2).tmod 4 ≠ 0) ↔
      (2 < i.month ∧ ¬leap i.year) := by
    have hzero : (i.shortYear + 2).tmod 4 ≠ 0 ↔ ¬4 ∣ i.shortYear + 2 :=
      not_congr (Int.dvd_iff_tmod_eq_zero ..).symm
    rw [hzero, leap_iff i.first i.year_le, decide_eq_true_eq]
    unfold Instant.shortYear
    omega
  have htable := month_table (y := i.year) i.month_pos i.month_le
  simp only [startupTime, kernelMktime, Instant.registers, bcd_to_bin]
  rw [show ((i.year % 100 : ℕ) : ℤ) - 70 = i.shortYear from rfl, hyear, hmon, if_congr hcommon rfl rfl]
  by_cases h : 2 < i.month ∧ ¬leap i.year
  · rw [if_pos h] at htable ⊢
    simp only [int, Int.bmod_add_bmod, Int.bmod_sub_bmod]
    congr 1
    unfold YEAR
    linear_combination htable
  · rw [if_neg h] at htable ⊢
    simp only [int, Int.bmod_add_bmod]
    congr 1
    unfold YEAR
    linear_combination htable

end Epoch

section Loop

variable {i j : Instant} {r : Reads} {t : ℤ}

theorem Instant.seconds_mod (i : Instant) : i.seconds % 60 = i.sec := by
  have := i.sec_lt
  unfold Instant.seconds
  omega

/-- A pass over which the seconds stood still has read one instant. -/
theorem Reads.still (h : r.pass.time.sec = r.pass.again) : r.pass.time = r.sec.registers := by
  have hsec : r.sec.sec = r.again.sec := bcd_injective h
  have hminute := r.minute
  have horder := r.order
  have hmod := r.sec.seconds_mod
  have hmod' := r.again.seconds_mod
  simp only [List.pairwise_cons, List.mem_cons, List.not_mem_nil, or_false, forall_eq_or_imp,
    forall_eq] at horder
  have hsame : ∀ k : Instant, r.sec.seconds ≤ k.seconds → k.seconds ≤ r.again.seconds → k = r.sec := by
    intro k hk hk'
    refine Instant.eq_of_seconds ?_
    omega
  obtain ⟨⟨hmin, hhour, hmday, hmon, hyear, -⟩, h1, h2, h3, h4, h5, -⟩ := horder
  simp only [Reads.pass, hsame r.min hmin (by omega), hsame r.hour hhour (by omega),
    hsame r.mday hmday (by omega), hsame r.mon hmon (by omega), hsame r.year hyear (by omega)]

/-- All the registers are read within one second. -/
def Instant.frozen (i : Instant) : Reads := ⟨i, i, i, i, i, i, i, by simp, by omega⟩

/-- What the loop reads when the pass that ends it begins at the instant i. -/
def Shows (i : Instant) (reads : List Reads) : Prop :=
  ∃ moved last, reads = moved ++ [last] ∧ (∀ r ∈ moved, r.pass.time.sec ≠ r.pass.again) ∧
    last.pass.time.sec = last.pass.again ∧ last.sec = i

/-- A value that `time_init` can store when it reads the clock at the instant i. -/
def Startup (i : Instant) (t : ℤ) : Prop :=
  ∃ reads, Shows i reads ∧ timeInit (reads.map Reads.pass) = some t

theorem timeInit_moved {moved : List Reads} (h : ∀ r ∈ moved, r.pass.time.sec ≠ r.pass.again)
    (ps : List Pass) : timeInit (moved.map Reads.pass ++ ps) = timeInit ps := by
  induction moved with
  | nil => rfl
  | cons r moved ih =>
    rw [List.map_cons, List.cons_append, timeInit, if_pos (h r List.mem_cons_self)]
    exact ih fun q hq => h q (List.mem_cons_of_mem _ hq)

theorem startup_iff : Startup i t ↔ t = startupTime i.registers := by
  constructor
  · rintro ⟨_, ⟨moved, last, rfl, hmoved, hlast, rfl⟩, ht⟩
    rw [List.map_append, timeInit_moved hmoved, List.map_singleton, timeInit,
      if_neg (not_not_intro hlast), Reads.still hlast] at ht
    exact (Option.some.inj ht).symm
  · rintro rfl
    exact ⟨[i.frozen], ⟨[], i.frozen, rfl, by simp, rfl, rfl⟩, by simp [timeInit, Instant.frozen, Reads.pass]⟩

end Loop

section Claim

variable {i j : Instant}

theorem days_eq (i : Instant) : (i.days : ℤ) =
    365 * ((i.year : ℤ) - 1970) + ((i.year - 1970 + 1) / 4 : ℕ) + daysBeforeMonth i.year i.month +
      (i.day - 1) := by
  have := i.first
  have := i.year_le
  have := i.day_pos
  rw [Instant.days, daysBeforeYear_eq (by omega)]
  push_cast [Nat.cast_sub i.first, Nat.cast_sub i.day_pos]
  ring

theorem startupTime_of_lt (h : i.year < 2000) : startupTime i.registers = i.seconds := by
  have hfirst := i.first
  have hhour := i.hour_lt
  have hmin := i.min_lt
  have hsec := i.sec_lt
  have hshort : i.shortYear = (i.year : ℤ) - 1970 := by unfold Instant.shortYear; omega
  have hdiv : (i.shortYear + 1).tdiv 4 = ((i.year - 1970 + 1) / 4 : ℕ) := by
    rw [Int.tdiv_eq_ediv_of_nonneg (by omega)]
    omega
  have hdays := days_eq i
  have hlt : i.days < 30 * 366 := by
    have hday := i.day_lt
    have hyear : yearDays i.year ≤ 366 := by unfold yearDays; split <;> omega
    rw [Instant.days, daysBeforeYear_eq (by omega)]
    omega
  rw [startupTime_eq, hdiv, hshort, ← hdays, int, Int.bmod_eq_of_le_mul_two]
  · simp only [DAY, HOUR, MINUTE, Instant.seconds]
    push_cast
    ring
  all_goals simp only [DAY, HOUR, MINUTE]; push_cast; omega

/-- From 2000 on the result is a century too early, modulo 2^32. -/
theorem startupTime_of_le (h : 2000 ≤ i.year) : startupTime i.registers ≠ i.seconds := by
  have hlast := i.year_le
  have hshort : i.shortYear = (i.year : ℤ) - 2070 := by unfold Instant.shortYear; omega
  have hdays := days_eq i
  have hdiff : 36524 ≤ i.days - (365 * i.shortYear + (i.shortYear + 1).tdiv 4 +
      daysBeforeMonth i.year i.month + (i.day - 1)) ∧
      i.days - (365 * i.shortYear + (i.shortYear + 1).tdiv 4 +
      daysBeforeMonth i.year i.month + (i.day - 1)) ≤ 36525 := by
    have hdiv : (i.shortYear + 1).tdiv 4 = -((2069 - i.year : ℕ) / 4 : ℕ) := by
      rw [show i.shortYear + 1 = -((2069 - i.year : ℕ) : ℤ) by omega, Int.neg_tdiv]
      rfl
    rw [hdiv]
    omega
  intro heq
  rw [startupTime_eq, int] at heq
  have hdvd := Int.dvd_bmod_sub_self
    (x := DAY * (365 * i.shortYear + (i.shortYear + 1).tdiv 4 + daysBeforeMonth i.year i.month +
      (i.day - 1)) + HOUR * i.hour + MINUTE * i.min + i.sec) (m := 2 ^ 32)
  rw [heq] at hdvd
  simp only [DAY, HOUR, MINUTE, Instant.seconds] at hdvd
  push_cast at hdvd
  omega

/-- The clock of the calendar is read back before the year 2000, and only then. -/
theorem startup_time_iff (i : Instant) :
    ((∃ t, Startup i t) ∧ (∀ t, Startup i t → t = i.seconds) ∧
      ∀ j : Instant, j.Before i → ∀ s t, Startup j s → Startup i t → s < t) ↔ i.year < 2000 := by
  constructor
  · rintro ⟨⟨t, ht⟩, heq, -⟩
    by_contra h
    refine startupTime_of_le (Nat.le_of_not_lt h) ?_
    rw [← startup_iff.1 ht]
    exact heq t ht
  · intro h
    refine ⟨⟨_, startup_iff.2 rfl⟩, ?_, ?_⟩
    · intro t ht
      rw [startup_iff.1 ht, startupTime_of_lt h]
    · intro j hj s t hs ht
      have hyear : j.year < 2000 := by
        rw [Instant.Before, List.cons_lt_cons_iff] at hj
        omega
      rw [startup_iff.1 hs, startup_iff.1 ht, startupTime_of_lt h, startupTime_of_lt hyear]
      exact_mod_cast Instant.seconds_lt hj

/-- Midnight of new year's day 2000. -/
def newYear2000 : Instant where
  year := 2000
  month := 1
  day := 1
  hour := 0
  min := 0
  sec := 0
  first := Nat.le_of_ble_eq_true rfl
  last := of_decide_eq_true rfl
  month_pos := Nat.le_of_ble_eq_true rfl
  month_le := Nat.le_of_ble_eq_true rfl
  day_pos := Nat.le_of_ble_eq_true rfl
  day_le := Nat.le_of_ble_eq_true rfl
  hour_lt := Nat.le_of_ble_eq_true rfl
  min_lt := Nat.le_of_ble_eq_true rfl
  sec_lt := Nat.le_of_ble_eq_true rfl

/-- The clock shows 00-01-01, and the kernel starts in February 2036. -/
theorem newYear2000_starts_in_2036 :
    Startup newYear2000 2085978496 ∧ newYear2000.seconds = 946684800 ∧
      ¬((∃ t, Startup newYear2000 t) ∧ (∀ t, Startup newYear2000 t → t = newYear2000.seconds) ∧
        ∀ j : Instant, j.Before newYear2000 → ∀ s t, Startup j s → Startup newYear2000 t → s < t) := by
  have hstart : Startup newYear2000 2085978496 := startup_iff.2 (by decide)
  have hseconds : newYear2000.seconds = 946684800 := by
    have hdays : newYear2000.days = 10957 := by
      rw [Instant.days, daysBeforeYear_eq (by decide)]
      decide
    rw [Instant.seconds, hdays]
    rfl
  refine ⟨hstart, hseconds, ?_⟩
  rintro ⟨-, heq, -⟩
  have h := heq _ hstart
  rw [hseconds] at h
  exact absurd h (by decide)

end Claim

end Linux011.BootTime
