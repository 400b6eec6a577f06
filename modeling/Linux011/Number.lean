import Mathlib

set_option autoImplicit false

/-! # Numbers (number of kernel/vsprintf.c) -/
namespace Linux011.Vsprintf

/-- A 32-bit `int`. -/
def int (x : ℤ) : ℤ := x.bmod (2 ^ 32)

/-- The bits of `type`. -/
structure Flags where
  zeropad : Bool
  sign : Bool
  plus : Bool
  space : Bool
  left : Bool
  special : Bool
  small : Bool
  deriving DecidableEq

def UPPER : List Char := "0123456789ABCDEFGHIJKLMNOPQRSTUVWXYZ".toList

def LOWER : List Char := "0123456789abcdefghijklmnopqrstuvwxyz".toList

/-- `digits` -/
def Flags.digits (type : Flags) : List Char := if type.small then LOWER else UPPER

/-- `if (type&LEFT) type &= ~ZEROPAD;` -/
def Flags.clean (type : Flags) : Flags := if type.left then { type with zeropad := false } else type

/-- The sign has been taken off. -/
def Flags.negative (type : Flags) (num : ℤ) : Bool := type.sign ∧ num < 0

/-- `sign`, empty where the source has a zero. -/
def Flags.signOf (type : Flags) (num : ℤ) : List Char :=
  if type.negative num then ['-'] else if type.plus then ['+'] else if type.space then [' '] else []

/-- What `SPECIAL` puts in front. -/
def Flags.mark (type : Flags) (base : ℤ) : List Char :=
  if type.special then
    if base = 8 then ['0'] else if base = 16 then ['0', type.digits.getD 33 ' '] else []
  else []

/-- `while(size-->0) *str++ = c`: what is stored, and `size` afterwards. -/
def pad (c : Char) (size : ℤ) : List Char × ℤ :=
  if 0 < size then (c :: (pad c (size - 1)).1, (pad c (size - 1)).2) else ([], int (size - 1))
termination_by size.toNat
decreasing_by all_goals omega

/-- The loop of divisions, which stores the last digit first. -/
def divisions (digits : List Char) (base num : ℕ) : List Char :=
  if num = 0 ∨ base < 2 then []
  else digits.getD (num % base) ' ' :: divisions digits base (num / base)
termination_by num
decreasing_by exact Nat.div_lt_self (by omega) (by omega)

/-- `tmp`, as far as it is filled. `do_div` divides without a sign. -/
def tmp (type : Flags) (num base : ℤ) : List Char :=
  let num := if type.negative num then int (-num) else num
  if num = 0 then ['0'] else divisions type.digits base.toNat (num % 2 ^ 32).toNat

/-- `number`; `none` is the null pointer for a wrong base. -/
def number (num base size precision : ℤ) (type : Flags) : Option (List Char) :=
  let type := type.clean
  if base < 2 ∨ 36 < base then none
  else
    let c := if type.zeropad then '0' else ' '
    let sign := type.signOf num
    let size := if sign ≠ [] then int (size - 1) else size
    let size := if type.special then
        if base = 16 then int (size - 2) else if base = 8 then int (size - 1) else size
      else size
    let tmp := tmp type num base
    let precision := if precision < tmp.length then (tmp.length : ℤ) else precision
    let size := int (size - precision)
    let first := if ¬(type.zeropad ∨ type.left) then pad ' ' size else ([], size)
    let second := if ¬type.left then pad c first.2 else ([], first.2)
    let zeros := pad '0' (precision - tmp.length)
    let last := pad ' ' second.2
    some (first.1 ++ sign ++ type.mark base ++ second.1 ++ zeros.1 ++ tmp.reverse ++ last.1)

/-! ### Padding in 32 bits -/

section Padding

variable {x : ℤ}

theorem int_eq (h : -2 ^ 31 ≤ x) (h' : x < 2 ^ 31) : int x = x :=
  Int.bmod_eq_of_le_mul_two (by push_cast; omega) (by push_cast; omega)

theorem int_add (x : ℤ) : int (x + 2 ^ 32) = int x := by
  exact_mod_cast Int.add_bmod_right x (2 ^ 32)

/-- Below the range an `int` comes back at its other end. -/
theorem int_below (h : -2 ^ 32 - 2 ≤ x) (h' : x < -2 ^ 31) : int x = x + 2 ^ 32 := by
  rw [← int_add, int_eq (by omega) (by omega)]

theorem pad_eq (c : Char) (size : ℤ) :
    pad c size = (List.replicate size.toNat c, int (min size 0 - 1)) := by
  induction size using pad.induct with
  | case1 size h ih =>
    have hsucc : size.toNat = (size - 1).toNat + 1 := by omega
    have hmin : min size 0 = min (size - 1) 0 := by omega
    rw [pad, if_pos h, ih, hsucc, List.replicate_succ, hmin]
  | case2 size h =>
    have hzero : size.toNat = 0 := by omega
    have hmin : min size 0 = size := by omega
    rw [pad, if_neg h, hzero, List.replicate_zero, hmin]

end Padding

/-! ### Digits -/

section Digits

/-- The value of a digit in either case. -/
def digitValue (c : Char) : Option ℕ :=
  if 48 ≤ c.toNat ∧ c.toNat ≤ 57 then some (c.toNat - 48)
  else if 65 ≤ c.toNat ∧ c.toNat ≤ 90 then some (c.toNat - 55)
  else if 97 ≤ c.toNat ∧ c.toNat ≤ 122 then some (c.toNat - 87)
  else none

/-- Reads digits from the left, from the value `n` on. -/
def parse (base n : ℕ) : List Char → Option ℕ
  | [] => some n
  | c :: l => (digitValue c).bind fun d => if d < base then parse base (n * base + d) l else none

/-- The number that the digits stand for. -/
def magnitude (type : Flags) (num : ℤ) : ℕ :=
  if type.negative num then num.natAbs else (num % 2 ^ 32).toNat

def digitCount (base m : ℕ) : ℕ := max 1 (Nat.digits base m).length

variable {type : Flags} {base m : ℕ}

theorem digitValue_table (type : Flags) : ∀ d < 36, digitValue (type.digits.getD d ' ') = some d := by
  unfold Flags.digits
  cases type.small
  · decide
  · decide

theorem digits_mem (type : Flags) : ∀ d < 36, type.digits.getD d ' ' ∈ type.digits := by
  unfold Flags.digits
  cases type.small
  · decide
  · decide

theorem parse_append (n : ℕ) (l l' : List Char) :
    parse base n (l ++ l') = (parse base n l).bind fun m => parse base m l' := by
  induction l generalizing n with
  | nil => rfl
  | cons c l ih =>
    simp only [List.cons_append, parse]
    cases digitValue c with
    | none => rfl
    | some d =>
      simp only [Option.bind_some]
      split
      · exact ih _
      · rfl

theorem parse_zeros (h : 0 < base) (k : ℕ) : parse base 0 (List.replicate k '0') = some 0 := by
  induction k with
  | zero => rfl
  | succ k ih =>
    have hzero : digitValue '0' = some 0 := by decide
    rw [List.replicate_succ, parse, hzero, Option.bind_some, if_pos h, Nat.zero_mul, ih]

theorem parse_digits (hbase : base ≤ 36) (ds : List ℕ) (hds : ∀ d ∈ ds, d < base) :
    parse base 0 (ds.map (type.digits.getD · ' ')).reverse = some (Nat.ofDigits base ds) := by
  induction ds with
  | nil => rfl
  | cons d ds ih =>
    have hd := hds d List.mem_cons_self
    rw [List.map_cons, List.reverse_cons, parse_append,
      ih fun e he => hds e (List.mem_cons_of_mem _ he), Option.bind_some, parse,
      digitValue_table type d (by omega), Option.bind_some, if_pos hd, parse, Nat.ofDigits_cons,
      Nat.mul_comm, Nat.add_comm]

theorem divisions_eq (digits : List Char) (hbase : 2 ≤ base) (m : ℕ) :
    divisions digits base m = (Nat.digits base m).map (digits.getD · ' ') := by
  induction m using Nat.strong_induction_on with
  | _ m ih =>
    rw [divisions]
    by_cases hm : m = 0
    · rw [if_pos (.inl hm), hm, Nat.digits_zero]
      rfl
    · rw [if_neg (by omega), Nat.digits_def' (by omega) (by omega), List.map_cons,
        ih _ (Nat.div_lt_self (by omega) (by omega))]

/-- The value after the sign is taken off, without a sign. -/
theorem magnitude_eq (type : Flags) {num : ℤ} (hlo : -2 ^ 31 ≤ num) (hhi : num < 2 ^ 31) :
    ((if type.negative num then int (-num) else num) % 2 ^ 32).toNat = magnitude type num := by
  unfold magnitude
  split
  · next hneg =>
    have hlt : num < 0 := (of_decide_eq_true hneg).2
    have hmod : int (-num) % 2 ^ 32 = -num % 2 ^ 32 := by
      exact_mod_cast Int.bmod_emod (x := -num) (m := 2 ^ 32)
    rw [hmod]
    omega
  · rfl

theorem tmp_spec (type : Flags) {num base : ℤ} (hbase : 2 ≤ base) (hbase' : base ≤ 36) (hlo : -2 ^ 31 ≤ num)
    (hhi : num < 2 ^ 31) :
    ∃ ds : List ℕ, tmp type num base = ds.map (type.digits.getD · ' ') ∧
      (∀ d ∈ ds, d < base.toNat) ∧ Nat.ofDigits base.toNat ds = magnitude type num ∧
      ds.length = digitCount base.toNat (magnitude type num) := by
  have hm := magnitude_eq type hlo hhi
  unfold tmp
  simp only
  by_cases hzero : (if type.negative num then int (-num) else num) = 0
  · rw [hzero] at hm
    have hm : magnitude type num = 0 := hm.symm
    refine ⟨[0], ?_, ?_, ?_, ?_⟩
    · rw [if_pos hzero]
      unfold Flags.digits
      cases type.small <;> decide
    · simp only [List.mem_singleton, forall_eq]
      omega
    · rw [hm]
      rfl
    · rw [hm, digitCount, Nat.digits_zero]
      rfl
  · rw [if_neg hzero, hm, divisions_eq _ (by omega)]
    refine ⟨_, rfl, fun d hd => Nat.digits_lt_base (by omega) hd, Nat.ofDigits_digits _ _, ?_⟩
    have hpos : magnitude type num ≠ 0 := by
      intro h
      rw [h] at hm
      have hrange : -2 ^ 31 ≤ (if type.negative num then int (-num) else num) ∧
          (if type.negative num then int (-num) else num) < 2 ^ 31 := by
        split
        · exact ⟨Int.le_bmod (by decide), Int.bmod_lt (by decide)⟩
        · exact ⟨hlo, hhi⟩
      omega
    have hlen : (Nat.digits base.toNat (magnitude type num)).length ≠ 0 := by
      intro h
      exact hpos (Nat.digits_eq_nil_iff_eq_zero.1 (List.length_eq_zero_iff.1 h))
    unfold digitCount
    omega

theorem magnitude_lt (type : Flags) {num : ℤ} (hlo : -2 ^ 31 ≤ num) : magnitude type num < 2 ^ 32 := by
  unfold magnitude
  split
  · next hneg =>
    have hlt : num < 0 := (of_decide_eq_true hneg).2
    omega
  · omega

/-- Base 2 needs the most digits. -/
theorem digitCount_le (base : ℕ) (hbase : 2 ≤ base) (hm : m < 2 ^ 32) : digitCount base m ≤ 32 := by
  have hpow : 2 ^ 32 ≤ base ^ 32 := Nat.pow_le_pow_left hbase 32
  have hlen := (Nat.digits_length_le_iff (k := 32) (by omega : 1 < base) m).2 (by omega)
  unfold digitCount
  omega

end Digits

/-! ### What a number looks like -/

section Layout

variable (num base width precision : ℤ) (type : Flags)

/-- The digits, from the first to the last. -/
def digs : List Char := (tmp type num base).reverse

/-- Sign, prefix and digits with the precision. -/
def body : ℤ :=
  (type.signOf num).length + (type.mark base).length +
    max precision (digitCount base.toNat (magnitude type num))

/-- What is missing to the width. -/
def fill : ℕ := (width - body num base precision type).toNat

/-- The text for a number: filled up with blanks or zeros, on the side that the flags say. -/
def showNumber : List Char :=
  (if type.left ∨ type.zeropad then [] else List.replicate (fill num base width precision type) ' ') ++
    type.signOf num ++ type.mark base ++
    List.replicate ((precision - digitCount base.toNat (magnitude type num)).toNat +
      if type.zeropad ∧ ¬type.left then fill num base width precision type else 0) '0' ++
    digs num base type ++
    if type.left then List.replicate (fill num base width precision type) ' ' else []

/-- How often the subtractions of the padding loops go below zero before the last loop. -/
def loops : ℤ := if type.left then 0 else if type.zeropad then 1 else 2

/-- The difference that `number` computes in `size` stays an `int`, or it comes back as one that does
    not pad either. -/
def InRange : Prop :=
  loops type - 2 ^ 31 ≤ width - body num base precision type ∨
    width - body num base precision type ≤ -2 ^ 32

instance : Decidable (InRange num base width precision type) :=
  inferInstanceAs (Decidable (_ ∨ _))

/-- A text that reads as the number, with its sign and prefix and padded as the flags say. -/
structure Layout (out left zeros ds right : List Char) : Prop where
  shape : out = left ++ type.signOf num ++ type.mark base ++ zeros ++ ds ++ right
  left_blank : ∀ c ∈ left, c = ' '
  zeros_zero : ∀ c ∈ zeros, c = '0'
  right_blank : ∀ c ∈ right, c = ' '
  left_side : left ≠ [] → type.left = false ∧ type.zeropad = false
  right_side : right ≠ [] → type.left = true
  precise : type.left = true ∨ type.zeropad = false →
    (zeros.length : ℤ) = max 0 (precision - ds.length)
  value : parse base.toNat 0 (zeros ++ ds) = some (magnitude type num)
  small : ∀ c ∈ ds, c ∈ type.digits
  count : ds.length = digitCount base.toNat (magnitude type num)
  length : (out.length : ℤ) = max width
    ((type.signOf num).length + (type.mark base).length + max precision ds.length)

def Renders (out : List Char) : Prop :=
  ∃ left zeros ds right, Layout num base width precision type out left zeros ds right

end Layout

section Rendered

variable {num base width precision : ℤ} {type : Flags}

theorem digs_spec (type : Flags) (hbase : 2 ≤ base) (hbase' : base ≤ 36) (hlo : -2 ^ 31 ≤ num) (hhi : num < 2 ^ 31) :
    (digs num base type).length = digitCount base.toNat (magnitude type num) ∧
      (∀ c ∈ digs num base type, c ∈ type.digits) ∧
      parse base.toNat 0 (digs num base type) = some (magnitude type num) := by
  obtain ⟨ds, htmp, hlt, hvalue, hlen⟩ := tmp_spec type hbase hbase' hlo hhi
  unfold digs
  rw [htmp]
  refine ⟨?_, ?_, ?_⟩
  · rw [List.length_reverse, List.length_map, hlen]
  · intro c hc
    obtain ⟨d, hd, rfl⟩ := List.mem_map.1 (List.mem_reverse.1 hc)
    exact digits_mem type d (by have := hlt d hd; omega)
  · rw [parse_digits (by omega) ds hlt, hvalue]

theorem showNumber_renders (hbase : 2 ≤ base) (hbase' : base ≤ 36) (hlo : -2 ^ 31 ≤ num)
    (hhi : num < 2 ^ 31) :
    Renders num base width precision type (showNumber num base width precision type) := by
  obtain ⟨hcount, hmem, hvalue⟩ := digs_spec type hbase hbase' hlo hhi
  refine ⟨_, _, _, _, rfl, ?_, ?_, ?_, ?_, ?_, ?_, ?_, hmem, hcount, ?_⟩
  · intro c hc
    split at hc
    · cases hc
    · exact List.eq_of_mem_replicate hc
  · exact fun c hc => List.eq_of_mem_replicate hc
  · intro c hc
    split at hc
    · exact List.eq_of_mem_replicate hc
    · cases hc
  · intro h
    split at h
    · exact absurd rfl h
    · next hno =>
      obtain ⟨hleft, hzero⟩ := not_or.1 hno
      exact ⟨Bool.eq_false_of_not_eq_true hleft, Bool.eq_false_of_not_eq_true hzero⟩
  · intro h
    split at h
    · assumption
    · exact absurd rfl h
  · intro h
    rw [List.length_replicate, if_neg (by rcases h with h | h <;> simp [h]), hcount]
    omega
  · rw [parse_append, parse_zeros (by omega), Option.bind_some, hvalue]
  · simp only [showNumber, List.length_append, List.length_replicate, hcount]
    have hfill : (fill num base width precision type : ℤ) =
        max 0 (width - body num base precision type) := by
      unfold fill
      omega
    unfold body at hfill
    cases hleft : type.left <;> cases hzero : type.zeropad <;>
      simp only [Bool.false_eq_true, or_self, or_false, false_or, if_false, if_true, and_false,
        not_false_eq_true, and_true, not_true_eq_false, List.length_replicate,
        List.length_nil] <;> push_cast <;> omega

theorem signOf_length (type : Flags) (num : ℤ) :
    type.signOf num = [] ∨ (type.signOf num).length = 1 := by
  unfold Flags.signOf
  split_ifs
  · exact .inr rfl
  · exact .inr rfl
  · exact .inr rfl
  · exact .inl rfl

theorem int_sub (x y : ℤ) : int (int x - y) = int (x - y) := Int.bmod_sub_bmod

/-- `size` before the padding. -/
theorem size_eq (p : ℤ) :
    int ((if type.special then
        if base = 16 then int ((if type.signOf num ≠ [] then int (width - 1) else width) - 2)
        else if base = 8 then int ((if type.signOf num ≠ [] then int (width - 1) else width) - 1)
        else if type.signOf num ≠ [] then int (width - 1) else width
      else if type.signOf num ≠ [] then int (width - 1) else width) - p) =
    int (width - ((type.signOf num).length + (type.mark base).length + p)) := by
  have hsign : ∀ y, int ((if type.signOf num ≠ [] then int (width - 1) else width) - y) =
      int (width - ((type.signOf num).length + y)) := by
    intro y
    obtain h | h := signOf_length type num
    · rw [if_neg (not_not_intro h), h, List.length_nil]
      congr 1
      omega
    · rw [if_pos (fun hnil => by rw [hnil] at h; cases h), h, int_sub]
      congr 1
      omega
  unfold Flags.mark
  cases type.special with
  | false =>
    rw [if_neg Bool.false_ne_true, if_neg Bool.false_ne_true, hsign]
    simp
  | true =>
    rw [if_pos rfl, if_pos rfl]
    by_cases h16 : base = 16
    · have h8 : base ≠ 8 := by omega
      rw [if_pos h16, if_neg h8, if_pos h16, int_sub, sub_sub, hsign]
      congr 1
      simp
      omega
    by_cases h8 : base = 8
    · rw [if_neg h16, if_pos h8, if_pos h8, int_sub, sub_sub, hsign]
      congr 1
      simp
      omega
    · rw [if_neg h16, if_neg h8, if_neg h8, if_neg h16, hsign]
      simp

/-- `size` after a padding loop. -/
def after (size : ℤ) : ℤ := int (min size 0 - 1)

theorem clean_left : type.clean.left = type.left := by
  unfold Flags.clean
  split <;> rfl

theorem clean_zeropad : type.clean.zeropad = (type.zeropad && !type.left) := by
  unfold Flags.clean
  cases h : type.left
  · simp
  · simp

theorem clean_signOf : type.clean.signOf num = type.signOf num := by
  unfold Flags.clean
  split <;> rfl

theorem clean_mark : type.clean.mark base = type.mark base := by
  unfold Flags.clean
  split <;> rfl

theorem clean_special : type.clean.special = type.special := by
  unfold Flags.clean
  split <;> rfl

theorem clean_tmp : tmp type.clean num base = tmp type num base := by
  unfold Flags.clean
  split <;> rfl

/-- What `number` writes, with the padding loops carried out. -/
theorem number_some (hbase : 2 ≤ base) (hbase' : base ≤ 36) (hlo : -2 ^ 31 ≤ num)
    (hhi : num < 2 ^ 31) {size : ℤ} (hsize : size = int (width - body num base precision type)) :
    number num base width precision type = some (
      (if type.left ∨ type.zeropad then [] else List.replicate size.toNat ' ') ++
        type.signOf num ++ type.mark base ++
        (if type.left then [] else if type.zeropad then List.replicate size.toNat '0'
          else List.replicate (after size).toNat ' ') ++
        List.replicate (precision - digitCount base.toNat (magnitude type num)).toNat '0' ++
        digs num base type ++
        List.replicate (if type.left then size else if type.zeropad then after size
          else after (after size)).toNat ' ') := by
  have hlen : (tmp type num base).length = digitCount base.toNat (magnitude type num) := by
    rw [← (digs_spec type hbase hbase' hlo hhi).1, digs, List.length_reverse]
  have hmax : (if precision < digitCount base.toNat (magnitude type num) then
      (digitCount base.toNat (magnitude type num) : ℤ) else precision) =
      max precision (digitCount base.toNat (magnitude type num)) := by
    split <;> omega
  have hzeros : max precision (digitCount base.toNat (magnitude type num)) -
      (digitCount base.toNat (magnitude type num) : ℤ) =
      max (precision - digitCount base.toNat (magnitude type num)) 0 := by omega
  have hzeros' : (max (precision - digitCount base.toNat (magnitude type num) : ℤ) 0).toNat =
      (precision - digitCount base.toNat (magnitude type num) : ℤ).toNat := by omega
  unfold number
  rw [if_neg (by omega)]
  simp only [clean_signOf, clean_special, clean_tmp, clean_mark, clean_left, clean_zeropad, hlen,
    hmax, size_eq, pad_eq, hzeros, hzeros']
  rw [show int (width - ((type.signOf num).length + (type.mark base).length +
      max precision (digitCount base.toNat (magnitude type num)))) = size from hsize.symm]
  unfold after digs
  cases hleft : type.left <;> cases hzero : type.zeropad <;> simp

theorem after_cases {size : ℤ} (h : -2 ^ 31 ≤ size) :
    after size = min size 0 - 1 ∧ -2 ^ 31 < size ∨ after size = 2 ^ 31 - 1 ∧ size = -2 ^ 31 := by
  unfold after
  by_cases hmin : size = -2 ^ 31
  · rw [int_below (by omega) (by omega)]
    omega
  · rw [int_eq (by omega) (by omega)]
    omega

/-- The bytes of padding that the three loops write. -/
def padding (type : Flags) (size : ℤ) : ℕ :=
  size.toNat + (if type.left then 0 else (after size).toNat) +
    if type.left ∨ type.zeropad then 0 else (after (after size)).toNat

theorem int_cases {x : ℤ} (h : -2 ^ 32 - 2 ≤ x) (h' : x < 2 ^ 31) :
    int x = x ∧ -2 ^ 31 ≤ x ∨ int x = x + 2 ^ 32 ∧ x < -2 ^ 31 := by
  by_cases hlow : x < -2 ^ 31
  · exact .inr ⟨int_below h hlow, hlow⟩
  · exact .inl ⟨int_eq (by omega) h', by omega⟩

theorem int_le (x : ℤ) : -2 ^ 31 ≤ int x := by
  have h := Int.le_bmod (x := x) (m := 2 ^ 32) (by decide)
  exact h

/-- The loops write what is missing to the width, or one of them goes round almost for ever. -/
theorem padding_iff (type : Flags) {x : ℤ} (h : -2 ^ 32 - 2 ≤ x) (h' : x < 2 ^ 31) :
    padding type (int x) = x.toNat ↔ loops type - 2 ^ 31 ≤ x ∨ x ≤ -2 ^ 32 := by
  have hafter := after_cases (int_le x)
  have hafter' : -2 ^ 31 ≤ after (int x) := int_le _
  have hlast := after_cases hafter'
  have hint := int_cases h h'
  unfold padding loops
  cases type.left <;> cases type.zeropad <;> simp <;> omega

theorem padding_zero {x : ℤ} (h : -2 ^ 32 - 2 ≤ x) (h' : x < 2 ^ 31)
    (hin : loops type - 2 ^ 31 ≤ x ∨ x ≤ -2 ^ 32) :
    (int x).toNat = x.toNat ∧ (type.left = false → (after (int x)).toNat = 0) ∧
      (type.left = false → type.zeropad = false → (after (after (int x))).toNat = 0) := by
  have hafter := after_cases (int_le x)
  have hafter' : -2 ^ 31 ≤ after (int x) := int_le _
  have hlast := after_cases hafter'
  have hint := int_cases h h'
  unfold loops at hin
  cases hleft : type.left <;> cases hzero : type.zeropad <;> simp [hleft, hzero] at hin ⊢ <;> omega

theorem body_bounds (type : Flags) (hbase : 2 ≤ base) (hlo : -2 ^ 31 ≤ num) (hwlo : -2 ^ 31 ≤ width)
    (hwhi : width < 2 ^ 31) (hphi : precision < 2 ^ 31) :
    -2 ^ 32 - 2 ≤ width - body num base precision type ∧
      width - body num base precision type < 2 ^ 31 := by
  have hcount := digitCount_le base.toNat (by omega) (magnitude_lt type hlo)
  have hpos : 1 ≤ digitCount base.toNat (magnitude type num) := Nat.le_max_left _ _
  have hsign : (type.signOf num).length ≤ 1 := by
    obtain h | h := signOf_length type num
    · rw [h]
      exact Nat.zero_le _
    · rw [h]
  have hmark : (type.mark base).length ≤ 2 := by
    unfold Flags.mark
    split_ifs <;> simp
  unfold body
  omega

theorem number_shown (hbase : 2 ≤ base) (hbase' : base ≤ 36) (hlo : -2 ^ 31 ≤ num)
    (hhi : num < 2 ^ 31) (hwlo : -2 ^ 31 ≤ width) (hwhi : width < 2 ^ 31) (hphi : precision < 2 ^ 31)
    (hin : InRange num base width precision type) :
    number num base width precision type = some (showNumber num base width precision type) := by
  obtain ⟨hlow, hhigh⟩ := body_bounds type hbase hlo hwlo hwhi hphi
  obtain ⟨hsize, hafter, hlast⟩ := padding_zero hlow hhigh hin
  rw [number_some hbase hbase' hlo hhi rfl]
  unfold showNumber fill
  cases hleft : type.left with
  | true => simp [hsize]
  | false =>
    cases hzero : type.zeropad with
    | true =>
      have hone := hafter hleft
      simp [hsize, hone, Nat.add_comm]
    | false =>
      have hone := hafter hleft
      have htwo := hlast hleft hzero
      simp [hsize, hone, htwo]

theorem number_length (hbase : 2 ≤ base) (hbase' : base ≤ 36) (hlo : -2 ^ 31 ≤ num)
    (hhi : num < 2 ^ 31) {out : List Char} (h : number num base width precision type = some out) :
    (out.length : ℤ) = body num base precision type +
      padding type (int (width - body num base precision type)) := by
  obtain ⟨hcount, -, -⟩ := digs_spec type hbase hbase' hlo hhi
  rw [number_some hbase hbase' hlo hhi rfl] at h
  rw [← Option.some.inj h]
  simp only [List.length_append, hcount, List.length_replicate]
  unfold padding body
  cases hleft : type.left <;> cases hzero : type.zeropad <;> simp <;> omega

theorem renders_iff (hbase : 2 ≤ base) (hbase' : base ≤ 36) (hlo : -2 ^ 31 ≤ num)
    (hhi : num < 2 ^ 31) (hwlo : -2 ^ 31 ≤ width) (hwhi : width < 2 ^ 31)
    (hphi : precision < 2 ^ 31) :
    (∃ out, number num base width precision type = some out ∧
      Renders num base width precision type out) ↔ InRange num base width precision type := by
  obtain ⟨hlow, hhigh⟩ := body_bounds type hbase hlo hwlo hwhi hphi
  constructor
  · rintro ⟨out, hout, left, zeros, ds, right, hlayout⟩
    refine (padding_iff type hlow hhigh).1 ?_
    have hlen := number_length hbase hbase' hlo hhi hout
    have hwidth := hlayout.length
    rw [hlayout.count] at hwidth
    unfold body at hlen ⊢
    omega
  · intro hin
    exact ⟨_, number_shown hbase hbase' hlo hhi hwlo hwhi hphi hin,
      showNumber_renders hbase hbase' hlo hhi⟩

theorem tmp_length (hbase : 2 ≤ base) (hbase' : base ≤ 36) (hlo : -2 ^ 31 ≤ num)
    (hhi : num < 2 ^ 31) : (tmp type num base).length ≤ 36 := by
  obtain ⟨ds, htmp, -, -, hlen⟩ := tmp_spec type hbase hbase' hlo hhi
  have hle := digitCount_le base.toNat (by omega) (magnitude_lt type hlo)
  rw [htmp, List.length_map, hlen]
  omega

end Rendered

/-- A number is written as it should be if and only if the padding stays in the range of an `int`. -/
theorem number_renders_iff (num base width precision : Int32) (type : Flags) (h : 2 ≤ base.toInt)
    (h' : base.toInt ≤ 36) :
    (tmp type.clean num.toInt base.toInt).length ≤ 36 ∧
      ((∃ out, number num.toInt base.toInt width.toInt precision.toInt type = some out ∧
        Renders num.toInt base.toInt width.toInt precision.toInt type out) ↔
      InRange num.toInt base.toInt width.toInt precision.toInt type) :=
  ⟨tmp_length h h' num.le_toInt num.toInt_lt,
    renders_iff h h' num.le_toInt num.toInt_lt width.le_toInt width.toInt_lt precision.toInt_lt⟩

def plain : Flags := ⟨false, false, false, false, false, false, false⟩

theorem number_renders_iff_lowest : (tmp { plain with sign := true }.clean (-2 ^ 31) 10).length ≤ 36 ∧
    ((∃ out, number (-2 ^ 31) 10 12 (-1) { plain with sign := true } = some out ∧
      Renders (-2 ^ 31) 10 12 (-1) { plain with sign := true } out) ↔
    InRange (-2 ^ 31) 10 12 (-1) { plain with sign := true }) :=
  number_renders_iff (-2147483648) 10 12 (-1) { plain with sign := true } (by decide) (by decide)

/-- The least width: `size` comes back as a large number after the first loop. -/
theorem least_width_pads :
    ¬∃ out, number 5 10 (-2 ^ 31) (-1) plain = some out ∧ Renders 5 10 (-2 ^ 31) (-1) plain out := by
  rw [renders_iff (by decide) (by decide) (by decide) (by decide) (by decide) (by decide) (by decide)]
  decide +kernel

end Linux011.Vsprintf
