import Linux011.Number
import Mathlib

set_option autoImplicit false

/-!
# Format strings (vsprintf of kernel/vsprintf.c)

A format is the list of its characters up to the NUL, and an argument is a 32-bit number, a pointer, a
string or a place for `%n`. The model stops at an argument that is read as one of another kind.
-/
namespace Linux011.Vsprintf

inductive Arg where
  | int (n : Int32)
  | ptr (address : Int32)
  | str (s : List Char)
  | loc (ip : ℕ)
  deriving DecidableEq

section Source

/-- `is_digit` -/
def isDigit (c : Char) : Bool := 48 ≤ c.toNat && c.toNat ≤ 57

/-- `skip_atoi` -/
def skipAtoi : ℤ → List Char → ℤ × List Char
  | i, [] => (i, [])
  | i, c :: s => if isDigit c then skipAtoi (int (i * 10 + c.toNat - 48)) s else (i, c :: s)

/-- The cases of the first switch; `none` if there is none for the character. -/
def setFlag (flags : Flags) (c : Char) : Option Flags :=
  if c = '-' then some { flags with left := true }
  else if c = '+' then some { flags with plus := true }
  else if c = ' ' then some { flags with space := true }
  else if c = '#' then some { flags with special := true }
  else if c = '0' then some { flags with zeropad := true }
  else none

/-- `repeat:` -/
def repeatFlags : Flags → List Char → Flags × List Char
  | flags, [] => (flags, [])
  | flags, c :: fmt => match setFlag flags c with
    | some flags => repeatFlags flags fmt
    | none => (flags, c :: fmt)

/-- The variables of a directive, with what is left of the format and of the arguments. -/
structure Directive where
  flags : Flags
  fieldWidth : ℤ
  precision : ℤ
  fmt : List Char
  args : List Arg

def getFlags (fmt : List Char) (args : List Arg) : Directive :=
  ⟨(repeatFlags plain fmt).1, -1, -1, (repeatFlags plain fmt).2, args⟩

/-- `va_arg(args, int)` and `va_arg(args, unsigned long)` -/
def vaInt : List Arg → Option (ℤ × List Arg)
  | .int n :: args => some (n.toInt, args)
  | _ => none

def vaPtr : List Arg → Option (ℤ × List Arg)
  | .ptr address :: args => some (address.toInt, args)
  | _ => none

def vaStr : List Arg → Option (List Char × List Arg)
  | .str s :: args => some (s, args)
  | _ => none

def vaLoc : List Arg → Option (ℕ × List Arg)
  | .loc ip :: args => some (ip, args)
  | _ => none

/-- The field width. The source does not step over `*`. -/
def getWidth (d : Directive) : Option Directive :=
  match d.fmt with
  | [] => some d
  | c :: _ =>
    if isDigit c then
      some { d with fieldWidth := (skipAtoi 0 d.fmt).1, fmt := (skipAtoi 0 d.fmt).2 }
    else if c = '*' then
      (vaInt d.args).map fun a =>
        if a.1 < 0 then
          { d with fieldWidth := int (-a.1), flags := { d.flags with left := true }, args := a.2 }
        else { d with fieldWidth := a.1, args := a.2 }
    else some d

/-- What follows the dot. -/
def afterDot (d : Directive) : Option Directive :=
  match d.fmt with
  | [] => some d
  | c :: _ =>
    if isDigit c then
      some { d with precision := (skipAtoi 0 d.fmt).1, fmt := (skipAtoi 0 d.fmt).2 }
    else if c = '*' then (vaInt d.args).map fun a => { d with precision := a.1, args := a.2 }
    else some d

def getPrecision (d : Directive) : Option Directive :=
  match d.fmt with
  | [] => some d
  | c :: fmt =>
    if c = '.' then
      (afterDot { d with fmt := fmt }).map fun d =>
        if d.precision < 0 then { d with precision := 0 } else d
    else some d

/-- The qualifier is skipped, and nothing looks at it. -/
def getQualifier (d : Directive) : Directive :=
  match d.fmt with
  | [] => d
  | c :: fmt => if c = 'h' ∨ c = 'l' ∨ c = 'L' then { d with fmt := fmt } else d

/-- `while (--field_width > 0) *str++ = ' '`, from the first test on. -/
def blanksDown (fieldWidth : ℤ) : List Char × ℤ :=
  if 0 < fieldWidth then
    (' ' :: (blanksDown (fieldWidth - 1)).1, (blanksDown (fieldWidth - 1)).2)
  else ([], fieldWidth)
termination_by fieldWidth.toNat
decreasing_by all_goals omega

/-- `while (len < field_width--) *str++ = ' '` -/
def blanksTo (len fieldWidth : ℤ) : List Char × ℤ :=
  if len < fieldWidth then
    (' ' :: (blanksTo len (fieldWidth - 1)).1, (blanksTo len (fieldWidth - 1)).2)
  else ([], int (fieldWidth - 1))
termination_by (fieldWidth - len).toNat
decreasing_by all_goals omega

/-- `case 'c'` -/
def charField (flags : Flags) (fieldWidth n : ℤ) : List Char :=
  let first := if ¬flags.left then blanksDown (int (fieldWidth - 1)) else ([], fieldWidth)
  first.1 ++ [Char.ofNat (n % 256).toNat] ++ (blanksDown (int (first.2 - 1))).1

/-- `case 's'` -/
def strField (flags : Flags) (fieldWidth precision : ℤ) (s : List Char) : List Char :=
  let len : ℤ := if precision < 0 then s.length else
    if precision < s.length then precision else s.length
  let first := if ¬flags.left then blanksTo len fieldWidth else ([], fieldWidth)
  first.1 ++ s.take len.toNat ++ (blanksTo len first.2).1

/-- Where `vsprintf` stands between two turns of its loop; `stores` is what `%n` has stored. -/
structure Progress where
  fmt : List Char
  args : List Arg
  str : List Char
  stores : List (ℕ × ℕ)
  deriving DecidableEq

/-- A number goes through `number`. -/
def numberField (d : Directive) (fmt str : List Char) (stores : List (ℕ × ℕ)) (base : ℤ)
    (a : ℤ × List Arg) : Option Progress :=
  (number a.1 base d.fieldWidth d.precision d.flags).map fun text => ⟨fmt, a.2, str ++ text, stores⟩

/-- The second switch. -/
def convert (d : Directive) (str : List Char) (stores : List (ℕ × ℕ)) : Option Progress :=
  match d.fmt with
  | [] => some ⟨[], d.args, str ++ ['%'], stores⟩
  | c :: fmt =>
    if c = 'c' then
      (vaInt d.args).map fun a => ⟨fmt, a.2, str ++ charField d.flags d.fieldWidth a.1, stores⟩
    else if c = 's' then
      (vaStr d.args).map fun a =>
        ⟨fmt, a.2, str ++ strField d.flags d.fieldWidth d.precision a.1, stores⟩
    else if c = 'o' then (vaInt d.args).bind (numberField d fmt str stores 8)
    else if c = 'p' then
      (vaPtr d.args).bind (numberField
        (if d.fieldWidth = -1 then
          { d with fieldWidth := 8, flags := { d.flags with zeropad := true } } else d)
        fmt str stores 16)
    else if c = 'x' then
      (vaInt d.args).bind (numberField { d with flags := { d.flags with small := true } }
        fmt str stores 16)
    else if c = 'X' then (vaInt d.args).bind (numberField d fmt str stores 16)
    else if c = 'd' ∨ c = 'i' then
      (vaInt d.args).bind (numberField { d with flags := { d.flags with sign := true } }
        fmt str stores 10)
    else if c = 'u' then (vaInt d.args).bind (numberField d fmt str stores 10)
    else if c = 'n' then
      (vaLoc d.args).map fun a => ⟨fmt, a.2, str, stores ++ [(a.1, str.length)]⟩
    else some ⟨fmt, d.args, str ++ (if c ≠ '%' then ['%'] else []) ++ [c], stores⟩

/-- A directive, from behind its `%` on. -/
def directive (fmt : List Char) (args : List Arg) (str : List Char) (stores : List (ℕ × ℕ)) :
    Option Progress :=
  ((getWidth (getFlags fmt args)).bind getPrecision).bind fun d =>
    convert (getQualifier d) str stores

end Source

/-! ### The format gets shorter -/

section Shorter

variable {d d' : Directive} {s : Progress} {str fmt : List Char} {stores : List (ℕ × ℕ)}

theorem skipAtoi_le (i : ℤ) (s : List Char) : (skipAtoi i s).2.length ≤ s.length := by
  induction s generalizing i with
  | nil => exact Nat.le_refl _
  | cons c s ih =>
    rw [skipAtoi]
    split
    · exact (ih _).trans (Nat.le_succ _)
    · exact Nat.le_refl _

theorem repeatFlags_le (flags : Flags) (s : List Char) :
    (repeatFlags flags s).2.length ≤ s.length := by
  induction s generalizing flags with
  | nil => exact Nat.le_refl _
  | cons c s ih =>
    rw [repeatFlags]
    split
    · exact (ih _).trans (Nat.le_succ _)
    · exact Nat.le_refl _

theorem getWidth_le (h : getWidth d = some d') : d'.fmt.length ≤ d.fmt.length := by
  unfold getWidth at h
  split at h
  · cases h
    exact Nat.le_refl _
  · split_ifs at h
    · cases h
      exact skipAtoi_le _ _
    · obtain ⟨a, -, rfl⟩ := Option.map_eq_some_iff.1 h
      split <;> exact Nat.le_refl _
    · cases h
      exact Nat.le_refl _

theorem afterDot_le (h : afterDot d = some d') : d'.fmt.length ≤ d.fmt.length := by
  unfold afterDot at h
  split at h
  · cases h
    exact Nat.le_refl _
  · split_ifs at h
    · cases h
      exact skipAtoi_le _ _
    · obtain ⟨a, -, rfl⟩ := Option.map_eq_some_iff.1 h
      exact Nat.le_refl _
    · cases h
      exact Nat.le_refl _

theorem getPrecision_le (h : getPrecision d = some d') : d'.fmt.length ≤ d.fmt.length := by
  unfold getPrecision at h
  split at h
  · cases h
    exact Nat.le_refl _
  · next c fmt hfmt =>
    split_ifs at h
    · obtain ⟨d₁, hd, rfl⟩ := Option.map_eq_some_iff.1 h
      have hle := afterDot_le hd
      rw [hfmt]
      split <;> exact hle.trans (Nat.le_succ _)
    · cases h
      exact Nat.le_refl _

theorem getQualifier_le (d : Directive) : (getQualifier d).fmt.length ≤ d.fmt.length := by
  unfold getQualifier
  split
  · exact Nat.le_refl _
  · next c fmt hfmt =>
    split
    · rw [hfmt]
      exact Nat.le_succ _
    · exact Nat.le_refl _

theorem numberField_fmt {base : ℤ} {a : ℤ × List Arg} (h : numberField d fmt str stores base a = some s) :
    s.fmt = fmt := by
  obtain ⟨text, -, rfl⟩ := Option.map_eq_some_iff.1 h
  rfl

theorem convert_le (h : convert d str stores = some s) : s.fmt.length ≤ d.fmt.length := by
  unfold convert at h
  split at h
  · cases h
    exact Nat.zero_le _
  · next c fmt hfmt =>
    have hlen : s.fmt = fmt → s.fmt.length ≤ d.fmt.length := by
      intro hs
      rw [hs, hfmt]
      exact Nat.le_succ _
    refine hlen ?_
    by_cases hchar : c = 'c'
    · rw [if_pos hchar] at h
      obtain ⟨a, -, rfl⟩ := Option.map_eq_some_iff.1 h
      rfl
    rw [if_neg hchar] at h
    by_cases hstr : c = 's'
    · rw [if_pos hstr] at h
      obtain ⟨a, -, rfl⟩ := Option.map_eq_some_iff.1 h
      rfl
    rw [if_neg hstr] at h
    by_cases hoct : c = 'o'
    · rw [if_pos hoct] at h
      obtain ⟨a, -, ha⟩ := Option.bind_eq_some_iff.1 h
      exact numberField_fmt ha
    rw [if_neg hoct] at h
    by_cases hptr : c = 'p'
    · rw [if_pos hptr] at h
      obtain ⟨a, -, ha⟩ := Option.bind_eq_some_iff.1 h
      exact numberField_fmt ha
    rw [if_neg hptr] at h
    by_cases hhex : c = 'x'
    · rw [if_pos hhex] at h
      obtain ⟨a, -, ha⟩ := Option.bind_eq_some_iff.1 h
      exact numberField_fmt ha
    rw [if_neg hhex] at h
    by_cases hbig : c = 'X'
    · rw [if_pos hbig] at h
      obtain ⟨a, -, ha⟩ := Option.bind_eq_some_iff.1 h
      exact numberField_fmt ha
    rw [if_neg hbig] at h
    by_cases hint : c = 'd' ∨ c = 'i'
    · rw [if_pos hint] at h
      obtain ⟨a, -, ha⟩ := Option.bind_eq_some_iff.1 h
      exact numberField_fmt ha
    rw [if_neg hint] at h
    by_cases hnat : c = 'u'
    · rw [if_pos hnat] at h
      obtain ⟨a, -, ha⟩ := Option.bind_eq_some_iff.1 h
      exact numberField_fmt ha
    rw [if_neg hnat] at h
    by_cases hloc : c = 'n'
    · rw [if_pos hloc] at h
      obtain ⟨a, -, rfl⟩ := Option.map_eq_some_iff.1 h
      rfl
    rw [if_neg hloc] at h
    cases h
    rfl

theorem directive_le {args : List Arg} (h : directive fmt args str stores = some s) :
    s.fmt.length ≤ fmt.length := by
  obtain ⟨d₂, h₂, h₃⟩ := Option.bind_eq_some_iff.1 h
  obtain ⟨d₁, h₁, h₂⟩ := Option.bind_eq_some_iff.1 h₂
  calc
    s.fmt.length ≤ (getQualifier d₂).fmt.length := convert_le h₃
    _ ≤ d₂.fmt.length := getQualifier_le d₂
    _ ≤ d₁.fmt.length := getPrecision_le h₂
    _ ≤ (getFlags fmt args).fmt.length := getWidth_le h₁
    _ ≤ fmt.length := repeatFlags_le _ _

end Shorter

/-- The loop of `vsprintf`. -/
def vsprintfLoop (fmt : List Char) (args : List Arg) (str : List Char) (stores : List (ℕ × ℕ)) :
    Option Progress :=
  match fmt with
  | [] => some ⟨[], args, str, stores⟩
  | c :: fmt =>
    if c ≠ '%' then vsprintfLoop fmt args (str ++ [c]) stores
    else match _h : directive fmt args str stores with
      | none => none
      | some s => vsprintfLoop s.fmt s.args s.str s.stores
termination_by fmt.length
decreasing_by
  · exact Nat.lt_succ_self _
  · exact Nat.lt_succ_of_le (directive_le _h)

/-- What the caller gets. -/
structure Result where
  buf : List Char
  len : ℕ
  stores : List (ℕ × ℕ)
  rest : List Arg
  deriving DecidableEq

def NUL : Char := Char.ofNat 0

def vsprintf (fmt : List Char) (args : List Arg) : Option Result :=
  (vsprintfLoop fmt args [] []).map fun s => ⟨s.str ++ [NUL], s.str.length, s.stores, s.args⟩

end Linux011.Vsprintf
