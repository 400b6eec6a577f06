import Linux011.Vsprintf
import Mathlib

set_option autoImplicit false

/-! # Formats and what they stand for -/
namespace Linux011.Vsprintf

/-! ### Formats -/

inductive Conv where
  | c
  | s
  | o
  | p
  | x
  | X
  | d
  | i
  | u
  | n
  deriving DecidableEq

def Conv.char : Conv → Char
  | .c => 'c'
  | .s => 's'
  | .o => 'o'
  | .p => 'p'
  | .x => 'x'
  | .X => 'X'
  | .d => 'd'
  | .i => 'i'
  | .u => 'u'
  | .n => 'n'

/-- A width or a precision. -/
inductive Field where
  | none
  | number (ds : List Char)
  | star
  deriving DecidableEq

structure Spec where
  flags : List Char
  width : Field
  precision : Field
  qualifier : Option Char
  conv : Conv
  deriving DecidableEq

inductive Item where
  | literal (c : Char)
  | percent
  | directive (d : Spec)
  deriving DecidableEq

def Field.text : Field → List Char
  | .none => []
  | .number ds => ds
  | .star => ['*']

def Field.dotted : Field → List Char
  | .none => []
  | .number ds => '.' :: ds
  | .star => ['.', '*']

/-- A directive without its `%`. -/
def Spec.text (d : Spec) : List Char :=
  d.flags ++ d.width.text ++ d.precision.dotted ++ d.qualifier.toList ++ [d.conv.char]

def Item.text : Item → List Char
  | .literal c => [c]
  | .percent => ['%', '%']
  | .directive d => '%' :: d.text

def formatText (items : List Item) : List Char := items.flatMap Item.text

def decimal (i : ℕ) (ds : List Char) : ℕ := ds.foldl (fun i c => i * 10 + (c.toNat - 48)) i

def FLAGS : List Char := ['-', '+', ' ', '#', '0']

def QUALIFIERS : List Char := ['h', 'l', 'L']

/-- A number that an `int` holds. -/
def Field.IsNumber : Field → Prop
  | .number ds => (∀ c ∈ ds, isDigit c = true) ∧ decimal 0 ds < 2 ^ 31
  | _ => True

/-- The first digit of a width is not one of the flags. -/
def Field.IsWidth : Field → Prop
  | .number ds => ∃ c l, ds = c :: l ∧ c ≠ '0'
  | _ => True

structure Spec.WellFormed (d : Spec) : Prop where
  flags : ∀ c ∈ d.flags, c ∈ FLAGS
  width : d.width.IsNumber
  width_first : d.width.IsWidth
  precision : d.precision.IsNumber
  qualifier : ∀ c ∈ d.qualifier, c ∈ QUALIFIERS

def Item.WellFormed : Item → Prop
  | .literal c => c ≠ '%' ∧ c ≠ NUL
  | .percent => True
  | .directive d => d.WellFormed

/-! ### What a format stands for -/

def flagsOf (l : List Char) : Flags where
  zeropad := '0' ∈ l
  sign := false
  plus := '+' ∈ l
  space := ' ' ∈ l
  left := '-' ∈ l
  special := '#' ∈ l
  small := false

/-- A text in a field of the width `w`. -/
def justify (flags : Flags) (w : ℕ) (text : List Char) : List Char :=
  if flags.left then text ++ List.replicate (w - text.length) ' '
  else List.replicate (w - text.length) ' ' ++ text

/-- What a directive becomes, where `%n` stores, and the arguments after it. -/
structure Rendered where
  text : List Char
  ip : Option ℕ
  args : List Arg
  deriving DecidableEq

/-- A width from the format or from the next argument; a negative one asks for the left side. -/
def takeWidth (f : Field) (flags : Flags) (args : List Arg) :
    Option (Flags × Option ℕ × List Arg) :=
  match f with
  | .none => some (flags, none, args)
  | .number ds => some (flags, some (decimal 0 ds), args)
  | .star => (vaInt args).map fun a =>
      (if a.1 < 0 then { flags with left := true } else flags, some a.1.natAbs, a.2)

def takePrecision (f : Field) (args : List Arg) : Option (Option ℕ × List Arg) :=
  match f with
  | .none => some (none, args)
  | .number ds => some (some (decimal 0 ds), args)
  | .star => (vaInt args).map fun a => (some a.1.toNat, a.2)

/-- The value where the source has -1 for nothing. -/
def orNone (w : Option ℕ) : ℤ := (w.map Nat.cast).getD (-1)

def Conv.base : Conv → ℤ
  | .o => 8
  | .p => 16
  | .x => 16
  | .X => 16
  | _ => 10

/-- The flags for a number; an address without a width is filled up with zeros. -/
def Conv.setFlags (conv : Conv) (w : Option ℕ) (flags : Flags) : Flags :=
  match conv with
  | .p => if w = none then { flags with zeropad := true } else flags
  | .x => { flags with small := true }
  | .d => { flags with sign := true }
  | .i => { flags with sign := true }
  | _ => flags

def Conv.setWidth (conv : Conv) (w : Option ℕ) : ℤ :=
  match conv with
  | .p => if w = none then 8 else orNone w
  | _ => orNone w

/-- The argument of a conversion to a number. -/
def Conv.va (conv : Conv) (args : List Arg) : Option (ℤ × List Arg) :=
  match conv with
  | .p => vaPtr args
  | _ => vaInt args

def convText (conv : Conv) (flags : Flags) (w p : Option ℕ) (args : List Arg) : Option Rendered :=
  match conv with
  | .c => (vaInt args).map fun a =>
      ⟨justify flags (w.getD 0) [Char.ofNat (a.1 % 256).toNat], none, a.2⟩
  | .s => (vaStr args).map fun a =>
      ⟨justify flags (w.getD 0) (a.1.take (p.getD a.1.length)), none, a.2⟩
  | .n => (vaLoc args).map fun a => ⟨[], some a.1, a.2⟩
  | conv => (conv.va args).map fun a =>
      ⟨showNumber a.1 conv.base (conv.setWidth w) (orNone p) (conv.setFlags w flags), none, a.2⟩

def render (d : Spec) (args : List Arg) : Option Rendered :=
  (takeWidth d.width (flagsOf d.flags) args).bind fun w =>
    (takePrecision d.precision w.2.2).bind fun p => convText d.conv w.1 w.2.1 p.1 p.2

/-- The output for a list of items, and what `%n` stores; `none` if the arguments do not match. -/
def expected : List Item → List Arg → List Char → List (ℕ × ℕ) → Option Progress
  | [], args, str, stores => some ⟨[], args, str, stores⟩
  | .literal c :: items, args, str, stores => expected items args (str ++ [c]) stores
  | .percent :: items, args, str, stores => expected items args (str ++ ['%']) stores
  | .directive d :: items, args, str, stores =>
    (render d args).bind fun r =>
      expected items r.args (str ++ r.text) (stores ++ r.ip.toList.map (·, str.length))

/-- What a caller of `vsprintf` should get. -/
def wanted (items : List Item) (args : List Arg) : Option Result :=
  (expected items args [] []).map fun s => ⟨s.str ++ [NUL], s.str.length, s.stores, s.args⟩

/-! ### When it is right -/

def Spec.NoStar (d : Spec) : Prop := d.width ≠ .star ∧ d.precision ≠ .star

def Item.NoStar : Item → Prop
  | .directive d => d.NoStar
  | _ => True

/-- The value of a width or a precision without a star. -/
def Field.value : Field → Option ℕ
  | .number ds => some (decimal 0 ds)
  | _ => Option.none

def Conv.IsNumber : Conv → Prop
  | .c => False
  | .s => False
  | .n => False
  | _ => True

/-- `number` is within its range. -/
def Spec.InRange (d : Spec) (args : List Arg) : Prop :=
  d.conv.IsNumber → ∀ a ∈ d.conv.va args,
    Vsprintf.InRange a.1 d.conv.base (d.conv.setWidth d.width.value) (orNone d.precision.value)
      (d.conv.setFlags d.width.value (flagsOf d.flags))

/-- Every directive takes one argument. -/
def AllInRange : List Item → List Arg → Prop
  | [], _ => True
  | .directive d :: items, args => d.InRange args ∧ AllInRange items args.tail
  | _ :: items, args => AllInRange items args

/-! ### How a directive is read -/

section Reading

variable {d : Spec} {rest : List Char} {args : List Arg} {str : List Char} {stores : List (ℕ × ℕ)}

/-- The list begins with a letter. -/
def StartsLetter (l : List Char) : Prop := ∃ c t, l = c :: t ∧ 65 ≤ c.toNat

theorem isDigit_letter {c : Char} (h : 65 ≤ c.toNat) : isDigit c = false := by
  unfold isDigit
  simp only [Bool.and_eq_false_iff, decide_eq_false_iff_not]
  omega

theorem setFlag_none {flags : Flags} {c : Char} (h : c ∉ FLAGS) : setFlag flags c = none := by
  simp only [FLAGS, List.mem_cons, List.not_mem_nil, or_false, not_or] at h
  simp only [setFlag, h, if_false]

theorem letter_notMem {c : Char} (h : 65 ≤ c.toNat) : c ∉ FLAGS := by
  intro hc
  simp only [FLAGS, List.mem_cons, List.not_mem_nil, or_false] at hc
  obtain rfl | rfl | rfl | rfl | rfl := hc <;> revert h <;> decide

theorem letter_ne {c c' : Char} (h : 65 ≤ c.toNat) (h' : c'.toNat < 65) : c ≠ c' := by
  rintro rfl
  omega

/-- The flags of a list, added to some. -/
def addFlags (flags : Flags) (l : List Char) : Flags :=
  { flags with
    zeropad := flags.zeropad || '0' ∈ l, plus := flags.plus || '+' ∈ l,
    space := flags.space || ' ' ∈ l, left := flags.left || '-' ∈ l,
    special := flags.special || '#' ∈ l }

theorem setFlag_some (flags : Flags) {c : Char} (h : c ∈ FLAGS) (l : List Char) :
    ∃ next, setFlag flags c = some next ∧ addFlags next l = addFlags flags (c :: l) := by
  simp only [FLAGS, List.mem_cons, List.not_mem_nil, or_false] at h
  obtain rfl | rfl | rfl | rfl | rfl := h <;> refine ⟨_, rfl, ?_⟩ <;> simp [addFlags]

theorem repeatFlags_eq (flags : Flags) {l : List Char} (hl : ∀ c ∈ l, c ∈ FLAGS)
    (hrest : ∀ c ∈ rest.head?, c ∉ FLAGS) :
    repeatFlags flags (l ++ rest) = (addFlags flags l, rest) := by
  induction l generalizing flags with
  | nil =>
    have hnil : addFlags flags [] = flags := by simp [addFlags]
    rw [hnil, List.nil_append]
    cases rest with
    | nil => rfl
    | cons c t => rw [repeatFlags, setFlag_none (hrest c rfl)]
  | cons c l ih =>
    obtain ⟨next, hnext, hadd⟩ := setFlag_some flags (hl c List.mem_cons_self) l
    rw [List.cons_append, repeatFlags, hnext]
    exact (ih next fun c' hc' => hl c' (List.mem_cons_of_mem _ hc')).trans (by rw [hadd])

theorem addFlags_plain (l : List Char) : addFlags plain l = flagsOf l := by
  simp [addFlags, plain, flagsOf]

theorem decimal_le (i : ℕ) (ds : List Char) : i ≤ decimal i ds := by
  induction ds generalizing i with
  | nil => exact Nat.le_refl _
  | cons c ds ih =>
    have h := ih (i * 10 + (c.toNat - 48))
    unfold decimal at h ⊢
    rw [List.foldl_cons]
    omega

theorem skipAtoi_eq (rest : List Char) {i : ℕ} {ds : List Char} (hds : ∀ c ∈ ds, isDigit c = true)
    (hlt : decimal i ds < 2 ^ 31) (hrest : ∀ c ∈ rest.head?, isDigit c = false) :
    skipAtoi i (ds ++ rest) = (((decimal i ds : ℕ) : ℤ), rest) := by
  induction ds generalizing i with
  | nil =>
    cases rest with
    | nil => rfl
    | cons c t =>
      rw [List.nil_append, skipAtoi, hrest c rfl]
      rfl
  | cons c ds ih =>
    have hc := hds c List.mem_cons_self
    have hle := decimal_le (i * 10 + (c.toNat - 48)) ds
    have hstep : decimal i (c :: ds) = decimal (i * 10 + (c.toNat - 48)) ds := rfl
    have hrange : 48 ≤ c.toNat := by
      unfold isDigit at hc
      simp only [Bool.and_eq_true, decide_eq_true_eq] at hc
      exact hc.1
    have hint : int ((i : ℤ) * 10 + c.toNat - 48) = ((i * 10 + (c.toNat - 48) : ℕ) : ℤ) := by
      rw [int_eq (by omega) (by omega)]
      omega
    rw [hstep] at hlt ⊢
    rw [List.cons_append, skipAtoi, if_pos hc, hint]
    exact ih (fun c' hc' => hds c' (List.mem_cons_of_mem _ hc')) hlt

theorem conv_letter (conv : Conv) : 65 ≤ conv.char.toNat := by
  cases conv <;> decide

theorem tail_letter (rest : List Char) (hd : d.WellFormed) :
    StartsLetter (d.qualifier.toList ++ d.conv.char :: rest) := by
  cases hq : d.qualifier with
  | none => exact ⟨_, _, rfl, conv_letter _⟩
  | some c =>
    have hc := hd.qualifier c hq
    refine ⟨c, _, rfl, ?_⟩
    simp only [QUALIFIERS, List.mem_cons, List.not_mem_nil, or_false] at hc
    obtain rfl | rfl | rfl := hc <;> decide

theorem getQualifier_eq (hd : d.WellFormed) {flags : Flags} {w p : ℤ} :
    getQualifier ⟨flags, w, p, d.qualifier.toList ++ d.conv.char :: rest, args⟩ =
      ⟨flags, w, p, d.conv.char :: rest, args⟩ := by
  cases hq : d.qualifier with
  | none =>
    refine if_neg ?_
    cases d.conv <;> decide
  | some c =>
    have hc := hd.qualifier c hq
    refine if_pos ?_
    simpa [QUALIFIERS] using hc

/-- What follows the width. -/
theorem dotted_head (rest : List Char) (hd : d.WellFormed) :
    ∃ c t, d.precision.dotted ++ (d.qualifier.toList ++ d.conv.char :: rest) = c :: t ∧
      isDigit c = false ∧ c ∉ FLAGS ∧ c ≠ '*' ∧ (d.precision = .none → c ≠ '.') := by
  cases hp : d.precision with
  | none =>
    obtain ⟨c, t, hct, hc⟩ := tail_letter rest hd
    exact ⟨c, t, hct, isDigit_letter hc, letter_notMem hc, letter_ne hc (by decide),
      fun _ => letter_ne hc (by decide)⟩
  | number ds => exact ⟨_, _, rfl, by decide, by decide, by decide, nofun⟩
  | star => exact ⟨_, _, rfl, by decide, by decide, by decide, nofun⟩

theorem getPrecision_eq (hd : d.WellFormed) (hp : d.precision ≠ .star) {flags : Flags} {w : ℤ} :
    getPrecision ⟨flags, w, -1, d.precision.dotted ++ (d.qualifier.toList ++ d.conv.char :: rest),
      args⟩ =
    some ⟨flags, w, orNone d.precision.value, d.qualifier.toList ++ d.conv.char :: rest, args⟩ := by
  obtain ⟨c, t, hct, hc⟩ := tail_letter rest hd
  cases hprec : d.precision with
  | none =>
    rw [Field.dotted, List.nil_append, hct]
    exact if_neg (letter_ne hc (by decide))
  | star => exact absurd hprec hp
  | number ds =>
    have hnum := hd.precision
    rw [hprec] at hnum
    have hatoi := skipAtoi_eq (d.qualifier.toList ++ d.conv.char :: rest) (i := 0) hnum.1
      hnum.2 (by
        rw [hct]
        intro c' hc'
        cases hc'
        exact isDigit_letter hc)
    have hdot : afterDot ⟨flags, w, -1, ds ++ (d.qualifier.toList ++ d.conv.char :: rest), args⟩ =
        some ⟨flags, w, if ds = [] then -1 else (decimal 0 ds : ℕ),
          d.qualifier.toList ++ d.conv.char :: rest, args⟩ := by
      cases ds with
      | nil =>
        rw [List.nil_append, hct]
        unfold afterDot
        simp only [isDigit_letter hc]
        rw [if_neg Bool.false_ne_true, if_neg (letter_ne hc (by decide))]
        simp
      | cons c' ds =>
        refine (if_pos (hnum.1 c' List.mem_cons_self)).trans ?_
        rw [if_neg (List.cons_ne_nil c' ds)]
        change some (Directive.mk flags w
          (skipAtoi (0 : ℕ) (c' :: ds ++ (d.qualifier.toList ++ d.conv.char :: rest))).1
          (skipAtoi (0 : ℕ) (c' :: ds ++ (d.qualifier.toList ++ d.conv.char :: rest))).2 args) = _
        rw [hatoi]
    unfold getPrecision
    simp only [Field.dotted, List.cons_append, if_true]
    rw [hdot, Option.map_some]
    cases ds with
    | nil => rfl
    | cons c' ds =>
      have hpos : ¬((decimal 0 (c' :: ds) : ℕ) : ℤ) < 0 := by omega
      simp only [List.cons_ne_nil, if_false, if_neg hpos]
      rfl

theorem getWidth_eq (hd : d.WellFormed) (hw : d.width ≠ .star) {flags : Flags} :
    getWidth ⟨flags, -1, -1, d.width.text ++
      (d.precision.dotted ++ (d.qualifier.toList ++ d.conv.char :: rest)), args⟩ =
    some ⟨flags, orNone d.width.value, -1,
      d.precision.dotted ++ (d.qualifier.toList ++ d.conv.char :: rest), args⟩ := by
  obtain ⟨c, t, hct, hdigit, -, hstar, -⟩ := dotted_head rest hd
  cases hwidth : d.width with
  | none =>
    rw [Field.text, List.nil_append, hct]
    unfold getWidth
    simp only [hdigit]
    rw [if_neg Bool.false_ne_true, if_neg hstar]
    rfl
  | star => exact absurd hwidth hw
  | number ds =>
    have hnum := hd.width
    have hfirst := hd.width_first
    rw [hwidth] at hnum hfirst
    obtain ⟨c', l, rfl, -⟩ := hfirst
    have hatoi := skipAtoi_eq
      (d.precision.dotted ++ (d.qualifier.toList ++ d.conv.char :: rest)) (i := 0) hnum.1 hnum.2 (by
        rw [hct]
        intro c₂ hc₂
        cases hc₂
        exact hdigit)
    refine (if_pos (hnum.1 c' List.mem_cons_self)).trans ?_
    change some (Directive.mk flags
      (skipAtoi (0 : ℕ) (c' :: l ++ (d.precision.dotted ++ (d.qualifier.toList ++ d.conv.char :: rest)))).1
      (-1)
      (skipAtoi (0 : ℕ) (c' :: l ++ (d.precision.dotted ++ (d.qualifier.toList ++ d.conv.char :: rest)))).2
      args) = _
    rw [hatoi]
    rfl

/-- What follows the flags. -/
theorem width_head (hd : d.WellFormed) : ∀ c ∈ (d.width.text ++
    (d.precision.dotted ++ (d.qualifier.toList ++ d.conv.char :: rest))).head?, c ∉ FLAGS := by
  obtain ⟨c, t, hct, -, hflag, -⟩ := dotted_head rest hd
  cases hwidth : d.width with
  | none =>
    rw [Field.text, List.nil_append, hct]
    intro c' hc'
    cases hc'
    exact hflag
  | star =>
    intro c' hc'
    cases hc'
    decide
  | number ds =>
    have hnum := hd.width
    have hfirst := hd.width_first
    rw [hwidth] at hnum hfirst
    obtain ⟨c', l, rfl, hzero⟩ := hfirst
    have hdigit := hnum.1 c' List.mem_cons_self
    intro c₂ hc₂
    cases hc₂
    intro hmem
    simp only [FLAGS, List.mem_cons, List.not_mem_nil, or_false] at hmem
    obtain rfl | rfl | rfl | rfl | rfl := hmem
    · exact absurd hdigit (by decide)
    · exact absurd hdigit (by decide)
    · exact absurd hdigit (by decide)
    · exact absurd hdigit (by decide)
    · exact hzero rfl

theorem getFlags_eq (hd : d.WellFormed) : getFlags (d.text ++ rest) args =
    ⟨flagsOf d.flags, -1, -1, d.width.text ++
      (d.precision.dotted ++ (d.qualifier.toList ++ d.conv.char :: rest)), args⟩ := by
  have htext : d.text ++ rest = d.flags ++ (d.width.text ++
      (d.precision.dotted ++ (d.qualifier.toList ++ d.conv.char :: rest))) := by
    simp [Spec.text]
  rw [getFlags, htext, repeatFlags_eq plain hd.flags (width_head hd), addFlags_plain]

/-- Without a star a directive is read as it is written. -/
theorem directive_eq (hd : d.WellFormed) (hstar : d.NoStar) :
    directive (d.text ++ rest) args str stores =
      convert ⟨flagsOf d.flags, orNone d.width.value, orNone d.precision.value,
        d.conv.char :: rest, args⟩ str stores := by
  rw [directive, getFlags_eq hd, getWidth_eq hd hstar.1, Option.bind_some,
    getPrecision_eq hd hstar.2, Option.bind_some, getQualifier_eq hd]

end Reading

/-! ### What a directive writes -/

section Writing

variable {flags : Flags} {w p : Option ℕ} {conv : Conv} {rest : List Char} {args : List Arg}
  {str : List Char} {stores : List (ℕ × ℕ)}

/-- A width or precision that an `int` holds. -/
def Held (w : Option ℕ) : Prop := ∀ k ∈ w, k < 2 ^ 31

theorem orNone_bounds (hw : Held w) : -1 ≤ orNone w ∧ orNone w < 2 ^ 31 := by
  cases w with
  | none => exact ⟨le_refl _, by decide⟩
  | some k =>
    have hk := hw k rfl
    change -1 ≤ (k : ℤ) ∧ (k : ℤ) < 2 ^ 31
    omega

theorem blanksDown_eq (n : ℤ) : blanksDown n = (List.replicate n.toNat ' ', min n 0) := by
  induction n using blanksDown.induct with
  | case1 n h ih =>
    have hsucc : n.toNat = (n - 1).toNat + 1 := by omega
    have hmin : min n 0 = min (n - 1) 0 := by omega
    rw [blanksDown, if_pos h, ih, hsucc, List.replicate_succ, hmin]
  | case2 n h =>
    have hzero : n.toNat = 0 := by omega
    have hmin : min n 0 = n := by omega
    rw [blanksDown, if_neg h, hzero, List.replicate_zero, hmin]

theorem blanksTo_eq (len n : ℤ) :
    blanksTo len n = (List.replicate (n - len).toNat ' ', int (min n len - 1)) := by
  induction n using blanksTo.induct len with
  | case1 n h ih =>
    have hsucc : (n - len).toNat = (n - 1 - len).toNat + 1 := by omega
    have hmin : min n len = min (n - 1) len := by omega
    rw [blanksTo, if_pos h, ih, hsucc, List.replicate_succ, hmin]
  | case2 n h =>
    have hzero : (n - len).toNat = 0 := by omega
    have hmin : min n len = n := by omega
    rw [blanksTo, if_neg h, hzero, List.replicate_zero, hmin]

theorem charField_eq (hw : Held w) (n : ℤ) :
    charField flags (orNone w) n = justify flags (w.getD 0) [Char.ofNat (n % 256).toNat] := by
  obtain ⟨hlo, hhi⟩ := orNone_bounds hw
  have hwidth : (orNone w - 1).toNat = w.getD 0 - 1 := by
    cases w with
    | none => rfl
    | some k =>
      change ((k : ℤ) - 1).toNat = k - 1
      omega
  have hint : int (orNone w - 1) = orNone w - 1 := int_eq (by omega) (by omega)
  have hlast : (int (min (orNone w - 1) 0 - 1)).toNat = 0 := by
    rw [int_eq (by omega) (by omega)]
    omega
  unfold charField justify
  cases hleft : flags.left with
  | true => simp [blanksDown_eq, hint, hwidth]
  | false => simp [blanksDown_eq, hint, hwidth, hlast]

theorem orNone_toNat (w : Option ℕ) : (orNone w).toNat = w.getD 0 := by
  cases w <;> rfl

theorem taken_length (p : Option ℕ) (s : List Char) :
    (if orNone p < 0 then (s.length : ℤ) else
      if orNone p < s.length then orNone p else s.length) =
    ((s.take (p.getD s.length)).length : ℕ) := by
  rw [List.length_take]
  cases p with
  | none => exact (if_pos (by decide)).trans (by simp)
  | some k =>
    change (if (k : ℤ) < 0 then (s.length : ℤ) else
      if (k : ℤ) < s.length then (k : ℤ) else s.length) = ((min k s.length : ℕ) : ℤ)
    split_ifs <;> omega

theorem strField_eq (hw : Held w) (s : List Char) :
    strField flags (orNone w) (orNone p) s =
      justify flags (w.getD 0) (s.take (p.getD s.length)) := by
  obtain ⟨hlo, hhi⟩ := orNone_bounds hw
  have htake : s.take (s.take (p.getD s.length)).length = s.take (p.getD s.length) := by
    rw [List.length_take, List.take_eq_take_iff]
    omega
  unfold strField justify
  simp only [taken_length, Int.toNat_natCast, htake]
  generalize s.take (p.getD s.length) = t
  have hlast : (int (min (orNone w) t.length - 1) - t.length).toNat = 0 := by
    rw [int_eq (by omega) (by omega)]
    omega
  cases hleft : flags.left with
  | true => simp [blanksTo_eq, orNone_toNat]
  | false => simp [blanksTo_eq, orNone_toNat, hlast]

/-- A number never comes out too short, and it comes out too long outside the range. -/
theorem number_text {num base width precision : ℤ} (hbase : 2 ≤ base) (hbase' : base ≤ 36)
    (hlo : -2 ^ 31 ≤ num) (hhi : num < 2 ^ 31) (hwlo : -2 ^ 31 ≤ width) (hwhi : width < 2 ^ 31)
    (hphi : precision < 2 ^ 31) (flags : Flags) :
    ∃ text, number num base width precision flags = some text ∧
      (showNumber num base width precision flags).length ≤ text.length ∧
      (text.length = (showNumber num base width precision flags).length →
        InRange num base width precision flags) ∧
      (InRange num base width precision flags →
        text = showNumber num base width precision flags) := by
  have hrenders : Renders num base width precision flags
      (showNumber num base width precision flags) := showNumber_renders hbase hbase' hlo hhi
  obtain ⟨left, zeros, ds, right, hlayout⟩ := hrenders
  have hshown := hlayout.length
  rw [hlayout.count] at hshown
  obtain ⟨text, htext⟩ : ∃ text, number num base width precision flags = some text :=
    ⟨_, number_some hbase hbase' hlo hhi rfl⟩
  have hlen := number_length hbase hbase' hlo hhi htext
  have hbounds : -2 ^ 32 - 2 ≤ width - body num base precision flags ∧
      width - body num base precision flags < 2 ^ 31 := body_bounds flags hbase hlo hwlo hwhi hphi
  obtain ⟨hlow, hhigh⟩ := hbounds
  have hiff := padding_iff flags hlow hhigh
  have hint := int_cases hlow hhigh
  refine ⟨text, htext, ?_, ?_, ?_⟩
  · have hpad : (int (width - body num base precision flags)).toNat ≤
        padding flags (int (width - body num base precision flags)) := by
      unfold padding
      omega
    unfold body at hlen hpad hint hlow
    omega
  · intro hsame
    refine hiff.1 ?_
    unfold body at hlen ⊢
    omega
  · intro hin
    rw [number_shown hbase hbase' hlo hhi hwlo hwhi hphi hin] at htext
    exact (Option.some.inj htext).symm

theorem vaInt_range {a : ℤ × List Arg} (h : vaInt args = some a) :
    -2 ^ 31 ≤ a.1 ∧ a.1 < 2 ^ 31 ∧ a.2 = args.tail := by
  unfold vaInt at h
  split at h
  · cases h
    exact ⟨Int32.le_toInt _, Int32.toInt_lt _, rfl⟩
  · cases h

theorem vaPtr_range {a : ℤ × List Arg} (h : vaPtr args = some a) :
    -2 ^ 31 ≤ a.1 ∧ a.1 < 2 ^ 31 ∧ a.2 = args.tail := by
  unfold vaPtr at h
  split at h
  · cases h
    exact ⟨Int32.le_toInt _, Int32.toInt_lt _, rfl⟩
  · cases h

theorem va_range {a : ℤ × List Arg} (h : conv.va args = some a) :
    -2 ^ 31 ≤ a.1 ∧ a.1 < 2 ^ 31 ∧ a.2 = args.tail := by
  cases conv with
  | p => exact vaPtr_range h
  | _ => exact vaInt_range h

theorem base_range (conv : Conv) : 2 ≤ conv.base ∧ conv.base ≤ 36 := by
  cases conv <;> decide

theorem setWidth_bounds (conv : Conv) (hw : Held w) : -1 ≤ conv.setWidth w ∧ conv.setWidth w < 2 ^ 31 := by
  have h := orNone_bounds hw
  unfold Conv.setWidth
  split
  · split
    · decide
    · exact h
  · exact h

theorem orNone_iff : orNone w = -1 ↔ w = none := by
  cases w with
  | none => exact ⟨fun _ => rfl, fun _ => rfl⟩
  | some k =>
    refine ⟨fun h => ?_, nofun⟩
    change (k : ℤ) = -1 at h
    omega

/-- The conversions to numbers differ in their flags, their base and the kind of the argument. -/
theorem convert_number (hconv : conv.IsNumber) :
    convert ⟨flags, orNone w, orNone p, conv.char :: rest, args⟩ str stores =
      (conv.va args).bind fun a =>
        (number a.1 conv.base (conv.setWidth w) (orNone p) (conv.setFlags w flags)).map fun text =>
          ⟨rest, a.2, str ++ text, stores⟩ := by
  cases conv with
  | c => exact hconv.elim
  | s => exact hconv.elim
  | n => exact hconv.elim
  | p =>
    by_cases hw : w = none
    · subst hw
      rfl
    · have hne : orNone w ≠ -1 := fun h => hw (orNone_iff.1 h)
      unfold convert
      simp only [Conv.char, Conv.setWidth, Conv.setFlags, if_neg hne, if_neg hw]
      rfl
  | _ => rfl

theorem convText_number (hconv : conv.IsNumber) :
    convText conv flags w p args = (conv.va args).map fun a =>
      ⟨showNumber a.1 conv.base (conv.setWidth w) (orNone p) (conv.setFlags w flags), none, a.2⟩ := by
  cases conv with
  | c => exact hconv.elim
  | s => exact hconv.elim
  | n => exact hconv.elim
  | _ => rfl

end Writing

/-! ### Directives without a star -/

section Starless

variable {d : Spec} {items : List Item} {rest : List Char} {args : List Arg}
  {str : List Char} {stores : List (ℕ × ℕ)}

theorem Field.value_held {f : Field} (hf : f.IsNumber) : Held f.value := by
  cases f with
  | number ds =>
    intro k hk
    cases hk
    exact hf.2
  | _ => exact nofun

theorem render_eq (hstar : d.NoStar) :
    render d args =
      convText d.conv (flagsOf d.flags) d.width.value d.precision.value args := by
  have hwidth : takeWidth d.width (flagsOf d.flags) args =
      some (flagsOf d.flags, d.width.value, args) := by
    cases hw : d.width with
    | star => exact absurd hw hstar.1
    | _ => rfl
  have hprecision : takePrecision d.precision args = some (d.precision.value, args) := by
    cases hp : d.precision with
    | star => exact absurd hp hstar.2
    | _ => rfl
  rw [render, hwidth, Option.bind_some, hprecision, Option.bind_some]

/-- A directive writes at least what it should, and exactly that in the range of `number`. -/
structure Writes (d : Spec) (args : List Arg) (text : List Char) (r : Rendered) : Prop where
  tail : r.args = args.tail
  longer : r.text.length ≤ text.length
  same : text.length = r.text.length → d.InRange args
  exact : d.InRange args → text = r.text

theorem Writes.refl (hconv : ¬d.conv.IsNumber) {r : Rendered} (htail : r.args = args.tail) :
    Writes d args r.text r :=
  ⟨htail, Nat.le_refl _, fun _ h => absurd h hconv, fun _ => rfl⟩

theorem directive_writes (rest str : List Char) (stores : List (ℕ × ℕ)) (hd : d.WellFormed) (hstar : d.NoStar) {r : Rendered}
    (h : render d args = some r) :
    ∃ text, directive (d.text ++ rest) args str stores =
        some ⟨rest, r.args, str ++ text, stores ++ r.ip.toList.map (·, str.length)⟩ ∧
      Writes d args text r := by
  have hw := Field.value_held hd.width
  have hp := Field.value_held hd.precision
  rw [render_eq hstar] at h
  rw [directive_eq hd hstar]
  by_cases hconv : d.conv.IsNumber
  · rw [convText_number hconv] at h
    obtain ⟨a, ha, rfl⟩ := Option.map_eq_some_iff.1 h
    obtain ⟨hlo, hhi, htail⟩ := va_range ha
    have hwidth := setWidth_bounds d.conv hw
    obtain ⟨text, htext, hlonger, hsame, hexact⟩ := number_text (base_range d.conv).1
      (base_range d.conv).2 hlo hhi (by omega : -2 ^ 31 ≤ d.conv.setWidth d.width.value) hwidth.2
      (orNone_bounds hp).2 (d.conv.setFlags d.width.value (flagsOf d.flags))
    refine ⟨text, ?_, htail, hlonger, ?_, ?_⟩
    · rw [convert_number hconv, ha, Option.bind_some, htext, Option.map_some]
      exact congrArg some (congrArg (Progress.mk _ _ _) (List.append_nil _).symm)
    · intro hlen _ a' ha'
      cases ha.symm.trans ha'
      exact hsame hlen
    · exact fun hin => hexact (hin hconv a ha)
  · cases hc : d.conv with
    | c =>
      rw [hc] at h hconv
      obtain ⟨a, ha, rfl⟩ := Option.map_eq_some_iff.1 h
      refine ⟨_, ?_, .refl (hc ▸ hconv) (vaInt_range ha).2.2⟩
      unfold convert
      simp only [Conv.char, if_true, ha, Option.map_some, charField_eq hw]
      exact congrArg some (congrArg (Progress.mk _ _ _) (List.append_nil _).symm)
    | s =>
      rw [hc] at h hconv
      obtain ⟨a, ha, rfl⟩ := Option.map_eq_some_iff.1 h
      have htail : a.2 = args.tail := by
        unfold vaStr at ha
        split at ha <;> cases ha
        rfl
      refine ⟨_, ?_, .refl (hc ▸ hconv) htail⟩
      unfold convert
      have hne : 's' ≠ 'c' := by decide
      simp only [Conv.char, if_neg hne, if_true, ha, Option.map_some, strField_eq hw]
      exact congrArg some (congrArg (Progress.mk _ _ _) (List.append_nil _).symm)
    | n =>
      rw [hc] at h hconv
      obtain ⟨a, ha, rfl⟩ := Option.map_eq_some_iff.1 h
      have htail : a.2 = args.tail := by
        unfold vaLoc at ha
        split at ha <;> cases ha
        rfl
      refine ⟨_, ?_, .refl (hc ▸ hconv) htail⟩
      change (vaLoc args).map _ = _
      rw [ha, Option.map_some, List.append_nil]
      rfl
    | _ =>
      rw [hc] at hconv
      exact absurd trivial hconv

theorem loop_literal {c : Char} (hc : c ≠ '%') :
    vsprintfLoop (c :: rest) args str stores = vsprintfLoop rest args (str ++ [c]) stores := by
  rw [vsprintfLoop, if_pos hc]

theorem loop_directive {s : Progress} (h : directive rest args str stores = some s) :
    vsprintfLoop ('%' :: rest) args str stores = vsprintfLoop s.fmt s.args s.str s.stores := by
  rw [vsprintfLoop, if_neg (not_not_intro rfl)]
  split
  · next hnone => rw [h] at hnone; cases hnone
  · next s' hs =>
    cases h.symm.trans hs
    rfl

theorem loop_percent : vsprintfLoop ('%' :: '%' :: rest) args str stores =
    vsprintfLoop rest args (str ++ ['%']) stores := by
  have h : directive ('%' :: rest) args str stores = some ⟨rest, args, str ++ [] ++ ['%'], stores⟩ :=
    rfl
  rw [loop_directive h, List.append_nil]

theorem formatText_cons (item : Item) (items : List Item) :
    formatText (item :: items) = item.text ++ formatText items := rfl

/-- By induction on the items: what is written never gets shorter than it should be. -/
theorem loop_writes (items : List Item) (hwf : ∀ item ∈ items, item.WellFormed)
    (hstar : ∀ item ∈ items, item.NoStar) (str' : List Char) (stores' : List (ℕ × ℕ))
    {e : Progress} (h : expected items args str stores = some e) :
    ∃ s, vsprintfLoop (formatText items) args str' stores' = some s ∧
      e.str.length + str'.length ≤ s.str.length + str.length ∧
      (s.str.length + str.length = e.str.length + str'.length → AllInRange items args) ∧
      (AllInRange items args → str' = str → stores' = stores → s = e) := by
  induction items generalizing args str stores str' stores' with
  | nil =>
    cases h
    refine ⟨⟨[], args, str', stores'⟩, ?_, ?_, fun _ => trivial, ?_⟩
    · exact vsprintfLoop.eq_1 args str' stores'
    · exact Nat.le_of_eq (Nat.add_comm _ _)
    · rintro - rfl rfl
      rfl
  | cons item items ih =>
    have hwf' := fun i hi => hwf i (List.mem_cons_of_mem item hi)
    have hstar' := fun i hi => hstar i (List.mem_cons_of_mem item hi)
    rw [formatText_cons]
    cases item with
    | literal c =>
      obtain ⟨s, hs, hlonger, hsame, hexact⟩ := ih hwf' hstar' (str' ++ [c]) stores' h
      simp only [List.length_append, List.length_singleton] at hlonger hsame
      refine ⟨s, ?_, by omega, fun hlen => hsame (by omega), ?_⟩
      · exact (loop_literal (hwf _ List.mem_cons_self).1).trans hs
      · rintro hall rfl rfl
        exact hexact hall rfl rfl
    | percent =>
      obtain ⟨s, hs, hlonger, hsame, hexact⟩ := ih hwf' hstar' (str' ++ ['%']) stores' h
      simp only [List.length_append, List.length_singleton] at hlonger hsame
      refine ⟨s, loop_percent.trans hs, by omega, fun hlen => hsame (by omega), ?_⟩
      rintro hall rfl rfl
      exact hexact hall rfl rfl
    | directive d =>
      obtain ⟨r, hr, he⟩ := Option.bind_eq_some_iff.1 h
      obtain ⟨text, hdir, hwrites⟩ := directive_writes (formatText items) str' stores'
        (hwf _ List.mem_cons_self) (hstar _ List.mem_cons_self) hr
      obtain ⟨s, hs, hlonger, hsame, hexact⟩ := ih hwf' hstar' (str' ++ text)
        (stores' ++ r.ip.toList.map (·, str'.length)) he
      simp only [List.length_append] at hlonger hsame
      have htext := hwrites.longer
      refine ⟨s, (loop_directive hdir).trans hs, by omega, fun hlen => ⟨?_, ?_⟩, ?_⟩
      · exact hwrites.same (by omega)
      · exact hwrites.tail ▸ hsame (by omega)
      · rintro ⟨hin, hall⟩ rfl rfl
        refine hexact (hwrites.tail.symm ▸ hall) ?_ rfl
        rw [hwrites.exact hin]

end Starless

/-! ### Arguments

With a star the loop takes one argument for the directive, not two: it goes on at the star, which it
writes with the rest of the directive.
-/

section Arguments

variable {d : Spec} {items : List Item} {rest : List Char} {args : List Arg}
  {str : List Char} {stores : List (ℕ × ℕ)}

def Field.stars : Field → ℕ
  | .star => 1
  | _ => 0

/-- The arguments for a directive. -/
def Spec.count (d : Spec) : ℕ := d.width.stars + d.precision.stars + 1

def Item.count : Item → ℕ
  | .directive d => d.count
  | _ => 0

/-- The arguments that the loop takes. -/
def Item.taken : Item → ℕ
  | .directive _ => 1
  | _ => 0

theorem vaInt_length {a : ℤ × List Arg} (h : vaInt args = some a) :
    a.2.length + 1 = args.length := by
  unfold vaInt at h
  split at h
  · cases h
    rfl
  · cases h

theorem va_length {conv : Conv} {a : ℤ × List Arg} (h : conv.va args = some a) :
    a.2.length + 1 = args.length := by
  cases conv with
  | p =>
    replace h : vaPtr args = some a := h
    unfold vaPtr at h
    split at h
    · cases h
      rfl
    · cases h
  | _ => exact vaInt_length h

theorem vaStr_length {a : List Char × List Arg} (h : vaStr args = some a) :
    a.2.length + 1 = args.length := by
  unfold vaStr at h
  split at h
  · cases h
    rfl
  · cases h

theorem vaLoc_length {a : ℕ × List Arg} (h : vaLoc args = some a) :
    a.2.length + 1 = args.length := by
  unfold vaLoc at h
  split at h
  · cases h
    rfl
  · cases h

theorem convText_length {conv : Conv} {flags : Flags} {w p : Option ℕ} {r : Rendered}
    (h : convText conv flags w p args = some r) : r.args.length + 1 = args.length := by
  by_cases hconv : conv.IsNumber
  · rw [convText_number hconv] at h
    obtain ⟨a, ha, rfl⟩ := Option.map_eq_some_iff.1 h
    exact va_length ha
  · cases conv with
    | c =>
      obtain ⟨a, ha, rfl⟩ := Option.map_eq_some_iff.1 h
      exact vaInt_length ha
    | s =>
      obtain ⟨a, ha, rfl⟩ := Option.map_eq_some_iff.1 h
      exact vaStr_length ha
    | n =>
      obtain ⟨a, ha, rfl⟩ := Option.map_eq_some_iff.1 h
      exact vaLoc_length ha
    | _ => exact absurd trivial hconv

theorem takeWidth_length {f : Field} {flags : Flags} {w : Flags × Option ℕ × List Arg}
    (h : takeWidth f flags args = some w) : w.2.2.length + f.stars = args.length := by
  cases f with
  | none =>
    cases h
    rfl
  | number ds =>
    cases h
    rfl
  | star =>
    obtain ⟨a, ha, rfl⟩ := Option.map_eq_some_iff.1 h
    exact vaInt_length ha

theorem takePrecision_length {f : Field} {p : Option ℕ × List Arg}
    (h : takePrecision f args = some p) : p.2.length + f.stars = args.length := by
  cases f with
  | none =>
    cases h
    rfl
  | number ds =>
    cases h
    rfl
  | star =>
    obtain ⟨a, ha, rfl⟩ := Option.map_eq_some_iff.1 h
    exact vaInt_length ha

theorem render_length {r : Rendered} (h : render d args = some r) :
    r.args.length + d.count = args.length := by
  obtain ⟨w, hw, h⟩ := Option.bind_eq_some_iff.1 h
  obtain ⟨p, hp, h⟩ := Option.bind_eq_some_iff.1 h
  have hconv := convText_length h
  have hwidth := takeWidth_length hw
  have hprecision := takePrecision_length hp
  unfold Spec.count
  omega

theorem expected_length {e : Progress} (h : expected items args str stores = some e) :
    e.args.length + (items.map Item.count).sum = args.length := by
  induction items generalizing args str stores with
  | nil =>
    cases h
    rfl
  | cons item items ih =>
    rw [List.map_cons, List.sum_cons]
    cases item with
    | literal c =>
      have hrest := ih h
      change _ + (0 + _) = _
      omega
    | percent =>
      have hrest := ih h
      change _ + (0 + _) = _
      omega
    | directive d =>
      obtain ⟨r, hr, he⟩ := Option.bind_eq_some_iff.1 h
      have hrest := ih he
      have hrender := render_length hr
      change _ + (d.count + _) = _
      omega

theorem loop_literals {l : List Char} (hl : '%' ∉ l) :
    vsprintfLoop (l ++ rest) args str stores = vsprintfLoop rest args (str ++ l) stores := by
  induction l generalizing str with
  | nil => rw [List.nil_append, List.append_nil]
  | cons c l ih =>
    rw [List.mem_cons, not_or] at hl
    rw [List.cons_append, loop_literal (Ne.symm hl.1), ih hl.2, List.append_assoc]
    rfl

theorem conv_ne_percent (conv : Conv) : conv.char ≠ '%' := by
  cases conv <;> decide

theorem tail_notMem (hd : d.WellFormed) : '%' ∉ d.qualifier.toList ++ [d.conv.char] := by
  rw [List.mem_append, not_or, List.mem_singleton]
  refine ⟨fun hmem => ?_, (conv_ne_percent d.conv).symm⟩
  have hq := hd.qualifier '%' (by simpa using hmem)
  revert hq
  decide

theorem dotted_notMem (hd : d.WellFormed) :
    '%' ∉ d.precision.dotted ++ (d.qualifier.toList ++ [d.conv.char]) := by
  rw [List.mem_append, not_or]
  refine ⟨fun hmem => ?_, tail_notMem hd⟩
  have hp := hd.precision
  cases hprec : d.precision with
  | none =>
    rw [hprec] at hmem
    cases hmem
  | star =>
    rw [hprec] at hmem
    revert hmem
    decide
  | number ds =>
    rw [hprec] at hmem hp
    obtain h | h := List.mem_cons.1 hmem
    · exact absurd h (by decide)
    · exact absurd (hp.1 _ h) (by decide)

/-- A star that has not been stepped over is written with a percent sign. -/
theorem convert_star {flags : Flags} {w p : ℤ} {l : List Char} :
    convert (getQualifier ⟨flags, w, p, '*' :: l, args⟩) str stores =
      some ⟨l, args, str ++ ['%'] ++ ['*'], stores⟩ := rfl

theorem width_star (hd : d.WellFormed) (hw : d.width = .star) {s : Progress}
    (h : directive (d.text ++ rest) args str stores = some s) :
    s.args.length + 1 = args.length ∧
      s.fmt = d.precision.dotted ++ (d.qualifier.toList ++ [d.conv.char]) ++ rest := by
  rw [directive, getFlags_eq hd, hw] at h
  obtain ⟨d₂, h₂, h⟩ := Option.bind_eq_some_iff.1 h
  obtain ⟨d₁, h₁, h₂⟩ := Option.bind_eq_some_iff.1 h₂
  obtain ⟨a, ha, rfl⟩ := Option.map_eq_some_iff.1 h₁
  have hlen := vaInt_length ha
  split at h₂
  · cases h₂
    cases convert_star.symm.trans h
    exact ⟨hlen, by simp⟩
  · cases h₂
    cases convert_star.symm.trans h
    exact ⟨hlen, by simp⟩

theorem precision_star (hd : d.WellFormed) (hw : d.width ≠ .star) (hp : d.precision = .star)
    {s : Progress} (h : directive (d.text ++ rest) args str stores = some s) :
    s.args.length + 1 = args.length ∧ s.fmt = d.qualifier.toList ++ [d.conv.char] ++ rest := by
  rw [directive, getFlags_eq hd, getWidth_eq hd hw, Option.bind_some, hp] at h
  obtain ⟨d₂, h₂, h⟩ := Option.bind_eq_some_iff.1 h
  obtain ⟨d₁, h₁, rfl⟩ := Option.map_eq_some_iff.1 h₂
  obtain ⟨a, ha, rfl⟩ := Option.map_eq_some_iff.1 h₁
  have hlen := vaInt_length ha
  split at h
  · cases convert_star.symm.trans h
    exact ⟨hlen, by simp⟩
  · cases convert_star.symm.trans h
    exact ⟨hlen, by simp⟩

theorem convert_length {flags : Flags} {w p : Option ℕ} {conv : Conv} {s : Progress}
    (h : convert ⟨flags, orNone w, orNone p, conv.char :: rest, args⟩ str stores = some s) :
    s.args.length + 1 = args.length ∧ s.fmt = rest := by
  by_cases hconv : conv.IsNumber
  · rw [convert_number hconv] at h
    obtain ⟨a, ha, h⟩ := Option.bind_eq_some_iff.1 h
    obtain ⟨text, -, rfl⟩ := Option.map_eq_some_iff.1 h
    exact ⟨va_length ha, rfl⟩
  · cases conv with
    | c =>
      obtain ⟨a, ha, rfl⟩ := Option.map_eq_some_iff.1 h
      exact ⟨vaInt_length ha, rfl⟩
    | s =>
      obtain ⟨a, ha, rfl⟩ := Option.map_eq_some_iff.1 h
      exact ⟨vaStr_length ha, rfl⟩
    | n =>
      obtain ⟨a, ha, rfl⟩ := Option.map_eq_some_iff.1 h
      exact ⟨vaLoc_length ha, rfl⟩
    | _ => exact absurd trivial hconv

/-- The loop takes one argument for any directive. -/
theorem directive_length (hd : d.WellFormed) {s : Progress}
    (h : directive (d.text ++ rest) args str stores = some s) :
    s.args.length + 1 = args.length ∧ ∃ l, '%' ∉ l ∧ s.fmt = l ++ rest := by
  by_cases hw : d.width = .star
  · exact ⟨(width_star hd hw h).1, _, dotted_notMem hd, (width_star hd hw h).2⟩
  by_cases hp : d.precision = .star
  · exact ⟨(precision_star hd hw hp h).1, _, tail_notMem hd, (precision_star hd hw hp h).2⟩
  · rw [directive_eq hd ⟨hw, hp⟩] at h
    exact ⟨(convert_length h).1, [], List.not_mem_nil, (convert_length h).2⟩

theorem loop_length (hwf : ∀ item ∈ items, item.WellFormed) {s : Progress}
    (h : vsprintfLoop (formatText items) args str stores = some s) :
    s.args.length + (items.map Item.taken).sum = args.length := by
  induction items generalizing args str stores with
  | nil =>
    rw [show formatText [] = [] from rfl, vsprintfLoop.eq_1] at h
    cases h
    rfl
  | cons item items ih =>
    have hwf' := fun i hi => hwf i (List.mem_cons_of_mem item hi)
    rw [formatText_cons] at h
    rw [List.map_cons, List.sum_cons]
    cases item with
    | literal c =>
      have hrest := ih hwf' ((loop_literal (hwf _ List.mem_cons_self).1).symm.trans h)
      change _ + (0 + _) = _
      omega
    | percent =>
      have hrest := ih hwf' (loop_percent.symm.trans h)
      change _ + (0 + _) = _
      omega
    | directive d =>
      change vsprintfLoop ('%' :: (d.text ++ formatText items)) args str stores = some s at h
      cases hdir : directive (d.text ++ formatText items) args str stores with
      | none =>
        rw [vsprintfLoop, if_neg (not_not_intro rfl)] at h
        split at h
        · cases h
        · next s' hs =>
          rw [hdir] at hs
          cases hs
      | some s' =>
        obtain ⟨hlen, l, hl, hfmt⟩ := directive_length (hwf _ List.mem_cons_self) hdir
        rw [loop_directive hdir, hfmt, loop_literals hl] at h
        have hrest := ih hwf' h
        change _ + (1 + _) = _
        omega

theorem taken_le (item : Item) : item.taken ≤ item.count := by
  cases item with
  | directive d => exact Nat.le_add_left _ _
  | _ => exact Nat.le_refl _

theorem noStar_iff (item : Item) : item.NoStar ↔ item.count ≤ item.taken := by
  cases item with
  | literal c => exact iff_of_true trivial (Nat.le_refl _)
  | percent => exact iff_of_true trivial (Nat.le_refl _)
  | directive d =>
    change d.width ≠ .star ∧ d.precision ≠ .star ↔ d.width.stars + d.precision.stars + 1 ≤ 1
    cases d.width <;> cases d.precision <;> simp [Field.stars]

/-- The same number of arguments is taken only if there is no star. -/
theorem noStar_of_sum (h : (items.map Item.count).sum ≤ (items.map Item.taken).sum) :
    ∀ item ∈ items, item.NoStar := by
  induction items with
  | nil => exact nofun
  | cons item items ih =>
    rw [List.map_cons, List.map_cons, List.sum_cons, List.sum_cons] at h
    have hle := taken_le item
    have hsum : (items.map Item.taken).sum ≤ (items.map Item.count).sum :=
      List.sum_le_sum fun i _ => taken_le i
    intro i hi
    obtain rfl | hi := List.mem_cons.1 hi
    · exact (noStar_iff i).2 (by omega)
    · exact ih (by omega) i hi

end Arguments

/-- The output is what the format stands for if and only if the format has no star and `number` stays
    in its range. -/
theorem vsprintf_wanted_iff {items : List Item} {args : List Arg} {e : Result}
    (hwf : ∀ item ∈ items, item.WellFormed) (h : wanted items args = some e) :
    vsprintf (formatText items) args = some e ↔
      (∀ item ∈ items, item.NoStar) ∧ AllInRange items args := by
  obtain ⟨w, hw, rfl⟩ := Option.map_eq_some_iff.1 h
  constructor
  · intro heq
    obtain ⟨s, hs, hres⟩ := Option.map_eq_some_iff.1 heq
    have hargs : s.args = w.args := congrArg Result.rest hres
    have hlen : s.str.length = w.str.length := congrArg Result.len hres
    have hcode := loop_length hwf hs
    have hspec := expected_length hw
    have hstar : ∀ item ∈ items, item.NoStar := by
      refine noStar_of_sum ?_
      rw [hargs] at hcode
      omega
    obtain ⟨s', hs', -, hsame, -⟩ := loop_writes items hwf hstar [] [] hw
    cases hs.symm.trans hs'
    exact ⟨hstar, hsame (by rw [hlen])⟩
  · rintro ⟨hstar, hin⟩
    obtain ⟨s, hs, -, -, hexact⟩ := loop_writes items hwf hstar [] [] hw
    rw [vsprintf, hs, hexact hin rfl rfl]
    rfl

/-- `=%-3s%%` -/
def leftText : List Item := [.literal '=', .directive ⟨['-'], .number ['3'], .none, none, .s⟩, .percent]

theorem leftText_wellFormed : ∀ item ∈ leftText, item.WellFormed := by
  intro item hitem
  simp only [leftText, List.mem_cons, List.not_mem_nil, or_false] at hitem
  obtain rfl | rfl | rfl := hitem
  · exact ⟨by decide, by decide⟩
  · exact ⟨by simp [FLAGS], ⟨by simp [isDigit], by simp [decimal]⟩, ⟨'3', [], rfl, by decide⟩, trivial,
      nofun⟩
  · exact trivial

theorem vsprintf_wanted_iff_leftText :
    vsprintf (formatText leftText) [.str ['a']] = some ⟨['=', 'a', ' ', ' ', '%', NUL], 5, [], []⟩ ↔
      (∀ item ∈ leftText, item.NoStar) ∧ AllInRange leftText [.str ['a']] :=
  vsprintf_wanted_iff leftText_wellFormed rfl

/-- `%*s` -/
def starText : List Item := [.directive ⟨[], .star, .none, none, .s⟩]

theorem starText_wellFormed : ∀ item ∈ starText, item.WellFormed := by
  intro item hitem
  cases List.mem_singleton.1 hitem
  exact ⟨nofun, trivial, trivial, trivial, nofun⟩

/-- The star and the conversion are written, and the string is left over. -/
theorem star_printed : (∀ item ∈ starText, item.WellFormed) ∧
    wanted starText [.int 5, .str ['a', 'b']] =
      some ⟨[' ', ' ', ' ', 'a', 'b', NUL], 5, [], []⟩ ∧
    vsprintf (formatText starText) [.int 5, .str ['a', 'b']] =
      some ⟨['%', '*', 's', NUL], 3, [], [.str ['a', 'b']]⟩ := by
  refine ⟨starText_wellFormed, rfl, ?_⟩
  have hdir : directive ['*', 's'] [.int 5, .str ['a', 'b']] [] [] =
      some ⟨['s'], [.str ['a', 'b']], ['%', '*'], []⟩ := rfl
  have hloop : vsprintfLoop ['%', '*', 's'] [.int 5, .str ['a', 'b']] [] [] =
      some ⟨[], [.str ['a', 'b']], ['%', '*', 's'], []⟩ := by
    rw [loop_directive hdir, loop_literal (by decide), vsprintfLoop.eq_1]
    rfl
  change (vsprintfLoop ['%', '*', 's'] [.int 5, .str ['a', 'b']] [] []).map _ = _
  rw [hloop]
  rfl

end Linux011.Vsprintf
