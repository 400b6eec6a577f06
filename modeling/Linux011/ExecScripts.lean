import Linux011.Execve

set_option autoImplicit false

/-!
# The arguments of a script (fs/exec.c)

The first line of a script names an interpreter, which is started with the script among its arguments.
-/
namespace Linux011.Exec
open Minix (Block)

/-- A first line: blanks, the path of the interpreter with its last component, and perhaps a blank and
    an argument. -/
structure Line where
  blanks : List UInt8
  dir : List UInt8
  base : List UInt8
  arg : Option (UInt8 × List UInt8)
  blanks_blank : ∀ c ∈ blanks, blank c = true
  dir_slash : dir = [] ∨ ∃ d, dir = d ++ [47]
  base_slash : 47 ∉ base
  path_ne : dir ++ base ≠ []
  path : ∀ c ∈ dir ++ base, c ≠ 0 ∧ c ≠ 10 ∧ blank c = false
  arg_blank : ∀ c a, arg = some (c, a) → blank c = true
  arg_line : ∀ c a, arg = some (c, a) → ∀ x ∈ a, x ≠ 0 ∧ x ≠ 10

/-- What follows the path. -/
def Line.rest (l : Line) : List UInt8 :=
  match l.arg with
  | none => []
  | some (c, a) => c :: a

def Line.text (l : Line) : List UInt8 := l.blanks ++ (l.dir ++ l.base ++ l.rest)

/-- The block begins with `#!`, the line and its end. -/
structure Line.Begins (l : Line) (b : Block) : Prop where
  shebang : shebang b
  short : l.text.length < 1022
  line : ∀ k (h : k < l.text.length), b (2 + k) = l.text[k]
  newline : b (2 + l.text.length) = 10

/-- The strings in the place of the name of the caller. -/
def Line.names (l : Line) (filename : CString) : List CString :=
  [cstring l.base] ++ l.arg.toList.map (fun a => cstring a.2) ++ [filename]

/-! ### The first line -/

theorem iName_of_notMem {cp : List UInt8} (h : 47 ∉ cp) (name : List UInt8) : iName cp name = name := by
  induction cp with
  | nil => rfl
  | cons c cp ih =>
    rw [List.mem_cons, not_or] at h
    rw [iName, if_neg (Ne.symm h.1)]
    exact ih h.2

theorem iName_slash (cp rest name : List UInt8) : iName (cp ++ 47 :: rest) name = iName rest rest := by
  induction cp generalizing name with
  | nil => rfl
  | cons c cp ih =>
    rw [List.cons_append, iName]
    exact ih _

section
variable (l : Line)

theorem Line.iName_eq : iName (l.dir ++ l.base) (l.dir ++ l.base) = l.base := by
  rcases l.dir_slash with hnil | ⟨d, hd⟩
  · rw [hnil, List.nil_append]
    exact iName_of_notMem l.base_slash _
  · rw [hd, List.append_assoc, List.singleton_append, iName_slash]
    exact iName_of_notMem l.base_slash _

/-- No zero, and no end of the line. -/
theorem Line.text_line {c : UInt8} (hc : c ∈ l.text) : c ≠ 0 ∧ c ≠ 10 := by
  have hblank : ∀ x : UInt8, blank x = true → x ≠ 0 ∧ x ≠ 10 := by
    intro x hx
    constructor
    · rintro rfl
      exact absurd hx (by decide)
    · rintro rfl
      exact absurd hx (by decide)
  unfold Line.text at hc
  rcases List.mem_append.mp hc with hc | hc
  · exact hblank c (l.blanks_blank c hc)
  · rcases List.mem_append.mp hc with hc | hc
    · exact ⟨(l.path c hc).1, (l.path c hc).2.1⟩
    · unfold Line.rest at hc
      split at hc
      · exact absurd hc List.not_mem_nil
      · rename_i c' a harg
        rcases List.mem_cons.mp hc with rfl | hc
        · exact hblank c (l.arg_blank c a harg)
        · exact l.arg_line c' a harg c hc

theorem takeWhile_append {p : UInt8 → Bool} {a b : List UInt8} (ha : ∀ x ∈ a, p x = true) :
    (a ++ b).takeWhile p = a ++ b.takeWhile p := by
  rw [List.takeWhile_append, List.takeWhile_eq_self_iff.mpr ha, if_pos rfl]

theorem dropWhile_append {p : UInt8 → Bool} {a b : List UInt8} (ha : ∀ x ∈ a, p x = true) :
    (a ++ b).dropWhile p = b.dropWhile p := by
  rw [List.dropWhile_append, List.dropWhile_eq_nil_iff.mpr ha]
  rfl

/-- The line is in the buffer, before its end. -/
theorem Line.Begins.buf {b : Block} (h : l.Begins b) : ∃ more,
    ((List.range 1022).map fun i => b (2 + i)) = l.text ++ 10 :: more := by
  have hlen : ((List.range 1022).map fun i => b (2 + i)).length = 1022 := by
    rw [List.length_map, List.length_range]
  have hshort : l.text.length < ((List.range 1022).map fun i => b (2 + i)).length := by
    rw [hlen]
    exact h.short
  refine ⟨((List.range 1022).map fun i => b (2 + i)).drop (l.text.length + 1), ?_⟩
  have htake : ((List.range 1022).map fun i => b (2 + i)).take l.text.length = l.text := by
    refine List.ext_getElem ?_ ?_
    · rw [List.length_take]
      omega
    · intro k _ hk
      rw [List.getElem_take, List.getElem_map, List.getElem_range]
      exact h.line k hk
  have hdrop := List.drop_eq_getElem_cons hshort
  rw [List.getElem_map, List.getElem_range, h.newline] at hdrop
  have happend := List.take_append_drop l.text.length ((List.range 1022).map fun i => b (2 + i))
  rw [htake, hdrop] at happend
  exact happend.symm

theorem Line.rest_blank : ∀ x, l.rest.head? = some x → blank x = true := by
  intro x hx
  unfold Line.rest at hx
  split at hx
  · cases hx
  · rename_i c a harg
    rw [List.head?_cons, Option.some_inj] at hx
    exact hx ▸ l.arg_blank c a harg

/-- What follows the path begins with a blank. -/
theorem Line.rest_split :
    l.rest.takeWhile (fun c => !blank c) = [] ∧ l.rest.dropWhile (fun c => !blank c) = l.rest := by
  cases hrest : l.rest with
  | nil => exact ⟨rfl, rfl⟩
  | cons c a =>
    have hc := l.rest_blank c (by rw [hrest]; rfl)
    have hnot : ¬ (!blank c) = true := by
      rw [hc]
      decide
    exact ⟨List.takeWhile_cons_of_neg hnot, List.dropWhile_cons_of_neg hnot⟩

/-- What `parse` finds in the line. -/
theorem Line.Begins.parse {b : Block} (h : l.Begins b) :
    parse b = some (l.dir ++ l.base, cstring l.base, l.arg.map fun a => cstring a.2) := by
  obtain ⟨more, hmore⟩ := h.buf
  have hbuf : (l.text ++ 10 :: more).takeWhile (· ≠ 0) =
      l.text ++ 10 :: more.takeWhile (· ≠ 0) := by
    rw [takeWhile_append, List.takeWhile_cons_of_pos (by decide)]
    intro x hx
    rw [decide_eq_true_eq]
    exact (l.text_line hx).1
  have hmem : (10 : UInt8) ∈ l.text ++ 10 :: more.takeWhile (· ≠ 0) :=
    List.mem_append_right _ (List.mem_cons_self ..)
  have hline : (l.text ++ 10 :: more.takeWhile (· ≠ 0)).takeWhile (· ≠ 10) = l.text := by
    rw [takeWhile_append, List.takeWhile_cons_of_neg (by decide), List.append_nil]
    intro x hx
    rw [decide_eq_true_eq]
    exact (l.text_line hx).2
  have hpath : ∀ x ∈ l.dir ++ l.base, (!blank x) = true := by
    intro x hx
    rw [(l.path x hx).2.2]
    rfl
  have hcp : l.text.dropWhile blank = l.dir ++ l.base ++ l.rest := by
    unfold Line.text
    rw [dropWhile_append l.blanks_blank]
    obtain ⟨c, path, hc⟩ := List.exists_cons_of_ne_nil l.path_ne
    have hblank := (l.path c (hc ▸ List.mem_cons_self ..)).2.2
    rw [hc, List.cons_append, List.dropWhile_cons_of_neg (by rw [hblank]; decide)]
  obtain ⟨htake, hdrop⟩ := l.rest_split
  unfold Exec.parse
  dsimp only
  rw [hmore, hbuf, if_neg (not_not.mpr hmem), hline, hcp, if_neg, takeWhile_append hpath, htake,
    List.append_nil, dropWhile_append hpath, hdrop, l.iName_eq]
  · unfold Line.rest
    cases l.arg <;> rfl
  · intro hnil
    exact l.path_ne (List.append_eq_nil_iff.mp hnil).1

end

/-! ### The strings of the interpreter -/

section
variable (w : World) (l : Line)

/-- The arguments of the interpreter, for a script of the name at `filename`. -/
def Line.arguments (filename argv : ℕ) : List CString :=
  l.names (w.user.string filename) ++ (strings w.user argv).tail

/-- What `do_execve` takes for their number. -/
def Line.argc (argv : ℕ) : ℤ :=
  match l.arg with
  | none => (count w.user argv : ℤ) - 1 + 1 + 1
  | some _ => (count w.user argv : ℤ) - 1 + 1 + 1 + 1

theorem Line.argc_eq (filename argv : ℕ) :
    (1 ≤ count w.user argv → (l.argc w argv).toNat = (l.arguments w filename argv).length) ∧
    (count w.user argv = 0 → (l.argc w argv).toNat + 1 = (l.arguments w filename argv).length) := by
  unfold Line.argc Line.arguments Line.names
  rw [List.length_append, List.length_append, List.length_append, List.length_map,
    List.length_singleton, List.length_singleton, List.length_tail, length_strings]
  cases l.arg with
  | none =>
    dsimp only [Option.toList, List.length_nil]
    omega
  | some a =>
    dsimp only [Option.toList, List.length_cons, List.length_nil]
    omega

/-- The interpreter is started with what has been copied. -/
theorem execScript_start {s : Pages} {p : ℕ} (hp : p ≠ 0) (argc : ℤ) (envc argv envp : ℕ)
    {interp : List UInt8} {g : File} {c : Block} (hinterp : w.namei interp = some g)
    (hopen : opened w g = .ok c) (hvalid : (header c).Valid g.size) :
    (if p = 0 then some (s, Result.error .ENOMEM)
      else match w.namei interp with
      | none => some (s, .error .ENOENT)
      | some f => match opened w f with
        | .error e => some (s, .error e)
        | .ok b => execBinary w f b s p argc.toNat envc argv envp true) =
    some (s, start w g (header c) s p argc.toNat envc) := by
  rw [if_neg hp, hinterp]
  dsimp only
  rw [hopen]
  dsimp only
  unfold execBinary
  rw [if_neg (not_not.mpr hvalid), if_pos rfl]

/-- The strings are copied in the order in which the program will find them. -/
theorem execScript_run {filename argv envp : ℕ} {b : Block}
    (hfree : pagesFor (blob (l.arguments w filename argv) ++ blob (strings w.user envp)).length ≤
      w.free.length)
    (hline : l.Begins b) {g : File} {c : Block} (hinterp : w.namei (l.dir ++ l.base) = some g)
    (hopen : opened w g = .ok c) (hvalid : (header c).Valid g.size)
    (hfit : (blob (l.arguments w filename argv) ++ blob (strings w.user envp)).length < TOP) :
    ∃ s p, s.Ready w.free.length p (blob (l.arguments w filename argv) ++ blob (strings w.user envp)) ∧
      execScript w b w.pages TOP (count w.user argv) (count w.user envp) filename argv envp =
        some (s, start w g (header c) s p (l.argc w argv).toNat (strings w.user envp).length) := by
  rw [length_strings]
  obtain ⟨q, hq, hF⟩ := exists_bottom hfree hfit
  clear hfree
  unfold Line.arguments Line.names Line.argc at *
  rw [blob_append, blob_append, blob_append, List.length_append, List.length_append,
    List.length_append, List.length_append] at hfit hq
  obtain ⟨s₁, p₁, h₁, hp₁, hs₁⟩ := (pages_ready w).copy w hF (reads_user envp)
    (show ((count w.user envp : ℕ) : ℤ).toNat = _ from (length_strings w.user envp).symm) (by omega)
    (by omega)
  obtain ⟨s₂, p₂, h₂, hp₂, hs₂⟩ := hs₁.copy w hF (reads_tail argv) (argc_tail w argv) (by omega)
    (by omega)
  obtain ⟨s₃, p₃, h₃, hp₃, hs₃⟩ := hs₂.copy w hF (reads_filename filename)
    (show (1 : ℤ).toNat = _ from rfl) (by omega) (by omega)
  unfold execScript
  rw [hline.parse, h₁]
  dsimp only
  rw [Option.bind_some]
  dsimp only
  rw [h₂, Option.bind_some]
  dsimp only
  rw [h₃, Option.bind_some]
  dsimp only
  cases harg : l.arg with
  | none =>
    rw [harg] at hfit hq
    have hnone : (blob (List.map (fun a => cstring a.2) (none : Option (UInt8 × List UInt8)).toList)).length
        = 0 := rfl
    obtain ⟨s₄, p₄, h₄, hp₄, hs₄⟩ := hs₃.copy w hF (reads_kernel (cstring l.base))
      (show (1 : ℤ).toNat = _ from rfl) (by omega) (by omega)
    rw [Option.map_none]
    dsimp only
    rw [Option.bind_some]
    dsimp only
    rw [h₄, Option.bind_some]
    dsimp only
    have hne : p₄ ≠ 0 := by omega
    refine ⟨s₄, p₄, ?_, execScript_start w hne _ _ argv envp hinterp hopen hvalid⟩
    rw [blob_append, blob_append, blob_append, List.append_assoc, List.append_assoc,
      List.append_assoc]
    rw [List.append_nil] at hs₄
    exact hs₄
  | some a =>
    rw [harg] at hfit hq
    have hsome : (blob (List.map (fun a => cstring a.2) (some a).toList)).length =
        (blob [cstring a.2]).length := rfl
    obtain ⟨s₄, p₄, h₄, hp₄, hs₄⟩ := hs₃.copy w hF (reads_kernel (cstring a.2))
      (show (1 : ℤ).toNat = _ from rfl) (by omega) (by omega)
    obtain ⟨s₅, p₅, h₅, hp₅, hs₅⟩ := hs₄.copy w hF (reads_kernel (cstring l.base))
      (show (1 : ℤ).toNat = _ from rfl) (by omega) (by omega)
    rw [Option.map_some]
    dsimp only
    rw [h₄, Option.map_some, Option.bind_some]
    dsimp only
    rw [h₅, Option.bind_some]
    dsimp only
    have hne : p₅ ≠ 0 := by omega
    refine ⟨s₅, p₅, ?_, execScript_start w hne _ _ argv envp hinterp hopen hvalid⟩
    rw [blob_append, blob_append, blob_append, List.append_assoc, List.append_assoc,
      List.append_assoc]
    rw [List.append_nil] at hs₅
    exact hs₅

theorem wordAt_cleared_le (i : ℕ) (m : Data) (a : ℕ) : wordAt (cleared i m) a ≤ wordAt m a := by
  have hbyte (x : ℕ) : (cleared i m x).toNat ≤ (m x).toNat := by
    by_cases hc : Cleared i x
    · rw [cleared_of hc]
      exact Nat.zero_le _
    · rw [cleared_of_not hc]
  have h0 := hbyte a
  have h1 := hbyte (a + 1)
  have h2 := hbyte (a + 2)
  have h3 := hbyte (a + 3)
  rw [wordAt_eq, wordAt_eq]
  omega

/-- A program that is told too few arguments does not find them all. -/
theorem start_short {F p n : ℕ} {args envs : List CString} {s : Pages}
    (hs : s.Ready F p (blob args ++ blob envs)) (hn : n + 1 = args.length) (f : File) (ex : Header) :
    ¬ ∃ program, start w f ex s p n envs.length = .started program ∧
      Stack program.mem program.sp args envs := by
  have hargs : (args.take n).length = n := List.length_take_of_le (by omega)
  have henvs : ((args.drop n ++ envs).take envs.length).length = envs.length := by
    refine List.length_take_of_le ?_
    rw [List.length_append]
    exact Nat.le_add_left _ _
  have hblob : blob args ++ blob envs = blob (args.take n) ++
      blob ((args.drop n ++ envs).take envs.length) ++
        blob ((args.drop n ++ envs).drop envs.length) := by
    rw [← blob_append, ← blob_append, ← blob_append, List.append_assoc, List.take_append_drop,
      ← List.append_assoc, List.take_append_drop]
  rw [hblob] at hs
  obtain ⟨m, hm, hlaid, -⟩ := tables_laid hs (w.data f)
  obtain ⟨hargc, -⟩ := hlaid.pieces
  rw [hargs, henvs] at hm
  rw [hargs] at hargc
  rintro ⟨program, hprogram, hstack⟩
  unfold start at hprogram
  dsimp only at hprogram
  rw [hm] at hprogram
  dsimp only at hprogram
  by_cases hin : ex.tail % 4096 = 0 ∨ ex.tail < DATA_LIMIT
  · rw [clearTail_eq hin] at hprogram
    cases hprogram
    have hle := wordAt_cleared_le ex.tail m (stackAt (p + DATA_LIMIT - MAX_ARG_PAGES * PAGE_SIZE)
      (args.take n) ((args.drop n ++ envs).take envs.length))
    have hcount := hstack.argc
    dsimp only at hcount
    omega
  · rw [clearTail_none (fun h => hin (.inl h)) (not_lt.mp fun h => hin (.inr h))] at hprogram
    cases hprogram

theorem doExecve_script (filename argv envp : ℕ) {f g : File} {b c : Block}
    (hfree : pagesFor (blob (l.arguments w filename argv) ++ blob (strings w.user envp)).length ≤
      w.free.length)
    (hname : w.namei (w.user.string filename).bytes = some f)
    (hopen : opened w f = .ok b) (hline : l.Begins b)
    (hinterp : w.namei (l.dir ++ l.base) = some g) (hopen' : opened w g = .ok c)
    (hvalid : (header c).Valid g.size)
    (hfit : (blob (l.arguments w filename argv) ++ blob (strings w.user envp)).length < TOP) :
    ∃ s p, s.Ready w.free.length p (blob (l.arguments w filename argv) ++ blob (strings w.user envp)) ∧
      doExecve w filename argv envp = some (s,
        start w g (header c) s p (l.argc w argv).toNat (strings w.user envp).length) := by
  obtain ⟨s, p, hs, hrun⟩ := execScript_run w l hfree hline hinterp hopen' hvalid hfit
  refine ⟨s, p, hs, ?_⟩
  unfold doExecve
  rw [hname]
  dsimp only
  rw [hopen]
  dsimp only
  rw [if_pos hline.shebang, hrun]

/-- The interpreter of a script finds its arguments exactly when the caller passes at least one, and
    the header does not clear them. -/
theorem script_arguments_iff (filename argv envp : ℕ) {f g : File} {b c : Block}
    (hfree : pagesFor (blob (l.arguments w filename argv) ++ blob (strings w.user envp)).length ≤
      w.free.length)
    (hname : w.namei (w.user.string filename).bytes = some f)
    (hopen : opened w f = .ok b) (hline : l.Begins b)
    (hinterp : w.namei (l.dir ++ l.base) = some g) (hopen' : opened w g = .ok c)
    (hvalid : (header c).Valid g.size)
    (hfit : (blob (l.arguments w filename argv) ++ blob (strings w.user envp)).length < TOP) :
    (∃ s program, doExecve w filename argv envp = some (s, .started program) ∧
        Stack program.mem program.sp (l.arguments w filename argv) (strings w.user envp)) ↔
      1 ≤ count w.user argv ∧ ((header c).tail % 4096 = 0 ∨ (header c).tail < DATA_LIMIT) ∧
        Clear (textAt (l.arguments w filename argv) (strings w.user envp)) (header c).tail
          (l.arguments w filename argv) (strings w.user envp) := by
  obtain ⟨s, p, hs, hrun⟩ :=
    doExecve_script w l filename argv envp hfree hname hopen hline hinterp hopen' hvalid hfit
  rw [started_iff w hrun]
  obtain ⟨hsome, hnone⟩ := l.argc_eq w filename argv
  by_cases hcount : 1 ≤ count w.user argv
  · rw [hsome hcount, start_iff w hs g (header c), and_iff_right hcount]
  · have hshort := start_short w hs (hnone (by omega)) g (header c)
    constructor
    · intro h
      exact absurd h hshort
    · intro h
      exact absurd h.1 hcount

end

/-! ### A script -/

theorem letter_path : ∀ c ∈ [] ++ [(105 : UInt8)], c ≠ 0 ∧ c ≠ 10 ∧ blank c = false := by
  intro c hc
  rw [List.nil_append, List.mem_singleton] at hc
  subst hc
  decide

theorem letter_slash : (47 : UInt8) ∉ [(105 : UInt8)] := by decide

/-- The interpreter is `i`. -/
def shortLine : Line where
  blanks := []
  dir := []
  base := [105]
  arg := none
  blanks_blank _ h := absurd h List.not_mem_nil
  dir_slash := .inl rfl
  base_slash := letter_slash
  path_ne := List.cons_ne_nil _ _
  path := letter_path
  arg_blank _ _ h := absurd h (Option.some_ne_none _).symm
  arg_line _ _ h := absurd h (Option.some_ne_none _).symm

/-- The files other than the interpreter are scripts for it. -/
def oneScript (user : Space) : World :=
  { oneFile user [0x0b, 0x01] with
    namei := fun name => if name = [105] then some (oneBlock [0x0b, 0x01])
      else some (oneBlock [35, 33, 105, 10]) }

theorem shortLine_begins : shortLine.Begins (firstBlock [35, 33, 105, 10]) := by
  refine ⟨by decide, by decide, ?_, rfl⟩
  intro k hk
  obtain rfl : k = 0 := Nat.lt_one_iff.mp hk
  rfl

/-- Without any argument the script is told that there is only the name of the interpreter. -/
theorem script_argument_lost :
    ¬ ∃ s program, doExecve (oneScript (oneArgument (letters 1))) 4096 0 0 =
        some (s, .started program) ∧
      Stack program.mem program.sp
        (shortLine.arguments (oneScript (oneArgument (letters 1))) 4096 0)
        (strings (oneArgument (letters 1)) 0) := by
  have hfit : (blob (shortLine.arguments (oneScript (oneArgument (letters 1))) 4096 0) ++
      blob (strings (oneScript (oneArgument (letters 1))).user 0)).length < TOP := by decide
  obtain ⟨s, p, hs, hrun⟩ := doExecve_script (oneScript (oneArgument (letters 1))) shortLine 4096 0 0
    (by decide) rfl (opened_oneBlock rfl [35, 33, 105, 10]) shortLine_begins rfl
    (opened_oneBlock rfl [0x0b, 0x01]) (by decide) hfit
  obtain ⟨-, hnone⟩ := shortLine.argc_eq (oneScript (oneArgument (letters 1))) 4096 0
  intro h
  exact start_short _ hs (hnone rfl) _ _ ((started_iff _ hrun).mp h)

/-- The line is ` /i a`. -/
def longLine : Line where
  blanks := [32]
  dir := [47]
  base := [105]
  arg := some (32, [97])
  blanks_blank c hc := by
    rw [List.mem_singleton.mp hc]
    decide
  dir_slash := .inr ⟨[], rfl⟩
  base_slash := letter_slash
  path_ne := List.cons_ne_nil _ _
  path c hc := by
    obtain rfl | hc := List.mem_cons.mp hc
    · decide
    · rw [List.mem_singleton.mp hc]
      decide
  arg_blank := by
    rintro c a h
    cases h
    decide
  arg_line := by
    rintro c a h x hx
    cases h
    rw [List.mem_singleton.mp hx]
    decide

def longScript (user : Space) : World :=
  { oneFile user [0x0b, 0x01] with
    namei := fun name => if name = [47, 105] then some (oneBlock [0x0b, 0x01])
      else some (oneBlock [35, 33, 32, 47, 105, 32, 97, 10]) }

theorem longLine_begins : longLine.Begins (firstBlock [35, 33, 32, 47, 105, 32, 97, 10]) :=
  ⟨by decide, by decide, by decide, rfl⟩

/-- The names of the interpreter and of the script, the argument between them, and what the caller
    passes. -/
theorem script_arguments_two :
    ∃ s program, doExecve (longScript twoArguments) 4096 256 512 = some (s, .started program) ∧
      Stack program.mem program.sp [cstring [105], cstring [97], letters 1, letters 2]
        [letters 3] := by
  obtain ⟨hargs, henvs⟩ := strings_twoArguments
  have hcount : 1 ≤ count twoArguments 256 := by
    rw [← length_strings, hargs]
    decide
  have hall : longLine.arguments (longScript twoArguments) 4096 256 =
      [cstring [105], cstring [97], letters 1, letters 2] := by
    unfold Line.arguments
    change _ ++ (strings twoArguments 256).tail = _
    rw [hargs]
    rfl
  have henvs' : strings (longScript twoArguments).user 512 = [letters 3] := henvs
  have h := script_arguments_iff (longScript twoArguments) longLine 4096 256 512
    (f := oneBlock [35, 33, 32, 47, 105, 32, 97, 10]) (g := oneBlock [0x0b, 0x01])
    (b := firstBlock [35, 33, 32, 47, 105, 32, 97, 10]) (c := firstBlock [0x0b, 0x01])
  rw [hall, henvs'] at h
  have hfit : (blob [cstring [105], cstring [97], letters 1, letters 2] ++
      blob [letters 3]).length < TOP := by decide
  obtain ⟨hlt, hclear⟩ := clear_of_le hfit
    (show (header (firstBlock [0x0b, 0x01])).text + (header (firstBlock [0x0b, 0x01])).data ≤ _ by
      decide)
  exact (h (by decide) rfl (opened_oneBlock rfl _) longLine_begins rfl (opened_oneBlock rfl _)
    (by decide) hfit).mpr ⟨hcount, .inr hlt, hclear⟩

end Linux011.Exec
