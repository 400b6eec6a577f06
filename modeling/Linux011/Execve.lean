import Linux011.ExecStack

set_option autoImplicit false

/-!
# Starting a program (fs/exec.c)

`do_execve` from the lookup of the file to the stack of the new program, with the interpreter of a
script. The page tables, the signals and the open files that it clears are left out, and so are the
releases of inodes and buffers.
-/
namespace Linux011.Exec
open Minix (Block)

inductive Errno where
  | ENOENT
  | ENOEXEC
  | EACCES
  | ENOMEM
  deriving DecidableEq

/-- The inode of a file, and its first block unless it cannot be read. -/
structure File where
  mode : ℕ
  uid : ℕ
  gid : ℕ
  size : ℕ
  block : Option Block

/-- The caller, the files by their names, what the segment of a program holds before its stack is put
    there, and the pages that `get_free_page` finds, which are different. -/
structure World where
  user : Space
  namei : List UInt8 → Option File
  euid : ℕ
  egid : ℕ
  data : File → Data
  stack : ℕ → ℕ
  mem : ℕ → ℕ → UInt8
  free : List ℕ+
  nodup : free.Nodup

/-- `struct exec` -/
structure Header where
  magic : ℕ
  text : ℕ
  data : ℕ
  bss : ℕ
  syms : ℕ
  entry : ℕ
  trsize : ℕ
  drsize : ℕ

def header (b : Block) : Header :=
  ⟨wordAt b 0, wordAt b 4, wordAt b 8, wordAt b 12, wordAt b 16, wordAt b 20, wordAt b 24, wordAt b 28⟩

def ZMAGIC : ℕ := 0o413

def BLOCK_SIZE : ℕ := 1024

/-- `N_TXTOFF` -/
def Header.txtoff (ex : Header) : ℕ := if ex.magic = ZMAGIC then 1024 else 32

/-- The header is accepted. The sums are unsigned. -/
def Header.Valid (ex : Header) (size : ℕ) : Prop :=
  ¬ (ex.magic ≠ ZMAGIC ∨ ex.trsize ≠ 0 ∨ ex.drsize ≠ 0 ∨
    (ex.text + ex.data + ex.bss) % 4294967296 > 0x3000000 ∨
    size < (ex.text + ex.data + ex.syms + ex.txtoff) % 4294967296) ∧
  ex.txtoff = BLOCK_SIZE

instance (ex : Header) (size : ℕ) : Decidable (ex.Valid size) := inferInstanceAs (Decidable (_ ∧ _))

/-- Where the bytes that are cleared begin. -/
def Header.tail (ex : Header) : ℕ := (ex.text + ex.data) % 4294967296

structure Program where
  mem : Data
  sp : ℕ
  entry : ℕ
  brk : ℕ
  startStack : ℕ
  euid : ℕ
  egid : ℕ

inductive Result where
  | error (e : Errno)
  | fault
  | started (program : Program)

section
variable (w : World)

def permits (f : File) : Prop :=
  let i := if w.euid = f.uid then f.mode >>> 6 else if w.egid = f.gid then f.mode >>> 3 else f.mode
  i &&& 1 ≠ 0 ∨ (f.mode &&& 0o111 ≠ 0 ∧ w.euid = 0)

instance (f : File) : Decidable (permits w f) := inferInstanceAs (Decidable (_ ∨ _))

/-- From `restart_interp` to `bread`. -/
def opened (f : File) : Except Errno Block :=
  if f.mode &&& 0o170000 ≠ 0o100000 then .error .EACCES
  else if ¬ permits w f then .error .ENOEXEC
  else match f.block with
    | none => .error .EACCES
    | some b => .ok b

/-- After the point of no return. -/
def start (f : File) (ex : Header) (s : Pages) (p argc envc : ℕ) : Result :=
  let p := p + DATA_LIMIT - MAX_ARG_PAGES * PAGE_SIZE
  match createTables p argc envc (changeLdt s (w.data f)) with
  | none => .fault
  | some (p, m) =>
    match clearTail ex.tail m with
    | none => .fault
    | some m => .started {
        mem := m, sp := p, entry := ex.entry
        brk := (ex.text + ex.data + ex.bss) % 4294967296
        startStack := p / 4096 * 4096
        euid := if f.mode &&& 0o4000 ≠ 0 then f.uid else w.euid
        egid := if f.mode &&& 0o2000 ≠ 0 then f.gid else w.egid }

/-- A file that is not a script. -/
def execBinary (f : File) (b : Block) (s : Pages) (p argc envc argv envp : ℕ) (shBang : Bool) :
    Option (Pages × Result) :=
  if ¬ (header b).Valid f.size then some (s, .error .ENOEXEC)
  else if shBang then some (s, start w f (header b) s p argc envc)
  else
    (copyStrings w.user envc (.user envp) s p 0).bind fun (s, p) =>
    (copyStrings w.user argc (.user argv) s p 0).bind fun (s, p) =>
    if p = 0 then some (s, .error .ENOMEM) else some (s, start w f (header b) s p argc envc)

/-- A blank or a tab. -/
def blank (c : UInt8) : Bool := c == 32 || c == 9

/-- `i_name = cp+1` at each slash. -/
def iName : List UInt8 → List UInt8 → List UInt8
  | [], name => name
  | c :: cp, name => iName cp (if c = 47 then cp else name)

theorem zero_notMem_takeWhile (bytes : List UInt8) : (0 : UInt8) ∉ bytes.takeWhile (· ≠ 0) := by
  intro h
  exact absurd (List.mem_takeWhile_imp h) (by decide)

/-- The string that begins with the bytes. -/
def cstring (bytes : List UInt8) : CString := ⟨bytes.takeWhile (· ≠ 0), zero_notMem_takeWhile bytes⟩

/-- The first line of a script: the interpreter, its name and its argument. -/
def parse (b : Block) : Option (List UInt8 × CString × Option CString) :=
  let buf := ((List.range 1022).map fun i => b (2 + i)).takeWhile (· ≠ 0)
  if (10 : UInt8) ∉ buf then none
  else
    let cp := (buf.takeWhile (· ≠ 10)).dropWhile blank
    if cp = [] then none
    else
      let interp := cp.takeWhile fun c => !blank c
      some (interp, cstring (iName interp interp),
        match cp.dropWhile fun c => !blank c with
        | [] => none
        | _ :: arg => some (cstring arg))

/-- `argc` is one less for the name of the caller, and one more for each string in its place. -/
def execScript (b : Block) (s : Pages) (p : ℕ) (argc : ℤ) (envc filename argv envp : ℕ) :
    Option (Pages × Result) :=
  match parse b with
  | none => some (s, .error .ENOEXEC)
  | some (interp, name, arg) =>
    (copyStrings w.user envc (.user envp) s p 0).bind fun (s, p) =>
    (copyStrings w.user (argc - 1) (.user (argv + 4)) s p 0).bind fun (s, p) =>
    (copyStrings w.user 1 (.single (.user filename)) s p 1).bind fun (s, p) =>
    (match arg with
      | none => some ((s, p), argc - 1 + 1)
      | some arg => (copyStrings w.user 1 (.single (.kernel arg)) s p 2).map
          fun sp => (sp, argc - 1 + 1 + 1)).bind fun ((s, p), argc) =>
    (copyStrings w.user 1 (.single (.kernel name)) s p 2).bind fun (s, p) =>
    let argc := argc + 1
    if p = 0 then some (s, .error .ENOMEM)
    else match w.namei interp with
      | none => some (s, .error .ENOENT)
      | some f => match opened w f with
        | .error e => some (s, .error e)
        -- `argc` is not negative any more
        | .ok b => execBinary w f b s p argc.toNat envc argv envp true

/-- `page` is cleared. -/
def World.pages : Pages where
  fs := .user
  page i := if i < MAX_ARG_PAGES then 0 else w.stack i
  free := w.free
  mem := w.mem
  calls := []

/-- `b_data[0] == '#' && b_data[1] == '!'` -/
def shebang (b : Block) : Prop := b 0 = 35 ∧ b 1 = 33

instance (b : Block) : Decidable (shebang b) := inferInstanceAs (Decidable (_ ∧ _))

def doExecve (filename argv envp : ℕ) : Option (Pages × Result) :=
  match w.namei (w.user.string filename).bytes with
  | none => some (w.pages, .error .ENOENT)
  | some f =>
    let argc := count w.user argv
    let envc := count w.user envp
    match opened w f with
    | .error e => some (w.pages, .error e)
    | .ok b =>
      if shebang b then execScript w b w.pages TOP argc envc filename argv envp
      else execBinary w f b w.pages TOP argc envc argv envp false

end

/-! ### What the calls copy -/

/-- The strings of an array of the caller. -/
def strings (u : Space) (argv : ℕ) : List CString :=
  (List.range (count u argv)).map fun i => u.string (u.long (argv + 4 * i))

theorem length_strings (u : Space) (argv : ℕ) : (strings u argv).length = count u argv := by
  unfold strings
  rw [List.length_map, List.length_range]

section
variable {u : Space}

theorem long_ne {argv i : ℕ} (h : i < count u argv) : u.long (argv + 4 * i) ≠ 0 := by
  unfold count at h
  split at h
  · exact absurd h (Nat.not_lt_zero i)
  · exact Nat.find_min (u.ends argv) h

theorem getElem_strings {argv i : ℕ} (h : i < (strings u argv).length) :
    (strings u argv)[i] = u.string (u.long (argv + 4 * i)) := by
  simp only [strings, List.getElem_map, List.getElem_range]

theorem getFsLong_user (argv i : ℕ) : getFsLong u .user (.user argv) i =
    if u.long (argv + 4 * i) = 0 then none else some (.user (u.long (argv + 4 * i))) := rfl

theorem reads_user (argv : ℕ) : Reads u 0 (.user argv) (strings u argv) := by
  intro i hi
  have hlt : i < count u argv := length_strings u argv ▸ hi
  refine ⟨.user (u.long (argv + 4 * i)), if_neg (long_ne hlt), ?_⟩
  rw [getElem_strings]
  rfl

/-- The array without its first pointer. -/
theorem reads_tail (argv : ℕ) : Reads u 0 (.user (argv + 4)) (strings u argv).tail := by
  intro i hi
  have hi' : i + 1 < (strings u argv).length := by
    rw [List.length_tail] at hi
    omega
  have hlt : i + 1 < count u argv := length_strings u argv ▸ hi'
  have hadd : argv + 4 + 4 * i = argv + 4 * (i + 1) := by omega
  refine ⟨.user (u.long (argv + 4 * (i + 1))), ?_, ?_⟩
  · show getFsLong u .user (.user (argv + 4)) i = _
    rw [getFsLong_user, hadd]
    exact if_neg (long_ne hlt)
  · rw [List.getElem_tail, getElem_strings]
    rfl

theorem reads_filename (filename : ℕ) :
    Reads u 1 (.single (.user filename)) [u.string filename] := by
  intro i hi
  obtain rfl : i = 0 := Nat.lt_one_iff.mp hi
  exact ⟨_, rfl, rfl⟩

theorem reads_kernel (s : CString) : Reads u 2 (.single (.kernel s)) [s] := by
  intro i hi
  obtain rfl : i = 0 := Nat.lt_one_iff.mp hi
  exact ⟨_, rfl, rfl⟩

end

/-- The strings of each call, in the order of the calls. -/
def World.copies (w : World) (filename argv envp : ℕ) : List (List CString) :=
  match w.namei (w.user.string filename).bytes with
  | none => []
  | some f => match opened w f with
    | .error _ => []
    | .ok b =>
      if shebang b then match parse b with
        | none => []
        | some (_, name, arg) =>
          [strings w.user envp, (strings w.user argv).tail, [w.user.string filename]] ++
            (arg.toList.map fun arg => [arg]) ++ [[name]]
      else if (header b).Valid f.size then [strings w.user envp, strings w.user argv]
      else []

/-- Every call begins with nothing left, or finds room for all that it copies. -/
def Fits : ℕ → List ℕ → Prop
  | _, [] => True
  | p, n :: sizes => p = 0 ∨ (n ≤ p ∧ Fits (p - n) sizes)

theorem fits_zero (sizes : List ℕ) : Fits 0 sizes := by
  cases sizes with
  | nil => trivial
  | cons n sizes => exact .inl rfl

/-- After the calls of the sizes `done`, of which `p` is what they leave. -/
structure Track (F p : ℕ) (done : List ℕ) (s : Pages) : Prop where
  fs : s.fs = .user
  cases : ((∀ c ∈ s.calls, c.InBounds) ∧
      (F < 32 ∧ p = 0 ∨ (∃ text, s.Ready F p text) ∧ ∀ rest, Fits TOP (done ++ rest) ↔ Fits p rest)) ∨
    ((∃ c ∈ s.calls, ¬ c.InBounds) ∧ 32 ≤ F ∧ ∀ rest, ¬ Fits TOP (done ++ rest))

theorem Track.iff {F p : ℕ} {done : List ℕ} {s : Pages} (h : Track F p done s) :
    (∀ c ∈ s.calls, c.InBounds) ↔ F < 32 ∨ Fits TOP done := by
  rcases h.cases with ⟨hall, hshort | ⟨-, hfits⟩⟩ | ⟨⟨c, hc, hout⟩, hF, hfits⟩
  · exact ⟨fun _ => .inl hshort.1, fun _ => hall⟩
  · have hnil := hfits []
    rw [List.append_nil] at hnil
    exact ⟨fun _ => .inr (hnil.mpr trivial), fun _ => hall⟩
  · have hnil := hfits []
    rw [List.append_nil] at hnil
    constructor
    · intro hall
      exact absurd (hall c hc) hout
    · rintro (hlt | hfit)
      · omega
      · exact absurd hfit hnil

theorem forall_calls {calls : List Call} {call : Call} (h : ∀ c ∈ calls, c.InBounds)
    (hcall : call.InBounds) : ∀ c ∈ calls ++ [call], c.InBounds := by
  intro c hc
  rcases List.mem_append.mp hc with hc | hc
  · exact h c hc
  · rw [List.mem_singleton.mp hc]
    exact hcall

section
variable {u : Space} {fromKmem : ℕ} {argv : Vector} {strs : List CString} {argc : ℤ}

/-- One more call. -/
theorem Track.call {F p : ℕ} {done : List ℕ} {s : Pages} (h : Track F p done s)
    (hreads : Reads u fromKmem argv strs) (hargc : argc.toNat = strs.length) :
    ∃ s' r, copyStrings u argc argv s p fromKmem = some (s', r) ∧
      Track F r (done ++ [(blob strs).length]) s' := by
  rcases h.cases with ⟨hall, hcase⟩ | ⟨⟨c, hc, hout⟩, hF, hfits⟩
  · by_cases hp : p = 0
    · subst hp
      have hall' := forall_calls hall inBounds_zero
      refine ⟨_, _, copyStrings_zero argc s, h.fs, .inl ⟨hall', ?_⟩⟩
      rcases hcase with hshort | ⟨⟨text, hready⟩, hfits⟩
      · exact .inl hshort
      · refine .inr ⟨⟨text, hready.mapped.segment, hready.text.segment, h.fs⟩, ?_⟩
        intro rest
        rw [List.append_assoc, hfits]
        exact ⟨fun _ => fits_zero _, fun _ => .inl rfl⟩
    · rcases hcase with hshort | ⟨⟨text, hready⟩, hfits⟩
      · exact absurd hshort.2 hp
      · obtain ⟨s', r, call, hr, hfs, hcalls, hcases⟩ :=
          copyStrings_spec hreads hargc hready (Nat.pos_of_ne_zero hp)
        refine ⟨s', r, hr, hfs, ?_⟩
        rw [hcalls]
        rcases hcases with ⟨hin, hsum, hready'⟩ | ⟨hF, hin, hzero⟩ | ⟨hlt, hF, hnot⟩
        · refine .inl ⟨forall_calls hall hin, .inr ⟨⟨_, hready'⟩, ?_⟩⟩
          intro rest
          rw [List.append_assoc, hfits]
          have hsub : p - (blob strs).length = r := by omega
          show p = 0 ∨ _ ↔ _
          rw [hsub]
          constructor
          · intro hfit
            exact (hfit.resolve_left hp).2
          · intro hfit
            exact .inr ⟨by omega, hfit⟩
        · exact .inl ⟨forall_calls hall hin, .inl ⟨by omega, hzero⟩⟩
        · refine .inr ⟨⟨call, List.mem_append_right _ (List.mem_singleton_self _), hnot⟩, hF, ?_⟩
          intro rest
          rw [List.append_assoc, hfits]
          rintro (hzero | ⟨hle, -⟩)
          · exact hp hzero
          · omega
  · obtain ⟨s', r, call, hr, hfs, hcalls⟩ := copyStrings_some hreads hargc h.fs p
    refine ⟨s', r, hr, hfs, .inr ⟨⟨c, ?_, hout⟩, hF, ?_⟩⟩
    · rw [hcalls]
      exact List.mem_append_left _ hc
    · intro rest
      rw [List.append_assoc]
      exact hfits _

end

/-! ### All calls of one start -/

section
variable (w : World)

theorem pages_ready : w.pages.Ready w.free.length TOP [] := by
  have hlow : lowest TOP = 32 := if_neg (lt_irrefl _)
  have hpage : ∀ i < 32, w.pages.page i = 0 := fun i hi => if_pos hi
  refine ⟨⟨?_, ?_, ?_, ?_, w.nodup⟩, ⟨rfl, fun k hk => absurd hk (Nat.not_lt_zero k)⟩, rfl⟩
  · intro i hi
    rw [hlow]
    exact ⟨fun hne => absurd (hpage i hi) hne, fun hle => absurd hi (not_lt.mpr hle)⟩
  · rw [hlow]
    rfl
  · intro i hi j _ _ hne
    exact absurd (hpage i hi) hne
  · intro i hi f _
    rw [hpage i hi]
    exact f.ne_zero.symm

theorem pages_track : Track w.free.length TOP [] w.pages := by
  refine ⟨rfl, .inl ⟨fun c hc => absurd hc List.not_mem_nil, .inr ⟨⟨_, pages_ready w⟩, ?_⟩⟩⟩
  intro rest
  rfl

theorem argc_tail (argv : ℕ) :
    ((count w.user argv : ℤ) - 1).toNat = (strings w.user argv).tail.length := by
  rw [List.length_tail, length_strings]
  omega

/-- The sizes of the strings of each call. -/
def sizes (copies : List (List CString)) : List ℕ := copies.map fun strs => (blob strs).length

theorem execBinary_track {F : ℕ} {s : Pages} {p : ℕ} {done : List ℕ} (h : Track F p done s)
    (f : File) (b : Block) (argv envp : ℕ) :
    ∃ s' r p', execBinary w f b s p (count w.user argv) (count w.user envp) argv envp false =
        some (s', r) ∧
      Track F p' (done ++ sizes (if (header b).Valid f.size then
        [strings w.user envp, strings w.user argv] else [])) s' := by
  unfold execBinary
  by_cases hv : (header b).Valid f.size
  · rw [if_neg (not_not.mpr hv), if_neg Bool.false_ne_true, if_pos hv]
    obtain ⟨s₁, p₁, h₁, ht₁⟩ := h.call (reads_user envp)
      (show ((count w.user envp : ℕ) : ℤ).toNat = _ from (length_strings w.user envp).symm)
    obtain ⟨s₂, p₂, h₂, ht₂⟩ := ht₁.call (reads_user argv)
      (show ((count w.user argv : ℕ) : ℤ).toNat = _ from (length_strings w.user argv).symm)
    rw [h₁, Option.bind_some]
    dsimp only
    rw [h₂, Option.bind_some]
    dsimp only
    rw [List.append_assoc] at ht₂
    split
    · exact ⟨_, _, p₂, rfl, ht₂⟩
    · exact ⟨_, _, p₂, rfl, ht₂⟩
  · rw [if_pos hv, if_neg hv]
    refine ⟨_, _, p, rfl, ?_⟩
    show Track F p (done ++ []) s
    rw [List.append_nil]
    exact h

/-- With the interpreter nothing more is copied. -/
theorem execBinary_interpreter (f : File) (b : Block) (s : Pages) (p argc envc argv envp : ℕ) :
    ∃ r, execBinary w f b s p argc envc argv envp true = some (s, r) := by
  unfold execBinary
  split
  · exact ⟨_, rfl⟩
  · exact ⟨_, rfl⟩

theorem execScript_end (interp : List UInt8) (s : Pages) (p : ℕ) (argc : ℤ) (envc argv envp : ℕ) :
    ∃ r, (if p = 0 then some (s, Result.error .ENOMEM)
      else match w.namei interp with
      | none => some (s, .error .ENOENT)
      | some f => match opened w f with
        | .error e => some (s, .error e)
        | .ok b => execBinary w f b s p argc.toNat envc argv envp true) = some (s, r) := by
  split
  · exact ⟨_, rfl⟩
  · split
    · exact ⟨_, rfl⟩
    · split
      · exact ⟨_, rfl⟩
      · exact execBinary_interpreter w _ _ s p _ envc argv envp

theorem execScript_track {F : ℕ} {s : Pages} {p : ℕ} {done : List ℕ} (h : Track F p done s)
    (b : Block) (filename argv envp : ℕ) :
    ∃ s' r p', execScript w b s p (count w.user argv) (count w.user envp) filename argv envp =
        some (s', r) ∧
      Track F p' (done ++ sizes (match parse b with
        | none => []
        | some (_, name, arg) =>
          [strings w.user envp, (strings w.user argv).tail, [w.user.string filename]] ++
            (arg.toList.map fun arg => [arg]) ++ [[name]])) s' := by
  unfold execScript
  cases hparse : parse b with
  | none =>
    refine ⟨_, _, p, rfl, ?_⟩
    show Track F p (done ++ []) s
    rw [List.append_nil]
    exact h
  | some line =>
    obtain ⟨interp, name, arg⟩ := line
    dsimp only
    obtain ⟨s₁, p₁, h₁, ht₁⟩ := h.call (reads_user envp)
      (show ((count w.user envp : ℕ) : ℤ).toNat = _ from (length_strings w.user envp).symm)
    obtain ⟨s₂, p₂, h₂, ht₂⟩ := ht₁.call (reads_tail argv) (argc_tail w argv)
    obtain ⟨s₃, p₃, h₃, ht₃⟩ := ht₂.call (reads_filename filename) (show (1 : ℤ).toNat = _ from rfl)
    rw [h₁, Option.bind_some]
    dsimp only
    rw [h₂, Option.bind_some]
    dsimp only
    rw [h₃, Option.bind_some]
    dsimp only
    cases arg with
    | none =>
      obtain ⟨s₄, p₄, h₄, ht₄⟩ := ht₃.call (reads_kernel (u := w.user) name) (show (1 : ℤ).toNat = _ from rfl)
      obtain ⟨r, hr⟩ := execScript_end w interp s₄ p₄ ((count w.user argv : ℤ) - 1 + 1 + 1)
        (count w.user envp) argv envp
      rw [Option.bind_some]
      dsimp only
      rw [h₄, Option.bind_some]
      dsimp only
      rw [List.append_assoc, List.append_assoc, List.append_assoc] at ht₄
      exact ⟨s₄, r, p₄, hr, ht₄⟩
    | some arg =>
      obtain ⟨s₄, p₄, h₄, ht₄⟩ := ht₃.call (reads_kernel (u := w.user) arg) (show (1 : ℤ).toNat = _ from rfl)
      obtain ⟨s₅, p₅, h₅, ht₅⟩ := ht₄.call (reads_kernel (u := w.user) name) (show (1 : ℤ).toNat = _ from rfl)
      obtain ⟨r, hr⟩ := execScript_end w interp s₅ p₅ ((count w.user argv : ℤ) - 1 + 1 + 1 + 1)
        (count w.user envp) argv envp
      dsimp only
      rw [h₄, Option.map_some, Option.bind_some]
      dsimp only
      rw [h₅, Option.bind_some]
      dsimp only
      rw [List.append_assoc, List.append_assoc, List.append_assoc, List.append_assoc] at ht₅
      exact ⟨s₅, r, p₅, hr, ht₅⟩

/-- All the accesses of the copying are within bounds exactly when there are too few pages to copy too
    much, or each call finds room for its strings. -/
theorem copies_in_bounds_iff (filename argv envp : ℕ) :
    ∃ s r, doExecve w filename argv envp = some (s, r) ∧
      ((∀ c ∈ s.calls, c.InBounds) ↔
        w.free.length < 32 ∨ Fits TOP (sizes (w.copies filename argv envp))) := by
  have hzero : w.free.length < 32 ∨ Fits TOP (sizes []) := .inr trivial
  have hnone : ∀ r : Result, ∃ s r', some (w.pages, r) = some (s, r') ∧ ((∀ c ∈ s.calls, c.InBounds) ↔
      w.free.length < 32 ∨ Fits TOP (sizes [])) := by
    intro r
    exact ⟨_, _, rfl, fun _ => hzero, fun _ c hc => absurd hc List.not_mem_nil⟩
  unfold doExecve World.copies
  cases hname : w.namei (w.user.string filename).bytes with
  | none => exact hnone _
  | some f =>
    dsimp only
    cases hopen : opened w f with
    | error e => exact hnone _
    | ok b =>
      dsimp only
      by_cases hscript : shebang b
      · rw [if_pos hscript, if_pos hscript]
        obtain ⟨s, r, p, hs, ht⟩ := execScript_track w (pages_track w) b filename argv envp
        rw [List.nil_append] at ht
        exact ⟨s, r, hs, ht.iff⟩
      · rw [if_neg hscript, if_neg hscript]
        obtain ⟨s, r, p, hs, ht⟩ := execBinary_track w (pages_track w) f b argv envp
        rw [List.nil_append] at ht
        exact ⟨s, r, hs, ht.iff⟩

/-! ### The new program -/

/-- The copying when there are pages enough down to `q` and the strings fit. -/
theorem Pages.Ready.copy {F p q : ℕ} {text : List UInt8} {s : Pages} (h : s.Ready F p text)
    (hF : 32 ≤ F + lowest q) {fromKmem : ℕ} {argv : Vector} {strs : List CString}
    (hreads : Reads w.user fromKmem argv strs) {argc : ℤ} (hargc : argc.toNat = strs.length)
    (hq : q + (blob strs).length ≤ p) (hfit : (blob strs).length < p) :
    ∃ s' r, copyStrings w.user argc argv s p fromKmem = some (s', r) ∧
      r + (blob strs).length = p ∧ s'.Ready F r (blob strs ++ text) := by
  obtain ⟨s', r, call, hr, -, -, hcases⟩ := copyStrings_spec hreads hargc h (Nat.zero_lt_of_lt hfit)
  rcases hcases with ⟨-, hsum, hready⟩ | ⟨hlt, -⟩ | ⟨hlt, -⟩
  · exact ⟨s', r, hr, hsum, hready⟩
  · have hlow : lowest q ≤ lowest (p - (blob strs).length) := lowest_mono (Nat.le_sub_of_add_le hq)
    omega
  · exact absurd hfit (not_lt.mpr hlt.le)

/-- Where the strings of a program begin. -/
def textAt (args envs : List CString) : ℕ := DATA_LIMIT - 4 - (blob args ++ blob envs).length

/-- `create_tables` for the strings that have been copied, of which more may follow. -/
theorem tables_laid {F p : ℕ} {args envs : List CString} {rest : List UInt8} {s : Pages}
    (hs : s.Ready F p (blob args ++ blob envs ++ rest)) (m : Data) :
    ∃ m', createTables (p + DATA_LIMIT - MAX_ARG_PAGES * PAGE_SIZE) args.length envs.length
        (changeLdt s m) =
          some (stackAt (p + DATA_LIMIT - MAX_ARG_PAGES * PAGE_SIZE) args envs, m') ∧
      Laid m' (p + DATA_LIMIT - MAX_ARG_PAGES * PAGE_SIZE) args envs ∧
      Room (p + DATA_LIMIT - MAX_ARG_PAGES * PAGE_SIZE) args envs := by
  have hp : p + DATA_LIMIT - MAX_ARG_PAGES * PAGE_SIZE = p + (DATA_LIMIT - 131072) :=
    Nat.add_sub_assoc (by decide) p
  have hheld := changeLdt_holds hs.mapped hs.text m
  rw [holds_append] at hheld
  have hlen := hs.text.length
  rw [TOP_eq, List.length_append] at hlen
  have hargs := length_le_blob args
  have henvs := length_le_blob envs
  have hlimit : DATA_LIMIT = 67108864 := rfl
  rw [hp]
  have hsplit : (blob args ++ blob envs).length = (blob args).length + (blob envs).length :=
    List.length_append
  obtain ⟨m', hm', hwords, hout⟩ := createTables_eq hheld.1 (by omega) (by omega)
  exact ⟨m', hm', ⟨hwords, hheld.1.congr fun a ha _ => hout a ha⟩, by omega, by omega⟩

/-- The program finds its arguments exactly when no page beyond the segment is cleared, and nothing
    but zeros of the stack. -/
theorem start_iff {F p : ℕ} {args envs : List CString} {s : Pages}
    (hs : s.Ready F p (blob args ++ blob envs)) (f : File) (ex : Header) :
    (∃ program, start w f ex s p args.length envs.length = .started program ∧
        Stack program.mem program.sp args envs) ↔
      (ex.tail % 4096 = 0 ∨ ex.tail < DATA_LIMIT) ∧ Clear (textAt args envs) ex.tail args envs := by
  have htext : p + DATA_LIMIT - MAX_ARG_PAGES * PAGE_SIZE = textAt args envs := by
    have hlen := hs.text.length
    have hpages : MAX_ARG_PAGES * PAGE_SIZE = 131072 := rfl
    have hlimit : DATA_LIMIT = 67108864 := rfl
    rw [TOP_eq] at hlen
    unfold textAt
    omega
  rw [← List.append_nil (blob args ++ blob envs)] at hs
  obtain ⟨m, hm, hlaid, hroom⟩ := tables_laid hs (w.data f)
  unfold start
  dsimp only
  rw [hm]
  dsimp only
  rw [htext] at hlaid hroom ⊢
  by_cases hin : ex.tail % 4096 = 0 ∨ ex.tail < DATA_LIMIT
  · rw [clearTail_eq hin, and_iff_right hin, ← stack_cleared_iff hlaid hroom]
    constructor
    · rintro ⟨program, hprogram, hstack⟩
      cases hprogram
      exact hstack
    · intro hstack
      exact ⟨_, rfl, hstack⟩
  · have hnone := clearTail_none (fun h => hin (.inl h)) (not_lt.mp fun h => hin (.inr h)) m
    rw [hnone]
    constructor
    · rintro ⟨program, hprogram, -⟩
      cases hprogram
    · intro h
      exact absurd h.1 hin

/-- What is known of the only result. -/
theorem started_iff {filename argv envp : ℕ} {s : Pages} {r : Result}
    {args envs : List CString} (hrun : doExecve w filename argv envp = some (s, r)) :
    (∃ s' program, doExecve w filename argv envp = some (s', .started program) ∧
        Stack program.mem program.sp args envs) ↔
      ∃ program, r = .started program ∧ Stack program.mem program.sp args envs := by
  rw [hrun]
  constructor
  · rintro ⟨s', program, hs', hstack⟩
    rw [Option.some_inj, Prod.mk.injEq] at hs'
    exact ⟨program, hs'.2, hstack⟩
  · rintro ⟨program, hprogram, hstack⟩
    rw [hprogram]
    exact ⟨_, _, rfl, hstack⟩

/-- A binary is started when the strings fit. -/
theorem doExecve_binary (filename argv envp : ℕ) {f : File} {b : Block}
    (hfree : pagesFor (blob (strings w.user argv) ++ blob (strings w.user envp)).length ≤ w.free.length)
    (hname : w.namei (w.user.string filename).bytes = some f) (hopen : opened w f = .ok b)
    (hbinary : ¬ shebang b) (hvalid : (header b).Valid f.size)
    (hfit : (blob (strings w.user argv) ++ blob (strings w.user envp)).length < TOP) :
    ∃ s p, s.Ready w.free.length p (blob (strings w.user argv) ++ blob (strings w.user envp)) ∧
      doExecve w filename argv envp = some (s, start w f (header b) s p
        (strings w.user argv).length (strings w.user envp).length) := by
  obtain ⟨q, hq, hF⟩ := exists_bottom hfree hfit
  rw [List.length_append] at hfit hq
  obtain ⟨s₁, p₁, h₁, hp₁, hs₁⟩ := (pages_ready w).copy w hF (reads_user envp)
    (show ((count w.user envp : ℕ) : ℤ).toNat = _ from (length_strings w.user envp).symm) (by omega)
    (by omega)
  obtain ⟨s₂, p₂, h₂, hp₂, hs₂⟩ := hs₁.copy w hF (reads_user argv)
    (show ((count w.user argv : ℕ) : ℤ).toNat = _ from (length_strings w.user argv).symm) (by omega)
    (by omega)
  rw [List.append_nil] at hs₂
  refine ⟨s₂, p₂, hs₂, ?_⟩
  unfold doExecve
  rw [hname]
  dsimp only
  rw [hopen]
  dsimp only
  rw [if_neg hbinary]
  unfold execBinary
  rw [if_neg (not_not.mpr hvalid), if_neg Bool.false_ne_true, h₁, Option.bind_some]
  dsimp only
  rw [h₂, Option.bind_some]
  dsimp only
  rw [if_neg (by omega), length_strings, length_strings]

/-- The arguments of a binary come to its stack exactly when the sums of the sizes in its header have
    not wrapped so far that they are cleared. -/
theorem arguments_passed_iff (filename argv envp : ℕ) {f : File} {b : Block}
    (hfree : pagesFor (blob (strings w.user argv) ++ blob (strings w.user envp)).length ≤ w.free.length)
    (hname : w.namei (w.user.string filename).bytes = some f)
    (hopen : opened w f = .ok b) (hbinary : ¬ shebang b) (hvalid : (header b).Valid f.size)
    (hfit : (blob (strings w.user argv) ++ blob (strings w.user envp)).length < TOP) :
    (∃ s program, doExecve w filename argv envp = some (s, .started program) ∧
        Stack program.mem program.sp (strings w.user argv) (strings w.user envp)) ↔
      ((header b).tail % 4096 = 0 ∨ (header b).tail < DATA_LIMIT) ∧
        Clear (textAt (strings w.user argv) (strings w.user envp)) (header b).tail
          (strings w.user argv) (strings w.user envp) := by
  obtain ⟨s, p, hs, hrun⟩ :=
    doExecve_binary w filename argv envp hfree hname hopen hbinary hvalid hfit
  rw [started_iff w hrun, start_iff w hs f (header b)]

end

/-- The sizes of a program that is not larger than the limit leave the stack alone. -/
theorem clear_of_le {args envs : List CString} (hfit : (blob args ++ blob envs).length < TOP)
    {ex : Header} (hsize : ex.text + ex.data ≤ 0x3000000) :
    ex.tail < DATA_LIMIT ∧ Clear (textAt args envs) ex.tail args envs := by
  have hlimit : DATA_LIMIT = 67108864 := rfl
  have htail : ex.tail ≤ 0x3000000 := le_trans (Nat.mod_le _ _) hsize
  have hargs := length_le_blob args
  have henvs := length_le_blob envs
  have hsplit : (blob args ++ blob envs).length = (blob args).length + (blob envs).length :=
    List.length_append
  rw [TOP_eq] at hfit
  have htext : 66977792 ≤ textAt args envs := by
    unfold textAt
    omega
  have hstack : 50335744 ≤ stackAt (textAt args envs) args envs := by
    unfold stackAt
    omega
  refine ⟨by omega, ?_, ?_⟩
  · intro k _ j _ hc
    obtain ⟨-, -, hpage⟩ := hc
    omega
  · intro k _ hc
    obtain ⟨-, -, hpage⟩ := hc
    omega

/-! ### Some programs -/

/-- An array of one pointer. -/
theorem one_pointer_ends (a : ℕ) : ∃ n, (if a + 4 * n = 256 then 4096 else 0) = 0 := by
  by_cases h : a = 256
  · exact ⟨1, if_neg (by omega)⟩
  · exact ⟨0, if_neg h⟩

/-- A caller with one argument, and no environment at 0. -/
def oneArgument (s : CString) : Space where
  long a := if a = 256 then 4096 else 0
  string _ := s
  ends := one_pointer_ends

theorem strings_oneArgument (s : CString) : strings (oneArgument s) 256 = [s] := by
  have hcount : count (oneArgument s) 256 = 1 := by
    refine (Nat.find_eq_iff _).mpr ⟨rfl, ?_⟩
    intro n hn
    obtain rfl := Nat.lt_one_iff.mp hn
    exact fun h => absurd (show 4096 = 0 from h) (by decide)
  unfold strings
  rw [hcount]
  rfl

/-- The first block of a file. -/
def firstBlock (bytes : List UInt8) : Block := fun i => bytes.getD i 0

def oneBlock (bytes : List UInt8) : File := ⟨0o100755, 0, 0, 1024, some (firstBlock bytes)⟩

/-- Every name is that of one file, for which there are as many pages as it may need. -/
def oneFile (user : Space) (bytes : List UInt8) : World where
  user := user
  namei _ := some (oneBlock bytes)
  euid := 0
  egid := 0
  data _ _ := 0
  stack _ := 0
  mem _ _ := 0
  free := (List.range 32).map Nat.succPNat
  nodup := List.Nodup.map Nat.succPNat_injective List.nodup_range

/-- The superuser may start it. -/
theorem opened_oneBlock {w : World} (h : w.euid = 0) (bytes : List UInt8) :
    opened w (oneBlock bytes) = .ok (firstBlock bytes) := by
  have hpermits : permits w (oneBlock bytes) := by
    left
    have huid : w.euid = (oneBlock bytes).uid := h
    rw [if_pos huid]
    show (0o100755 >>> 6) &&& 1 ≠ 0
    decide
  have hregular : ¬ ((oneBlock bytes).mode &&& 0o170000 ≠ 0o100000) := by
    show ¬ (0o100755 &&& 0o170000 ≠ 0o100000)
    decide
  unfold opened
  rw [if_neg hregular, if_neg (not_not.mpr hpermits)]
  rfl

theorem zero_notMem_replicate (n : ℕ) : (0 : UInt8) ∉ List.replicate n 97 := by
  intro h
  exact absurd (List.eq_of_mem_replicate h) (by decide)

def letters (n : ℕ) : CString := ⟨List.replicate n 97, zero_notMem_replicate n⟩

theorem length_letters (n : ℕ) : (blob [letters n]).length = n + 1 := by
  rw [blob, List.flatMap_singleton, CString.stored, letters, List.length_append,
    List.length_replicate]
  rfl

/-- An argument of 128 KB. -/
theorem copies_out_of_bounds : ∃ s r call,
    doExecve (oneFile (oneArgument (letters 131068)) [0x0b, 0x01]) 4096 256 0 = some (s, r) ∧
      call ∈ s.calls ∧ ¬ call.InBounds := by
  obtain ⟨s, r, p, hs, ht⟩ := execBinary_track _
    (pages_track (oneFile (oneArgument (letters 131068)) [0x0b, 0x01])) (oneBlock [0x0b, 0x01])
    (firstBlock [0x0b, 0x01]) 256 0
  have hvalid : (header (firstBlock [0x0b, 0x01])).Valid (oneBlock [0x0b, 0x01]).size := by decide
  have hargs : strings (oneFile (oneArgument (letters 131068)) [0x0b, 0x01]).user 256 =
      [letters 131068] := strings_oneArgument _
  have henvs : strings (oneFile (oneArgument (letters 131068)) [0x0b, 0x01]).user 0 = [] := rfl
  rw [if_pos hvalid, hargs, henvs] at ht
  have hsize : sizes [[], [letters 131068]] = [0, 131069] := by
    unfold sizes
    rw [List.map_cons, List.map_singleton, length_letters]
    rfl
  rw [List.nil_append, hsize] at ht
  have hnot : ¬ ∀ c ∈ s.calls, c.InBounds := by
    rw [ht.iff]
    rintro (hlt | hfit)
    · exact absurd hlt (by decide)
    · have hrest := (hfit.resolve_left (by decide)).2
      exact absurd (hrest.resolve_left (by decide)).1 (by decide)
  push Not at hnot
  obtain ⟨call, hcall, hout⟩ := hnot
  refine ⟨s, r, call, ?_, hcall, hout⟩
  rw [← hs]
  rfl

/-- A header whose sums wrap. -/
def wrapped : List UInt8 :=
  [0x0b, 0x01, 0, 0, 0x01, 0xf0, 0xff, 0x03, 0, 0, 0, 0, 0xff, 0x0f, 0x00, 0xfc, 0xff, 0x0b, 0x00, 0xfc]

/-- The page with the arguments is cleared. -/
theorem arguments_cleared :
    ¬ ∃ s program, doExecve (oneFile (oneArgument (letters 1)) wrapped) 4096 256 0 =
        some (s, .started program) ∧
      Stack program.mem program.sp (strings (oneArgument (letters 1)) 256)
        (strings (oneArgument (letters 1)) 0) := by
  have hargs : strings (oneFile (oneArgument (letters 1)) wrapped).user 256 = [letters 1] :=
    strings_oneArgument _
  have henvs : strings (oneFile (oneArgument (letters 1)) wrapped).user 0 = [] := rfl
  obtain ⟨s, p, hs, hrun⟩ := doExecve_binary (oneFile (oneArgument (letters 1)) wrapped)
    4096 256 0 (by rw [hargs, henvs]; decide) rfl (opened_oneBlock rfl wrapped) (by decide) (by decide)
    (by rw [hargs, henvs]; decide)
  rw [hargs, henvs] at hs hrun
  rintro ⟨s', program, hs', hstack⟩
  rw [hrun, Option.some_inj, Prod.mk.injEq] at hs'
  have hargs' : strings (oneArgument (letters 1)) 256 = [letters 1] := strings_oneArgument _
  have henvs' : strings (oneArgument (letters 1)) 0 = [] := rfl
  rw [hargs', henvs'] at hstack
  obtain ⟨-, hclear⟩ := (start_iff _ hs (oneBlock wrapped) (header (firstBlock wrapped))).mp
    ⟨program, hs'.2, hstack⟩
  exact absurd (hclear.words 0 (by decide) 0 (by decide) (by decide)) (by decide)

/-- A caller with two arguments, from 256 on, and one string in its environment, at 512. -/
def twoArguments : Space where
  long a := if a = 256 then 4096 else if a = 260 then 8192 else if a = 512 then 12288 else 0
  string a := letters (a / 4096)
  ends a := ⟨512, by rw [if_neg (by omega), if_neg (by omega), if_neg (by omega)]⟩

theorem strings_twoArguments : strings twoArguments 256 = [letters 1, letters 2] ∧
    strings twoArguments 512 = [letters 3] := by
  have hargs : count twoArguments 256 = 2 := by
    refine (Nat.find_eq_iff _).mpr ⟨rfl, fun n hn => ?_⟩
    obtain rfl | rfl : n = 0 ∨ n = 1 := by omega
    · exact fun h => absurd (show 4096 = 0 from h) (by decide)
    · exact fun h => absurd (show 8192 = 0 from h) (by decide)
  have henvs : count twoArguments 512 = 1 := by
    refine (Nat.find_eq_iff _).mpr ⟨rfl, fun n hn => ?_⟩
    obtain rfl := Nat.lt_one_iff.mp hn
    exact fun h => absurd (show 12288 = 0 from h) (by decide)
  unfold strings
  rw [hargs, henvs]
  exact ⟨rfl, rfl⟩

/-- A program without data is given its arguments and its environment. -/
theorem arguments_passed_two :
    ∃ s program, doExecve (oneFile twoArguments [0x0b, 0x01]) 4096 256 512 =
        some (s, .started program) ∧
      Stack program.mem program.sp [letters 1, letters 2] [letters 3] := by
  have hargs : strings (oneFile twoArguments [0x0b, 0x01]).user 256 = [letters 1, letters 2] :=
    strings_twoArguments.1
  have henvs : strings (oneFile twoArguments [0x0b, 0x01]).user 512 = [letters 3] :=
    strings_twoArguments.2
  have h := arguments_passed_iff (oneFile twoArguments [0x0b, 0x01]) 4096 256 512
    (f := oneBlock [0x0b, 0x01]) (b := firstBlock [0x0b, 0x01])
  rw [hargs, henvs] at h
  have hfit : (blob [letters 1, letters 2] ++ blob [letters 3]).length < TOP := by decide
  obtain ⟨hlt, hclear⟩ := clear_of_le hfit
    (show (header (firstBlock [0x0b, 0x01])).text + (header (firstBlock [0x0b, 0x01])).data ≤ _ by
      decide)
  exact (h (by decide) rfl (opened_oneBlock rfl _) (by decide) (by decide) hfit).mpr
    ⟨.inr hlt, hclear⟩

end Linux011.Exec
