import Linux011.ExecStrings
import Linux011.FsTrees

set_option autoImplicit false

/-!
# The stack of a new program (fs/exec.c)

`change_ldt` puts the pages of the strings at the end of the new data segment, and `create_tables`
writes the tables of pointers below the strings.
-/
namespace Linux011.Exec
open Minix (byteOf byteOf_toNat long long_eq)

/-- The new data segment. -/
abbrev Data : Type := ℕ → UInt8

/-- The limit of the data segment. -/
def DATA_LIMIT : ℕ := 0x4000000

def putPage (content : Data) (address : ℕ) (m : Data) : Data :=
  fun a => if address ≤ a ∧ a < address + PAGE_SIZE then content (a - address) else m a

/-- The loop of `change_ldt`. -/
def putPages (s : Pages) : ℕ → ℕ → Data → Data
  | 0, _, m => m
  | i + 1, base, m =>
    let base := base - PAGE_SIZE
    putPages s i base (if s.page i ≠ 0 then putPage (s.mem (s.page i)) base m else m)

/-- `change_ldt`; `m` is what the new segment holds otherwise. -/
def changeLdt (s : Pages) (m : Data) : Data := putPages s MAX_ARG_PAGES DATA_LIMIT m

/-- `get_fs_long` in the new segment. -/
def wordAt (m : Data) (a : ℕ) : ℕ := (long m a).toNat

def putFsLong (v a : ℕ) (m : Data) : Data :=
  fun b => if a ≤ b ∧ b < a + 4 then byteOf v (b - a) else m b

/-- `while (get_fs_byte(p++))`; `none` is a fault behind the segment. -/
def skip (m : Data) (p : ℕ) : Option ℕ :=
  if p < DATA_LIMIT then if m p = 0 then some (p + 1) else skip m (p + 1) else none
termination_by DATA_LIMIT - p

/-- The pointers of one table. -/
def putPointers : ℕ → ℕ → ℕ → Data → Option (ℕ × Data)
  | 0, p, table, m => some (p, putFsLong 0 table m)
  | argc + 1, p, table, m =>
    let m := putFsLong p table m
    (skip m p).bind fun p => putPointers argc p (table + 4) m

def createTables (p argc envc : ℕ) (m : Data) : Option (ℕ × Data) :=
  let sp := p / 4 * 4
  let sp := sp - 4 * (envc + 1)
  let envp := sp
  let sp := sp - 4 * (argc + 1)
  let argv := sp
  let m := putFsLong envp (sp - 4) m
  let m := putFsLong argv (sp - 8) m
  let m := putFsLong argc (sp - 12) m
  (putPointers argc p argv m).bind fun (p, m) =>
    (putPointers envc p envp m).map fun (_, m) => (sp - 12, m)

/-- `while (i&0xfff) put_fs_byte(0,(char *) (i++))` -/
def clearTail (i : ℕ) (m : Data) : Option Data :=
  if i % 4096 = 0 then some m
  else if i < DATA_LIMIT then clearTail (i + 1) (Function.update m i 0)
  else none
termination_by (4096 - i % 4096) % 4096

/-! ### Words and bytes -/

theorem wordAt_eq (m : Data) (a : ℕ) : wordAt m a =
    (m a).toNat + 256 * (m (a + 1)).toNat + 65536 * (m (a + 2)).toNat +
      16777216 * (m (a + 3)).toNat := by
  have h0 := (m a).toNat_lt
  have h1 := (m (a + 1)).toNat_lt
  have h2 := (m (a + 2)).toNat_lt
  have h3 := (m (a + 3)).toNat_lt
  unfold wordAt long Minix.word
  have hthree : a + 2 + 1 = a + 3 := rfl
  rw [UInt32.toNat_ofNat', UInt16.toNat_ofNat', UInt16.toNat_ofNat', hthree]
  omega

theorem wordAt_congr {m m' : Data} {a : ℕ} (h : ∀ j < 4, m (a + j) = m' (a + j)) :
    wordAt m a = wordAt m' a := by
  rw [wordAt_eq, wordAt_eq, ← h 1 (by decide), ← h 2 (by decide), ← h 3 (by decide)]
  have h0 := h 0 (by decide)
  rw [Nat.add_zero] at h0
  rw [h0]

/-- The bytes of a word, the lowest first. -/
theorem byte_wordAt (m : Data) (a : ℕ) {j : ℕ} (hj : j < 4) :
    (m (a + j)).toNat = wordAt m a / 256 ^ j % 256 := by
  have h0 := (m a).toNat_lt
  have h1 := (m (a + 1)).toNat_lt
  have h2 := (m (a + 2)).toNat_lt
  have h3 := (m (a + 3)).toNat_lt
  rw [wordAt_eq]
  obtain rfl | rfl | rfl | rfl : j = 0 ∨ j = 1 ∨ j = 2 ∨ j = 3 := by omega
  · norm_num
    omega
  · norm_num
    omega
  · norm_num
    omega
  · norm_num
    omega

theorem putFsLong_outside {v a b : ℕ} (m : Data) (h : b < a ∨ a + 4 ≤ b) :
    putFsLong v a m b = m b := if_neg (by omega)

theorem wordAt_putFsLong {v : ℕ} (hv : v < 4294967296) (a : ℕ) (m : Data) :
    wordAt (putFsLong v a m) a = v := by
  have hbyte : ∀ j < 4, putFsLong v a m (a + j) = byteOf v j := by
    intro j hj
    unfold putFsLong
    rw [if_pos ⟨by omega, by omega⟩, Nat.add_sub_cancel_left]
  have h0 := hbyte 0 (by decide)
  rw [Nat.add_zero] at h0
  unfold wordAt
  rw [long_eq h0 (hbyte 1 (by decide)) (hbyte 2 (by decide))
    (hbyte 3 (by decide)), UInt32.toNat_ofNat']
  exact Nat.mod_eq_of_lt hv

/-! ### Texts and tables in memory -/

/-- The bytes from an address on. -/
def Holds (m : Data) (p : ℕ) (text : List UInt8) : Prop :=
  ∀ k (h : k < text.length), m (p + k) = text[k]

/-- The words from an address on. -/
def Words (m : Data) (t : ℕ) (words : List ℕ) : Prop :=
  ∀ k (h : k < words.length), wordAt m (t + 4 * k) = words[k]

theorem holds_append {m : Data} {p : ℕ} {text rest : List UInt8} :
    Holds m p (text ++ rest) ↔ Holds m p text ∧ Holds m (p + text.length) rest := by
  constructor
  · intro h
    constructor
    · intro k hk
      have hk' : k < (text ++ rest).length := by
        rw [List.length_append]
        omega
      rw [h k hk', List.getElem_append_left hk]
    · intro k hk
      have hk' : text.length + k < (text ++ rest).length := by
        rw [List.length_append]
        omega
      rw [Nat.add_assoc, h _ hk', List.getElem_append_right (Nat.le_add_right _ _)]
      congr 1
      exact Nat.add_sub_cancel_left ..
  · intro ⟨htext, hrest⟩ k hk
    by_cases hlt : k < text.length
    · rw [htext k hlt, List.getElem_append_left hlt]
    · rw [List.length_append] at hk
      have h := hrest (k - text.length) (by omega)
      rw [Nat.add_assoc, Nat.add_sub_cancel' (not_lt.mp hlt)] at h
      rw [h, List.getElem_append_right (not_lt.mp hlt)]

theorem Holds.congr {m m' : Data} {p : ℕ} {text : List UInt8} (h : Holds m p text)
    (hm : ∀ a, p ≤ a → a < p + text.length → m' a = m a) : Holds m' p text := by
  intro k hk
  rw [hm _ (Nat.le_add_right _ _) (by omega), h k hk]

theorem words_append {m : Data} {t : ℕ} {words rest : List ℕ} :
    Words m t (words ++ rest) ↔ Words m t words ∧ Words m (t + 4 * words.length) rest := by
  constructor
  · intro h
    constructor
    · intro k hk
      have hk' : k < (words ++ rest).length := by
        rw [List.length_append]
        omega
      rw [h k hk', List.getElem_append_left hk]
    · intro k hk
      have hk' : words.length + k < (words ++ rest).length := by
        rw [List.length_append]
        omega
      rw [Nat.add_assoc, ← Nat.mul_add, h _ hk', List.getElem_append_right (Nat.le_add_right _ _)]
      congr 1
      exact Nat.add_sub_cancel_left ..
  · intro ⟨hwords, hrest⟩ k hk
    by_cases hlt : k < words.length
    · rw [hwords k hlt, List.getElem_append_left hlt]
    · rw [List.length_append] at hk
      have h := hrest (k - words.length) (by omega)
      rw [Nat.add_assoc, ← Nat.mul_add, Nat.add_sub_cancel' (not_lt.mp hlt)] at h
      rw [h, List.getElem_append_right (not_lt.mp hlt)]

theorem Words.congr {m m' : Data} {t : ℕ} {words : List ℕ} (h : Words m t words)
    (hm : ∀ a, t ≤ a → a < t + 4 * words.length → m' a = m a) : Words m' t words := by
  intro k hk
  rw [← h k hk]
  apply wordAt_congr
  intro j hj
  exact hm _ (by omega) (by omega)

/-- The loop that finds the end of a string. -/
theorem skip_eq {m : Data} {p : ℕ} {s : CString} (h : Holds m p s.stored)
    (hp : p + s.size ≤ DATA_LIMIT) : skip m p = some (p + s.size) := by
  obtain ⟨bytes, hz⟩ := s
  unfold CString.size CString.stored at *
  dsimp only at *
  induction bytes generalizing p with
  | nil =>
    have h0 := h 0 (by decide)
    rw [skip, if_pos (by rw [List.length_append, List.length_singleton] at hp; omega)]
    rw [Nat.add_zero] at h0
    rw [if_pos (show m p = 0 from h0)]
    rfl
  | cons b bytes ih =>
    rw [List.cons_append, List.length_cons] at hp
    have h0 := h 0 (Nat.succ_pos _)
    rw [Nat.add_zero] at h0
    rw [skip, if_pos (by omega), if_neg, ih]
    · rw [List.cons_append, List.length_cons]
      congr 1
      omega
    · exact fun hmem => hz (List.mem_cons_of_mem _ hmem)
    · intro k hk
      have hk' := h (k + 1) (Nat.succ_lt_succ hk)
      rw [Nat.add_assoc, Nat.add_comm 1 k, hk']
      rfl
    · omega
    · rw [h0]
      intro hb
      exact hz (hb ▸ List.mem_cons_self ..)

/-! ### The tables -/

/-- Where strings begin that follow each other from `p` on. -/
def starts (p : ℕ) : List CString → List ℕ
  | [] => []
  | s :: strs => p :: starts (p + s.size) strs

theorem length_starts (strs : List CString) (p : ℕ) : (starts p strs).length = strs.length := by
  induction strs generalizing p with
  | nil => rfl
  | cons s strs ih => exact congrArg (· + 1) (ih _)

theorem blob_cons (s : CString) (strs : List CString) : blob (s :: strs) = s.stored ++ blob strs :=
  List.flatMap_cons

theorem blob_append (strs rest : List CString) : blob (strs ++ rest) = blob strs ++ blob rest :=
  List.flatMap_append

theorem length_le_blob (strs : List CString) : strs.length ≤ (blob strs).length := by
  induction strs with
  | nil => exact Nat.zero_le _
  | cons s strs ih =>
    have hpos := s.size_pos
    rw [blob_cons, List.length_append, List.length_cons]
    unfold CString.size at hpos
    omega

/-- One table, which ends below the strings. By induction on the strings. -/
theorem putPointers_eq {strs : List CString} {p : ℕ} (table : ℕ) {m : Data} (h : Holds m p (blob strs))
    (hp : p + (blob strs).length ≤ DATA_LIMIT) (ht : table + 4 * (strs.length + 1) ≤ p) :
    ∃ m', putPointers strs.length p table m = some (p + (blob strs).length, m') ∧
      Words m' table (starts p strs ++ [0]) ∧
      ∀ a, a < table ∨ table + 4 * (strs.length + 1) ≤ a → m' a = m a := by
  induction strs generalizing p table m with
  | nil =>
    refine ⟨_, rfl, ?_, ?_⟩
    · intro k hk
      have hk0 : k = 0 := Nat.lt_one_iff.mp hk
      subst hk0
      exact wordAt_putFsLong (by decide) _ _
    · intro a ha
      exact putFsLong_outside m ha
  | cons s strs ih =>
    have hpos := s.size_pos
    have hlimit : DATA_LIMIT = 67108864 := rfl
    rw [blob_cons, List.length_append] at hp
    rw [blob_cons, holds_append] at h
    rw [List.length_cons] at ht
    have hsize : s.stored.length = s.size := rfl
    have hstr : Holds (putFsLong p table m) p s.stored :=
      h.1.congr fun a ha _ => putFsLong_outside m (by omega)
    have hrest : Holds (putFsLong p table m) (p + s.size) (blob strs) :=
      h.2.congr fun a ha _ => putFsLong_outside m (by omega)
    obtain ⟨m', hm', hwords, hout⟩ := ih (table + 4) hrest (by omega) (by omega)
    refine ⟨m', ?_, ?_, ?_⟩
    · rw [List.length_cons, putPointers, skip_eq hstr (by omega), Option.bind_some, hm', blob_cons,
        List.length_append, Nat.add_assoc]
      rfl
    · have hhead : wordAt m' table = p := by
        rw [← wordAt_putFsLong (show p < 4294967296 by omega) table m]
        apply wordAt_congr
        intro j hj
        exact hout _ (by omega)
      intro k hk
      cases k with
      | zero => exact hhead
      | succ k =>
        have hk' := hwords k (Nat.lt_of_succ_lt_succ hk)
        rw [Nat.add_assoc, Nat.add_comm 4, ← Nat.mul_succ] at hk'
        exact hk'
    · intro a ha
      rw [List.length_cons] at ha
      rw [hout a (by omega)]
      exact putFsLong_outside m (by omega)

/-- The stack pointer of a program whose strings begin at `p`. -/
def stackAt (p : ℕ) (args envs : List CString) : ℕ :=
  p / 4 * 4 - 4 * (envs.length + 1) - 4 * (args.length + 1) - 12

/-- All the words from there on. -/
def words (p : ℕ) (args envs : List CString) : List ℕ :=
  [args.length, stackAt p args envs + 12, stackAt p args envs + 12 + 4 * (args.length + 1)] ++
    ((starts p args ++ [0]) ++ (starts (p + (blob args).length) envs ++ [0]))

/-- `put_fs_long` for `envp`, `argv` and `argc`. -/
theorem head_words (argc argv envp sp : ℕ) (m : Data) (hargc : argc < 4294967296)
    (hargv : argv < 4294967296) (henvp : envp < 4294967296) :
    Words (putFsLong argc sp (putFsLong argv (sp + 4) (putFsLong envp (sp + 8) m))) sp
      [argc, argv, envp] := by
  intro k hk
  obtain rfl | rfl | rfl : k = 0 ∨ k = 1 ∨ k = 2 := by
    rw [List.length_cons, List.length_cons, List.length_singleton] at hk
    omega
  · exact wordAt_putFsLong hargc sp _
  · have hword := wordAt_putFsLong hargv (sp + 4) (putFsLong envp (sp + 8) m)
    refine Eq.trans (wordAt_congr ?_) hword
    intro j hj
    exact putFsLong_outside _ (by omega)
  · have hword := wordAt_putFsLong henvp (sp + 8) m
    refine Eq.trans (wordAt_congr ?_) hword
    intro j hj
    rw [putFsLong_outside _ (by omega), putFsLong_outside _ (by omega)]

theorem createTables_eq {p : ℕ} {args envs : List CString} {m : Data}
    (h : Holds m p (blob args ++ blob envs))
    (hp : p + (blob args ++ blob envs).length ≤ DATA_LIMIT)
    (hroom : 4 * (args.length + envs.length) + 24 ≤ p) :
    ∃ m', createTables p args.length envs.length m = some (stackAt p args envs, m') ∧
      Words m' (stackAt p args envs) (words p args envs) ∧ ∀ a, p ≤ a → m' a = m a := by
  have hlimit : DATA_LIMIT = 67108864 := rfl
  rw [List.length_append] at hp
  have hargs := length_le_blob args
  unfold words
  obtain ⟨sp, hsp⟩ : ∃ sp, sp = stackAt p args envs := ⟨_, rfl⟩
  have henvp : p / 4 * 4 - 4 * (envs.length + 1) = sp + 12 + 4 * (args.length + 1) := by
    unfold stackAt at hsp
    omega
  have hargv : sp + 12 + 4 * (args.length + 1) - 4 * (args.length + 1) = sp + 12 := by omega
  have hend : sp + 12 + 4 * (args.length + 1) + 4 * (envs.length + 1) ≤ p := by
    unfold stackAt at hsp
    omega
  unfold createTables
  dsimp only
  rw [henvp, hargv, ← hsp]
  have hhead := head_words args.length (sp + 12) (sp + 12 + 4 * (args.length + 1)) sp m (by omega)
    (by omega) (by omega)
  generalize hm₁ : putFsLong args.length sp (putFsLong (sp + 12) (sp + 4)
    (putFsLong (sp + 12 + 4 * (args.length + 1)) (sp + 8) m)) = m₁ at hhead
  have hout : ∀ a, p ≤ a → m₁ a = m a := by
    intro a ha
    rw [← hm₁, putFsLong_outside _ (by omega), putFsLong_outside _ (by omega),
      putFsLong_outside _ (by omega)]
  have hblob := h.congr fun a ha _ => hout a ha
  rw [holds_append] at hblob
  obtain ⟨m₂, hm₂, hwords₂, hout₂⟩ := putPointers_eq (sp + 12) hblob.1 (by omega) (by omega)
  have hblob₂ : Holds m₂ (p + (blob args).length) (blob envs) :=
    hblob.2.congr fun a ha _ => hout₂ a (by omega)
  obtain ⟨m₃, hm₃, hwords₃, hout₃⟩ := putPointers_eq (sp + 12 + 4 * (args.length + 1)) hblob₂
    (by omega) (by omega)
  have hfour : sp + 12 - 4 = sp + 8 := rfl
  have height : sp + 12 - 8 = sp + 4 := rfl
  rw [hfour, height, Nat.add_sub_cancel, hm₁, hm₂, Option.bind_some]
  dsimp only
  rw [hm₃]
  refine ⟨m₃, rfl, ?_, ?_⟩
  · rw [words_append, words_append]
    refine ⟨?_, ?_, ?_⟩
    · refine hhead.congr ?_
      intro a ha hlt
      rw [List.length_cons, List.length_cons, List.length_singleton] at hlt
      rw [hout₃ a (by omega), hout₂ a (by omega)]
    · refine hwords₂.congr ?_
      intro a ha hlt
      rw [List.length_append, length_starts, List.length_singleton] at hlt
      exact hout₃ a (.inl hlt)
    · rw [List.length_append, length_starts, List.length_singleton]
      exact hwords₃
  · intro a ha
    rw [hout₃ a (by omega), hout₂ a (by omega), hout a ha]

/-! ### What a program finds on its stack -/

/-- The pointer `i` of the table at `t`. -/
def pointer (m : Data) (t i : ℕ) : ℕ := wordAt m (t + 4 * i)

/-- A table of the stack at `sp`: its pointers, and NULL. -/
structure Listed (m : Data) (sp t : ℕ) (strs : List CString) : Prop where
  on_stack : sp ≤ t
  above : ∀ i < strs.length, sp ≤ pointer m t i
  strings : ∀ i (h : i < strs.length), Holds m (pointer m t i) strs[i].stored
  null : pointer m t strs.length = 0

/-- No string of the table at `t'` meets the table at `t`. -/
def Apart (m : Data) (t n t' : ℕ) (strs : List CString) : Prop :=
  ∀ i (h : i < strs.length), t + 4 * (n + 1) ≤ pointer m t' i ∨ pointer m t' i + strs[i].size ≤ t

/-- `argc`, `argv` and `envp`. -/
structure Stack (m : Data) (sp : ℕ) (args envs : List CString) : Prop where
  aligned : sp % 4 = 0
  argc : wordAt m sp = args.length
  argv : Listed m sp (wordAt m (sp + 4)) args
  envp : Listed m sp (wordAt m (sp + 8)) envs
  apart : Apart m (wordAt m (sp + 4)) args.length (wordAt m (sp + 4)) args ∧
    Apart m (wordAt m (sp + 4)) args.length (wordAt m (sp + 8)) envs ∧
    Apart m (wordAt m (sp + 8)) envs.length (wordAt m (sp + 4)) args ∧
    Apart m (wordAt m (sp + 8)) envs.length (wordAt m (sp + 8)) envs

/-- Where `create_tables` has put everything. -/
structure Laid (m : Data) (p : ℕ) (args envs : List CString) : Prop where
  words : Words m (stackAt p args envs) (words p args envs)
  text : Holds m p (blob args ++ blob envs)

/-- The segment has room, and its upper end is far away from zero. -/
structure Room (p : ℕ) (args envs : List CString) : Prop where
  fits : p + (blob args ++ blob envs).length ≤ DATA_LIMIT
  high : 16777216 + 4 * (args.length + envs.length) + 24 ≤ p

theorem starts_spec {strs : List CString} {p i : ℕ} (hi : i < strs.length) :
    ∃ h : i < (starts p strs).length, p ≤ (starts p strs)[i] ∧
      ∀ m : Data, Holds m p (blob strs) → Holds m (starts p strs)[i] strs[i].stored := by
  induction strs generalizing p i with
  | nil => exact absurd hi (Nat.not_lt_zero i)
  | cons s strs ih =>
    cases i with
    | zero =>
      refine ⟨Nat.succ_pos _, le_rfl, ?_⟩
      intro m h
      rw [blob_cons, holds_append] at h
      exact h.1
    | succ i =>
      obtain ⟨h, hle, hall⟩ := ih (p := p + s.size) (Nat.lt_of_succ_lt_succ hi)
      refine ⟨Nat.succ_lt_succ h, le_trans (Nat.le_add_right _ _) hle, ?_⟩
      intro m hm
      rw [blob_cons, holds_append] at hm
      exact hall m hm.2

section
variable {m : Data} {p : ℕ} {args envs : List CString}

theorem Room.stack (h : Room p args envs) :
    stackAt p args envs % 4 = 0 ∧ 16777216 ≤ stackAt p args envs ∧
      stackAt p args envs + 12 + 4 * (args.length + 1) + 4 * (envs.length + 1) = p / 4 * 4 := by
  have hhigh := h.high
  unfold stackAt
  omega

/-- The words one after the other. -/
theorem Laid.pieces (h : Laid m p args envs) :
    wordAt m (stackAt p args envs) = args.length ∧
    wordAt m (stackAt p args envs + 4) = stackAt p args envs + 12 ∧
    wordAt m (stackAt p args envs + 8) = stackAt p args envs + 12 + 4 * (args.length + 1) ∧
    Words m (stackAt p args envs + 12) (starts p args ++ [0]) ∧
    Words m (stackAt p args envs + 12 + 4 * (args.length + 1))
      (starts (p + (blob args).length) envs ++ [0]) := by
  have hw := h.words
  unfold Exec.words at hw
  rw [words_append, words_append, List.length_append, length_starts] at hw
  exact ⟨hw.1 0 (by simp), hw.1 1 (by simp), hw.1 2 (by simp), hw.2.1, hw.2.2⟩

/-- A table that holds the starts of the strings. -/
theorem listed_of_words {sp t q : ℕ} {strs : List CString} (hw : Words m t (starts q strs ++ [0]))
    (ht : sp ≤ t) (hq : sp ≤ q) (htext : Holds m q (blob strs)) :
    Listed m sp t strs ∧ ∀ i < strs.length, q ≤ pointer m t i := by
  have hptr : ∀ i (h : i < (starts q strs).length), pointer m t i = (starts q strs)[i] := by
    intro i hi
    have hk := hw i (by rw [List.length_append]; omega)
    rw [List.getElem_append_left hi] at hk
    exact hk
  have hlow : ∀ i < strs.length, q ≤ pointer m t i := by
    intro i hi
    obtain ⟨hi', hle, _⟩ := starts_spec (p := q) hi
    rw [hptr i hi']
    exact hle
  refine ⟨⟨ht, fun i hi => le_trans hq (hlow i hi), ?_, ?_⟩, hlow⟩
  · intro i hi
    obtain ⟨hi', _, hall⟩ := starts_spec (p := q) hi
    rw [hptr i hi']
    exact hall m htext
  · have hk := hw (starts q strs).length (by rw [List.length_append]; exact Nat.lt_succ_self _)
    rw [List.getElem_concat_length rfl, length_starts] at hk
    exact hk

theorem Laid.stack (h : Laid m p args envs) (hroom : Room p args envs) :
    Stack m (stackAt p args envs) args envs := by
  obtain ⟨hargc, hargv, henvp, hwords, hwords'⟩ := h.pieces
  obtain ⟨halign, hhigh, hend⟩ := hroom.stack
  have htext := h.text
  rw [holds_append] at htext
  obtain ⟨hargs, hlow⟩ := listed_of_words hwords (Nat.le_add_right _ 12) (by omega) htext.1
  obtain ⟨henvs, hlow'⟩ := listed_of_words hwords' (show stackAt p args envs ≤ _ by omega) (by omega)
    htext.2
  refine ⟨halign, hargc, ?_, ?_, ?_⟩
  · rw [hargv]
    exact hargs
  · rw [henvp]
    exact henvs
  · rw [hargv, henvp]
    refine ⟨?_, ?_, ?_, ?_⟩
    · intro i hi
      have hle := hlow i hi
      omega
    · intro i hi
      have hle := hlow' i hi
      omega
    · intro i hi
      have hle := hlow i hi
      omega
    · intro i hi
      have hle := hlow' i hi
      omega

end

/-! ### The pages of the strings -/

/-- By induction on the pages, the last of which is put first. -/
theorem putPages_eq (s : Pages) (n base : ℕ) (m : Data) :
    (∀ a, a < base ∨ base + 4096 * n ≤ a → putPages s n (base + 4096 * n) m a = m a) ∧
    ∀ a < 4096 * n, s.page (a / 4096) ≠ 0 →
      putPages s n (base + 4096 * n) m (base + a) = s.area a := by
  induction n generalizing m with
  | zero => exact ⟨fun _ _ => rfl, fun a ha => absurd ha (Nat.not_lt_zero a)⟩
  | succ n ih =>
    have hbase : base + 4096 * (n + 1) - PAGE_SIZE = base + 4096 * n := by
      unfold PAGE_SIZE
      omega
    rw [putPages, hbase]
    obtain ⟨hout, hin⟩ := ih (if s.page n ≠ 0 then putPage (s.mem (s.page n)) (base + 4096 * n) m else m)
    constructor
    · intro a ha
      rw [hout a (by omega)]
      split
      · exact if_neg (by unfold PAGE_SIZE; omega)
      · rfl
    · intro a ha hpage
      by_cases hlt : a < 4096 * n
      · exact hin a hlt hpage
      · have hn : a / 4096 = n := by omega
        rw [hn] at hpage
        have hoff : base + a - (base + 4096 * n) = a % 4096 := by omega
        rw [hout _ (by omega), if_pos hpage]
        unfold putPage Pages.area
        rw [if_pos (by unfold PAGE_SIZE; omega), hn, hoff]

/-- The strings in the new segment. -/
theorem changeLdt_holds {F p : ℕ} {text : List UInt8} {s : Pages} (hm : s.Mapped F p)
    (ht : s.Text p text) (m : Data) : Holds (changeLdt s m) (p + (DATA_LIMIT - 131072)) text := by
  intro k hk
  have hlen := ht.length
  rw [TOP_eq] at hlen
  have hpage : s.page ((p + k) / 4096) ≠ 0 := by
    refine (hm.taken _ (by omega)).mpr ?_
    unfold lowest
    rw [if_pos (by rw [TOP_eq]; omega)]
    omega
  obtain ⟨-, hin⟩ := putPages_eq s 32 (DATA_LIMIT - 131072) m
  rw [← ht.area k hk, Nat.add_comm p, Nat.add_assoc]
  exact hin (p + k) (by omega) hpage

/-! ### The end of the last data page -/

/-- The rest of the page of `i`, unless `i` begins a page. -/
def Cleared (i a : ℕ) : Prop := i % 4096 ≠ 0 ∧ i ≤ a ∧ a / 4096 = i / 4096

instance (i a : ℕ) : Decidable (Cleared i a) := inferInstanceAs (Decidable (_ ∧ _))

def cleared (i : ℕ) (m : Data) : Data := fun a => if Cleared i a then 0 else m a

/-- By induction on what is left of the page. -/
theorem clearTail_eq {i : ℕ} (h : i % 4096 = 0 ∨ i < DATA_LIMIT) (m : Data) :
    clearTail i m = some (cleared i m) := by
  induction hn : (4096 - i % 4096) % 4096 generalizing i m with
  | zero =>
    have hi : i % 4096 = 0 := by omega
    rw [clearTail, if_pos hi]
    congr 1
    funext a
    exact (if_neg fun hc => hc.1 hi).symm
  | succ n ih =>
    have hlimit : DATA_LIMIT = 67108864 := rfl
    have hi : i % 4096 ≠ 0 := by omega
    rw [clearTail, if_neg hi, if_pos (h.resolve_left hi), ih (by omega) _ (by omega)]
    congr 1
    funext a
    unfold cleared
    by_cases ha : a = i
    · have hc : Cleared i a := ⟨hi, ha.ge, by rw [ha]⟩
      rw [if_pos hc, ha, Function.update_self, ite_self]
    · rw [Function.update_of_ne ha]
      have hiff : Cleared (i + 1) a ↔ Cleared i a := by
        unfold Cleared
        omega
      simp only [hiff]

theorem clearTail_none {i : ℕ} (hi : i % 4096 ≠ 0) (h : DATA_LIMIT ≤ i) (m : Data) :
    clearTail i m = none := by
  rw [clearTail, if_neg hi, if_neg (not_lt.mpr h)]

/-- Nothing but zeros is cleared. -/
structure Clear (p i : ℕ) (args envs : List CString) : Prop where
  words : ∀ k (h : k < (words p args envs).length), ∀ j < 4,
    Cleared i (stackAt p args envs + 4 * k + j) → (words p args envs)[k] / 256 ^ j % 256 = 0
  text : ∀ k (h : k < (blob args ++ blob envs).length), Cleared i (p + k) →
    (blob args ++ blob envs)[k] = 0

theorem cleared_of {i a : ℕ} (h : Cleared i a) (m : Data) : cleared i m a = 0 := if_pos h

theorem cleared_of_not {i a : ℕ} (h : ¬ Cleared i a) (m : Data) : cleared i m a = m a := if_neg h

/-- A word that is still large is as it was: clearing begins with its highest byte. -/
theorem wordAt_cleared {i w : ℕ} {m : Data} (hw : w % 4 = 0) (h : 16777216 ≤ wordAt (cleared i m) w) :
    wordAt (cleared i m) w = wordAt m w := by
  have hthree : ¬ Cleared i (w + 3) := by
    intro hc
    have hzero := cleared_of hc m
    have h0 := (cleared i m w).toNat_lt
    have h1 := (cleared i m (w + 1)).toNat_lt
    have h2 := (cleared i m (w + 2)).toNat_lt
    rw [wordAt_eq, hzero] at h
    have hzero' : (0 : UInt8).toNat = 0 := rfl
    omega
  apply wordAt_congr
  intro j hj
  refine cleared_of_not ?_ m
  intro hc
  obtain ⟨hi, hle, hpage⟩ := hc
  exact hthree ⟨hi, by omega, by omega⟩

section
variable {m : Data} {p : ℕ} {args envs : List CString}

theorem holds_blob {strs : List CString} (h : ∀ i (hi : i < (starts p strs).length)
    (hi' : i < strs.length), Holds m (starts p strs)[i] strs[i].stored) : Holds m p (blob strs) := by
  induction strs generalizing p with
  | nil => exact fun k hk => absurd hk (Nat.not_lt_zero k)
  | cons s strs ih =>
    rw [blob_cons, holds_append]
    refine ⟨h 0 (Nat.succ_pos _) (Nat.succ_pos _), ih ?_⟩
    intro i hi hi'
    exact h (i + 1) (Nat.succ_lt_succ hi) (Nat.succ_lt_succ hi')

/-- A table whose pointers are still on the stack is as it was. -/
theorem listed_cleared {i sp t q : ℕ} {strs : List CString} (hw : Words m t (starts q strs ++ [0]))
    (ht : t % 4 = 0) (hsp : 16777216 ≤ sp) (h : Listed (cleared i m) sp t strs) :
    Words (cleared i m) t (starts q strs ++ [0]) ∧ Holds (cleared i m) q (blob strs) := by
  rw [words_append] at hw
  have hwords : Words (cleared i m) t (starts q strs) := by
    intro k hk
    have hk' : k < strs.length := by
      rw [length_starts] at hk
      exact hk
    have hlarge : 16777216 ≤ wordAt (cleared i m) (t + 4 * k) := le_trans hsp (h.above k hk')
    rw [wordAt_cleared (by omega) hlarge]
    exact hw.1 k hk
  constructor
  · rw [words_append]
    refine ⟨hwords, ?_⟩
    intro k hk
    have hk0 : k = 0 := Nat.lt_one_iff.mp hk
    subst hk0
    have hnull := h.null
    unfold pointer at hnull
    rw [length_starts]
    exact hnull
  · apply holds_blob
    intro k hk hk'
    rw [← hwords k hk]
    exact h.strings k hk'

/-- A program that finds its arguments finds everything where it was put. -/
theorem laid_of_stack {i : ℕ} (h : Laid m p args envs) (hroom : Room p args envs)
    (hs : Stack (cleared i m) (stackAt p args envs) args envs) : Laid (cleared i m) p args envs := by
  obtain ⟨-, hargv, henvp, hwords, hwords'⟩ := h.pieces
  obtain ⟨halign, hhigh, hend⟩ := hroom.stack
  have hargv' : wordAt (cleared i m) (stackAt p args envs + 4) = stackAt p args envs + 12 := by
    rw [wordAt_cleared (by omega) (le_trans hhigh hs.argv.on_stack), hargv]
  have henvp' : wordAt (cleared i m) (stackAt p args envs + 8) =
      stackAt p args envs + 12 + 4 * (args.length + 1) := by
    rw [wordAt_cleared (by omega) (le_trans hhigh hs.envp.on_stack), henvp]
  have hargs := hs.argv
  have henvs := hs.envp
  rw [hargv'] at hargs
  rw [henvp'] at henvs
  obtain ⟨hw, ht⟩ := listed_cleared hwords (by omega) hhigh hargs
  obtain ⟨hw', ht'⟩ := listed_cleared hwords' (by omega) hhigh henvs
  refine ⟨?_, holds_append.mpr ⟨ht, ht'⟩⟩
  unfold words
  rw [words_append, words_append, List.length_append, length_starts]
  refine ⟨?_, hw, hw'⟩
  intro k hk
  obtain rfl | rfl | rfl : k = 0 ∨ k = 1 ∨ k = 2 := by
    rw [List.length_cons, List.length_cons, List.length_singleton] at hk
    omega
  · exact hs.argc
  · exact hargv'
  · exact henvp'

/-- The program finds its arguments exactly when only zeros of them have been cleared. -/
theorem stack_cleared_iff (h : Laid m p args envs) (hroom : Room p args envs) (i : ℕ) :
    Stack (cleared i m) (stackAt p args envs) args envs ↔ Clear p i args envs := by
  constructor
  · intro hs
    have hl := laid_of_stack h hroom hs
    refine ⟨?_, ?_⟩
    · intro k hk j hj hc
      rw [← hl.words k hk, ← byte_wordAt _ _ hj, cleared_of hc]
      rfl
    · intro k hk hc
      rw [← hl.text k hk, cleared_of hc]
  · intro hc
    refine Laid.stack ⟨?_, ?_⟩ hroom
    · intro k hk
      rw [← h.words k hk]
      apply wordAt_congr
      intro j hj
      by_cases hcl : Cleared i (stackAt p args envs + 4 * k + j)
      · have hzero := hc.words k hk j hj hcl
        rw [← h.words k hk, ← byte_wordAt _ _ hj] at hzero
        rw [cleared_of hcl]
        exact (UInt8.toNat_inj.mp hzero).symm
      · exact cleared_of_not hcl m
    · intro k hk
      rw [← h.text k hk]
      by_cases hcl : Cleared i (p + k)
      · rw [cleared_of hcl, h.text k hk, hc.text k hk hcl]
      · exact cleared_of_not hcl m

end

end Linux011.Exec
