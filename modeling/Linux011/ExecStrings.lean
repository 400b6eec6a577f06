import Mathlib

set_option autoImplicit false

/-!
# The argument strings (fs/exec.c)

`count` and `copy_strings`: the strings of a new program are copied, the last one first, to the pages
that will be the top of its stack. What a call does to `page` and to the pages is recorded with it.
-/
namespace Linux011.Exec

def PAGE_SIZE : ℕ := 4096

def MAX_ARG_PAGES : ℕ := 32

/-- A string without the zero that ends it. -/
structure CString where
  bytes : List UInt8
  nonzero : 0 ∉ bytes

/-- Its bytes in memory. -/
def CString.stored (s : CString) : List UInt8 := s.bytes ++ [0]

def CString.size (s : CString) : ℕ := s.stored.length

theorem CString.size_pos (s : CString) : 0 < s.size := by
  unfold CString.size CString.stored
  rw [List.length_append]
  exact Nat.succ_pos _

def CString.empty : CString := ⟨[], List.not_mem_nil⟩

inductive Segment where
  | user
  | kernel
  deriving DecidableEq

/-- The data segment of the caller: the pointers in it, and the strings that begin at its addresses.
    Every array of pointers ends. -/
structure Space where
  long : ℕ → ℕ
  string : ℕ → CString
  ends : ∀ a, ∃ n, long (a + 4 * n) = 0

/-- A string in the kernel is one of the `buf` of a script. -/
inductive Pointer where
  | user (a : ℕ)
  | kernel (s : CString)

/-- An array of pointers: one of the caller's, or a variable of `do_execve` that is taken for one. -/
inductive Vector where
  | user (argv : ℕ)
  | single (tmp : Pointer)

/-- One call of `copy_strings`: the indices into `page` and the offsets into a page that it uses, and
    whether `--p` passes zero. -/
structure Call where
  before : ℕ
  result : ℕ
  indices : List ℕ
  offsets : List ℤ
  wrapped : Bool

/-- `free` are the pages that `get_free_page` finds, until it fails; `page` is in the stack, which goes
    on behind the array. -/
structure Pages where
  fs : Segment
  page : ℕ → ℕ
  free : List ℕ+
  mem : ℕ → ℕ → UInt8
  calls : List Call

def Pages.put (s : Pages) (pag offset : ℕ) (byte : UInt8) : Pages :=
  { s with mem := Function.update s.mem pag (Function.update (s.mem pag) offset byte) }

/-- Within a call. -/
structure Copy extends Pages where
  p : ℕ
  pag : ℕ
  offset : ℤ
  indices : List ℕ
  offsets : List ℤ
  wrapped : Bool

section
variable (u : Space)

/-- `get_fs_long(argv+i)`; `none` is NULL, or a word of another segment. -/
def getFsLong (fs : Segment) (argv : Vector) (i : ℕ) : Option Pointer :=
  match argv, fs with
  | .user a, .user => if u.long (a + 4 * i) = 0 then none else some (.user (u.long (a + 4 * i)))
  | .single tmp, .kernel => if i = 0 then some tmp else none
  | _, _ => none

/-- The bytes from `tmp` on; in another segment there is nothing. -/
def string (fs : Segment) (tmp : Pointer) : CString :=
  match tmp, fs with
  | .user a, .user => u.string a
  | .kernel s, .kernel => s
  | _, _ => .empty

/-- `count` -/
def count (argv : ℕ) : ℕ := if argv = 0 then 0 else Nat.find (u.ends argv)

/-- `page[p/PAGE_SIZE]`, from `get_free_page` if it is 0; the error is that there is none. -/
def loadPage (c : Copy) : Except Copy Copy :=
  let c := { c with indices := c.indices ++ [c.p / PAGE_SIZE] }
  if c.page (c.p / PAGE_SIZE) ≠ 0 then .ok { c with pag := c.page (c.p / PAGE_SIZE) }
  else match c.free with
    | [] => .error c
    | pag :: free => .ok { c with
        pag := pag, free := free
        page := Function.update c.page (c.p / PAGE_SIZE) pag
        mem := Function.update c.mem (pag : ℕ) fun _ => 0 }

/-- `*(pag + offset) = get_fs_byte(tmp)`, where `tmp` is the byte `len` of the string. -/
def store (tmp : Pointer) (len : ℕ) (c : Copy) : Copy :=
  let byte := (string u c.fs tmp).stored.getD len 0
  { c with
    toPages := c.toPages.put c.pag c.offset.toNat byte
    offsets := c.offsets ++ [c.offset] }

def copyByte (fromKmem : ℕ) (oldFs newFs : Segment) (tmp : Pointer) (len : ℕ) (c : Copy) :
    Except Copy Copy :=
  let c := { c with
    wrapped := c.wrapped || c.p == 0
    p := (c.p + 4294967295) % 4294967296, offset := c.offset - 1 }
  if c.offset < 0 then
    let c := { c with offset := (c.p % PAGE_SIZE : ℕ), fs := if fromKmem = 2 then oldFs else c.fs }
    (loadPage c).map fun c => store u tmp len { c with fs := if fromKmem = 2 then newFs else c.fs }
  else .ok (store u tmp len c)

/-- `while (len)` -/
def copyBytes (fromKmem : ℕ) (oldFs newFs : Segment) (tmp : Pointer) : ℕ → Copy → Except Copy Copy
  | 0, c => .ok c
  | len + 1, c => (copyByte u fromKmem oldFs newFs tmp len c).bind
      (copyBytes fromKmem oldFs newFs tmp len)

/-- `while (argc-- > 0)`; `none` is the panic, and the error a return of 0. -/
def copyLoop (fromKmem : ℕ) (oldFs newFs : Segment) (argv : Vector) :
    ℕ → Copy → Option (Except Copy Copy)
  | 0, c => some (.ok c)
  | argc + 1, c =>
    match getFsLong u (if fromKmem = 1 then newFs else c.fs) argv argc with
    | none => none
    | some tmp =>
      let c := { c with fs := if fromKmem = 1 then oldFs else c.fs }
      let len := (string u c.fs tmp).size
      -- unsigned: the difference is never below zero
      if (c.p + 4294967296 - len) % 4294967296 < 0 then some (.error { c with fs := oldFs })
      else match copyBytes u fromKmem oldFs newFs tmp len c with
        | .error c => some (.error c)
        | .ok c => copyLoop fromKmem oldFs newFs argv argc c

def copyStrings (argc : ℤ) (argv : Vector) (s : Pages) (p fromKmem : ℕ) : Option (Pages × ℕ) :=
  if p = 0 then some ({ s with calls := s.calls ++ [⟨p, 0, [], [], false⟩] }, 0)
  else
    let newFs := .kernel
    let oldFs := s.fs
    let c : Copy := { s with
      fs := if fromKmem = 2 then newFs else oldFs
      p := p, pag := 0, offset := 0, indices := [], offsets := [], wrapped := false }
    (copyLoop u fromKmem oldFs newFs argv argc.toNat c).map fun
      | .error c =>
        ({ c.toPages with calls := s.calls ++ [⟨p, 0, c.indices, c.offsets, c.wrapped⟩] }, 0)
      | .ok c =>
        let c := { c with fs := if fromKmem = 2 then oldFs else c.fs }
        ({ c.toPages with calls := s.calls ++ [⟨p, c.p, c.indices, c.offsets, c.wrapped⟩] }, c.p)

end

/-! ### The pages and the text in them -/

/-- Where the strings end: the last word of the last page is left free. -/
def TOP : ℕ := PAGE_SIZE * MAX_ARG_PAGES - 4

theorem TOP_eq : TOP = 131068 := rfl

/-- The first index of `page` that is in use when the strings begin at `p`. -/
def lowest (p : ℕ) : ℕ := if p < TOP then p / 4096 else 32

/-- The pages from the one of `p` on are there, and are different; `F` is what `get_free_page` had. -/
structure Pages.Mapped (F p : ℕ) (s : Pages) : Prop where
  taken : ∀ i < 32, s.page i ≠ 0 ↔ lowest p ≤ i
  left : s.free.length + (32 - lowest p) = F
  distinct : ∀ i < 32, ∀ j < 32, s.page i = s.page j → s.page i ≠ 0 → i = j
  fresh : ∀ i < 32, ∀ f ∈ s.free, s.page i ≠ (f : ℕ)
  nodup : s.free.Nodup

/-- The byte at `a` of what will be the top of the stack. -/
def Pages.area (s : Pages) (a : ℕ) : UInt8 := s.mem (s.page (a / 4096)) (a % 4096)

/-- The bytes from `p` to the end. -/
structure Pages.Text (p : ℕ) (text : List UInt8) (s : Pages) : Prop where
  length : p + text.length = TOP
  area : ∀ k (h : k < text.length), s.area (p + k) = text[k]

/-- The accesses that are allowed. -/
structure Bounded (indices : List ℕ) (offsets : List ℤ) (wrapped : Bool) : Prop where
  indices : ∀ i ∈ indices, i < MAX_ARG_PAGES
  offsets : ∀ o ∈ offsets, 0 ≤ o ∧ o < (PAGE_SIZE : ℤ)
  wrapped : wrapped = false

def Copy.Bounded (c : Copy) : Prop := Exec.Bounded c.indices c.offsets c.wrapped

/-- Within a call: `offset` and `pag` are those of `p`, or the page is still to be looked up. -/
structure Copy.Sound (F : ℕ) (text : List UInt8) (c : Copy) : Prop where
  mapped : c.toPages.Mapped F c.p
  text : c.toPages.Text c.p text
  bounded : c.Bounded
  offset : 0 ≤ c.offset
  cursor : c.offset ≠ 0 → c.p < TOP ∧ c.offset = (c.p % 4096 : ℕ) ∧ c.pag = c.page (c.p / 4096)

theorem Pages.Text.le {p : ℕ} {text : List UInt8} {s : Pages} (h : s.Text p text) : p ≤ TOP :=
  h.length ▸ Nat.le_add_right _ _

theorem Bounded.index {indices : List ℕ} {offsets : List ℤ} {wrapped : Bool}
    (h : Bounded indices offsets wrapped) {i : ℕ} (hi : i < MAX_ARG_PAGES) :
    Bounded (indices ++ [i]) offsets wrapped := by
  refine ⟨?_, h.offsets, h.wrapped⟩
  intro j hj
  rcases List.mem_append.mp hj with hj | hj
  · exact h.indices j hj
  · rw [List.mem_singleton.mp hj]
    exact hi

theorem Bounded.store {indices : List ℕ} {offsets : List ℤ} {wrapped : Bool}
    (h : Bounded indices offsets wrapped) {o : ℤ} (ho : 0 ≤ o ∧ o < (PAGE_SIZE : ℤ)) :
    Bounded indices (offsets ++ [o]) wrapped := by
  refine ⟨h.indices, ?_, h.wrapped⟩
  intro j hj
  rcases List.mem_append.mp hj with hj | hj
  · exact h.offsets j hj
  · rw [List.mem_singleton.mp hj]
    exact ho

/-- A page that is there is the one of the bytes above, or a new one is below them all. -/
theorem Pages.Mapped.down {F p : ℕ} {s : Pages} (h : s.Mapped F (p + 1)) (hp : p < TOP)
    (hpage : s.page (p / 4096) ≠ 0) : s.Mapped F p := by
  have hlt : p / 4096 < 32 := by
    rw [TOP_eq] at hp
    omega
  have hle := (h.taken _ hlt).mp hpage
  have hsame : lowest p = lowest (p + 1) := by
    unfold lowest at hle ⊢
    rw [if_pos hp]
    rw [TOP_eq] at hle hp ⊢
    split at hle
    · rename_i hlt'
      rw [if_pos hlt']
      omega
    · omega
  exact ⟨by rw [hsame]; exact h.taken, by rw [hsame]; exact h.left, h.distinct, h.fresh, h.nodup⟩

theorem Pages.Mapped.grow {F p : ℕ} {s : Pages} (h : s.Mapped F (p + 1)) (hp : p < TOP)
    (hpage : s.page (p / 4096) = 0) {pag : ℕ+} {free : List ℕ+} (hfree : s.free = pag :: free)
    (mem : ℕ → ℕ → UInt8) :
    { s with page := Function.update s.page (p / 4096) pag, free := free, mem := mem }.Mapped F p := by
  have hlt : p / 4096 < 32 := by
    rw [TOP_eq] at hp
    omega
  have hlow : lowest p = p / 4096 := if_pos hp
  have hnext : lowest (p + 1) = p / 4096 + 1 := by
    have hgt := mt (h.taken _ hlt).mpr (not_not.mpr hpage)
    unfold lowest at hgt ⊢
    rw [TOP_eq] at hp hgt ⊢
    split at hgt
    · rename_i hlt'
      rw [if_pos hlt']
      omega
    · rename_i hge
      rw [if_neg hge]
      omega
  have hleft := h.left
  rw [hnext, hfree, List.length_cons] at hleft
  have hnodup := h.nodup
  rw [hfree, List.nodup_cons] at hnodup
  have hfresh (i : ℕ) (hi : i < 32) : s.page i ≠ (pag : ℕ) :=
    h.fresh i hi pag (hfree ▸ List.mem_cons_self ..)
  refine ⟨?_, ?_, ?_, ?_, hnodup.2⟩
  · intro i hi
    dsimp only
    rw [hlow]
    by_cases heq : i = p / 4096
    · rw [heq, Function.update_self]
      exact ⟨fun _ => le_rfl, fun _ => pag.ne_zero⟩
    · rw [Function.update_of_ne heq, h.taken i hi, hnext]
      omega
  · dsimp only
    rw [hlow]
    omega
  · intro i hi j hj
    dsimp only
    by_cases hi' : i = p / 4096
    · by_cases hj' : j = p / 4096
      · intro _ _
        rw [hi', hj']
      · rw [hi', Function.update_self, Function.update_of_ne hj']
        intro heq
        exact absurd heq.symm (hfresh j hj)
    · by_cases hj' : j = p / 4096
      · rw [hj', Function.update_self, Function.update_of_ne hi']
        intro heq
        exact absurd heq (hfresh i hi)
      · rw [Function.update_of_ne hi', Function.update_of_ne hj']
        exact h.distinct i hi j hj
  · intro i hi f hf
    dsimp only
    by_cases heq : i = p / 4096
    · rw [heq, Function.update_self]
      intro heq'
      rw [PNat.coe_inj] at heq'
      exact hnodup.1 (heq' ▸ hf)
    · rw [Function.update_of_ne heq]
      exact h.fresh i hi f (hfree ▸ List.mem_cons_of_mem _ hf)

theorem lowest_lt {p : ℕ} (h : p < TOP) : lowest p = p / 4096 := if_pos h

theorem lowest_mono {p q : ℕ} (h : p ≤ q) : lowest p ≤ lowest q := by
  unfold lowest
  split_ifs with hp hq
  · exact Nat.div_le_div_right h
  · rw [TOP_eq] at hp
    omega
  · omega
  · exact le_rfl

/-- The pages that strings of `n` bytes take. -/
def pagesFor (n : ℕ) : ℕ := 32 - lowest (TOP - n)

/-- Where the last of the strings begins, and that its page is there. -/
theorem exists_bottom {F n : ℕ} (hfree : pagesFor n ≤ F) (hfit : n < TOP) :
    ∃ q, q + n = TOP ∧ 32 ≤ F + lowest q := by
  unfold pagesFor at hfree
  exact ⟨TOP - n, Nat.sub_add_cancel hfit.le, by omega⟩

/-- When there is no page. -/
theorem Pages.Mapped.short {F p : ℕ} {s : Pages} (h : s.Mapped F (p + 1)) (hp : p < TOP)
    (hpage : s.page (p / 4096) = 0) (hfree : s.free = []) : F + lowest p < 32 := by
  rw [lowest_lt hp]
  have hlt : p / 4096 < 32 := by
    rw [TOP_eq] at hp
    omega
  have hgt := mt (h.taken _ hlt).mpr (not_not.mpr hpage)
  have hleft := h.left
  rw [hfree, List.length_nil] at hleft
  omega

/-- At the bottom all the pages are there. -/
theorem Pages.Mapped.full {F : ℕ} {s : Pages} (h : s.Mapped F 0) : 32 ≤ F := by
  have hleft := h.left
  have hlow : lowest 0 = 0 := by
    unfold lowest
    rw [if_pos (by decide)]
  omega

/-- The byte below the text is in the page that `p` has come to. -/
theorem Pages.Text.store {p : ℕ} {text : List UInt8} {s : Pages} {F : ℕ} (h : s.Text (p + 1) text)
    (hm : s.Mapped F p) (hpage : s.page (p / 4096) ≠ 0) (byte : UInt8) :
    (s.put (s.page (p / 4096)) (p % 4096) byte).Text p (byte :: text) := by
  have hp : p < TOP := h.le
  have hlt : p / 4096 < 32 := by
    rw [TOP_eq] at hp
    omega
  refine ⟨?_, ?_⟩
  · rw [List.length_cons, ← h.length]
    omega
  · intro k hk
    unfold Pages.area Pages.put
    dsimp only
    cases k with
    | zero =>
      rw [Nat.add_zero, Function.update_self, Function.update_self]
      rfl
    | succ k =>
      rw [List.getElem_cons_succ]
      have hk' : k < text.length := Nat.lt_of_succ_lt_succ hk
      have hlen := h.length
      rw [TOP_eq] at hlen
      rw [← h.area k hk']
      unfold Pages.area
      have heq : p + (k + 1) = p + 1 + k := by omega
      rw [heq]
      by_cases hsame : s.page ((p + 1 + k) / 4096) = s.page (p / 4096)
      · have hidx := hm.distinct _ (by omega) _ hlt hsame (hsame ▸ hpage)
        rw [hsame, Function.update_self, Function.update_of_ne (by omega)]
      · rw [Function.update_of_ne hsame]

/-- The pages above stay as they are. -/
theorem Pages.Text.congr {p : ℕ} {text : List UInt8} {s s' : Pages} (h : s.Text p text)
    (ha : ∀ a, p ≤ a → a < TOP → s'.area a = s.area a) : s'.Text p text := by
  refine ⟨h.length, ?_⟩
  intro k hk
  have hlen := h.length
  rw [ha (p + k) (Nat.le_add_right _ _) (by omega), h.area k hk]

theorem Pages.Text.grow {F p : ℕ} {text : List UInt8} {s : Pages} (h : s.Text (p + 1) text)
    (hm : s.Mapped F (p + 1)) (hpage : s.page (p / 4096) = 0) {pag : ℕ+} {free : List ℕ+}
    (hfree : s.free = pag :: free) :
    { s with
      page := Function.update s.page (p / 4096) pag, free := free
      mem := Function.update s.mem (pag : ℕ) fun _ => 0 : Pages }.Text (p + 1) text := by
  refine h.congr ?_
  intro a ha haTop
  have hlt : a / 4096 < 32 := by
    rw [TOP_eq] at haTop
    omega
  have hlow : lowest (p + 1) ≤ a / 4096 := by
    unfold lowest
    rw [if_pos (lt_of_le_of_lt ha haTop)]
    exact Nat.div_le_div_right ha
  have hne : a / 4096 ≠ p / 4096 := by
    intro heq
    exact (hm.taken _ hlt).mpr hlow (heq ▸ hpage)
  have hfresh : s.page (a / 4096) ≠ (pag : ℕ) :=
    hm.fresh _ hlt pag (hfree ▸ List.mem_cons_self ..)
  unfold Pages.area
  dsimp only
  rw [Function.update_of_ne hne, Function.update_of_ne hfresh]

/-- The segment and the record do not matter to the pages. -/
theorem Pages.Mapped.segment {F p : ℕ} {s : Pages} (h : s.Mapped F p) {fs : Segment}
    {calls : List Call} : { s with fs := fs, calls := calls }.Mapped F p :=
  ⟨h.taken, h.left, h.distinct, h.fresh, h.nodup⟩

theorem Pages.Text.segment {p : ℕ} {text : List UInt8} {s : Pages} (h : s.Text p text)
    {fs : Segment} {calls : List Call} :
    { s with fs := fs, calls := calls : Pages }.Text p text := ⟨h.length, h.area⟩

/-! ### One byte -/

section
variable (u : Space) (fromKmem : ℕ) (tmp : Pointer)

/-- The segment while the bytes are read. -/
def reading (fromKmem : ℕ) : Segment := if fromKmem = 2 then .kernel else .user

/-- After `loadPage`. -/
theorem loadPage_spec {F : ℕ} {text : List UInt8} {c : Copy} (hm : c.toPages.Mapped F (c.p + 1))
    (ht : c.toPages.Text (c.p + 1) text) (hb : c.Bounded) :
    (∃ c', loadPage c = .ok c' ∧ c'.toPages.Mapped F c'.p ∧ c'.toPages.Text (c'.p + 1) text ∧
      c'.Bounded ∧ c'.page (c'.p / 4096) ≠ 0 ∧ c'.pag = c'.page (c'.p / 4096) ∧ c'.p = c.p ∧
      c'.offset = c.offset ∧ c'.fs = c.fs) ∨
    (∃ c', loadPage c = .error c' ∧ F + lowest c.p < 32 ∧ c'.Bounded ∧ c'.fs = c.fs) := by
  have hp : c.p < TOP := ht.le
  have hlt : c.p / PAGE_SIZE < MAX_ARG_PAGES := by
    rw [TOP_eq] at hp
    unfold PAGE_SIZE MAX_ARG_PAGES
    omega
  have hb' : Bounded (c.indices ++ [c.p / PAGE_SIZE]) c.offsets c.wrapped := hb.index hlt
  unfold loadPage
  dsimp only
  by_cases hpage : c.page (c.p / PAGE_SIZE) = 0
  · rw [if_neg (not_not.mpr hpage)]
    cases hfree : c.free with
    | nil => exact .inr ⟨_, rfl, hm.short hp hpage hfree, hb', rfl⟩
    | cons pag free =>
      have hself : Function.update c.page (c.p / 4096) (pag : ℕ) (c.p / 4096) = pag :=
        Function.update_self ..
      refine .inl ⟨_, rfl, hm.grow hp hpage hfree _, ?_, hb', ?_, ?_, rfl, rfl, rfl⟩
      · exact ht.grow hm hpage hfree
      · exact ne_of_eq_of_ne hself pag.ne_zero
      · exact hself.symm
  · rw [if_pos hpage]
    exact .inl ⟨_, rfl, hm.down hp hpage, ht, hb', hpage, rfl, rfl, rfl, rfl⟩

theorem store_sound {F : ℕ} {text : List UInt8} {c : Copy} (hm : c.toPages.Mapped F c.p)
    (ht : c.toPages.Text (c.p + 1) text) (hb : c.Bounded) (hpage : c.page (c.p / 4096) ≠ 0)
    (hpag : c.pag = c.page (c.p / 4096)) (ho : c.offset = (c.p % 4096 : ℕ)) (len : ℕ) :
    (store u tmp len c).Sound F ((string u c.fs tmp).stored.getD len 0 :: text) := by
  have hrange : 0 ≤ c.offset ∧ c.offset < (PAGE_SIZE : ℤ) := by
    rw [ho]
    have hmod : c.p % 4096 < 4096 := Nat.mod_lt _ (by decide)
    unfold PAGE_SIZE
    omega
  have hnat : c.offset.toNat = c.p % 4096 := by
    rw [ho]
    exact Int.toNat_natCast _
  have hstored := ht.store hm hpage ((string u c.fs tmp).stored.getD len 0)
  rw [← hpag, ← hnat] at hstored
  refine ⟨?_, hstored, hb.store hrange, hrange.1, ?_⟩
  · exact ⟨hm.taken, hm.left, hm.distinct, hm.fresh, hm.nodup⟩
  · intro _
    exact ⟨ht.le, ho, hpag⟩

/-- The byte `len` of the string is stored below the text. -/
theorem copyByte_spec {F : ℕ} {text : List UInt8} {c : Copy} (h : c.Sound F text) (hp : 0 < c.p)
    (hfs : c.fs = reading fromKmem) (len : ℕ) :
    (∃ c', copyByte u fromKmem .user .kernel tmp len c = .ok c' ∧
      c'.Sound F ((string u c.fs tmp).stored.getD len 0 :: text) ∧ c'.p + 1 = c.p ∧ c'.fs = c.fs) ∨
    (∃ c', copyByte u fromKmem .user .kernel tmp len c = .error c' ∧ F + lowest (c.p - 1) < 32 ∧
      c'.Bounded ∧ c'.fs = .user) := by
  obtain ⟨p, hpred⟩ : ∃ p, c.p = p + 1 := ⟨c.p - 1, by omega⟩
  have hm := h.mapped
  have ht := h.text
  rw [hpred] at hm ht
  have hpTop : p < TOP := ht.le
  have hwrap : (c.p + 4294967295) % 4294967296 = p := by
    rw [TOP_eq] at hpTop
    omega
  have hzero : (c.wrapped || c.p == 0) = false := by
    rw [h.bounded.wrapped, hpred]
    rfl
  have hkernel : (if fromKmem = 2 then Segment.kernel else
      if fromKmem = 2 then Segment.user else c.fs) = c.fs := by
    rw [hfs]
    unfold reading
    split <;> rfl
  have huser : (if fromKmem = 2 then Segment.user else c.fs) = .user := by
    rw [hfs]
    unfold reading
    split <;> rfl
  have hb := h.bounded
  have hoff := h.offset
  unfold copyByte
  rw [hwrap, hzero]
  dsimp only
  by_cases hload : c.offset - 1 < 0
  · rw [if_pos hload]
    rcases loadPage_spec (c := { c with
        wrapped := false, p := p, offset := (p % PAGE_SIZE : ℕ)
        fs := if fromKmem = 2 then .user else c.fs }) hm.segment ht.segment
        ⟨hb.indices, hb.offsets, rfl⟩ with
      ⟨c', hok, hm', ht', hb', hpage', hpag', hp', ho', hfs'⟩ | ⟨c', herr, hF, hb', hfs'⟩
    · have hback : (if fromKmem = 2 then Segment.kernel else c'.fs) = c.fs := by
        rw [hfs']
        exact hkernel
      have hoff' : c'.offset = (c'.p % 4096 : ℕ) := by
        rw [ho', hp']
        rfl
      have hs := store_sound u tmp (c := { c' with fs := c.fs }) hm'.segment ht'.segment hb'
        hpage' hpag' hoff' len
      rw [hok, Except.map, hback]
      refine .inl ⟨_, rfl, hs, ?_, rfl⟩
      show c'.p + 1 = c.p
      rw [hp', hpred]
    · rw [herr]
      rw [hpred]
      exact .inr ⟨c', rfl, hF, hb', hfs'.trans huser⟩
  · rw [if_neg hload]
    obtain ⟨hlt, hcur, hpag⟩ := h.cursor (by omega)
    have hdiv : c.p / 4096 = p / 4096 := by omega
    have hpage : c.page (p / 4096) ≠ 0 := by
      rw [hpred] at hlt hdiv
      have hlow : lowest (p + 1) ≤ p / 4096 := by
        unfold lowest
        rw [if_pos hlt, hdiv]
      exact (hm.taken _ (by rw [TOP_eq] at hpTop; omega)).mpr hlow
    rw [hdiv] at hpag
    have hs := store_sound u tmp (c := { c with wrapped := false, p := p, offset := c.offset - 1 })
      (hm.down hpTop hpage) ht ⟨hb.indices, hb.offsets, rfl⟩ hpage hpag
      (by dsimp only; omega) len
    exact .inl ⟨_, rfl, hs, hpred.symm, rfl⟩

/-! ### One string -/

/-- What holds of the state in which a part of a call ends. -/
def Ends (P : Copy → Prop) : Except Copy Copy → Prop
  | .ok c => P c
  | .error c => P c

/-- `fs` after a part of a call, and after a return of 0. -/
def Back (fromKmem : ℕ) : Except Copy Copy → Prop
  | .ok c => c.fs = reading fromKmem
  | .error c => c.fs = .user

theorem reading_old (fs : Segment) (h : fs = reading fromKmem) :
    (if fromKmem = 2 then Segment.user else fs) = .user ∧
      (if fromKmem = 2 then Segment.kernel else fs) = reading fromKmem := by
  rw [h]
  unfold reading
  split <;> exact ⟨rfl, rfl⟩

theorem loadPage_fs (c : Copy) : Ends (fun c' => c'.fs = c.fs) (loadPage c) := by
  unfold loadPage
  dsimp only
  split
  · rfl
  · split
    · rfl
    · rfl

theorem loadPage_wrapped (c : Copy) : Ends (fun c' => c'.wrapped = c.wrapped) (loadPage c) := by
  unfold loadPage
  dsimp only
  split
  · rfl
  · split
    · rfl
    · rfl

theorem Ends.map {P Q : Copy → Prop} {r : Except Copy Copy} (h : Ends P r) {f : Copy → Copy}
    (hok : ∀ c, P c → Q (f c)) (herr : ∀ c, P c → Q c) : Ends Q (r.map f) := by
  cases r with
  | error c => exact herr c h
  | ok c => exact hok c h

theorem Ends.back {fs : Segment} {r : Except Copy Copy} (h : Ends (fun c => c.fs = fs) r)
    {f : Copy → Copy} (hok : ∀ c, c.fs = fs → (f c).fs = reading fromKmem) (herr : fs = .user) :
    Back fromKmem (r.map f) := by
  cases r with
  | error c => exact h.trans herr
  | ok c => exact hok c h

theorem copyByte_back {c : Copy} (hfs : c.fs = reading fromKmem) (len : ℕ) :
    Back fromKmem (copyByte u fromKmem .user .kernel tmp len c) := by
  obtain ⟨huser, hread⟩ := reading_old fromKmem c.fs hfs
  unfold copyByte
  dsimp only
  split
  · refine (loadPage_fs _).back fromKmem ?_ huser
    intro c' hc'
    show (if fromKmem = 2 then Segment.kernel else c'.fs) = reading fromKmem
    rw [hc', ← hread]
    split <;> rfl
  · exact hfs

theorem copyByte_wrapped {c : Copy} (h : c.wrapped = true ∨ c.p = 0) (len : ℕ) :
    Ends (fun c' => c'.wrapped = true) (copyByte u fromKmem .user .kernel tmp len c) := by
  have hw : (c.wrapped || c.p == 0) = true := by
    rw [Bool.or_eq_true, beq_iff_eq]
    exact h
  unfold copyByte
  dsimp only
  split
  · refine (loadPage_wrapped _).map ?_ ?_
    · intro c' hc'
      exact hc'.trans hw
    · intro c' hc'
      exact hc'.trans hw
  · exact hw

/-- The bytes that a part of a call copies: all of them, or those for which there is a page; or `p`
    passes zero. -/
inductive Copied (F p : ℕ) (text blob : List UInt8) : Except Copy Copy → Prop where
  | done {c : Copy} (h : c.Sound F (blob ++ text)) (hp : c.p + blob.length = p) :
    Copied F p text blob (.ok c)
  | short {c : Copy} (hF : F + lowest (p - blob.length) < 32) (hb : c.Bounded) :
    Copied F p text blob (.error c)
  | wrapped {r : Except Copy Copy} (hlt : p < blob.length) (hF : 32 ≤ F)
    (hw : Ends (fun c => c.wrapped = true) r) : Copied F p text blob r

theorem copyBytes_back (len : ℕ) {c : Copy} (hfs : c.fs = reading fromKmem) :
    Back fromKmem (copyBytes u fromKmem .user .kernel tmp len c) := by
  induction len generalizing c with
  | zero => exact hfs
  | succ len ih =>
    have hbyte := copyByte_back u fromKmem tmp hfs len
    rw [copyBytes]
    cases hr : copyByte u fromKmem .user .kernel tmp len c with
    | error c' =>
      rw [hr] at hbyte
      exact hbyte
    | ok c' =>
      rw [hr] at hbyte
      exact ih hbyte

theorem copyBytes_wrapped (len : ℕ) {c : Copy} (h : c.wrapped = true) :
    Ends (fun c' => c'.wrapped = true) (copyBytes u fromKmem .user .kernel tmp len c) := by
  induction len generalizing c with
  | zero => exact h
  | succ len ih =>
    have hbyte := copyByte_wrapped u fromKmem tmp (.inl h) len
    rw [copyBytes]
    cases hr : copyByte u fromKmem .user .kernel tmp len c with
    | error c' =>
      rw [hr] at hbyte
      exact hbyte
    | ok c' =>
      rw [hr] at hbyte
      exact ih hbyte

/-- What is copied next comes before. -/
theorem Copied.more {F p q : ℕ} {text blob last : List UInt8} {r : Except Copy Copy}
    (h : Copied F q (last ++ text) blob r) (hq : q + last.length = p) :
    Copied F p text (blob ++ last) r := by
  cases h with
  | done h hp =>
    refine .done ?_ ?_
    · rw [List.append_assoc]
      exact h
    · rw [List.length_append, ← Nat.add_assoc, hp, hq]
  | short hF hb =>
    refine .short ?_ hb
    rw [List.length_append, ← hq, Nat.add_sub_add_right]
    exact hF
  | wrapped hlt hF hw =>
    refine .wrapped ?_ hF hw
    rw [List.length_append]
    omega

/-- By induction on the bytes that are left. -/
theorem copyBytes_spec {F : ℕ} (len : ℕ) {text : List UInt8} {c : Copy} (h : c.Sound F text)
    (hfs : c.fs = reading fromKmem)
    (hlen : len ≤ (string u (reading fromKmem) tmp).stored.length) :
    Copied F c.p text ((string u (reading fromKmem) tmp).stored.take len)
      (copyBytes u fromKmem .user .kernel tmp len c) := by
  induction len generalizing text c with
  | zero => exact .done h rfl
  | succ len ih =>
    have hlength : ((string u (reading fromKmem) tmp).stored.take (len + 1)).length = len + 1 := by
      rw [List.length_take]
      omega
    rw [copyBytes]
    by_cases hp : c.p = 0
    · have hw := copyByte_wrapped u fromKmem tmp (.inr hp) len
      have hF : 32 ≤ F := by
        have hm := h.mapped
        rw [hp] at hm
        exact hm.full
      refine .wrapped (by omega) hF ?_
      cases hr : copyByte u fromKmem .user .kernel tmp len c with
      | error c' =>
        rw [hr] at hw
        exact hw
      | ok c' =>
        rw [hr] at hw
        exact copyBytes_wrapped u fromKmem tmp len hw
    · rcases copyByte_spec u fromKmem tmp h (Nat.pos_of_ne_zero hp) hfs len with
        ⟨c', hr, hs, hp', hfs'⟩ | ⟨c', hr, hF, hb, -⟩
      · rw [hr]
        have hrest := ih hs (hfs'.trans hfs) (by omega)
        rw [hfs, List.getD_eq_getElem _ _ hlen] at hrest
        have htake : (string u (reading fromKmem) tmp).stored.take (len + 1) =
            (string u (reading fromKmem) tmp).stored.take len ++
              [(string u (reading fromKmem) tmp).stored[len]] :=
          List.take_succ_eq_append_getElem hlen
        rw [htake]
        exact hrest.more hp'
      · rw [hr]
        have hlow : lowest (c.p - (len + 1)) ≤ lowest (c.p - 1) := lowest_mono (by omega)
        refine .short ?_ hb
        rw [hlength]
        omega

end

/-! ### All strings -/

section
variable (u : Space) (fromKmem : ℕ) (argv : Vector)

/-- The strings that a call finds. -/
def Reads (strs : List CString) : Prop :=
  ∀ i (h : i < strs.length), ∃ tmp,
    getFsLong u (if fromKmem = 1 then .kernel else reading fromKmem) argv i = some tmp ∧
    string u (reading fromKmem) tmp = strs[i]

variable {u fromKmem argv}

theorem Reads.init {strs : List CString} {s : CString} (h : Reads u fromKmem argv (strs ++ [s])) :
    Reads u fromKmem argv strs := by
  intro i hi
  obtain ⟨tmp, htmp, hs⟩ := h i (by rw [List.length_append]; omega)
  exact ⟨tmp, htmp, by rw [hs, List.getElem_append_left hi]⟩

theorem Reads.last {strs : List CString} {s : CString} (h : Reads u fromKmem argv (strs ++ [s])) :
    ∃ tmp, getFsLong u (if fromKmem = 1 then .kernel else reading fromKmem) argv strs.length =
      some tmp ∧ string u (reading fromKmem) tmp = s := by
  obtain ⟨tmp, htmp, hs⟩ := h strs.length (by rw [List.length_append]; exact Nat.lt_succ_self _)
  exact ⟨tmp, htmp, by rw [hs, List.getElem_concat_length rfl]⟩

/-- One turn of the loop: no difference of unsigned numbers is negative. -/
theorem copyLoop_succ {c : Copy} (hfs : c.fs = reading fromKmem) {argc : ℕ} {tmp : Pointer}
    (htmp : getFsLong u (if fromKmem = 1 then .kernel else reading fromKmem) argv argc = some tmp) :
    copyLoop u fromKmem .user .kernel argv (argc + 1) c =
      match copyBytes u fromKmem .user .kernel tmp (string u (reading fromKmem) tmp).size c with
        | .error c => some (.error c)
        | .ok c => copyLoop u fromKmem .user .kernel argv argc c := by
  have hsame : (if fromKmem = 1 then Segment.user else c.fs) = c.fs := by
    rw [hfs]
    unfold reading
    split
    · rename_i h
      rw [h]
      rfl
    · rfl
  rw [copyLoop, hfs, htmp]
  dsimp only
  rw [if_neg (Nat.not_lt_zero _), ← hfs, hsame]

theorem copyLoop_back {strs : List CString} (h : Reads u fromKmem argv strs) {c : Copy}
    (hfs : c.fs = reading fromKmem) :
    ∃ r, copyLoop u fromKmem .user .kernel argv strs.length c = some r ∧ Back fromKmem r ∧
      (c.wrapped = true → Ends (fun c => c.wrapped = true) r) := by
  induction strs using List.reverseRecOn generalizing c with
  | nil => exact ⟨_, rfl, hfs, id⟩
  | append_singleton strs s ih =>
    obtain ⟨tmp, htmp, -⟩ := h.last
    rw [List.length_append, List.length_singleton, copyLoop_succ hfs htmp]
    have hback := copyBytes_back u fromKmem tmp (string u (reading fromKmem) tmp).size hfs
    have hwrapped (hw : c.wrapped = true) :=
      copyBytes_wrapped u fromKmem tmp (string u (reading fromKmem) tmp).size hw
    cases hr : copyBytes u fromKmem .user .kernel tmp (string u (reading fromKmem) tmp).size c with
    | error c' =>
      rw [hr] at hback hwrapped
      exact ⟨_, rfl, hback, hwrapped⟩
    | ok c' =>
      rw [hr] at hback hwrapped
      obtain ⟨r, hr', hb, hw⟩ := ih h.init hback
      exact ⟨r, hr', hb, fun hc => hw (hwrapped hc)⟩

/-- By induction on the strings, from the last one on. -/
theorem copyLoop_spec {F : ℕ} {strs : List CString} (h : Reads u fromKmem argv strs)
    {text : List UInt8} {c : Copy} (hs : c.Sound F text) (hfs : c.fs = reading fromKmem) :
    ∃ r, copyLoop u fromKmem .user .kernel argv strs.length c = some r ∧ Back fromKmem r ∧
      Copied F c.p text (strs.flatMap CString.stored) r := by
  induction strs using List.reverseRecOn generalizing text c with
  | nil => exact ⟨_, rfl, hfs, .done hs rfl⟩
  | append_singleton strs s ih =>
    obtain ⟨tmp, htmp, hstr⟩ := h.last
    have hbytes := copyBytes_spec u fromKmem tmp s.size hs hfs (hstr ▸ le_rfl)
    have hback := copyBytes_back u fromKmem tmp s.size hfs
    rw [List.length_append, List.length_singleton, copyLoop_succ hfs htmp]
    rw [hstr] at hbytes ⊢
    rw [CString.size, List.take_length] at hbytes
    rw [CString.size] at hback ⊢
    rw [List.flatMap_append, List.flatMap_singleton]
    cases hr : copyBytes u fromKmem .user .kernel tmp s.stored.length c with
    | error c' =>
      rw [hr] at hback hbytes
      refine ⟨_, rfl, hback, ?_⟩
      cases hbytes with
      | short hF hb =>
        refine .short (lt_of_le_of_lt (Nat.add_le_add_left (lowest_mono ?_) F) hF) hb
        rw [List.length_append]
        omega
      | wrapped hlt hF hw =>
        refine .wrapped ?_ hF hw
        rw [List.length_append]
        omega
    | ok c' =>
      rw [hr] at hback hbytes
      cases hbytes with
      | done hs' hp =>
        obtain ⟨r, hr', hb, hcopied⟩ := ih h.init hs' hback
        exact ⟨r, hr', hb, hcopied.more hp⟩
      | wrapped hlt hF hw =>
        obtain ⟨r, hr', hb, hw'⟩ := copyLoop_back h.init hback
        refine ⟨r, hr', hb, .wrapped ?_ hF (hw' hw)⟩
        rw [List.length_append]
        omega

end

/-! ### One call -/

/-- The bytes of all the strings. -/
def blob (strs : List CString) : List UInt8 := strs.flatMap CString.stored

def Call.InBounds (c : Call) : Prop :=
  (c.result = 0 ∨ 0 < c.result ∧ c.result ≤ c.before) ∧ Bounded c.indices c.offsets c.wrapped

/-- Between two calls. -/
structure Pages.Ready (F p : ℕ) (text : List UInt8) (s : Pages) : Prop where
  mapped : s.Mapped F p
  text : s.Text p text
  fs : s.fs = .user

section
variable {u : Space} {fromKmem : ℕ} {argv : Vector} {strs : List CString}

theorem inBounds_zero : (⟨0, 0, [], [], false⟩ : Call).InBounds :=
  ⟨.inl rfl, fun _ h => absurd h List.not_mem_nil, fun _ h => absurd h List.not_mem_nil, rfl⟩

theorem copyStrings_zero (argc : ℤ) (s : Pages) :
    copyStrings u argc argv s 0 fromKmem =
      some ({ s with calls := s.calls ++ [⟨0, 0, [], [], false⟩] }, 0) :=
  if_pos rfl

/-- The call always returns, with `fs` as it was. -/
theorem copyStrings_some (h : Reads u fromKmem argv strs) {argc : ℤ} (hargc : argc.toNat = strs.length)
    {s : Pages} (hfs : s.fs = .user) (p : ℕ) :
    ∃ s' r call, copyStrings u argc argv s p fromKmem = some (s', r) ∧ s'.fs = .user ∧
      s'.calls = s.calls ++ [call] := by
  unfold copyStrings
  by_cases hp : p = 0
  · rw [if_pos hp]
    exact ⟨_, _, _, rfl, hfs, rfl⟩
  · rw [if_neg hp, hfs, hargc]
    dsimp only
    obtain ⟨r, hr, hback, -⟩ := copyLoop_back h (c := { s with
      fs := if fromKmem = 2 then .kernel else .user
      p := p, pag := 0, offset := 0, indices := [], offsets := [], wrapped := false }) rfl
    rw [hr, Option.map_some]
    cases r with
    | error c => exact ⟨_, _, _, rfl, hback, rfl⟩
    | ok c =>
      refine ⟨_, _, _, rfl, ?_, rfl⟩
      exact (reading_old fromKmem c.fs hback).1

/-- A call copies all the strings, or stops for want of a page, or goes beyond the array. -/
theorem copyStrings_spec (h : Reads u fromKmem argv strs) {argc : ℤ} (hargc : argc.toNat = strs.length)
    {F p : ℕ} {text : List UInt8} {s : Pages} (hs : s.Ready F p text) (hp : 0 < p) :
    ∃ s' r call, copyStrings u argc argv s p fromKmem = some (s', r) ∧ s'.fs = .user ∧
      s'.calls = s.calls ++ [call] ∧
      ((call.InBounds ∧ r + (blob strs).length = p ∧ s'.Ready F r (blob strs ++ text)) ∨
        (F + lowest (p - (blob strs).length) < 32 ∧ call.InBounds ∧ r = 0) ∨
        (p < (blob strs).length ∧ 32 ≤ F ∧ ¬ call.InBounds)) := by
  have hsound : Copy.Sound F text { s with
      fs := if fromKmem = 2 then .kernel else .user
      p := p, pag := 0, offset := 0, indices := [], offsets := [], wrapped := false } :=
    ⟨hs.mapped.segment, hs.text.segment, ⟨fun _ h => absurd h List.not_mem_nil,
      fun _ h => absurd h List.not_mem_nil, rfl⟩, le_rfl, fun h => absurd rfl h⟩
  obtain ⟨r, hr, hback, hcopied⟩ := copyLoop_spec h hsound rfl
  unfold copyStrings
  rw [if_neg hp.ne', hs.fs, hargc]
  dsimp only
  rw [hr, Option.map_some]
  cases r with
  | error c =>
    refine ⟨_, _, _, rfl, hback, rfl, ?_⟩
    cases hcopied with
    | short hF hb => exact .inr (.inl ⟨hF, ⟨.inl rfl, hb⟩, rfl⟩)
    | wrapped hlt hF hw =>
      refine .inr (.inr ⟨hlt, hF, ?_⟩)
      intro hin
      exact absurd (hw.symm.trans hin.2.wrapped) (by decide)
  | ok c =>
    have hfs : (if fromKmem = 2 then Segment.user else c.fs) = .user :=
      (reading_old fromKmem c.fs hback).1
    refine ⟨_, _, _, rfl, hfs, rfl, ?_⟩
    cases hcopied with
    | done h' hp' =>
      refine .inl ⟨⟨?_, h'.bounded⟩, hp', ⟨h'.mapped.segment, h'.text.segment, hfs⟩⟩
      dsimp only at hp' ⊢
      omega
    | wrapped hlt hF hw =>
      refine .inr (.inr ⟨hlt, hF, ?_⟩)
      intro hin
      exact absurd (hw.symm.trans hin.2.wrapped) (by decide)

end

end Linux011.Exec
