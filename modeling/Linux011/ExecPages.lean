import Linux011.ForkRuns

set_option autoImplicit false

/-!
# The argument pages of exec (change_ldt and do_execve of fs/exec.c)

`do_execve` collects the arguments in pages of the kernel's, frees the page tables of the task, and
`change_ldt` maps the pages at the end of the data segment. Nothing sleeps from there on up to the
first store of `create_tables`. An index that leads `copy_strings` beyond 16MB faults in the kernel and
is left out.
-/
namespace Linux011.ExecPages
open Memory FiniteCount
open Exec (Header)
open Fork (Task Emptied freeTables_emptied codeLimitOf)

def MAX_ARG_PAGES : ℕ := 32

/-- `data_base` for the page `i`. -/
def dataBase (base i : ℕ) : ℕ := base + 67108864 - (MAX_ARG_PAGES - i) * 4096

/-- The loop of `change_ldt` from the page `n - 1` down: what the calls of `put_page` return, which
    nobody looks at, and the pages and the memory afterwards. -/
def changeLdt (page : ℕ → Option ℕ) (base : ℕ) : ℕ → State → List Bool × State
  | 0, s => ([], s)
  | i + 1, s => match page i with
    | none => changeLdt page base i s
    | some p => match putPage p (dataBase base i) s.mm with
      | .ok _ m =>
        (true :: (changeLdt page base i ⟨s.held.erase p, m⟩).1,
          (changeLdt page base i ⟨s.held.erase p, m⟩).2)
      | .stop _ m =>
        (false :: (changeLdt page base i ⟨s.held, m⟩).1, (changeLdt page base i ⟨s.held, m⟩).2)

/-- `args` holds the array `page` of `do_execve` for the task in each slot. -/
structure System where
  kernel : Fork.Kernel
  args : ℕ → ℕ → Option ℕ

/-- The array of a task that is not in `do_execve`. -/
def noArgs (_ : ℕ) : Option ℕ := none

/-- After `change_ldt`. -/
def afterChange (σ : System) (s : ℕ) (m : Mm) (cur : Task) : System where
  kernel := { σ.kernel with
    held := (changeLdt (σ.args s) (slotBase s) MAX_ARG_PAGES ⟨σ.kernel.held, m⟩).2.held
    mm := (changeLdt (σ.args s) (slotBase s) MAX_ARG_PAGES ⟨σ.kernel.held, m⟩).2.mm
    task := Function.update σ.kernel.task s (some cur) }
  args := Function.update σ.args s noArgs

/-- The first store of `create_tables`, at the address `sp` of the new segment. The task exits if the
    page for it is not to be had. -/
def firstStore (σ : System) (s : ℕ) (cur : Task) (sp : ℕ) : Option System :=
  if present (entryAt σ.kernel.mm (slotBase s + sp)) then some σ
  else match getEmptyPage (slotBase s + sp) σ.kernel.mm with
    | .ok _ m => some { σ with kernel := { σ.kernel with mm := m } }
    | .stop .oom m =>
      (Fork.doExit { σ.kernel with mm := m } s cur).map fun k => { σ with kernel := k }
    | .stop _ _ => none

/-- The new limits of the segments. -/
def newLimits (cur : Task) (text : ℕ) : Task :=
  { cur with codeLimit := codeLimitOf text, dataLimit := 67108864 }

/-- The end of `do_execve`. -/
def doExecve (σ : System) (s : ℕ) (cur : Task) (text sp : ℕ) : Option System :=
  match Fork.freeTables s cur σ.kernel.mm with
  | .stop _ _ => none
  | .ok _ m => firstStore (afterChange σ s m (newLimits cur text)) s (newLimits cur text) sp

/-- The page is not in the array of a task. -/
def NotArg (σ : System) : Call → Prop
  | .freePage page => ∀ s i, σ.args s i ≠ some page
  | .putPage page _ => ∀ s i, σ.args s i ≠ some page
  | _ => True

/-- What `do_execve` finds in its input: the header of a file, or a string that leads `copy_strings` to
    `page[i]`. -/
inductive Input where
  | header (ex : Header)
  | index (i : ℕ)

/-- The code segment lies in its slot, and the index in the array. -/
def Fits : Input → Prop
  | .header ex => Fork.Confined ex
  | .index i => i < MAX_ARG_PAGES

/-- The word `page[i]`, when the array begins at the byte `off` of the page of the task. -/
def pageWord (t : Task) (off i : ℕ) : ℕ := t.page * 4096 + off + 4 * i

/-- A word of memory by its address, which the kernel's tables map to itself. -/
def wordOf (m : Mm) (a : ℕ) : ℕ := m.mem (a / 4096) (a % 4096 / 4)

/-- What tasks do with the memory and with their arguments, when the input of `do_execve` has the
    property `P`. -/
inductive Step (P : Input → Prop) (σ : System) : System → Prop
  | page {s : ℕ} {t : Task} {c : Call} {st : State} (ht : σ.kernel.task s = some t)
      (hz : t.info.state ≠ .zombie) (ho : t.Calls σ.kernel s c) (ha : NotArg σ c)
      (hc : c.Allowed ⟨σ.kernel.held, σ.kernel.mm⟩)
      (hr : outcome σ.kernel.held (c.run ⟨σ.kernel.held, σ.kernel.mm⟩) = some st) :
      Step P σ { σ with kernel := { σ.kernel with held := st.held, mm := st.mm } }
  | fork {s : ℕ} {t : Task} {pid : ℤ} {k' : Fork.Kernel} (ht : σ.kernel.task s = some t)
      (hz : t.info.state ≠ .zombie) (hr : Fork.sysFork σ.kernel s t = .forked pid k') :
      Step P σ { σ with kernel := k' }
  | again {s : ℕ} {t : Task} {k' : Fork.Kernel} (ht : σ.kernel.task s = some t)
      (hz : t.info.state ≠ .zombie) (hr : Fork.sysFork σ.kernel s t = .again k') :
      Step P σ { σ with kernel := k' }
  /-- `copy_strings` takes a page. -/
  | copyStrings {s i page : ℕ} {t : Task} {m : Mm} (ht : σ.kernel.task s = some t)
      (hz : t.info.state ≠ .zombie) (hP : P (.index i)) (hi : i < MAX_ARG_PAGES)
      (hn : σ.args s i = none) (hg : getFreePage σ.kernel.mm = some (page, m)) :
      Step P σ ⟨{ σ.kernel with held := insert page σ.kernel.held, mm := m },
        Function.update σ.args s (Function.update (σ.args s) i (some page))⟩
  /-- `--p` has passed zero, and `page[i]` lies behind the array. It is zero, and takes a page. -/
  | behind {s i off page : ℕ} {t : Task} {m : Mm} (ht : σ.kernel.task s = some t)
      (hz : t.info.state ≠ .zombie) (hP : P (.index i)) (hi : MAX_ARG_PAGES ≤ i)
      (hoff : off + 4 * MAX_ARG_PAGES ≤ 4096) (ha : pageWord t off i < 16777216)
      (hn : wordOf σ.kernel.mm (pageWord t off i) = 0)
      (hg : getFreePage σ.kernel.mm = some (page, m)) :
      Step P σ ⟨{ σ.kernel with
          held := insert page σ.kernel.held
          mm := m.write (pageWord t off i / 4096) (pageWord t off i % 4096 / 4) (page * 4096) },
        Function.update σ.args s (Function.update (σ.args s) i (some page))⟩
  /-- It is something else, which is taken for the address of a page. -/
  | astray {s i off offset v : ℕ} {t : Task} (ht : σ.kernel.task s = some t)
      (hz : t.info.state ≠ .zombie) (hP : P (.index i)) (hi : MAX_ARG_PAGES ≤ i)
      (hoff : off + 4 * MAX_ARG_PAGES ≤ 4096) (ha : pageWord t off i < 16777216)
      (hn : wordOf σ.kernel.mm (pageWord t off i) ≠ 0) (ho : offset < 4096) :
      Step P σ { σ with kernel := { σ.kernel with
        mm := σ.kernel.mm.write ((wordOf σ.kernel.mm (pageWord t off i) + offset) / 4096)
          ((wordOf σ.kernel.mm (pageWord t off i) + offset) % 4096 / 4) v } }
  /-- After `exec_error1` the pages are freed. -/
  | execError {s i page : ℕ} {t : Task} {m : Mm} (ht : σ.kernel.task s = some t)
      (hz : t.info.state ≠ .zombie) (hp : σ.args s i = some page)
      (hr : freePage page σ.kernel.mm = .ok () m) :
      Step P σ ⟨{ σ.kernel with held := σ.kernel.held.erase page, mm := m },
        Function.update σ.args s (Function.update (σ.args s) i none)⟩
  | exec {s size sp : ℕ} {ex : Header} {t : Task} {σ' : System} (ht : σ.kernel.task s = some t)
      (hz : t.info.state ≠ .zombie) (hw : ex.text < 4294967296) (hv : ex.Valid size)
      (hP : P (.header ex)) (hsp : sp < 67108864) (hr : doExecve σ s t ex.text sp = some σ') :
      Step P σ σ'
  /-- The pages of a task that dies within `do_execve` are lost. -/
  | exit {s : ℕ} {t : Task} {k' : Fork.Kernel} (ht : σ.kernel.task s = some t)
      (hz : t.info.state ≠ .zombie) (hr : Fork.doExit σ.kernel s t = some k') :
      Step P σ ⟨k', Function.update σ.args s noArgs⟩
  | release {s : ℕ} {t : Task} {k' : Fork.Kernel} (hs : 1 ≤ s) (ht : σ.kernel.task s = some t)
      (hz : t.info.state = .zombie) (hr : Fork.release σ.kernel s t = some k') :
      Step P σ { σ with kernel := k' }
  | others {k' : Fork.Kernel} (hheld : k'.held = σ.kernel.held) (hmm : k'.mm = σ.kernel.mm)
      (htask : ∀ i, (k'.task i).map Task.memory = (σ.kernel.task i).map Task.memory) :
      Step P σ { σ with kernel := k' }

inductive Reachable (P : Input → Prop) (σ₀ : System) : System → Prop
  | init : Reachable P σ₀ σ₀
  | step {σ σ' : System} (h : Reachable P σ₀ σ) (hs : Step P σ σ') : Reachable P σ₀ σ'

/-- At boot nobody is in `do_execve`. -/
structure Start (startMem endMem : ℕ) (mem : ℕ → ℕ → ℕ) (σ : System) : Prop where
  kernel : Fork.Start startMem endMem mem σ.kernel
  args : ∀ s i, σ.args s i = none

variable {lo : ℕ} {σ σ' : System} {k k' : Fork.Kernel} {s : ℕ} {t : Task} {m m' : Mm}
  {held : Finset ℕ} {c : Call}

/-- The task in the slot has a page. -/
def Mapped (m : Mm) (s : ℕ) : Prop :=
  ∃ d ∈ userDirs, d / 16 = s ∧ ∃ i < 1024, present (pte m d i)

/-- `gap` is the slot of a task between `change_ldt` and the store that follows it. -/
structure Sound (lo : ℕ) (gap : Option ℕ) (σ : System) : Prop where
  kernel : Fork.Sound lo σ.kernel
  args : ∀ s i p, σ.args s i = some p → i < MAX_ARG_PAGES ∧ p ∈ σ.kernel.held ∧
    Fork.notTask σ.kernel p ∧ ∃ t, σ.kernel.task s = some t ∧ t.info.state ≠ .zombie
  apart : ∀ s i s' i' p, σ.args s i = some p → σ.args s' i' = some p → s = s' ∧ i = i'
  mapped : ∀ s t, gap ≠ some s → 1 ≤ s → σ.kernel.task s = some t → t.info.state ≠ .zombie →
    Mapped σ.kernel.mm s
  first : ∀ t, σ.kernel.task 0 = some t → 1 ≤ dirs t.dataLimit

/-! ### change_ldt -/

section ChangeLdt

theorem dataBase_place {i : ℕ} (hs : s < 64) (hi : i < MAX_ARG_PAGES) :
    dirIndex (dataBase (slotBase s) i) = 16 * s + 15 ∧
      tableIndex (dataBase (slotBase s) i) = 992 + i := by
  unfold MAX_ARG_PAGES at hi
  unfold dirIndex tableIndex dataBase slotBase MAX_ARG_PAGES
  omega

/-- A table that is there, or can be had. -/
def HasTable (m : Mm) (s : ℕ) : Prop :=
  present (m.mem 0 (16 * s + 15)) ∨ (getFreePage m).isSome

theorem putPage_ok (p address : ℕ)
    (h : present (m.mem 0 (dirIndex address)) ∨ (getFreePage m).isSome) :
    ∃ m', putPage p address m = .ok () m' := by
  unfold putPage
  by_cases hp : present (m.mem 0 (dirIndex address))
  · exact ⟨_, if_pos hp⟩
  · obtain ⟨r, hr⟩ := Option.isSome_iff_exists.1 (h.resolve_left hp)
    simp only [if_neg hp, hr]
    exact ⟨_, rfl⟩

/-- The entries of the slot `s` after the pages below `n` have been mapped. -/
def mappedArgs (page : ℕ → Option ℕ) (f : ℕ → ℕ → ℕ) (s n : ℕ) : ℕ → ℕ → ℕ := fun d i =>
  if d = 16 * s + 15 ∧ 992 ≤ i ∧ i < 992 + n then ((page (i - 992)).map entryOf).getD (f d i)
  else f d i

theorem mappedArgs_none {page : ℕ → Option ℕ} {f : ℕ → ℕ → ℕ} {n : ℕ} (hp : page n = none) :
    mappedArgs page f s (n + 1) = mappedArgs page f s n := by
  funext d i
  unfold mappedArgs
  by_cases hi : i = 992 + n
  · have hnone : page (i - 992) = none := by
      rw [hi, Nat.add_sub_cancel_left]
      exact hp
    rw [hnone, Option.map_none, Option.getD_none, ite_self, ite_self]
  · exact if_congr (by omega) rfl rfl

theorem mappedArgs_some {page : ℕ → Option ℕ} {f : ℕ → ℕ → ℕ} {n p : ℕ} (hp : page n = some p) :
    mappedArgs page f s (n + 1) =
      mappedArgs page (setAt f (16 * s + 15) (992 + n) (entryOf p)) s n := by
  funext d i
  unfold mappedArgs setAt
  by_cases hi : d = 16 * s + 15 ∧ i = 992 + n
  · have hsome : page (i - 992) = some p := by
      rw [hi.2, Nat.add_sub_cancel_left]
      exact hp
    rw [if_pos (by omega), if_neg (by omega), if_pos hi, hsome]
    rfl
  · rw [if_neg hi]
    exact if_congr (by omega) rfl rfl

/-- By induction on the pages that are left: the first call of `put_page` finds a free page for its
    table, and the others find the table. -/
theorem changeLdt_spec {page : ℕ → Option ℕ} {n : ℕ} (h1 : 1 ≤ s) (hs : s < 64)
    (hn : n ≤ MAX_ARG_PAGES) (h : Inv lo held m) (htable : HasTable m s)
    (hempty : ∀ i < n, ¬present (pte m (16 * s + 15) (992 + i)))
    (hheld : ∀ i < n, ∀ p ∈ page i, p ∈ held)
    (hinj : ∀ i < n, ∀ j < n, ∀ p ∈ page i, p ∈ page j → i = j) :
    (∀ ok ∈ (changeLdt page (slotBase s) n ⟨held, m⟩).1, ok = true) ∧
      Inv lo (changeLdt page (slotBase s) n ⟨held, m⟩).2.held
        (changeLdt page (slotBase s) n ⟨held, m⟩).2.mm ∧
      (∀ d ∈ userDirs, ∀ i < 1024, pte (changeLdt page (slotBase s) n ⟨held, m⟩).2.mm d i =
        mappedArgs page (pte m) s n d i) ∧
      DirsWithin (fun d => d = 16 * s + 15) m (changeLdt page (slotBase s) n ⟨held, m⟩).2.mm ∧
      ∀ p, p ∈ (changeLdt page (slotBase s) n ⟨held, m⟩).2.held ↔
        p ∈ held ∧ ∀ i < n, page i ≠ some p := by
  induction n generalizing m held with
  | zero =>
    refine ⟨nofun, h, fun d _ i _ => ?_, .refl, fun p => ?_⟩
    · exact (if_neg (by omega)).symm
    · simp [changeLdt]
  | succ n ih =>
    have hn' : n ≤ MAX_ARG_PAGES := by omega
    have hlast : n < n + 1 := Nat.lt_succ_self n
    unfold changeLdt
    cases hp : page n with
    | none =>
      obtain ⟨hok, hinv, hpte, hdirs, hrest⟩ := ih hn' h htable (fun i hi => hempty i (by omega))
        (fun i hi => hheld i (by omega)) fun i hi j hj => hinj i (by omega) j (by omega)
      refine ⟨hok, hinv, fun d hd i hi => ?_, hdirs,
        fun p => (hrest p).trans (and_congr_right fun _ => ?_)⟩
      · rw [mappedArgs_none hp]
        exact hpte d hd i hi
      · refine ⟨fun hne i hi => ?_, fun hne i hi => hne i (by omega)⟩
        obtain hlt | rfl := Nat.lt_succ_iff_lt_or_eq.1 hi
        · exact hne i hlt
        · rw [hp]
          exact nofun
    | some p =>
      obtain ⟨hdir, hindex⟩ := dataBase_place hs (by omega : n < MAX_ARG_PAGES)
      have hd : dirIndex (dataBase (slotBase s) n) ∈ userDirs := by
        rw [hdir]
        exact mem_userDirs.2 (by omega)
      obtain ⟨m₁, hput⟩ := putPage_ok p (dataBase (slotBase s) n) (by
        rw [hdir]
        exact htable)
      have hsat := putPage_sat h hd (by rw [hdir, hindex]; exact hempty n hlast) (hheld n hlast p hp)
      rw [hput] at hsat
      have hl : Leads lo held (held.erase p) m m₁ _ := hsat
      rw [hdir, hindex] at hl
      rw [hdir] at hd
      have hnew : pte m₁ (16 * s + 15) (992 + n) = entryOf p := by
        rw [hl.pte _ hd _ (by unfold MAX_ARG_PAGES at hn; omega)]
        exact if_pos ⟨rfl, rfl⟩
      have htable₁ : HasTable m₁ s := by
        refine .inl (present_dir_of_pte (i := 992 + n) ?_)
        rw [hnew]
        exact present_entryOf p
      have hempty₁ : ∀ i < n, ¬present (pte m₁ (16 * s + 15) (992 + i)) := by
        intro i hi
        rw [hl.pte _ hd _ (by unfold MAX_ARG_PAGES at hn; omega)]
        unfold setAt
        rw [if_neg (by omega)]
        exact hempty i (by omega)
      have hheld₁ : ∀ i < n, ∀ q ∈ page i, q ∈ held.erase p := by
        intro i hi q hq
        refine Finset.mem_erase.2 ⟨?_, hheld i (by omega) q hq⟩
        rintro rfl
        have := hinj i (by omega) n hlast q hq hp
        omega
      have hdirs₁ : DirsWithin (fun d => d = 16 * s + 15) m
          (putPage p (dataBase (slotBase s) n) m).mm := putPage_dirs hdir h.tablesApart
      rw [hput] at hdirs₁
      obtain ⟨hok, hinv, hpte, hdirs, hrest⟩ := ih hn' hl.inv htable₁ hempty₁ hheld₁
        fun i hi j hj => hinj i (by omega) j (by omega)
      simp only [hput]
      refine ⟨?_, hinv, fun d hd' i hi => ?_, hdirs₁.trans hdirs, fun q => (hrest q).trans ?_⟩
      · intro ok hmem
        obtain rfl | hmem := List.mem_cons.1 hmem
        · rfl
        · exact hok ok hmem
      · rw [hpte d hd' i hi, mappedArgs_some hp]
        unfold mappedArgs
        rw [hl.pte d hd' i hi]
      · rw [Finset.mem_erase]
        constructor
        · rintro ⟨⟨hqp, hq⟩, hne⟩
          refine ⟨hq, fun i hi hc => ?_⟩
          obtain hlt | rfl := Nat.lt_succ_iff_lt_or_eq.1 hi
          · exact hne i hlt hc
          · exact hqp (Option.some.inj (hc.symm.trans hp))
        · rintro ⟨hq, hne⟩
          exact ⟨⟨fun hc => hne n hlast (hc ▸ hp), hq⟩, fun i hi => hne i (by omega)⟩

end ChangeLdt

/-! ### free_page_tables -/

section FreeTables

/-- A page table of the task is a free page now. -/
theorem emptied_freed {m' : Mm} (he : Emptied lo k s m') (h : Fork.Sound lo k)
    (hm : Mapped k.mm s) : (getFreePage m').isSome := by
  obtain ⟨d, hd, hslot, i, hi, hp⟩ := hm
  have hinv := h.good.inv
  have hpd := present_dir_of_pte hp
  obtain ⟨hlo, hhi, -⟩ := hinv.table d hd hpd
  obtain ⟨-, hpage, hheld⟩ := hinv.table_only hd hpd
  have hlow := hinv.low
  have hhigh := hinv.high
  have htables : tableRefs m' (frame (k.mm.mem 0 d)) = 0 := by
    refine tally_eq_zero.2 fun e hed hmap => ?_
    by_cases hes : e / 16 = s
    · rw [he.inside e hed hes] at hmap
      exact present_zero hmap.1
    · rw [he.outside e hes] at hmap
      have := hinv.table_inj hed hd hmap.1 hpd hmap.2
      omega
  have hpages : pageRefs m' (frame (k.mm.mem 0 d)) = 0 := by
    refine tally_eq_zero.2 fun x hx hmap => ?_
    obtain ⟨hx₁, hx₂⟩ := mem_userEntries.1 (show (x.1, x.2) ∈ userEntries from hx)
    rw [he.pte x.1 hx₁ x.2 hx₂] at hmap
    split at hmap
    · exact present_zero hmap.1
    · exact tally_eq_zero.1 hpage x hx hmap
  have hcount := he.inv.count _ hlo (by rw [he.high]; exact hhi)
  rw [hpages, htables, heldRefs_eq_zero.2 hheld] at hcount
  exact getFreePage_isSome (by unfold PAGING_PAGES; omega) hcount

end FreeTables

/-! ### Pages stay where they are -/

section Keeps

/-- What is mapped stays mapped. -/
def Keeps (m m' : Mm) : Prop :=
  ∀ d ∈ userDirs, ∀ i < 1024, present (pte m d i) → present (pte m' d i)

theorem Keeps.refl : Keeps m m := fun _ _ _ _ hp => hp

theorem Keeps.mapped (h : Keeps m m') (hm : Mapped m s) : Mapped m' s := by
  obtain ⟨d, hd, hslot, i, hi, hp⟩ := hm
  exact ⟨d, hd, hslot, i, hi, h d hd i hi hp⟩

theorem keeps_of_leads {held' : Finset ℕ} {new : ℕ → ℕ → ℕ} (h : Leads lo held held' m m' new)
    (hnew : ∀ d i, present (pte m d i) → present (new d i)) : Keeps m m' := by
  intro d hd i hi hp
  rw [h.pte d hd i hi]
  exact hnew d i hp

theorem present_setAt {d i v : ℕ} {f : ℕ → ℕ → ℕ}
    (hf : ∀ d i, present (pte m d i) → present (f d i)) (hv : present v) :
    ∀ e j, present (pte m e j) → present (setAt f d i v e j) := by
  intro e j hp
  unfold setAt
  split
  · exact hv
  · exact hf e j hp

theorem unWp_keeps (h : Inv lo held m) {d i : ℕ} (hd : d ∈ userDirs) (hi : i < 1024)
    (hp : present (m.mem 0 d)) (hpe : present (pte m d i)) :
    (unWpPage (frame (m.mem 0 d)) i m).Sat (fun _ m' => Keeps m m') (fun _ m' => Keeps m m') := by
  refine (unWpPage_sat h hd hi hp hpe).mono ?_ (fun _ _ hm => hm ▸ .refl)
  rintro _ m' (⟨_, _, hl⟩ | ⟨page, _, _, _, _, hl⟩)
  · exact keeps_of_leads hl (present_setAt (fun _ _ hp => hp) ((present_setWrite _).2 hpe))
  · exact keeps_of_leads hl (present_setAt (fun _ _ hp => hp) (present_entryOf page))

theorem writeVerify_keeps (h : Inv lo held m) {address : ℕ} :
    (writeVerify address m).Sat (fun _ m' => Keeps m m') (fun _ m' => Keeps m m') := by
  by_cases hd : dirIndex address ∈ userDirs
  case neg =>
    rw [writeVerify_kernel h hd]
    exact Keeps.refl
  unfold writeVerify
  have hi := tableIndex_lt address
  by_cases hp : present (m.mem 0 (dirIndex address))
  · have hcell : m.mem (frame (m.mem 0 (dirIndex address))) (tableIndex address) =
        pte m (dirIndex address) (tableIndex address) := (if_pos hp).symm
    simp only [hp, not_true, if_false]
    split_ifs with hw
    · refine unWp_keeps h hd hi hp ?_
      rw [hcell] at hw
      unfold present
      omega
    · exact Keeps.refl
  · simp only [hp, not_false_eq_true, if_true]
    exact Keeps.refl

theorem getEmptyPage_keeps (h : Inv lo held m) {address : ℕ} (hd : dirIndex address ∈ userDirs)
    (hn : ¬present (entryAt m address)) :
    (getEmptyPage address m).Sat (fun _ m' => Keeps m m' ∧ present (entryAt m' address))
      (fun _ m' => Keeps m m') := by
  refine (getEmptyPage_sat h hd hn).mono ?_ fun _ m' hl => keeps_of_leads hl fun _ _ hp => hp
  rintro _ m' ⟨page, _, _, _, _, hl⟩
  refine ⟨keeps_of_leads hl (present_setAt (fun _ _ hp => hp) (present_entryOf page)), ?_⟩
  unfold entryAt
  rw [hl.pte _ hd _ (tableIndex_lt address), setAt_self]
  exact present_entryOf page

theorem call_keeps (h : Good lo ⟨held, m⟩) (ho : t.Calls k s c) (hc : c.Allowed ⟨held, m⟩) :
    (c.run ⟨held, m⟩).Sat (fun _ m' => Keeps m m') (fun _ m' => Keeps m m') := by
  cases c with
  | getFreePage =>
    simp only [Call.run]
    cases hg : Memory.getFreePage m with
    | none => exact Keeps.refl
    | some r => exact keeps_of_leads (h.inv.alloc hg).leads fun _ _ hp => hp
  | freePage page =>
    obtain ⟨m', hf, hl⟩ := h.inv.free hc
    simp only [Call.run, hf]
    exact keeps_of_leads hl fun _ _ hp => hp
  | getEmptyPage address =>
    exact ((getEmptyPage_keeps h.inv hc.1 hc.2).mono (fun _ _ hm => hm.1) fun _ _ hm => hm).bind
      fun _ m' hm => hm
  | putPage page address =>
    refine ((putPage_sat h.inv hc.2.1 hc.2.2 hc.1).mono (A := fun _ m' => Keeps m m')
      (B := fun _ m' => Keeps m m') ?_ ?_).bind fun _ m' hm => hm
    · exact fun _ m' hl => keeps_of_leads hl (present_setAt (fun _ _ hp => hp) (present_entryOf page))
    · exact fun _ m' hm => hm.2 ▸ .refl
  | doWpPage address =>
    exact (unWp_keeps h.inv hc.1 (tableIndex_lt address) (present_dir_of_pte hc.2) hc.2).bind
      fun _ m' hm => hm
  | writeVerify address => exact (writeVerify_keeps h.inv).bind fun _ m' hm => hm
  | tryToShare address p current =>
    obtain ⟨hd, hd', hmod⟩ := share_dirs hc.1 hc.2.1 hc.2.2.1
    refine ((tryToShare_sat h.inv hd hd' hmod).mono (A := fun _ m' => Keeps m m')
      (B := fun _ m' => Keeps m m') ?_ (fun _ _ hm => hm ▸ .refl)).bind fun _ m' hm => hm
    rintro (_ | _) m' hP
    · exact hP ▸ Keeps.refl
    · obtain ⟨hp, _, _, _, hl⟩ := hP
      exact keeps_of_leads hl (present_setAt (present_setAt (fun _ _ hp => hp) ((present_clearWrite _).2 hp))
        ((present_clearWrite _).2 hp))
  | copyMem parent child size => exact ho.elim
  | freePageTables slot size => exact ho.elim
  | userStore address v =>
    obtain ⟨hd, hp, hw⟩ := hc
    have hst := store_stored h.inv (v := v) hd hp (h.main_of_writable hd hp hw)
    intro d hd i hi hpe
    rw [hst.pte d hd i hi]
    exact present_setAt (fun _ _ hp => hp) ((present_setDirty _).2 hp) d i hpe

theorem keeps_outcome {r : Res (Finset ℕ)} {st : State}
    (h : r.Sat (fun _ m' => Keeps m m') (fun _ m' => Keeps m m')) (hr : outcome held r = some st) :
    Keeps m st.mm := by
  cases r with
  | ok held' m' =>
    cases hr
    exact h
  | stop w m' => cases w <;> cases hr <;> exact h

end Keeps

/-! ### Runs -/

section Runs

variable {gap : Option ℕ}

/-- A page of the arguments is not that of a task. -/
theorem Sound.arg_ne (h : Sound lo gap σ) {s' i j p : ℕ} {u : Task} (hp : σ.args s' i = some p)
    (hj : 1 ≤ j) (hu : σ.kernel.task j = some u) : u.page ≠ p :=
  (h.args s' i p hp).2.2.1 j u hj hu

theorem Sound.page (h : Sound lo gap σ) {st : State} (ht : σ.kernel.task s = some t)
    (hz : t.info.state ≠ .zombie) (ho : t.Calls σ.kernel s c) (ha : NotArg σ c)
    (hc : c.Allowed ⟨σ.kernel.held, σ.kernel.mm⟩)
    (hr : outcome σ.kernel.held (c.run ⟨σ.kernel.held, σ.kernel.mm⟩) = some st) :
    Sound lo gap { σ with kernel := { σ.kernel with held := st.held, mm := st.mm } } := by
  have hkeeps := keeps_outcome (call_keeps h.kernel.good ho hc) hr
  obtain ⟨-, hheld⟩ := Fork.outcome_mm hr
  refine ⟨h.kernel.page ht hz ho hc hr, ?_, h.apart, ?_, ?_⟩
  · intro s' i p hp
    obtain ⟨hi, hin, hnot, htask⟩ := h.args s' i p hp
    refine ⟨hi, ?_, hnot, htask⟩
    obtain hsame | hok := hheld
    · change p ∈ st.held
      rw [hsame]
      exact hin
    · refine Fork.call_held hok hin ?_ ?_
      · rintro rfl
        exact ha s' i hp
      · rintro address rfl
        exact ha s' i hp
  · exact fun j u hgap hj hu hlive => hkeeps.mapped (h.mapped j u hgap hj hu hlive)
  · exact h.first

/-- The page that `get_free_page` finds is new. -/
theorem Sound.copyStrings (h : Sound lo gap σ) (ht : σ.kernel.task s = some t)
    (hz : t.info.state ≠ .zombie) {i page : ℕ} (hi : i < MAX_ARG_PAGES)
    (hg : getFreePage σ.kernel.mm = some (page, m)) :
    Sound lo gap ⟨{ σ.kernel with held := insert page σ.kernel.held, mm := m },
      Function.update σ.args s (Function.update (σ.args s) i (some page))⟩ := by
  have hout : outcome σ.kernel.held (Call.run ⟨σ.kernel.held, σ.kernel.mm⟩ .getFreePage) =
      some ⟨insert page σ.kernel.held, m⟩ := by
    simp only [Call.run, hg, outcome]
  have hnew := h.page ht hz (c := .getFreePage) trivial trivial trivial hout
  have hfresh := (h.kernel.good.inv.alloc hg).unmapped.2.2
  have hargs : ∀ s' i' p, Function.update σ.args s (Function.update (σ.args s) i (some page)) s' i' =
      some p → σ.args s' i' = some p ∨ s' = s ∧ i' = i ∧ p = page := by
    intro s' i' p hp
    by_cases hs' : s' = s
    · subst hs'
      rw [Function.update_self] at hp
      by_cases hi' : i' = i
      · rw [hi', Function.update_self] at hp
        exact .inr ⟨rfl, hi', (Option.some.inj hp).symm⟩
      · rw [Function.update_of_ne hi'] at hp
        exact .inl hp
    · rw [Function.update_of_ne hs'] at hp
      exact .inl hp
  refine ⟨hnew.kernel, ?_, ?_, hnew.mapped, hnew.first⟩
  · intro s' i' p hp
    obtain hold | ⟨rfl, rfl, rfl⟩ := hargs s' i' p hp
    · exact hnew.args s' i' p hold
    · refine ⟨hi, Finset.mem_insert_self _ _, ?_, t, ht, hz⟩
      rintro j u hj hu rfl
      exact hfresh (h.kernel.pages j u hj hu)
  · intro s₁ i₁ s₂ i₂ p hp₁ hp₂
    obtain hold₁ | ⟨rfl, rfl, rfl⟩ := hargs s₁ i₁ p hp₁
    · obtain hold₂ | ⟨rfl, rfl, rfl⟩ := hargs s₂ i₂ p hp₂
      · exact h.apart s₁ i₁ s₂ i₂ p hold₁ hold₂
      · exact absurd (h.args s₁ i₁ _ hold₁).2.1 hfresh
    · obtain hold₂ | ⟨rfl, rfl, -⟩ := hargs s₂ i₂ p hp₂
      · exact absurd (h.args s₂ i₂ _ hold₂).2.1 hfresh
      · exact ⟨rfl, rfl⟩

/-- The pages that are left in the arrays. -/
theorem Sound.fewer (h : Sound lo gap σ) {args : ℕ → ℕ → Option ℕ}
    (hargs : ∀ s i p, args s i = some p → σ.args s i = some p) :
    Sound lo gap { σ with args := args } :=
  ⟨h.kernel, fun s i p hp => h.args s i p (hargs s i p hp),
    fun s i s' i' p hp hp' => h.apart s i s' i' p (hargs s i p hp) (hargs s' i' p hp'), h.mapped,
    h.first⟩

theorem Sound.execError (h : Sound lo gap σ) (ht : σ.kernel.task s = some t)
    (hz : t.info.state ≠ .zombie) {i page : ℕ} (hp : σ.args s i = some page)
    (hr : freePage page σ.kernel.mm = .ok () m) :
    Sound lo gap ⟨{ σ.kernel with held := σ.kernel.held.erase page, mm := m },
      Function.update σ.args s (Function.update (σ.args s) i none)⟩ := by
  have hargs : ∀ s' i' p, Function.update σ.args s (Function.update (σ.args s) i none) s' i' =
      some p → σ.args s' i' = some p ∧ p ≠ page := by
    intro s' i' p hp'
    have hold : σ.args s' i' = some p ∧ ¬(s' = s ∧ i' = i) := by
      by_cases hs' : s' = s
      · subst hs'
        rw [Function.update_self] at hp'
        by_cases hi' : i' = i
        · rw [hi', Function.update_self] at hp'
          cases hp'
        · rw [Function.update_of_ne hi'] at hp'
          exact ⟨hp', fun hc => hi' hc.2⟩
      · rw [Function.update_of_ne hs'] at hp'
        exact ⟨hp', fun hc => hs' hc.1⟩
    refine ⟨hold.1, ?_⟩
    rintro rfl
    exact hold.2 (h.apart s' i' s i p hold.1 hp)
  have hout : outcome σ.kernel.held (Call.run ⟨σ.kernel.held, σ.kernel.mm⟩ (.freePage page)) =
      some ⟨σ.kernel.held.erase page, m⟩ := by
    simp only [Call.run, hr]
    rfl
  obtain ⟨-, hin, hnot, -⟩ := h.args s i page hp
  have hnew := (h.fewer fun s' i' p hp' => (hargs s' i' p hp').1).page ht hz (c := .freePage page) hnot
    (fun s' i' hp' => (hargs s' i' page hp').2 rfl) hin hout
  exact hnew

theorem AsBefore.keeps {k k' : Fork.Kernel} (hb : Fork.AsBefore s k k') : Keeps k.mm k'.mm := by
  intro d hd i hi hp
  have hd' := (mem_userDirs.1 hd).2
  have hpd := present_dir_of_pte hp
  have hcell : pte k.mm d i = k.mm.mem (frame (k.mm.mem 0 d)) i := if_pos hpd
  have hcell' : pte k'.mm d i = k'.mm.mem (frame (k.mm.mem 0 d)) i := by
    unfold pte
    rw [hb.pgDir d hd', if_pos hpd]
  rw [hcell']
  rw [hcell] at hp
  obtain he | ⟨-, he⟩ := hb.table d hd' hpd i hi
  · rw [he]
    exact hp
  · rw [he]
    exact (present_clearWrite _).2 hp

theorem Sound.again (h : Sound lo gap σ) (ht : σ.kernel.task s = some t)
    (hr : Fork.sysFork σ.kernel s t = .again k') : Sound lo gap { σ with kernel := k' } := by
  obtain ⟨hb, hinv, hheld⟩ := Fork.sysFork_again h.kernel ht hr
  have htask := hb.task
  refine ⟨hb.sound h.kernel hinv hheld, ?_, h.apart, ?_, ?_⟩
  · intro s' i p hp
    obtain ⟨hi, hin, hnot, hu⟩ := h.args s' i p hp
    refine ⟨hi, ?_, ?_, ?_⟩
    · change p ∈ k'.held
      rw [hheld]
      exact hin
    · intro j u hj hju
      exact hnot j u hj (by rw [← htask]; exact hju)
    · change ∃ u, k'.task s' = some u ∧ _
      rw [htask]
      exact hu
  · intro j u hgap hj hu hlive
    refine (AsBefore.keeps hb).mapped (h.mapped j u hgap hj ?_ hlive)
    rw [← htask]
    exact hu
  · intro u hu
    exact h.first u (by rw [← htask]; exact hu)

/-- A new task has the pages of its father: task 0 has the first one of the kernel's. -/
theorem Sound.child (h : Sound lo none σ) (ht : σ.kernel.task s = some t)
    (hz : t.info.state ≠ .zombie) {nr page : ℕ} (h1 : 1 ≤ nr) (h64 : nr < 64)
    (ha : Allocated lo σ.kernel.held σ.kernel.mm m page)
    (hlead : Leads lo (insert page σ.kernel.held) (insert page σ.kernel.held) m m'
      (copied (sourceEntry m s) (pte m) (16 * s) (16 * nr) (dirs t.dataLimit))) :
    Mapped m' nr := by
  have hsize := (h.kernel.limits s t ht).2.2.1
  by_cases hs : s = 0
  · subst hs
    have hfirst := h.first t ht
    have hd : 16 * nr ∈ userDirs := mem_userDirs.2 (by omega)
    refine ⟨16 * nr, hd, by omega, 0, by decide, ?_⟩
    rw [hlead.pte _ hd 0 (by decide)]
    have hsource : sourceEntry m 0 (16 * nr - 16 * nr) 0 = entryOf 0 := by
      rw [Nat.sub_self]
      rfl
    unfold copied
    rw [if_pos (by omega), hsource, if_pos (present_entryOf 0)]
    exact (present_clearWrite _).2 (present_entryOf 0)
  · obtain ⟨d, hd, hslot, i, hi, hp⟩ := h.mapped s t nofun (by omega) ht hz
    have hwithin : d % 16 < dirs t.dataLimit := by
      obtain h0 | ⟨-, u, hu, -, hlt⟩ := h.kernel.tables d hd
      · have hpd := present_dir_of_pte hp
        rw [h0] at hpd
        exact absurd hpd present_zero
      · rw [hslot, ht] at hu
        cases hu
        exact hlt
    have hd' : 16 * nr + d % 16 ∈ userDirs := mem_userDirs.2 (by omega)
    have hsource : sourceEntry m s (16 * nr + d % 16 - 16 * nr) i = pte σ.kernel.mm d i := by
      unfold sourceEntry
      rw [if_neg hs, Nat.add_sub_cancel_left, show 16 * s + d % 16 = d by omega,
        ha.leads.pte d hd i hi]
    refine ⟨16 * nr + d % 16, hd', by omega, i, hi, ?_⟩
    rw [hlead.pte _ hd' i hi]
    unfold copied
    rw [if_pos (by omega), hsource, if_pos hp]
    exact (present_clearWrite _).2 hp

theorem Sound.fork (h : Sound lo none σ) (ht : σ.kernel.task s = some t)
    (hz : t.info.state ≠ .zombie) {pid : ℤ} (hr : Fork.sysFork σ.kernel s t = .forked pid k') :
    Sound lo none { σ with kernel := k' } := by
  obtain ⟨nr, page, m, u, ⟨h1, h64, hn⟩, hgot, hcopied, hmemory, hheld, htask⟩ :=
    Fork.sysFork_child h.kernel ht hr
  have ha := h.kernel.good.inv.alloc hgot
  have hlead := hcopied.leads
  have hother : ∀ j ≠ nr, k'.task j = σ.kernel.task j := by
    intro j hj
    rw [htask, Function.update_of_ne hj]
  have hpage : u.page = page := congrArg Prod.fst hmemory
  have hkeeps : Keeps σ.kernel.mm k'.mm := by
    intro d hd i hi hp
    have hpm : present (pte m d i) := by
      rw [ha.leads.pte d hd i hi]
      exact hp
    rw [hlead.pte d hd i hi]
    unfold copied
    split_ifs with hdst hsrc hsrc
    · exact (present_clearWrite _).2 hsrc
    · exact hpm
    · unfold protectMain
      split_ifs
      · exact (present_clearWrite _).2 hpm
      · exact hpm
    · exact hpm
  refine ⟨Fork.sysFork_forked h.kernel ht hr, ?_, h.apart, ?_, ?_⟩
  · intro s' i p hp
    obtain ⟨hi, hin, hnot, v, hv, hvz⟩ := h.args s' i p hp
    refine ⟨hi, ?_, ?_, v, ?_, hvz⟩
    · change p ∈ k'.held
      rw [hheld]
      exact Finset.mem_insert_of_mem hin
    · intro j w hj hw
      by_cases hjn : j = nr
      · rw [hjn, htask, Function.update_self] at hw
        cases hw
        rw [hpage]
        rintro rfl
        exact ha.unmapped.2.2 hin
      · rw [hother j hjn] at hw
        exact hnot j w hj hw
    · refine (hother s' ?_).trans hv
      rintro rfl
      rw [hn] at hv
      cases hv
  · intro j v hgap hj hv hlive
    by_cases hjn : j = nr
    · rw [hjn]
      exact h.child ht hz h1 h64 ha hlead
    · rw [hother j hjn] at hv
      exact hkeeps.mapped (h.mapped j v hgap hj hv hlive)
  · intro v hv
    rw [hother 0 (by omega)] at hv
    exact h.first v hv

theorem emptied_mapped (he : Emptied lo k s m') {j : ℕ} (hj : j ≠ s) (h : Mapped k.mm j) :
    Mapped m' j := by
  obtain ⟨d, hd, hslot, i, hi, hp⟩ := h
  refine ⟨d, hd, hslot, i, hi, ?_⟩
  rw [he.pte d hd i hi, if_neg (by omega)]
  exact hp

theorem Sound.exit (h : Sound lo gap σ) (hgap : ∀ j ∈ gap, j = s) (ht : σ.kernel.task s = some t)
    (hz : t.info.state ≠ .zombie) (hr : Fork.doExit σ.kernel s t = some k') :
    Sound lo none ⟨k', Function.update σ.args s noArgs⟩ := by
  have hsound : Fork.Sound lo k' := h.kernel.step (.exit ht hz hr)
  unfold Fork.doExit at hr
  cases hf : Fork.freeTables s t σ.kernel.mm with
  | stop w m => rw [hf] at hr; cases hr
  | ok _ m =>
    rw [hf] at hr
    cases hr
    obtain ⟨h1, -⟩ := Fork.freeTables_spec h.kernel ht hf
    obtain ⟨m₁, hf₁, he⟩ := freeTables_emptied h.kernel ht h1
    cases hf.symm.trans hf₁
    have hargs : ∀ s' i p, Function.update σ.args s noArgs s' i = some p →
        s' ≠ s ∧ σ.args s' i = some p := by
      intro s' i p hp
      by_cases hs' : s' = s
      · rw [hs', Function.update_self] at hp
        cases hp
      · rw [Function.update_of_ne hs'] at hp
        exact ⟨hs', hp⟩
    refine ⟨hsound, ?_, ?_, ?_, ?_⟩
    · intro s' i p hp
      obtain ⟨hs', hp⟩ := hargs s' i p hp
      obtain ⟨hi, hin, hnot, u, hu, huz⟩ := h.args s' i p hp
      refine ⟨hi, hin, ?_, u, (Function.update_of_ne hs' _ _).trans hu, huz⟩
      intro j v hj hv
      have hne := h.arg_ne hp h1 ht
      by_cases hjs : j = s
      · rw [hjs] at hv
        cases (Function.update_self _ _ _).symm.trans hv
        exact hne
      · exact hnot j v hj ((Function.update_of_ne hjs _ _).symm.trans hv)
    · intro s₁ i₁ s₂ i₂ p hp₁ hp₂
      exact h.apart s₁ i₁ s₂ i₂ p (hargs _ _ _ hp₁).2 (hargs _ _ _ hp₂).2
    · intro j v _ hj hv hlive
      by_cases hjs : j = s
      · rw [hjs] at hv
        cases (Function.update_self _ _ _).symm.trans hv
        exact absurd rfl hlive
      · refine emptied_mapped he hjs (h.mapped j v ?_ hj ((Function.update_of_ne hjs _ _).symm.trans hv) hlive)
        exact fun hc => hjs (hgap j hc)
    · intro v hv
      exact h.first v ((Function.update_of_ne (by omega) _ _).symm.trans hv)

theorem Sound.release (h : Sound lo none σ) (h1 : 1 ≤ s) (ht : σ.kernel.task s = some t)
    (hz : t.info.state = .zombie) (hr : Fork.release σ.kernel s t = some k') :
    Sound lo none { σ with kernel := k' } := by
  have hsound : Fork.Sound lo k' := h.kernel.step (.release h1 ht hz hr)
  obtain ⟨m', hfree, -, hmem, -⟩ := h.kernel.good.inv.release (h.kernel.pages s t h1 ht)
  simp only [Fork.release, hfree] at hr
  cases hr
  have hkeeps : Keeps σ.kernel.mm m' := by
    intro d _ i _ hp
    unfold pte at hp ⊢
    rw [hmem]
    exact hp
  have hother : ∀ i v, Function.update σ.kernel.task s none i = some v →
      i ≠ s ∧ σ.kernel.task i = some v := by
    intro i v hv
    by_cases hi : i = s
    · rw [hi, Function.update_self] at hv
      cases hv
    · rw [Function.update_of_ne hi] at hv
      exact ⟨hi, hv⟩
  refine ⟨hsound, ?_, h.apart, ?_, ?_⟩
  · intro s' i p hp
    obtain ⟨hi, hin, hnot, u, hu, huz⟩ := h.args s' i p hp
    refine ⟨hi, Finset.mem_erase.2 ⟨(h.arg_ne hp h1 ht).symm, hin⟩, ?_, u, ?_, huz⟩
    · exact fun j v hj hv => hnot j v hj (hother j v hv).2
    · refine (Function.update_of_ne ?_ _ _).trans hu
      rintro rfl
      rw [ht] at hu
      cases hu
      exact huz hz
  · intro j v hgap hj hv hlive
    exact hkeeps.mapped (h.mapped j v hgap hj (hother j v hv).2 hlive)
  · exact fun v hv => h.first v (hother 0 v hv).2

theorem Sound.others (h : Sound lo none σ) (hheld : k'.held = σ.kernel.held)
    (hmm : k'.mm = σ.kernel.mm)
    (htask : ∀ i, (k'.task i).map Task.memory = (σ.kernel.task i).map Task.memory) :
    Sound lo none { σ with kernel := k' } := by
  have hback : ∀ i v, k'.task i = some v → ∃ u, σ.kernel.task i = some u ∧ u.page = v.page ∧
      u.dataLimit = v.dataLimit ∧ (u.info.state = .zombie ↔ v.info.state = .zombie) := by
    intro i v hv
    have hi := htask i
    rw [hv, Option.map_some] at hi
    obtain ⟨u, hu, he⟩ := Option.map_eq_some_iff.1 hi.symm
    unfold Task.memory at he
    simp only [Prod.mk.injEq, decide_eq_decide] at he
    exact ⟨u, hu, he.1, he.2.2.1, he.2.2.2⟩
  have hforth : ∀ i u, σ.kernel.task i = some u → ∃ v, k'.task i = some v ∧
      (u.info.state = .zombie ↔ v.info.state = .zombie) := by
    intro i u hu
    have hi := htask i
    rw [hu, Option.map_some] at hi
    obtain ⟨v, hv, he⟩ := Option.map_eq_some_iff.1 hi
    unfold Task.memory at he
    simp only [Prod.mk.injEq, decide_eq_decide] at he
    exact ⟨v, hv, he.2.2.2.symm⟩
  refine ⟨h.kernel.others hheld hmm htask, ?_, h.apart, ?_, ?_⟩
  · intro s' i p hp
    obtain ⟨hi, hin, hnot, u, hu, huz⟩ := h.args s' i p hp
    obtain ⟨v, hv, hzombie⟩ := hforth s' u hu
    refine ⟨hi, ?_, ?_, v, hv, fun hc => huz (hzombie.2 hc)⟩
    · change p ∈ k'.held
      rw [hheld]
      exact hin
    · intro j w hj hw
      obtain ⟨w', hw', hpage, -⟩ := hback j w hw
      rw [← hpage]
      exact hnot j w' hj hw'
  · intro j v hgap hj hv hlive
    obtain ⟨u, hu, -, -, hzombie⟩ := hback j v hv
    change Mapped k'.mm j
    rw [hmm]
    exact h.mapped j u hgap hj hu fun hc => hlive (hzombie.1 hc)
  · intro v hv
    obtain ⟨u, hu, -, hdata, -⟩ := hback 0 v hv
    rw [← hdata]
    exact h.first u hu

/-! ### exec -/

/-- `change_ldt` right after `free_page_tables`. -/
theorem Sound.put_args (h : Sound lo none σ) (ht : σ.kernel.task s = some t)
    (hz : t.info.state ≠ .zombie) (h1 : 1 ≤ s) (he : Emptied lo σ.kernel s m) :
    (∀ ok ∈ (changeLdt (σ.args s) (slotBase s) MAX_ARG_PAGES ⟨σ.kernel.held, m⟩).1, ok = true) ∧
      Inv lo (changeLdt (σ.args s) (slotBase s) MAX_ARG_PAGES ⟨σ.kernel.held, m⟩).2.held
        (changeLdt (σ.args s) (slotBase s) MAX_ARG_PAGES ⟨σ.kernel.held, m⟩).2.mm ∧
      (∀ d ∈ userDirs, ∀ i < 1024,
        pte (changeLdt (σ.args s) (slotBase s) MAX_ARG_PAGES ⟨σ.kernel.held, m⟩).2.mm d i =
          mappedArgs (σ.args s) (pte m) s MAX_ARG_PAGES d i) ∧
      DirsWithin (fun d => d = 16 * s + 15) m
        (changeLdt (σ.args s) (slotBase s) MAX_ARG_PAGES ⟨σ.kernel.held, m⟩).2.mm ∧
      ∀ p, p ∈ (changeLdt (σ.args s) (slotBase s) MAX_ARG_PAGES
          ⟨σ.kernel.held, m⟩).2.held ↔
        p ∈ σ.kernel.held ∧ ∀ i < MAX_ARG_PAGES, σ.args s i ≠ some p := by
  have hs := (h.kernel.limits s t ht).1
  have hd : 16 * s + 15 ∈ userDirs := mem_userDirs.2 (by omega)
  refine changeLdt_spec h1 hs le_rfl he.inv (.inr ?_) ?_ ?_ ?_
  · exact emptied_freed he h.kernel (h.mapped s t nofun h1 ht hz)
  · intro i hi
    rw [he.pte _ hd _ (by unfold MAX_ARG_PAGES at hi; omega), if_pos (by omega)]
    exact present_zero
  · exact fun i _ p hp => (h.args s i p hp).2.1
  · exact fun i _ j _ p hp hp' => (h.apart s i s j p hp hp').2

/-- An entry that `change_ldt` leaves below `LOW_MEM` is one of another task. -/
theorem Sound.low_changed (h : Sound lo none σ) (ht : σ.kernel.task s = some t)
    (hz : t.info.state ≠ .zombie) (h1 : 1 ≤ s) (he : Emptied lo σ.kernel s m) (u : Task) :
    LowReadOnly (pte (afterChange σ s m u).kernel.mm) := by
  obtain ⟨-, -, hpte, -, -⟩ := h.put_args ht hz h1 he
  have hlow := h.kernel.good.inv.low
  intro d hd i hi hp hl
  have hentry := hpte d hd i hi
  have hempty : mappedArgs (σ.args s) (pte m) s MAX_ARG_PAGES d i =
      ((if d = 16 * s + 15 ∧ 992 ≤ i ∧ i < 992 + MAX_ARG_PAGES then σ.args s (i - 992)
        else none).map entryOf).getD (pte m d i) := by
    unfold mappedArgs
    split <;> rfl
  rw [hempty] at hentry
  cases ha : (if d = 16 * s + 15 ∧ 992 ≤ i ∧ i < 992 + MAX_ARG_PAGES then σ.args s (i - 992)
      else none) with
  | none =>
    rw [ha] at hentry
    have hentry : pte (afterChange σ s m u).kernel.mm d i = pte m d i := hentry
    rw [he.pte d hd i hi] at hentry
    split at hentry
    · rw [hentry] at hp
      exact absurd hp present_zero
    · rw [hentry] at hp hl ⊢
      exact h.kernel.good.low d hd i hi hp hl
  | some p =>
    rw [ha] at hentry
    have hentry : pte (afterChange σ s m u).kernel.mm d i = entryOf p := hentry
    have hp' : σ.args s (i - 992) = some p := by
      split at ha
      · exact ha
      · cases ha
    have hmain := (h.kernel.good.inv.held_main p (h.args s _ p hp').2.1).1
    rw [hentry, frame_entryOf] at hl
    omega

theorem Sound.changed (h : Sound lo none σ) (ht : σ.kernel.task s = some t)
    (hz : t.info.state ≠ .zombie) (h1 : 1 ≤ s) (he : Emptied lo σ.kernel s m) {u : Task}
    (hpage : u.page = t.page) (hcode : u.codeLimit ≤ u.dataLimit) (hpos : 0 < u.codeLimit) (hsize : dirs u.dataLimit = 16)
    (hlive : u.info.state ≠ .zombie) : Sound lo (some s) (afterChange σ s m u) := by
  obtain ⟨-, hinv, hpte, hdirs, hheld⟩ := h.put_args ht hz h1 he
  have hs := (h.kernel.limits s t ht).1
  have hother : ∀ j ≠ s, Function.update σ.kernel.task s (some u) j = σ.kernel.task j := fun j hj =>
    Function.update_of_ne hj _ _
  have hself : Function.update σ.kernel.task s (some u) s = some u := Function.update_self _ _ _
  -- the pages of the tasks are those of before
  have hold : ∀ j v, Function.update σ.kernel.task s (some u) j = some v →
      ∃ v', σ.kernel.task j = some v' ∧ v'.page = v.page := by
    intro j v hv
    by_cases hj : j = s
    · rw [hj] at hv
      cases hself.symm.trans hv
      exact ⟨t, by rw [hj]; exact ht, hpage.symm⟩
    · exact ⟨v, (hother j hj).symm.trans hv, rfl⟩
  have hout : ∀ d ∈ userDirs, d / 16 ≠ s → ∀ i < 1024,
      pte (afterChange σ s m u).kernel.mm d i = pte σ.kernel.mm d i := by
    intro d hd hslot i hi
    refine (hpte d hd i hi).trans ?_
    unfold mappedArgs
    rw [if_neg (by omega), he.pte d hd i hi, if_neg hslot]
  have hargs : ∀ s' i p, Function.update σ.args s noArgs s' i = some p →
      s' ≠ s ∧ σ.args s' i = some p := by
    intro s' i p hp
    by_cases hs' : s' = s
    · rw [hs', Function.update_self] at hp
      cases hp
    · rw [Function.update_of_ne hs'] at hp
      exact ⟨hs', hp⟩
  refine ⟨⟨⟨hinv, h.low_changed ht hz h1 he u⟩, ?_, ?_, ?_, ?_⟩, ?_, ?_, ?_, ?_⟩
  · intro d hd
    by_cases hslot : d / 16 = s
    · obtain hsame | hzero | ⟨-, hp⟩ := hdirs d
      · exact .inl (hsame.trans (he.inside d hd hslot))
      · exact .inl hzero
      · exact .inr ⟨hp, u, by rw [hslot]; exact hself, hlive, by rw [hsize]; omega⟩
    · obtain hsame | hzero | ⟨hd', -⟩ := hdirs d
      · have hdir : (afterChange σ s m u).kernel.mm.mem 0 d = σ.kernel.mm.mem 0 d :=
          hsame.trans (he.outside d hslot)
        rw [hdir]
        obtain h0 | ⟨hp, v, hv, hr⟩ := h.kernel.tables d hd
        · exact .inl h0
        · exact .inr ⟨hp, v, (hother _ hslot).trans hv, hr⟩
      · exact .inl hzero
      · exact absurd (by omega) hslot
  · intro j v hv
    by_cases hj : j = s
    · rw [hj] at hv
      cases hself.symm.trans hv
      exact ⟨by omega, hcode, by omega, by omega, hpos⟩
    · exact h.kernel.limits j v ((hother j hj).symm.trans hv)
  · intro j v hj hv
    obtain ⟨v', hv', hpage'⟩ := hold j v hv
    rw [← hpage']
    refine (hheld _).2 ⟨h.kernel.pages j v' hj hv', fun i _ hp => ?_⟩
    exact h.arg_ne hp hj hv' rfl
  · intro i j v w hi hj hv hw hpages
    obtain ⟨v', hv', hpv⟩ := hold i v hv
    obtain ⟨w', hw', hpw⟩ := hold j w hw
    exact h.kernel.apart i j v' w' hi hj hv' hw' (by rw [hpv, hpw, hpages])
  · intro s' i p hp
    obtain ⟨hs', hp⟩ := hargs s' i p hp
    obtain ⟨hi, hin, hnot, v, hv, hvz⟩ := h.args s' i p hp
    refine ⟨hi, (hheld p).2 ⟨hin, fun j _ hp' => ?_⟩, ?_, v, (hother s' hs').trans hv, hvz⟩
    · exact hs' (h.apart s' i s j p hp hp').1
    · intro j w hj hw
      obtain ⟨w', hw', hpw⟩ := hold j w hw
      rw [← hpw]
      exact hnot j w' hj hw'
  · intro s₁ i₁ s₂ i₂ p hp₁ hp₂
    exact h.apart s₁ i₁ s₂ i₂ p (hargs _ _ _ hp₁).2 (hargs _ _ _ hp₂).2
  · intro j v hgap hj hv hvz
    have hjs : j ≠ s := fun hc => hgap (by rw [hc])
    obtain ⟨d, hd, hslot, i, hi, hp⟩ := h.mapped j v nofun hj ((hother j hjs).symm.trans hv) hvz
    refine ⟨d, hd, hslot, i, hi, ?_⟩
    rw [hout d hd (by omega) i hi]
    exact hp
  · exact fun v hv => h.first v ((hother 0 (by omega)).symm.trans hv)

theorem Sound.filled (h : Sound lo gap σ) (hgap : ∀ j ∈ gap, j = s) (hm : Mapped σ.kernel.mm s) :
    Sound lo none σ := by
  refine ⟨h.kernel, h.args, h.apart, fun j u _ hj hu hlive => ?_, h.first⟩
  by_cases hjs : j = s
  · rw [hjs]
    exact hm
  · exact h.mapped j u (fun hc => hjs (hgap j hc)) hj hu hlive

theorem mapped_of_entry {address : ℕ} (hd : dirIndex address ∈ userDirs)
    (hp : present (entryAt m address)) : Mapped m (dirIndex address / 16) :=
  ⟨_, hd, rfl, _, tableIndex_lt address, hp⟩

/-- The first store of `create_tables` finds a page, gets one, or the task exits. -/
theorem Sound.firstStore (h : Sound lo (some s) σ) (ht : σ.kernel.task s = some t)
    (hz : t.info.state ≠ .zombie) (hsize : t.dataLimit = 67108864) (h1 : 1 ≤ s)
    (hargs : σ.args s = noArgs) {sp : ℕ} (hsp : sp < 67108864)
    (hr : ExecPages.firstStore σ s t sp = some σ') : Sound lo none σ' := by
  have hs := (h.kernel.limits s t ht).1
  have hplace : dirIndex (slotBase s + sp) / 16 = s := by
    unfold dirIndex slotBase
    omega
  have hd : dirIndex (slotBase s + sp) ∈ userDirs := by
    have hlt : dirIndex (slotBase s + sp) < 1024 := Nat.mod_lt _ (by decide)
    exact mem_userDirs.2 (by omega)
  have hone : ∀ j ∈ some s, j = s := fun j hj => (Option.some.inj hj).symm
  unfold ExecPages.firstStore at hr
  by_cases hp : present (entryAt σ.kernel.mm (slotBase s + sp))
  · rw [if_pos hp] at hr
    cases hr
    refine h.filled hone ?_
    have hm := mapped_of_entry hd hp
    rw [hplace] at hm
    exact hm
  · rw [if_neg hp] at hr
    have howns : t.Calls σ.kernel s (.getEmptyPage (slotBase s + sp)) := by
      refine ⟨sp, ?_, ?_⟩
      · rw [h.kernel.reach ht]
        omega
      · unfold slotBase
        omega
    have hallowed : (Call.getEmptyPage (slotBase s + sp)).Allowed ⟨σ.kernel.held, σ.kernel.mm⟩ :=
      ⟨hd, hp⟩
    have hsat := getEmptyPage_keeps h.kernel.good.inv hd hp
    cases hget : getEmptyPage (slotBase s + sp) σ.kernel.mm with
    | ok u m =>
      rw [hget] at hr hsat
      cases hr
      have hout : outcome σ.kernel.held (Call.run ⟨σ.kernel.held, σ.kernel.mm⟩
          (.getEmptyPage (slotBase s + sp))) = some ⟨σ.kernel.held, m⟩ := by
        simp only [Call.run, hget]
        rfl
      refine (h.page ht hz howns trivial hallowed hout).filled hone ?_
      have hm := mapped_of_entry hd hsat.2
      rw [hplace] at hm
      exact hm
    | stop w m =>
      rw [hget] at hr
      cases w with
      | oom =>
        obtain ⟨k', hexit, rfl⟩ := Option.map_eq_some_iff.1 hr
        have hout : outcome σ.kernel.held (Call.run ⟨σ.kernel.held, σ.kernel.mm⟩
            (.getEmptyPage (slotBase s + sp))) = some ⟨σ.kernel.held, m⟩ := by
          simp only [Call.run, hget]
          rfl
        have hexited := (h.page ht hz howns trivial hallowed hout).exit hone ht hz hexit
        rw [show Function.update σ.args s noArgs = σ.args by
          rw [← hargs, Function.update_eq_self]] at hexited
        exact hexited
      | _ => cases hr

theorem Sound.exec (h : Sound lo none σ) (ht : σ.kernel.task s = some t)
    (hz : t.info.state ≠ .zombie) {ex : Header} {sp : ℕ} (hex : Fork.Confined ex)
    (hsp : sp < 67108864) (hr : doExecve σ s t ex.text sp = some σ') : Sound lo none σ' := by
  unfold doExecve at hr
  cases hf : Fork.freeTables s t σ.kernel.mm with
  | stop w m => rw [hf] at hr; cases hr
  | ok _ m =>
    rw [hf] at hr
    obtain ⟨h1, -⟩ := Fork.freeTables_spec h.kernel ht hf
    obtain ⟨m₁, hf₁, he⟩ := freeTables_emptied h.kernel ht h1
    cases hf.symm.trans hf₁
    obtain ⟨hcode, hpos⟩ := Fork.codeLimitOf_bounds hex
    have hsize : dirs (newLimits t ex.text).dataLimit = 16 := by
      change (67108864 + 4194303) / 4194304 = 16
      norm_num
    have hchanged := h.changed (u := newLimits t ex.text) ht hz h1 he rfl hcode hpos hsize hz
    exact hchanged.firstStore (Function.update_self _ _ _) hz rfl h1 (Function.update_self _ _ _)
      hsp hr

theorem Sound.step (h : Sound lo none σ) (hs : Step Fits σ σ') : Sound lo none σ' := by
  cases hs with
  | page ht hz ho ha hc hr => exact h.page ht hz ho ha hc hr
  | fork ht hz hr => exact h.fork ht hz hr
  | again ht hz hr => exact h.again ht hr
  | copyStrings ht hz hP hi hn hg => exact h.copyStrings ht hz hi hg
  | behind ht hz hP hi => exact absurd hi (Nat.not_le.2 hP)
  | astray ht hz hP hi => exact absurd hi (Nat.not_le.2 hP)
  | execError ht hz hp hr => exact h.execError ht hz hp hr
  | exec ht hz hw hv hP hsp hr => exact h.exec ht hz hP hsp hr
  | exit ht hz hr => exact h.exit nofun ht hz hr
  | release h1 ht hz hr => exact h.release h1 ht hz hr
  | others hheld hmm htask => exact h.others hheld hmm htask

variable {startMem endMem : ℕ} {mem : ℕ → ℕ → ℕ} {σ₀ : System}

theorem Start.sound (h : Start startMem endMem mem σ) : Sound startMem none σ := by
  refine ⟨h.kernel.sound, ?_, ?_, ?_, ?_⟩
  · intro s i p hp
    rw [h.args] at hp
    cases hp
  · intro s i s' i' p hp
    rw [h.args] at hp
    cases hp
  · intro s t _ h1 ht
    have := (h.kernel.task s t ht).1
    omega
  · intro t ht
    rw [(h.kernel.task 0 t ht).2.2.1]
    decide

theorem Reachable.sound (h₀ : Start startMem endMem mem σ₀) (hr : Reachable Fits σ₀ σ) :
    Sound startMem none σ := by
  induction hr with
  | init => exact h₀.sound
  | step _ hs ih => exact ih.step hs

end Runs

/-! ### The argument pages -/

section Arguments

/-- The page is mapped where the argument belongs, nowhere else, and counted once. -/
structure MappedOnce (m : Mm) (held : Finset ℕ) (s i p : ℕ) : Prop where
  entry : pte m (16 * s + 15) (992 + i) = entryOf p
  refs : pageRefs m p = 1
  count : m.memMap (mapNr p) = 1
  given : p ∉ held

theorem Sound.arg_mapped (h : Sound lo none σ) (ht : σ.kernel.task s = some t)
    (hz : t.info.state ≠ .zombie) (h1 : 1 ≤ s) (he : Emptied lo σ.kernel s m) {i p : ℕ}
    (hp : σ.args s i = some p) :
    MappedOnce (changeLdt (σ.args s) (slotBase s) MAX_ARG_PAGES ⟨σ.kernel.held, m⟩).2.mm
      (changeLdt (σ.args s) (slotBase s) MAX_ARG_PAGES ⟨σ.kernel.held, m⟩).2.held s i p := by
  obtain ⟨-, hinv, hpte, -, hheld⟩ := h.put_args ht hz h1 he
  obtain ⟨hi, hin, -⟩ := h.args s i p hp
  have hs := (h.kernel.limits s t ht).1
  have hd : 16 * s + 15 ∈ userDirs := mem_userDirs.2 (by omega)
  have hindex : 992 + i < 1024 := by
    unfold MAX_ARG_PAGES at hi
    omega
  have hentry := hpte _ hd _ hindex
  have hsome : mappedArgs (σ.args s) (pte m) s MAX_ARG_PAGES (16 * s + 15) (992 + i) =
      entryOf p := by
    unfold mappedArgs
    rw [if_pos (by omega), Nat.add_sub_cancel_left, hp]
    rfl
  rw [hsome] at hentry
  have hmem : (16 * s + 15, 992 + i) ∈ userEntries := mem_userEntries.2 ⟨hd, hindex⟩
  have hmain := (h.kernel.good.inv.held_main p hin).1
  have hlow := h.kernel.good.inv.low
  have hpresent := present_entryOf p
  have hwritable := writable_entryOf p
  have hframe := frame_entryOf p
  rw [← hentry] at hpresent hwritable hframe
  have hhigh : 256 ≤ frame (pte (changeLdt (σ.args s) (slotBase s) MAX_ARG_PAGES
      ⟨σ.kernel.held, m⟩).2.mm (16 * s + 15) (992 + i)) := by omega
  -- a writable entry is the only use of its page
  have hrefs := hinv.alone_refs hmem hpresent hwritable hhigh
  have hcount := hinv.alone _ hmem hpresent hwritable hhigh
  rw [hframe] at hrefs hcount
  exact ⟨hentry, hrefs.1, hcount, hrefs.2.2⟩

/-- As long as the inputs fit, no call of `put_page` in `change_ldt` fails once the page tables have been
    freed, and every argument page is mapped once. -/
theorem exec_args_mapped {startMem endMem : ℕ} {mem : ℕ → ℕ → ℕ} {σ₀ σ : System} {s : ℕ}
    {t : Task} (h₀ : Start startMem endMem mem σ₀) (hr : Reachable Fits σ₀ σ)
    (ht : σ.kernel.task s = some t) (hz : t.info.state ≠ .zombie) :
    (1 ≤ s → ∃ m, Fork.freeTables s t σ.kernel.mm = .ok () m) ∧
    ∀ m, Fork.freeTables s t σ.kernel.mm = .ok () m →
      (∀ ok ∈ (changeLdt (σ.args s) (slotBase s) MAX_ARG_PAGES ⟨σ.kernel.held, m⟩).1, ok = true) ∧
      ∀ i p, σ.args s i = some p →
        MappedOnce (changeLdt (σ.args s) (slotBase s) MAX_ARG_PAGES ⟨σ.kernel.held, m⟩).2.mm
          (changeLdt (σ.args s) (slotBase s) MAX_ARG_PAGES ⟨σ.kernel.held, m⟩).2.held s i p := by
  have h := hr.sound h₀
  constructor
  · intro h1
    obtain ⟨m, hf, -⟩ := freeTables_emptied h.kernel ht h1
    exact ⟨m, hf⟩
  · intro m hf
    obtain ⟨h1, -⟩ := Fork.freeTables_spec h.kernel ht hf
    obtain ⟨m', hf', he⟩ := freeTables_emptied h.kernel ht h1
    cases hf.symm.trans hf'
    exact ⟨(h.put_args ht hz h1 he).1, fun i p hp => h.arg_mapped ht hz h1 he hp⟩

/-- A machine with its main memory from `startMem` on. -/
def machine (startMem : ℕ) : System := ⟨Fork.machine startMem, fun _ => noArgs⟩

theorem machine_start (startMem : ℕ) (h : LOW_MEM ≤ startMem) :
    Start startMem 4096 setupPaging (machine startMem) :=
  ⟨Fork.machine_start startMem h, fun _ _ => rfl⟩

/-- The first fork of a machine with three pages or more. -/
theorem machine_forks (startMem : ℕ) (h : LOW_MEM ≤ startMem) (hroom : startMem + 2 ≤ 4096) :
    ∃ page k', Fork.sysFork (machine startMem).kernel 0 Fork.initTask = .forked 1 k' ∧
      Fork.Sound startMem k' ∧ k'.lastPid = 1 ∧
      k'.task = Function.update (Fork.machine startMem).task 1
        (some (Fork.childOf Fork.initTask page 1)) ∧
      (freePages k'.mm).card + 2 = 4096 - startMem := by
  have hsound := (Fork.machine_start startMem h).sound
  have hfull := freePages_memInit startMem 4096 setupPaging h le_rfl
  have hpid : ProcessTree.findPid (fun i => ((Fork.machine startMem).task i).map Task.info)
      (Scheduler.NR_TASKS + 1) (Fork.machine startMem).lastPid = some 1 := rfl
  have hslot : ProcessTree.findSlot (fun i => ((Fork.machine startMem).task i).map Task.info) =
      some 1 := rfl
  change (freePages (Fork.machine startMem).mm).card = 4096 - startMem at hfull
  obtain ⟨page, k', hfork, hlast, htask, hcard⟩ := Fork.first_forks (t := Fork.initTask) hsound rfl
    (by decide) hpid hslot (by omega)
  exact ⟨page, k', hfork, Fork.sysFork_forked hsound rfl hfork, hlast, htask, by omega⟩

/-- The third of three pages is an argument, and no page is left. -/
theorem exec_args_mapped_threePages : ∃ σ t m p, Reachable Fits (machine 4093) σ ∧
    σ.kernel.task 1 = some t ∧ σ.args 1 31 = some p ∧ getFreePage σ.kernel.mm = none ∧
    Fork.freeTables 1 t σ.kernel.mm = .ok () m ∧
    (∀ ok ∈ (changeLdt (σ.args 1) (slotBase 1) MAX_ARG_PAGES ⟨σ.kernel.held, m⟩).1, ok = true) ∧
    MappedOnce (changeLdt (σ.args 1) (slotBase 1) MAX_ARG_PAGES ⟨σ.kernel.held, m⟩).2.mm
      (changeLdt (σ.args 1) (slotBase 1) MAX_ARG_PAGES ⟨σ.kernel.held, m⟩).2.held 1 31 p := by
  have hstart := machine_start 4093 (by decide)
  obtain ⟨page, k', hfork, -, -, htask, hcard⟩ := machine_forks 4093 (by decide) (by decide)
  have ht : k'.task 1 = some (Fork.childOf Fork.initTask page 1) := by
    rw [htask, Function.update_self]
  have hz : WaitQueue.TaskState.running ≠ .zombie := by decide
  obtain ⟨p, m₁, hget⟩ := getFreePage_room (m := k'.mm) (by omega)
  have hleft := freePages_got hget
  have hnone : getFreePage m₁ = none := getFreePage_none (by omega)
  have hforked : Reachable Fits (machine 4093) { machine 4093 with kernel := k' } :=
    .step .init (.fork (s := 0) (t := Fork.initTask) rfl (by decide) hfork)
  have hin : Fits (.index 31) := by
    change 31 < MAX_ARG_PAGES
    decide
  have htaken := hforked.step (.copyStrings (s := 1) (i := 31) ht hz hin hin rfl hget)
  obtain ⟨hfree, hall⟩ := exec_args_mapped hstart htaken ht hz
  obtain ⟨m, hm⟩ := hfree le_rfl
  obtain ⟨hok, honce⟩ := hall m hm
  have harg : Function.update (fun _ => noArgs) 1 (Function.update noArgs 31 (some p)) 1 31 =
      some p := rfl
  exact ⟨_, _, m, p, htaken, ht, harg, hnone, hm, hok, honce 31 p harg⟩

/-- Pages are taken by a task in the kernel. -/
theorem takes_reachable {P : Input → Prop} {σ₀ : System} {a b : State} (h : Takes a b)
    (ht : σ.kernel.task s = some t) (hz : t.info.state ≠ .zombie)
    (hr : Reachable P σ₀ { σ with kernel := { σ.kernel with held := a.held, mm := a.mm } }) :
    Reachable P σ₀ { σ with kernel := { σ.kernel with held := b.held, mm := b.mm } } := by
  induction h with
  | refl => exact hr
  | @step a b p m hg tail ih =>
    refine ih (hr.step ?_)
    refine .page (c := .getFreePage) ht hz trivial trivial trivial ?_
    simp only [Call.run, hg, outcome]

theorem changeLdt_noArgs (base n : ℕ) (st : State) : changeLdt noArgs base n st = ([], st) := by
  induction n with
  | zero => rfl
  | succ n ih => exact ih

/-- An argument page finds no table and no page for one. -/
theorem changeLdt_starved {page : ℕ → Option ℕ} {n p : ℕ} (hs : s < 64) (hn : n < MAX_ARG_PAGES)
    (hp : page n = some p) (hnone : getFreePage m = none)
    (hdir : ¬ present (m.mem 0 (16 * s + 15))) :
    false ∈ (changeLdt page (slotBase s) (n + 1) ⟨held, m⟩).1 := by
  have hput : putPage p (dataBase (slotBase s) n) m = .stop .outOfMemory m := by
    unfold putPage
    rw [(dataBase_place hs hn).1]
    simp only [if_neg hdir, hnone]
  simp only [changeLdt, hp, hput]
  exact List.mem_cons_self

/-- With a code limit beyond the slot, the tables of the slots behind go as well. -/
theorem freeTables_beyond (h : Inv lo held m) (h1 : 1 ≤ s) (hs : s < 64)
    (hcode : 16 ≤ dirs t.codeLimit) (hfit : 16 * s + dirs t.codeLimit ≤ 1024)
    (hdata : dirs t.dataLimit = 16) :
    ∃ m', Fork.freeTables s t m = .ok () m' ∧ Inv lo held m' ∧
      (∀ d, 16 * s ≤ d → d < 16 * s + dirs t.codeLimit → ¬ present (m'.mem 0 d)) ∧
      ∀ d, 16 * s + dirs t.codeLimit ≤ d → m'.mem 0 d = m.mem 0 d := by
  have hin : ∀ k < dirs t.codeLimit, dirIndex (slotBase s) + k ∈ userDirs := by
    rw [dirIndex_slotBase hs]
    exact fun k hk => mem_userDirs.2 (by omega)
  obtain ⟨m₁, hrun₁, hf₁⟩ :=
    freePageTables_frees h (slotBase_aligned s) (slotBase_ne_zero h1) hin
  have hdir₁ := (freePageTables_keeps h (slotBase_aligned s) (slotBase_ne_zero h1) hin hrun₁).2
  rw [dirIndex_slotBase hs] at hdir₁
  obtain ⟨m₂, hrun₂, hf₂⟩ := freeSlot_frees hf₁.inv h1 hs hdata.le
  have hdir₂ := (freeSlot_keeps hf₁.inv h1 hs hdata.le hrun₂).2
  refine ⟨m₂, ?_, hf₂.inv, fun d hlo hhi hp => ?_, fun d hd => ?_⟩
  · rw [Fork.freeTables, hrun₁]
    exact hrun₂
  · rw [hdir₂, clearedDirs] at hp
    split at hp
    · exact present_zero hp
    · rw [hdir₁, clearedDirs] at hp
      split at hp
      · exact present_zero hp
      · next hnot => exact hnot ⟨hlo, hhi, hp⟩
  · rw [hdir₂, clearedDirs, if_neg (by omega), hdir₁, clearedDirs, if_neg (by omega)]

/-- Its sizes add up to 0 in 32 bits, and its code segment has 68MB. -/
def wideText : Header := ⟨Exec.ZMAGIC, 71303168, 4223664128, 0, 0, 0, 0, 0⟩

/-- Tasks 1 and 2 are there, and task 2 has a page for an argument. -/
theorem two_tasks : ∃ σ t u p, Reachable (fun _ => True) (machine 4080) σ ∧ Fork.Sound 4080 σ.kernel ∧
    σ.kernel.task 1 = some t ∧ t.info.state ≠ .zombie ∧ σ.kernel.task 2 = some u ∧
    u.info.state ≠ .zombie ∧ u.codeLimit = 655360 ∧ u.dataLimit = 655360 ∧ σ.args 1 = noArgs ∧
    σ.args 2 31 = some p ∧ (freePages σ.kernel.mm).card = 11 := by
  obtain ⟨page₁, k₁, hfork₁, hsound₁, hlast, htask₁, hcard₁⟩ :=
    machine_forks 4080 (by decide) (by decide)
  have hzero : k₁.task 0 = some Fork.initTask := by
    rw [htask₁]
    rfl
  have hpid : ProcessTree.findPid (fun i => (k₁.task i).map Task.info)
      (Scheduler.NR_TASKS + 1) k₁.lastPid = some 2 := by
    rw [htask₁, hlast]
    rfl
  have hslot : ProcessTree.findSlot (fun i => (k₁.task i).map Task.info) = some 2 := by
    rw [htask₁]
    rfl
  obtain ⟨page₂, k₂, hfork₂, -, htask₂, hcard₂⟩ := Fork.first_forks hsound₁ hzero (by decide) hpid
    hslot (by omega)
  have hsound₂ := Fork.sysFork_forked hsound₁ hzero hfork₂
  obtain ⟨p, m, hget⟩ := getFreePage_room (m := k₂.mm) (by omega)
  have hcard := freePages_got hget
  have hz : WaitQueue.TaskState.running ≠ .zombie := by decide
  have hone : k₂.task 1 = some (Fork.childOf Fork.initTask page₁ 1) := by
    rw [htask₂, Function.update_of_ne (by decide), htask₁, Function.update_self]
  have htwo : k₂.task 2 = some (Fork.childOf Fork.initTask page₂ 2) := by
    rw [htask₂, Function.update_self]
  have hforked₁ : Reachable (fun _ => True) (machine 4080) { machine 4080 with kernel := k₁ } :=
    .step .init (.fork (s := 0) (t := Fork.initTask) rfl (by decide) hfork₁)
  have hforked₂ : Reachable (fun _ => True) (machine 4080) { machine 4080 with kernel := k₂ } :=
    hforked₁.step (.fork (s := 0) hzero (by decide) hfork₂)
  have htaken := hforked₂.step (.copyStrings (s := 2) (i := 31) htwo hz trivial (by decide) rfl hget)
  exact ⟨_, _, _, p, htaken, hsound₂.step (.take htwo hz hget), hone, hz, htwo, hz, rfl, rfl, rfl, rfl,
    by change (freePages m).card = 11; omega⟩

/-- Without arguments, `do_execve` empties the slot and takes a page for the first store. -/
theorem doExecve_noArgs {σ : System} {lo text : ℕ} (h : Fork.Sound lo σ.kernel)
    (ht : σ.kernel.task s = some t) (h1 : 1 ≤ s) (hargs : σ.args s = noArgs)
    (hroom : 2 ≤ (freePages σ.kernel.mm).card) :
    ∃ σ₁, doExecve σ s t text 0 = some σ₁ ∧ Inv lo σ₁.kernel.held σ₁.kernel.mm ∧
      σ₁.kernel.task = Function.update σ.kernel.task s (some (newLimits t text)) ∧
      σ₁.args = Function.update σ.args s noArgs ∧
      ∀ d, 16 * s + 16 ≤ d → σ₁.kernel.mm.mem 0 d = σ.kernel.mm.mem 0 d := by
  have hs : s < 64 := (h.limits s t ht).1
  obtain ⟨m₁, hfree, he⟩ := freeTables_emptied h ht h1
  have hcard : (freePages σ.kernel.mm).card ≤ (freePages m₁).card := he.freePages_le h.good.inv
  have hplace : dirIndex (slotBase s + 0) = 16 * s := dirIndex_slotBase hs
  have hd : dirIndex (slotBase s + 0) ∈ userDirs := mem_userDirs.2 (by omega)
  have hempty : ¬ present (m₁.mem 0 (dirIndex (slotBase s + 0))) := by
    rw [he.inside _ hd (by omega)]
    exact present_zero
  have hentry : ¬ present (entryAt m₁ (slotBase s + 0)) := fun hc => hempty (present_dir_of_pte hc)
  obtain ⟨m₂, hget, hinv₂, -, -, hother⟩ := getEmptyPage_room he.inv hd hempty (by omega)
  have hexec : doExecve σ s t text 0 =
      some ⟨{ σ.kernel with
          mm := m₂
          task := Function.update σ.kernel.task s (some (newLimits t text)) },
        Function.update σ.args s noArgs⟩ := by
    unfold doExecve
    rw [hfree]
    unfold firstStore afterChange
    simp only [hargs, changeLdt_noArgs]
    rw [if_neg hentry]
    simp only [hget]
  refine ⟨_, hexec, hinv₂, rfl, rfl, fun d hd => ?_⟩
  exact (hother d (by omega)).trans (he.outside d (by omega))

/-- The exit of a task with 17 directory entries of code frees the first table of the next slot. -/
theorem doExit_beyond {k : Fork.Kernel} {lo : ℕ} (h : Inv lo k.held k.mm) (h1 : 1 ≤ s)
    (hs : s < 63) (hcode : dirs t.codeLimit = 17) (hdata : dirs t.dataLimit = 16) :
    ∃ k₁ z, Fork.doExit k s t = some k₁ ∧ Inv lo k₁.held k₁.mm ∧
      k₁.task = Function.update k.task s (some z) ∧ ¬ present (k₁.mm.mem 0 (16 * s + 16)) ∧
      ∀ d, 16 * s + 17 ≤ d → k₁.mm.mem 0 d = k.mm.mem 0 d := by
  obtain ⟨m, hfree, hinv, hgone, hkept⟩ :=
    freeTables_beyond (t := t) h h1 (by omega) (by omega) (by omega) hdata
  rw [hcode] at hgone hkept
  have hexit : Fork.doExit k s t = some { k with
      mm := m
      task := Function.update k.task s (some { t with info := { t.info with state := .zombie } }) } := by
    unfold Fork.doExit
    rw [hfree]
  exact ⟨_, _, hexit, hinv, rfl, hgone _ (by omega) (by omega), hkept⟩

/-- Task 2 has its page tables freed by task 1 while it is in `do_execve`, and no page is left. -/
theorem exec_loses_argument : ∃ σ₀ σ u p m, Start 4080 4096 setupPaging σ₀ ∧
    Reachable (fun _ => True) σ₀ σ ∧ σ.kernel.task 2 = some u ∧ u.info.state ≠ .zombie ∧
    σ.args 2 31 = some p ∧ Fork.freeTables 2 u σ.kernel.mm = .ok () m ∧
    ¬ ∀ ok ∈ (changeLdt (σ.args 2) (slotBase 2) MAX_ARG_PAGES ⟨σ.kernel.held, m⟩).1, ok = true := by
  obtain ⟨σ, t, u, p, hr, hsound, ht, hz, hu, huz, hucode, hudata, hnoargs, hp, hcard⟩ := two_tasks
  -- task 1 executes the file
  obtain ⟨σ₁, hexec, hinv₁, htask₁, hargs₁, hdir₁⟩ :=
    doExecve_noArgs hsound ht le_rfl hnoargs (by omega)
  have hvalid : wideText.Valid 1024 := by decide
  have hr₁ := hr.step (.exec (s := 1) ht hz (by decide) hvalid trivial (by decide) hexec)
  -- it exits, and the table of task 2 goes with its own
  have ht₁ : σ₁.kernel.task 1 = some (newLimits t wideText.text) := by
    rw [htask₁, Function.update_self]
  have hcode : dirs (newLimits t wideText.text).codeLimit = 17 := by
    change dirs (codeLimitOf 71303168) = 17
    decide
  have hdata : dirs (newLimits t wideText.text).dataLimit = 16 := by
    change dirs 67108864 = 16
    decide
  obtain ⟨k₂, z, hexit, hinv₂, htask₂, hgone, hdir₂⟩ :=
    doExit_beyond hinv₁ le_rfl (by decide) hcode hdata
  have hr₂ := hr₁.step (.exit ht₁ hz hexit)
  have hu₂ : k₂.task 2 = some u := by
    rw [htask₂, htask₁, Function.update_of_ne (by decide), Function.update_of_ne (by decide)]
    exact hu
  have hp₂ : Function.update σ₁.args 1 noArgs 2 31 = some p := by
    rw [hargs₁, Function.update_of_ne (by decide), Function.update_of_ne (by decide)]
    exact hp
  -- the pages that are left are taken by others
  obtain ⟨st, htakes, -, hleft, hdir₃⟩ := takes_down 0 (freePages k₂.mm).card ⟨k₂.held, k₂.mm⟩ hinv₂
    (Nat.zero_add _).symm
  have hr₃ := takes_reachable (σ := ⟨k₂, Function.update σ₁.args 1 noArgs⟩) htakes hu₂ huz hr₂
  have hnone : getFreePage st.mm = none := getFreePage_none hleft
  have hfirst : ¬ present (st.mm.mem 0 32) := by
    rw [hdir₃]
    exact hgone
  have hlast : ¬ present (st.mm.mem 0 47) := by
    rw [hdir₃, hdir₂ 47 (by omega), hdir₁ 47 (by omega)]
    rcases hsound.tables 47 (mem_userDirs.2 (by omega)) with hzero | ⟨-, v, hv, -, hlt⟩
    · rw [hzero]
      exact present_zero
    · have hslot : 47 / 16 = 2 := by decide
      rw [hslot, hu] at hv
      cases hv
      rw [hudata] at hlt
      exact absurd hlt (by decide)
  have hfree : Fork.freeTables 2 u st.mm = .ok () st.mm := by
    have hnothing : freePageTables (slotBase 2) 655360 st.mm = .ok () st.mm := by
      have hdirs : dirs 655360 = 1 := by decide
      have hone : freeDir (dirIndex (slotBase 2) + 0) st.mm = .ok () st.mm := if_pos hfirst
      unfold freePageTables
      rw [if_neg (by decide), if_neg (by decide), hdirs]
      simp only [forUpto, Res.bind, hone]
    rw [Fork.freeTables, hucode, hudata, hnothing]
    exact hnothing
  refine ⟨_, _, u, p, st.mm, machine_start 4080 (by decide), hr₃, hu₂, huz, hp₂, hfree, fun hall => ?_⟩
  have hfalse := hall false (changeLdt_starved (s := 2) (by decide) (by decide) hp₂ hnone hlast)
  cases hfalse

end Arguments

end Linux011.ExecPages
