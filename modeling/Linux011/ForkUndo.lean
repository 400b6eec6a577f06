import Linux011.MemoryRuns

set_option autoImplicit false

/-!
# What a failed copy of the page tables leaves behind

`copy_page_tables` may stop at any page table; `free_page_tables` then walks the whole slot. What
neither of them restores by the counts is restored because it was never touched: the directory
outside of the slot, and `mem_map` outside of main memory.
-/
namespace Linux011.Memory
open FiniteCount

/-- Entries of the directory in `D` may come to be present; others stay, or are cleared. -/
def DirsWithin (D : ℕ → Prop) (m m' : Mm) : Prop :=
  ∀ d, m'.mem 0 d = m.mem 0 d ∨ m'.mem 0 d = 0 ∨ D d ∧ present (m'.mem 0 d)

/-- The counts of what is not main memory stay. -/
structure MapKeeps (lo : ℕ) (m m' : Mm) : Prop where
  map : ∀ i, i + 256 < lo ∨ m.highMemory ≤ i + 256 → m'.memMap i = m.memMap i
  high : m'.highMemory = m.highMemory

section
variable {lo : ℕ} {held : Finset ℕ} {m m₁ m' : Mm} {D : ℕ → Prop}

theorem DirsWithin.refl : DirsWithin D m m := fun _ => .inl rfl

theorem DirsWithin.of_eq (h : ∀ d, m'.mem 0 d = m.mem 0 d) : DirsWithin D m m' :=
  fun d => .inl (h d)

theorem DirsWithin.trans (h : DirsWithin D m m₁) (h' : DirsWithin D m₁ m') :
    DirsWithin D m m' := by
  intro d
  rcases h' d with hd | hd | hd
  · rw [hd]
    exact h d
  · exact .inr (.inl hd)
  · exact .inr (.inr hd)

theorem MapKeeps.refl : MapKeeps lo m m := ⟨fun _ _ => rfl, rfl⟩

theorem MapKeeps.trans (h : MapKeeps lo m m₁) (h' : MapKeeps lo m₁ m') : MapKeeps lo m m' :=
  ⟨fun i hi => (h'.map i (by rwa [h.high])).trans (h.map i hi), h'.high.trans h.high⟩

theorem MapKeeps.setMap {i v : ℕ} (hlo : lo ≤ i + 256) (hhi : i + 256 < m.highMemory) :
    MapKeeps lo m (m.setMap i v) := by
  refine ⟨fun j hj => ?_, rfl⟩
  rw [Mm.setMap_memMap, if_neg (by omega)]

theorem getFreePage_keeps {p : ℕ} (h : Inv lo held m) (hg : getFreePage m = some (p, m')) :
    DirsWithin D m m' ∧ MapKeeps lo m m' := by
  have ha := h.alloc hg
  refine ⟨.of_eq ha.same.dir, fun i hi => ?_, ha.same.high⟩
  simp only [getFreePage, Option.map_eq_some_iff, LOW_MEM, PAGING_PAGES] at hg
  obtain ⟨j, hj, he⟩ := hg
  obtain ⟨rfl, rfl⟩ := Prod.mk.inj he
  have := ha.main
  rw [Mm.fill_memMap, Mm.setMap_memMap, if_neg (by omega)]

theorem freePage_keeps {p : ℕ} (hp : p < 256 ∨ lo ≤ p)
    (hr : freePage p m = .ok () m') : MapKeeps lo m m' ∧ m'.mem = m.mem := by
  unfold freePage at hr
  simp only at hr
  split_ifs at hr with h1 h2 h3
  · cases hr
    exact ⟨.refl, rfl⟩
  · cases hr
    have hpl : ¬ p < 256 := h1
    refine ⟨.setMap ?_ ?_, rfl⟩ <;> unfold mapNr LOW_MEM <;> omega

/-! ### The inner loops -/

/-- The pages that the entries of a table map are main memory, or below it. -/
def MapsMain (lo : ℕ) (m : Mm) (table n : ℕ) : Prop :=
  ∀ i < n, present (m.mem table i) → frame (m.mem table i) < 256 ∨
    lo ≤ frame (m.mem table i) ∧ frame (m.mem table i) < m.highMemory

theorem Inv.mapsMain (h : Inv lo held m) {d : ℕ} (hd : d ∈ userDirs) (hp : present (m.mem 0 d)) :
    MapsMain lo m (frame (m.mem 0 d)) 1024 := by
  intro i hi hpe
  have hcell : m.mem (frame (m.mem 0 d)) i = pte m d i := (if_pos hp).symm
  rw [hcell] at hpe ⊢
  rcases Nat.lt_or_ge (frame (pte m d i)) 256 with hl | hl
  · exact .inl hl
  · exact .inr (h.page d hd i hi hpe hl)

theorem freeEntries_keeps {table n : ℕ} (hp : MapsMain lo m table n)
    (hr : forUpto n (freeEntry table) m = .ok () m') :
    MapKeeps lo m m' ∧ ∀ i ≥ n, m'.mem table i = m.mem table i := by
  induction n generalizing m' with
  | zero =>
    cases hr
    exact ⟨.refl, fun _ _ => rfl⟩
  | succ n ih =>
    simp only [forUpto] at hr
    cases hf : forUpto n (freeEntry table) m with
    | stop w m₁ => simp only [hf, Res.bind] at hr; cases hr
    | ok _ m₁ =>
      obtain ⟨hk, hrest⟩ := ih (fun i hi => hp i (by omega)) hf
      simp only [hf, Res.bind, freeEntry, hrest n le_rfl] at hr
      have hone : ∀ m₂, (if present (m.mem table n) then freePage (frame (m.mem table n)) m₁
          else .ok () m₁) = .ok () m₂ → MapKeeps lo m₁ m₂ ∧ m₂.mem = m₁.mem := by
        intro m₂ h₂
        split_ifs at h₂ with hpe
        · exact freePage_keeps ((hp n (by omega) hpe).imp_right And.left) h₂
        · cases h₂
          exact ⟨.refl, rfl⟩
      generalize (if present (m.mem table n) then freePage (frame (m.mem table n)) m₁
          else .ok () m₁) = r at hr hone
      cases r with
      | stop w m₂ => cases hr
      | ok _ m₂ =>
        cases hr
        obtain ⟨hk₂, hmem⟩ := hone m₂ rfl
        refine ⟨hk.trans ⟨hk₂.map, hk₂.high⟩, fun i hi => ?_⟩
        rw [Mm.write_mem_self, if_neg (by omega), hmem, hrest i (by omega)]

theorem copyEntries_keeps {t t' n : ℕ} (h0 : t ≠ 0) (h0' : t' ≠ 0) (hne : t' ≠ t)
    (hp : MapsMain lo m t n)
    (hr : forUpto n (fun i m => .ok () (copyEntry t t' i m)) m = .ok () m') :
    MapKeeps lo m m' ∧ m'.mem 0 = m.mem 0 ∧ ∀ i ≥ n, m'.mem t i = m.mem t i := by
  induction n generalizing m' with
  | zero =>
    cases hr
    exact ⟨.refl, rfl, fun _ _ => rfl⟩
  | succ n ih =>
    simp only [forUpto] at hr
    cases hf : forUpto n (fun i m => .ok () (copyEntry t t' i m)) m with
    | stop w m₁ => simp only [hf, Res.bind] at hr; cases hr
    | ok _ m₁ =>
      obtain ⟨hk, hdir, hrest⟩ := ih (fun i hi => hp i (by omega)) hf
      simp only [hf, Res.bind] at hr
      cases hr
      have hold := hrest n le_rfl
      have hframe := hp n (by omega)
      unfold copyEntry
      rw [← hold] at hframe
      simp only
      split_ifs with hpe hgt
      · have hmain := (low_iff hpe).mp hgt
        have hnr : (clearWrite (m₁.mem t n) - 256 * 4096) / 4096 = frame (m₁.mem t n) - 256 :=
          nr_of_main hmain
        rcases hframe hpe with hc | ⟨hlo, hhi⟩
        · omega
        rw [← hk.high] at hhi
        refine ⟨hk.trans ?_, ?_, fun i hi => ?_⟩
        · simp only [LOW_MEM, hnr]
          exact ⟨fun j hj => (MapKeeps.setMap (by omega) (by
            simp only [Mm.write_high]
            omega)).map j hj, rfl⟩
        · rw [Mm.setMap_mem, Mm.write_mem_ne _ _ _ _ h0.symm, Mm.write_mem_ne _ _ _ _ h0'.symm, hdir]
        · rw [Mm.setMap_mem, Mm.write_mem_self, if_neg (by omega), Mm.write_mem_ne _ _ _ _ hne.symm,
            hrest i (by omega)]
      · refine ⟨⟨hk.map, hk.high⟩, ?_, fun i hi => ?_⟩
        · rw [Mm.write_mem_ne _ _ _ _ h0'.symm, hdir]
        rw [Mm.write_mem_ne _ _ _ _ hne.symm, hrest i (by omega)]
      · exact ⟨hk, hdir, fun i hi => hrest i (by omega)⟩

/-! ### One directory entry -/

/-- What is read of the table that is copied. -/
structure Source (lo : ℕ) (m : Mm) (d n : ℕ) : Prop where
  nonzero : frame (m.mem 0 d) ≠ 0
  used : frame (m.mem 0 d) < 256 ∨ tableRefs m (frame (m.mem 0 d)) ≠ 0
  main : MapsMain lo m (frame (m.mem 0 d)) n

theorem Inv.source (h : Inv lo held m) {d : ℕ} (hd : d ∈ userDirs) (hp : present (m.mem 0 d)) :
    Source lo m d 1024 := by
  have hlow := h.low
  have ht := (h.table d hd hp).1
  exact ⟨by omega, .inr (by rw [(h.table_only hd hp).1]; exact one_ne_zero), h.mapsMain hd hp⟩

/-- Task 0 has the kernel's own table, of which 160 entries are copied. -/
theorem Inv.source_kernel (h : Inv lo held m) : Source lo m 0 160 := by
  have hdir : m.mem 0 0 = entryOf 1 := h.kernelDir 0 (by omega)
  have hframe : frame (m.mem 0 0) = 1 := by rw [hdir, frame_entryOf]
  refine ⟨by omega, .inl (by omega), fun i hi _ => .inl ?_⟩
  have hcell := h.kernelTable 0 (by omega) i (by omega)
  rw [Nat.zero_add, Nat.zero_mul, Nat.zero_add] at hcell
  rw [hframe, hcell, frame_entryOf]
  omega

theorem copyDir_keeps (h : Inv lo held m) {d d' n : ℕ} (hd' : d' ∈ userDirs)
    (hs : present (m.mem 0 d) → Source lo m d n) (hr : copyDir d d' n m = .ok () m') :
    MapKeeps lo m m' ∧ (m'.mem 0 d' = m.mem 0 d' ∨ present (m'.mem 0 d')) := by
  have hlow := h.low
  unfold copyDir at hr
  split_ifs at hr with hp' hp
  · obtain ⟨h0, hused, hmain⟩ := hs hp
    cases hg : getFreePage m with
    | none => simp only [hg] at hr; cases hr
    | some r =>
      obtain ⟨p, m₁⟩ := r
      obtain ⟨-, hdir, -, -, hkeep, hplo, -, htab, -⟩ := h.newTable hd' hp' hg
      have hne : frame (m.mem 0 d) ≠ p := by
        rintro rfl
        rcases hused with hc | hc
        · omega
        · exact hc htab
      have hk : MapKeeps lo m (m₁.write 0 d' (entryOf p)) :=
        (getFreePage_keeps (D := fun _ => False) h hg).2.trans ⟨fun _ _ => rfl, rfl⟩
      simp only [hg] at hr
      generalize m₁.write 0 d' (entryOf p) = m₂ at *
      have hsame := hkeep _ hne h0
      obtain ⟨hk', hdir', -⟩ := copyEntries_keeps h0 (by omega) hne.symm
        (fun i hi hpe => by rw [hsame] at hpe ⊢; rw [hk.high]; exact hmain i hi hpe) hr
      refine ⟨hk.trans hk', .inr ?_⟩
      rw [hdir', hdir]
      exact present_entryOf p
  · cases hr
    exact ⟨.refl, .inl rfl⟩

theorem freeDir_keeps (h : Inv lo held m) {d : ℕ} (hd : d ∈ userDirs)
    (hr : freeDir d m = .ok () m') :
    MapKeeps lo m m' ∧ m'.mem 0 d = if present (m.mem 0 d) then 0 else m.mem 0 d := by
  have hlow := h.low
  unfold freeDir at hr
  split_ifs at hr with hp
  · obtain ⟨htlo, -, -⟩ := h.table d hd hp
    obtain ⟨m₁, hrun, -, -, hkeep, -⟩ := h.emptyTable hd hp
    have hdir : m₁.mem 0 d = m.mem 0 d := by rw [hkeep 0 (by omega)]
    have hk := (freeEntries_keeps (h.mapsMain hd hp) hrun).1
    simp only [hrun, Res.bind, hdir] at hr
    cases hf : freePage (frame (m.mem 0 d)) m₁ with
    | stop w m₂ => simp only [hf] at hr; cases hr
    | ok _ m₂ =>
      obtain ⟨hk', -⟩ := freePage_keeps (.inr htlo) hf
      simp only [hf] at hr
      cases hr
      refine ⟨hk.trans (hk'.trans ⟨fun _ _ => rfl, rfl⟩), ?_⟩
      rw [Mm.write_mem_self, if_pos rfl, if_pos hp]
  · cases hr
    rw [if_neg hp]
    exact ⟨.refl, rfl⟩

/-! ### A whole slot -/

/-- A directory after `n` entries from `d` on have been freed. -/
def clearedDirs (f : ℕ → ℕ) (d n : ℕ) : ℕ → ℕ := fun e =>
  if d ≤ e ∧ e < d + n ∧ present (f e) then 0 else f e

theorem freePageTables_keeps (h : Inv lo held m) {start size : ℕ} (ha : start % 4194304 = 0)
    (h0 : start ≠ 0) (hd : ∀ k < dirs size, dirIndex start + k ∈ userDirs)
    (hr : freePageTables start size m = .ok () m') :
    MapKeeps lo m m' ∧
      ∀ e, m'.mem 0 e = clearedDirs (m.mem 0) (dirIndex start) (dirs size) e := by
  have hloop : ∃ m₁, forUpto (dirs size) (fun k => freeDir (dirIndex start + k)) m = .ok () m₁ ∧
      Inv lo held m₁ ∧ MapKeeps lo m m₁ ∧
      ∀ e, m₁.mem 0 e = clearedDirs (m.mem 0) (dirIndex start) (dirs size) e := by
    apply forUpto_ok (P := fun k m₁ => Inv lo held m₁ ∧ MapKeeps lo m m₁ ∧
      ∀ e, m₁.mem 0 e = clearedDirs (m.mem 0) (dirIndex start) k e)
    · refine ⟨h, .refl, fun e => ?_⟩
      unfold clearedDirs
      rw [if_neg (by omega)]
    · rintro k hk m₁ ⟨hinv, hkeep, hdir⟩
      have hd := hd k hk
      generalize dirIndex start = b at hd hdir ⊢
      obtain ⟨m₂, hrun, hf, hother⟩ := freeDir_frees hinv hd
      obtain ⟨hkeep', hself⟩ := freeDir_keeps hinv hd hrun
      refine ⟨m₂, hrun, hf.inv, hkeep.trans hkeep', fun e => ?_⟩
      by_cases he : e = b + k
      · have hold : m₁.mem 0 (b + k) = m.mem 0 (b + k) := by
          rw [hdir]
          unfold clearedDirs
          rw [if_neg (by omega)]
        rw [he, hself, hold]
        unfold clearedDirs
        by_cases hp : present (m.mem 0 (b + k))
        · rw [if_pos hp, if_pos ⟨by omega, by omega, hp⟩]
        · rw [if_neg hp, if_neg (fun hc => hp hc.2.2)]
      · rw [hother e he, hdir]
        unfold clearedDirs
        have hiff : (b ≤ e ∧ e < b + k ∧ present (m.mem 0 e)) ↔
            (b ≤ e ∧ e < b + (k + 1) ∧ present (m.mem 0 e)) :=
          ⟨fun hc => ⟨hc.1, by omega, hc.2.2⟩, fun hc => ⟨hc.1, by omega, hc.2.2⟩⟩
        rw [if_congr hiff rfl rfl]
  obtain ⟨m₁, hrun, -, hkeep, hdir⟩ := hloop
  unfold freePageTables at hr
  rw [if_neg (not_not.mpr ha), if_neg h0, hrun] at hr
  cases hr
  exact ⟨hkeep, hdir⟩

theorem freeSlot_keeps (h : Inv lo held m) {b size : ℕ} (hb : 1 ≤ b) (hb' : b < 64)
    (hsize : dirs size ≤ 16) (hr : freePageTables (slotBase b) size m = .ok () m') :
    MapKeeps lo m m' ∧ ∀ e, m'.mem 0 e = clearedDirs (m.mem 0) (16 * b) (dirs size) e := by
  have hkeeps := freePageTables_keeps h (slotBase_aligned b) (slotBase_ne_zero hb) ?_ hr
  · rwa [dirIndex_slotBase hb'] at hkeeps
  · rw [dirIndex_slotBase hb']
    exact fun k hk => mem_userDirs.mpr (by omega)

theorem Res.Sat.and_ok {α : Type} {P P' : α → Mm → Prop} {Q : Stop → Mm → Prop} {r : Res α}
    (h : r.Sat P Q) (h' : ∀ a m, r = .ok a m → P' a m) :
    r.Sat (fun a m => P a m ∧ P' a m) Q := by
  cases r with
  | ok a m => exact ⟨h, h' a m rfl⟩
  | stop w m => cases w <;> exact h

/-- What `copy_page_tables` has done after `k` directory entries. -/
structure Copied (lo : ℕ) (held : Finset ℕ) (m : Mm) (a b k : ℕ) (m' : Mm) : Prop where
  leads : Leads lo held held m m' (copied (sourceEntry m a) (pte m) (16 * a) (16 * b) k)
  uses : Uses m m'
  keeps : MapKeeps lo m m'
  outside : ∀ e, ¬ (16 * b ≤ e ∧ e < 16 * b + k) → m'.mem 0 e = m.mem 0 e
  inside : ∀ e, m'.mem 0 e = m.mem 0 e ∨ present (m'.mem 0 e)

theorem copySlot_keeps (h : Inv lo held m) {a b size : ℕ} (ha : a < 64) (hb : 1 ≤ b)
    (hb' : b < 64) (hab : a ≠ b) (hsize : dirs size ≤ 16) (h0 : a = 0 → dirs size ≤ 1) :
    (copyPageTables (slotBase a) (slotBase b) size m).Sat
      (fun _ m' => Copied lo held m a b (dirs size) m')
      (fun w m' => w = .outOfMemory ∧ ∃ k ≤ dirs size, Copied lo held m a b k m') := by
  unfold copyPageTables
  rw [if_neg (by simp [slotBase_aligned]), dirIndex_slotBase ha, dirIndex_slotBase hb']
  apply sat_forUpto (P := fun k m' => Copied lo held m a b k m')
  · refine ⟨h.refl.congr fun e _ i _ => ?_, fun _ hp => hp, .refl, fun _ _ => rfl, fun _ => .inl rfl⟩
    unfold copied
    rw [if_neg (by omega), if_neg (by omega)]
  · rintro k hk m₁ ⟨hl, hu, hkeep, hout, hin⟩
    have hd' : 16 * b + k ∈ userDirs := mem_userDirs.mpr (by omega)
    have hsource : present (m₁.mem 0 (16 * a + k)) →
        Source lo m₁ (16 * a + k) (if slotBase a = 0 then 160 else 1024) := by
      intro hp
      by_cases ha0 : a = 0
      · subst ha0
        obtain rfl : k = 0 := by
          have := h0 rfl
          omega
        exact hl.inv.source_kernel
      · rw [if_neg (slotBase_ne_zero (by omega))]
        exact hl.inv.source (mem_userDirs.mpr (by omega)) hp
    refine ((copyTurn ha hb hb' hab hsize h0 hk hl).and_ok
      fun _ m' hr => copyDir_keeps hl.inv hd' hsource hr).mono ?_ ?_
    · rintro _ m' ⟨⟨hl', hu', hdir⟩, hkeep', hself⟩
      refine ⟨(hl.chain hu hl').congr (copied_succ (fun j hj => by omega) hl.pte),
        fun p hp => hu' p (hu p hp), hkeep.trans hkeep', ?_, ?_⟩
      · intro e he
        rw [hdir e (by omega), hout e (by omega)]
      · intro e
        by_cases he : e = 16 * b + k
        · rw [he]
          exact hself.imp_left fun hs => hs.trans (hout _ (by omega))
        · rw [hdir e he]
          exact hin e
    · rintro w m' ⟨rfl, rfl⟩
      exact ⟨rfl, k, hk.le, hl, hu, hkeep, hout, hin⟩

/-- A copy that is taken back: only read/write bits of the slot that was copied are different. -/
structure Undone (lo : ℕ) (held : Finset ℕ) (m : Mm) (a : ℕ) (m' : Mm) : Prop where
  inv : Inv lo held m'
  keeps : MapKeeps lo m m'
  dir : ∀ d, m'.mem 0 d = m.mem 0 d
  pte : ∀ d ∈ userDirs, ∀ i < 1024, pte m' d i = pte m d i ∨
    d / 16 = a ∧ pte m' d i = clearWrite (pte m d i)

theorem copyMem_undone (h : Inv lo held m) {a b size : ℕ} (ha : a < 64) (hb : 1 ≤ b)
    (hb' : b < 64) (hab : a ≠ b) (hsize : dirs size ≤ 16) (h0 : a = 0 → dirs size ≤ 1)
    (hempty : ∀ d, d / 16 = b → m.mem 0 d = 0) :
    (copyMem (slotBase a) (slotBase b) size m).Sat (fun _ _ => True)
      (fun _ m' => Undone lo held m a m') := by
  have hcopy := copySlot_keeps h ha hb hb' hab hsize h0
  apply copyMem_rule (hcopy.mono (fun _ _ _ => trivial) fun _ _ hQ => hQ)
  rintro m₁ ⟨k, hk, hc⟩
  obtain ⟨m₂, hrun, hf⟩ := freeSlot_frees hc.leads.inv hb hb' hsize
  obtain ⟨hkeep, hdir⟩ := freeSlot_keeps hc.leads.inv hb hb' hsize hrun
  refine ⟨m₂, hrun, hf.inv, hc.keeps.trans hkeep, ?_, ?_⟩
  · intro d
    rw [hdir]
    unfold clearedDirs
    by_cases hin : 16 * b ≤ d ∧ d < 16 * b + dirs size
    · have hz := hempty d (by omega)
      by_cases hp : present (m₁.mem 0 d)
      · rw [if_pos ⟨hin.1, hin.2, hp⟩, hz]
      · rw [if_neg (fun hc => hp hc.2.2)]
        exact (hc.inside d).resolve_right hp
    · rw [if_neg (fun hc => hin ⟨hc.1, hc.2.1⟩), hc.outside d (by omega)]
  · intro d hd i hi
    rw [hf.pte d hd i hi]
    unfold clearDirs
    by_cases hin : 16 * b ≤ d ∧ d < 16 * b + dirs size
    · have hz : pte m d i = 0 := by
        unfold Memory.pte
        rw [hempty d (by omega), if_neg present_zero]
      rw [if_pos hin, hz]
      exact .inl rfl
    · rw [if_neg hin, hc.leads.pte d hd i hi]
      unfold copied
      rw [if_neg (by omega)]
      split_ifs with hsrc
      · unfold protectMain
        split_ifs
        · exact .inr ⟨by omega, rfl⟩
        · exact .inl rfl
      · exact .inl rfl

/-! ### The directory entries that one page may add -/

/-- The memory a call leaves, however it ends. -/
def Res.mm {α : Type} : Res α → Mm
  | .ok _ m | .stop _ m => m

theorem DirsWithin.bind {α β : Type} {r : Res α} {f : α → Mm → Res β}
    (h : DirsWithin D m r.mm) (hf : ∀ a m', r = .ok a m' → DirsWithin D m' (f a m').mm) :
    DirsWithin D m (r.bind f).mm := by
  cases r with
  | ok a m' => exact h.trans (hf a m' rfl)
  | stop w m' => exact h

theorem DirsWithin.write {p : ℕ} (h : DirsWithin D m m') (hp : p ≠ 0) (i v : ℕ) :
    DirsWithin D m (m'.write p i v) := by
  refine h.trans (.of_eq fun d => ?_)
  rw [Mm.write_mem_ne _ _ _ _ hp.symm]

theorem freePage_dirs (p : ℕ) : DirsWithin D m (freePage p m).mm := by
  unfold freePage
  simp only
  split_ifs <;> exact .refl

theorem getFreePage_dirs {p : ℕ} (hg : getFreePage m = some (p, m')) :
    p ≠ 0 ∧ ∀ d, m'.mem 0 d = m.mem 0 d := by
  simp only [getFreePage, Option.map_eq_some_iff, LOW_MEM, PAGING_PAGES] at hg
  obtain ⟨j, -, he⟩ := hg
  obtain ⟨rfl, rfl⟩ := Prod.mk.inj he
  refine ⟨by omega, fun d => ?_⟩
  rw [Mm.fill_mem_ne _ _ _ (by omega), Mm.setMap_mem]

theorem newTable_dirs {p d : ℕ} (hg : getFreePage m = some (p, m')) (hD : D d) :
    DirsWithin D m (m'.write 0 d (entryOf p)) := by
  intro e
  rw [Mm.write_mem_self]
  split_ifs with he
  · exact .inr (.inr ⟨he ▸ hD, present_entryOf p⟩)
  · exact .inl ((getFreePage_dirs hg).2 e)

/-- No table lies in the directory's own page. -/
def TablesApart (m : Mm) : Prop := ∀ d < 1024, present (m.mem 0 d) → frame (m.mem 0 d) ≠ 0

theorem Inv.tablesApart (h : Inv lo held m) : TablesApart m := by
  have hlow := h.low
  intro d hd hp
  by_cases hk : d < 16
  · have hdir := h.kernelDir d hk
    split_ifs at hdir
    · rw [hdir, frame_entryOf]
      omega
    · rw [hdir] at hp
      exact absurd hp present_zero
  · have := (h.table d (mem_userDirs.mpr ⟨by omega, hd⟩) hp).1
    omega

theorem dirIndex_lt (address : ℕ) : dirIndex address < 1024 := Nat.mod_lt _ (by omega)

theorem putPage_dirs {page address : ℕ} (hD : D (dirIndex address)) (h : TablesApart m) :
    DirsWithin D m (putPage page address m).mm := by
  unfold putPage
  by_cases hp : present (m.mem 0 (dirIndex address))
  · simp only [hp, if_true]
    exact DirsWithin.refl.write (h _ (dirIndex_lt _) hp) _ _
  · simp only [hp, if_false]
    cases hg : getFreePage m with
    | none => exact .refl
    | some r => exact (newTable_dirs hg hD).write (getFreePage_dirs hg).1 _ _

theorem getEmptyPage_dirs {address : ℕ} (hD : D (dirIndex address)) (h : TablesApart m) :
    DirsWithin D m (getEmptyPage address m).mm := by
  unfold getEmptyPage
  cases hg : getFreePage m with
  | none => exact (freePage_dirs 0).bind fun _ _ _ => .refl
  | some r =>
    obtain ⟨p, m₁⟩ := r
    have hsame := (getFreePage_dirs hg).2
    have hget : DirsWithin D m m₁ := .of_eq hsame
    have hput : DirsWithin D m₁ (putPage p address m₁).mm := putPage_dirs hD fun d => by
      rw [hsame]
      exact h d
    dsimp only
    generalize putPage p address m₁ = r at hput
    cases r with
    | ok _ m₂ => exact hget.trans hput
    | stop w m₂ =>
      cases w with
      | outOfMemory => exact hget.trans (hput.trans ((freePage_dirs p).bind fun _ _ _ => .refl))
      | _ => exact hget.trans hput

theorem unWpPage_dirs {table i : ℕ} (ht : table ≠ 0) : DirsWithin D m (unWpPage table i m).mm := by
  unfold unWpPage
  simp only
  split_ifs
  · exact DirsWithin.refl.write ht _ _
  all_goals
    cases hg : getFreePage m with
    | none => exact .refl
    | some r =>
      obtain ⟨hp, hget⟩ := getFreePage_dirs hg
      refine (DirsWithin.write (.of_eq hget) ht i (entryOf r.1)).trans (.of_eq fun d => ?_)
      exact congrFun (Mm.fill_mem_ne _ _ _ hp.symm) d

theorem writeVerify_dirs {address : ℕ} (h : TablesApart m) :
    DirsWithin D m (writeVerify address m).mm := by
  unfold writeVerify
  simp only
  split_ifs with hp hw
  · exact unWpPage_dirs (h _ (dirIndex_lt _) hp)
  · exact .refl
  · exact .refl

theorem tryToShare_dirs {address pStart start : ℕ} (hD : D (dirIndex address + dirIndex start))
    (hd : dirIndex address + dirIndex pStart < 1024)
    (hd' : dirIndex address + dirIndex start < 1024) (h : TablesApart m) :
    DirsWithin D m (tryToShare address pStart start m).mm := by
  unfold tryToShare
  simp only
  split_ifs with hp hclean hmain hp'
  · exact .refl
  · refine DirsWithin.bind .refl fun table m₁ he => ?_
    obtain ⟨rfl, rfl⟩ := Res.ok.inj he
    split_ifs
    · exact .refl
    · exact (DirsWithin.refl.write (h _ hd hp) _ _).write (h _ hd' hp') _ _
  · cases hg : getFreePage m with
    | none => exact .refl
    | some r =>
      refine DirsWithin.bind (newTable_dirs hg hD) fun table m₂ he => ?_
      obtain ⟨rfl, rfl⟩ := Res.ok.inj he
      split_ifs
      · exact .refl
      · exact (DirsWithin.refl.write (h _ hd hp) _ _).write (getFreePage_dirs hg).1 _ _
  · exact .refl
  · exact .refl

theorem store_dirs {address v : ℕ} (h : frame (m.mem 0 (dirIndex address)) ≠ 0)
    (h' : frame (m.mem (frame (m.mem 0 (dirIndex address))) (tableIndex address)) ≠ 0) :
    DirsWithin D m (store address v m) := by
  unfold store
  exact (DirsWithin.refl.write h _ _).write h' _ _

end

end Linux011.Memory
