import Linux011.PageCalls

set_option autoImplicit false

/-! # Freeing and copying the tables of a whole slot -/
namespace Linux011.Memory
open FiniteCount

variable {lo : ℕ} {held : Finset ℕ} {m : Mm}

def clearDirs (f : ℕ → ℕ → ℕ) (d n : ℕ) : ℕ → ℕ → ℕ :=
  fun d' i => if d ≤ d' ∧ d' < d + n then 0 else f d' i

/-- Tables and mappings go; every page that is no table keeps its content. -/
structure Frees (lo : ℕ) (held : Finset ℕ) (m m' : Mm) (new : ℕ → ℕ → ℕ) : Prop where
  inv : Inv lo held m'
  pte : ∀ d ∈ userDirs, ∀ i < 1024, pte m' d i = new d i
  dir : ∀ d, m'.mem 0 d = m.mem 0 d ∨ m'.mem 0 d = 0
  keep : ∀ p ≥ 256, tableRefs m p = 0 → m'.mem p = m.mem p
  high : m'.highMemory = m.highMemory

theorem Frees.leads {m' : Mm} {new : ℕ → ℕ → ℕ} (h : Inv lo held m)
    (hf : Frees lo held m m' new) : Leads lo held held m m' new := by
  refine ⟨hf.inv, hf.pte, ?_, hf.high⟩
  intro p hp hu
  apply hf.keep p hp
  rcases hu with hu | hu
  · by_contra hc
    have : ∃ d ∈ userDirs, mapsTo (m.mem 0 d) p := by
      by_contra hno
      exact hc (tally_eq_zero.mpr fun d hd hm => hno ⟨d, hd, hm⟩)
    obtain ⟨d, hd, hpd, rfl⟩ := this
    have := (h.table_only hd hpd).2.1
    omega
  · exact (h.held_only hu).2

theorem Frees.trans {m₁ m₂ : Mm} {new new' : ℕ → ℕ → ℕ} (h : Frees lo held m m₁ new)
    (h' : Frees lo held m₁ m₂ new') : Frees lo held m m₂ new' := by
  refine ⟨h'.inv, h'.pte, ?_, ?_, h'.high.trans h.high⟩
  · intro d
    rcases h'.dir d with hd | hd
    · rw [hd]
      exact h.dir d
    · exact .inr hd
  · intro p hp ht
    rw [h'.keep p hp ?_, h.keep p hp ht]
    apply tally_eq_zero.mpr
    intro d hd hm
    rcases h.dir d with he | he
    · rw [he] at hm
      exact tally_eq_zero.mp ht d hd hm
    · rw [he] at hm
      exact present_zero hm.1

/-- The inner loop of `free_page_tables`: a table is emptied. -/
theorem Inv.emptyTable (h : Inv lo held m) {d : ℕ} (hd : d ∈ userDirs)
    (hp : present (m.mem 0 d)) :
    ∃ m', forUpto 1024 (freeEntry (frame (m.mem 0 d))) m = .ok () m' ∧ Inv lo held m' ∧
      (∀ e ∈ userDirs, ∀ i < 1024, pte m' e i = if e = d then 0 else pte m e i) ∧
      (∀ p, p ≠ frame (m.mem 0 d) → m'.mem p = m.mem p) ∧ m'.highMemory = m.highMemory := by
  have hlow := h.low
  have htab := (h.table d hd hp).1
  obtain ⟨m', hrun, hinv, hpte, hkeep, hhigh⟩ : ∃ m',
      forUpto 1024 (freeEntry (frame (m.mem 0 d))) m = .ok () m' ∧ Inv lo held m' ∧
      (∀ e ∈ userDirs, ∀ i < 1024, pte m' e i = if e = d ∧ i < 1024 then 0 else pte m e i) ∧
      (∀ p, p ≠ frame (m.mem 0 d) → m'.mem p = m.mem p) ∧ m'.highMemory = m.highMemory := by
    apply forUpto_ok (P := fun n m' => Inv lo held m' ∧
      (∀ e ∈ userDirs, ∀ i < 1024, pte m' e i = if e = d ∧ i < n then 0 else pte m e i) ∧
      (∀ p, p ≠ frame (m.mem 0 d) → m'.mem p = m.mem p) ∧ m'.highMemory = m.highMemory)
    · exact ⟨h, fun e _ i _ => by simp, fun _ _ => rfl, rfl⟩
    · rintro i hi m₁ ⟨h₁, hpte, hkeep, hhigh⟩
      have hdir : m₁.mem 0 d = m.mem 0 d := by rw [hkeep 0 (by omega)]
      obtain ⟨m₂, hrun, hl, hframe⟩ := freeEntry_leads h₁ hd hi (by rwa [hdir])
      rw [hdir] at hrun hframe
      refine ⟨m₂, hrun, hl.inv, ?_, fun p hp => (hframe p hp).trans (hkeep p hp),
        hl.high.trans hhigh⟩
      intro e he j hj
      rw [hl.pte e he j hj, setAt, hpte e he j hj]
      by_cases hed : e = d
      · subst hed
        by_cases hji : j = i
        · simp [hji]
        · by_cases hlt : j < i
          · simp [hji, hlt, Nat.lt_succ_of_lt hlt]
          · simp [hji, hlt, show ¬ j < i + 1 by omega]
      · simp [hed]
  refine ⟨m', hrun, hinv, ?_, hkeep, hhigh⟩
  intro e he i hi
  rw [hpte e he i hi]
  simp only [hi, and_true]

theorem freeDir_frees (h : Inv lo held m) {d : ℕ} (hd : d ∈ userDirs) :
    ∃ m', freeDir d m = .ok () m' ∧ Frees lo held m m' (clearDirs (pte m) d 1) ∧
      ∀ e, e ≠ d → m'.mem 0 e = m.mem 0 e := by
  have hlow := h.low
  have hone : ∀ e, (d ≤ e ∧ e < d + 1) ↔ e = d := fun e => by omega
  unfold freeDir
  by_cases hp : present (m.mem 0 d)
  · rw [if_neg (not_not.mpr hp)]
    obtain ⟨m₁, hrun, h₁, hpte, hkeep, hhigh⟩ := h.emptyTable hd hp
    obtain ⟨hlo, hhi, _⟩ := h.table d hd hp
    have hdir : m₁.mem 0 d = m.mem 0 d := by rw [hkeep 0 (by omega)]
    have hp₁ : present (m₁.mem 0 d) := by
      rw [hdir]
      exact hp
    have hmap₁ := (h₁.table d hd hp₁).2.2
    rw [hdir] at hmap₁
    simp only [hrun, Res.bind, hdir]
    generalize htab : frame (m.mem 0 d) = table at *
    rw [freePage_main (hlow.trans hlo) (hhigh ▸ hhi) (by rw [hmap₁]; exact one_ne_zero), hmap₁]
    simp only
    have hmap : ∀ j, ((m₁.setMap (table - 256) (1 - 1)).write 0 d 0).memMap j =
        if j = table - 256 then 0 else m₁.memMap j := by
      intro j
      rw [Mm.write_memMap, Mm.setMap_memMap]
    have hmem : ∀ q, q ≠ 0 → ((m₁.setMap (table - 256) (1 - 1)).write 0 d 0).mem q = m₁.mem q := by
      intro q hq
      rw [Mm.write_mem_ne _ _ _ _ hq, Mm.setMap_mem]
    have hdirs : ∀ e, ((m₁.setMap (table - 256) (1 - 1)).write 0 d 0).mem 0 e =
        if e = d then 0 else m₁.mem 0 e := by
      intro e
      rw [Mm.write_mem_self, Mm.setMap_mem]
    have hhigh' : ((m₁.setMap (table - 256) (1 - 1)).write 0 d 0).highMemory = m₁.highMemory := by
      rw [Mm.write_high, Mm.setMap_high]
    generalize (m₁.setMap (table - 256) (1 - 1)).write 0 d 0 = m₂ at *
    have hpte₂ : ∀ e ∈ userDirs, ∀ i < 1024, pte m₂ e i = pte m₁ e i := by
      intro e he i hi
      by_cases hed : e = d
      · subst hed
        rw [hpte e he i hi, if_pos rfl]
        unfold pte
        rw [hdirs, if_pos rfl, if_neg present_zero]
      · unfold pte
        rw [hdirs, if_neg hed]
        by_cases hpe : present (m₁.mem 0 e)
        · have := (h₁.table e he hpe).1
          rw [if_pos hpe, if_pos hpe, hmem _ (by omega)]
        · rw [if_neg hpe, if_neg hpe]
    refine ⟨m₂, rfl, ⟨?_, ?_, ?_, ?_, hhigh'.trans hhigh⟩, ?_⟩
    · apply h₁.setDir hd ⟨hdirs, hpte₂, hhigh', fun q _ hq => hmem q hq⟩ (Finset.Subset.refl _)
      · intro q hqlo _
        rw [hmap, hdir, if_neg (fun hc : mapsTo 0 q => present_zero hc.1)]
        by_cases hq : q = table
        · subst hq
          rw [if_pos rfl, if_pos ⟨hp, htab⟩, hmap₁]
        · rw [if_neg (by omega), if_neg (fun hc => hq (hc.2.symm.trans htab))]
      · intro j hj hout
        rw [hmap, if_neg (by omega)]
      · exact fun hc => absurd hc present_zero
    · intro e he i hi
      rw [hpte₂ e he i hi, hpte e he i hi]
      simp only [clearDirs, hone]
    · intro e
      rw [hdirs]
      split_ifs
      · exact .inr rfl
      · exact .inl (by rw [hkeep 0 (by omega)])
    · intro q hq ht
      rw [hmem q (by omega), hkeep q ?_]
      rintro rfl
      have := tableRefs_pos hd hp
      rw [htab] at this
      omega
    · intro e hed
      rw [hdirs, if_neg hed, hkeep 0 (by omega)]
  · rw [if_pos hp]
    refine ⟨m, rfl, ⟨h, ?_, fun _ => .inl rfl, fun _ _ _ => rfl, rfl⟩, fun _ _ => rfl⟩
    intro e _ i _
    simp only [clearDirs, hone]
    split_ifs with he
    · rw [he]
      unfold pte
      rw [if_neg hp]
    · rfl

theorem freePageTables_frees (h : Inv lo held m) {start size : ℕ} (ha : start % 4194304 = 0)
    (h0 : start ≠ 0) (hd : ∀ k < dirs size, dirIndex start + k ∈ userDirs) :
    ∃ m', freePageTables start size m = .ok () m' ∧
      Frees lo held m m' (clearDirs (pte m) (dirIndex start) (dirs size)) := by
  unfold freePageTables
  rw [if_neg (not_not.mpr ha), if_neg h0]
  apply forUpto_ok (P := fun n m' => Frees lo held m m' (clearDirs (pte m) (dirIndex start) n))
  · refine ⟨h, ?_, fun _ => .inl rfl, fun _ _ _ => rfl, rfl⟩
    intro d _ i _
    unfold clearDirs
    rw [if_neg (by omega)]
  · intro k hk m₁ hf
    obtain ⟨m₂, hrun, hf', _⟩ := freeDir_frees hf.inv (hd k hk)
    refine ⟨m₂, hrun, ?_⟩
    have ht := hf.trans hf'
    refine ⟨ht.inv, ?_, ht.dir, ht.keep, ht.high⟩
    intro d hd i hi
    rw [ht.pte d hd i hi]
    unfold clearDirs
    by_cases hlast : d = dirIndex start + k
    · rw [if_pos (by omega), if_pos (by omega)]
    · rw [if_neg (by omega), hf.pte d hd i hi]
      unfold clearDirs
      by_cases hin : dirIndex start ≤ d ∧ d < dirIndex start + k
      · rw [if_pos hin, if_pos (by omega)]
      · rw [if_neg hin, if_neg (by omega)]

/-! ### fork -/

def protectMain (e : ℕ) : ℕ := if present e ∧ 256 ≤ frame e then clearWrite e else e

/-- Entries `0 … n - 1` of directory `d` copied to directory `d'`, from the source entries `g`. -/
def copyOne (g : ℕ → ℕ) (f : ℕ → ℕ → ℕ) (d d' n : ℕ) : ℕ → ℕ → ℕ := fun e j =>
  if e = d' ∧ j < n then if present (g j) then clearWrite (g j) else f e j
  else if e = d ∧ j < n then protectMain (f e j)
  else f e j

theorem exists_of_pageRefs_pos {p : ℕ} (h : 0 < pageRefs m p) :
    ∃ d ∈ userDirs, ∃ i < 1024, mapsTo (pte m d i) p := by
  by_contra hno
  have : pageRefs m p = 0 := tally_eq_zero.mpr fun x hx hm => by
    obtain ⟨hd, hi⟩ := mem_userEntries.mp (show (x.1, x.2) ∈ userEntries from hx)
    exact hno ⟨x.1, hd, x.2, hi, hm⟩
  omega

/-- Every page in use stays in use. -/
def Uses (m m' : Mm) : Prop := ∀ p, 0 < pageRefs m p → 0 < pageRefs m' p

theorem Uses.of {m' : Mm} (h : ∀ d ∈ userDirs, ∀ i < 1024, ∀ p, mapsTo (pte m d i) p →
    mapsTo (pte m' d i) p) : Uses m m' := by
  intro p hp
  obtain ⟨d, hd, i, hi, hm⟩ := exists_of_pageRefs_pos hp
  exact pageRefs_pos hd hi (h d hd i hi p hm)

theorem Leads.chain {held₂ : Finset ℕ} {m₁ m₂ : Mm} {new new' : ℕ → ℕ → ℕ}
    (h : Leads lo held held m m₁ new) (hu : Uses m m₁) (h' : Leads lo held held₂ m₁ m₂ new') :
    Leads lo held held₂ m m₂ new' :=
  h.trans h' fun p _ hp => hp.imp_left (hu p)

theorem Mm.write_comm {p q : ℕ} (h : p ≠ q) (i v j w : ℕ) :
    (m.write p i v).write q j w = (m.write q j w).write p i v := by
  simp only [Mm.write, Function.update_of_ne h, Function.update_of_ne h.symm,
    Function.update_comm h]

/-- A page below `LOW_MEM` is mapped without being counted. -/
theorem Inv.mapLow (h : Inv lo held m) {d i v : ℕ} (hd : d ∈ userDirs) (hi : i < 1024)
    (hp : present (m.mem 0 d)) (hn : ¬ present (pte m d i)) (hl : frame v < 256) :
    Leads lo held held m (m.write (frame (m.mem 0 d)) i v) (setAt (pte m) d i v) := by
  have hlow := h.low
  have hs := h.write_sets hd hp i v
  have hno : ¬ 256 ≤ frame v := by omega
  refine ⟨h.set hd hi hs ⟨?_, fun _ _ _ => rfl, Finset.Subset.refl _, fun _ hc => absurd hc hno,
    fun _ hc => absurd hc hno, fun _ hc => absurd hc hno, fun _ hc => absurd hc hno,
    fun _ _ hc => absurd hc hno, ?_⟩,
    fun d' hd' i' _ => hs.pte d' hd' i', fun q _ hq => h.write_keep hd hp i v q hq, rfl⟩
  · intro q hqlo _
    rw [if_neg (fun hc => hn hc.1), if_neg (fun hc => hno (by rw [hc.2]; omega)), m.write_memMap]
  · intro y hy _ hyp hyw hyl
    exact h.alone y hy hyp hyw hyl

theorem low_iff {e : ℕ} (hp : present e) : clearWrite e > 256 * 4096 ↔ 256 ≤ frame e := by
  unfold present at hp
  unfold clearWrite frame
  split_ifs <;> omega

theorem nr_of_main {e : ℕ} (hl : 256 ≤ frame e) :
    (clearWrite e - 256 * 4096) / 4096 = frame e - 256 := by
  have h := frame_clearWrite e
  unfold frame at *
  omega

/-- One entry copied, from the source entry `x`. -/
def copyCell (x : ℕ) (f : ℕ → ℕ → ℕ) (d d' i : ℕ) : ℕ → ℕ → ℕ := fun e j =>
  if e = d' ∧ j = i then if present x then clearWrite x else f e j
  else if e = d ∧ j = i then protectMain (f e j)
  else f e j

theorem uses_copyCell {d d' i x : ℕ} {m' : Mm} (hn : ¬ present (pte m d' i))
    (hpte : ∀ e ∈ userDirs, ∀ j < 1024, pte m' e j = copyCell x (pte m) d d' i e j) :
    Uses m m' := by
  apply Uses.of
  intro e he j hj p hm
  rw [hpte e he j hj]
  unfold copyCell
  by_cases hto : e = d' ∧ j = i
  · rw [hto.1, hto.2] at hm
    exact absurd hm.1 hn
  · rw [if_neg hto]
    split_ifs with hfrom
    · unfold protectMain mapsTo
      split_ifs
      · rw [present_clearWrite, frame_clearWrite]
        exact hm
      · exact hm
    · exact hm

theorem copyEntry_user (h : Inv lo held m) {d d' i : ℕ} (hd : d ∈ userDirs) (hd' : d' ∈ userDirs)
    (hmod : d % 16 = d' % 16) (hne : d ≠ d') (hi : i < 1024) (hp : present (m.mem 0 d))
    (hp' : present (m.mem 0 d')) (hn : ¬ present (pte m d' i)) :
    Leads lo held held m (copyEntry (frame (m.mem 0 d)) (frame (m.mem 0 d')) i m)
      (copyCell (pte m d i) (pte m) d d' i) ∧
    (∀ e, (copyEntry (frame (m.mem 0 d)) (frame (m.mem 0 d')) i m).mem 0 e = m.mem 0 e) := by
  have hlow := h.low
  have hcell : m.mem (frame (m.mem 0 d)) i = pte m d i := (if_pos hp).symm
  have ht := (h.table d hd hp).1
  have ht' := (h.table d' hd' hp').1
  have htt : frame (m.mem 0 d') ≠ frame (m.mem 0 d) := fun hc =>
    hne (h.table_inj hd hd' hp hp' hc.symm)
  unfold copyEntry
  simp only [hcell]
  by_cases hpe : present (pte m d i)
  · rw [if_neg (not_not.mpr hpe)]
    by_cases hl : 256 ≤ frame (pte m d i)
    · have hgt : clearWrite (pte m d i) > LOW_MEM * 4096 := (low_iff hpe).mpr hl
      have hnr : (clearWrite (pte m d i) - LOW_MEM * 4096) / 4096 = frame (pte m d i) - 256 :=
        nr_of_main hl
      rw [if_pos hgt, hnr, Mm.write_memMap, Mm.write_memMap, Mm.write_comm htt]
      have hsh := h.shareEntry hd hd' hmod hi hp hp' hpe hl hn
      refine ⟨hsh.congr ?_, ?_⟩
      · intro e _ j _
        unfold setAt copyCell protectMain
        by_cases hto : e = d' ∧ j = i
        · rw [if_pos hto, if_pos hto, if_pos hpe]
        · rw [if_neg hto, if_neg hto]
          by_cases hfrom : e = d ∧ j = i
          · rw [if_pos hfrom, if_pos hfrom, hfrom.1, hfrom.2, if_pos ⟨hpe, hl⟩]
          · rw [if_neg hfrom, if_neg hfrom]
      · intro e
        rw [Mm.setMap_mem, Mm.write_mem_ne _ _ _ _ (by omega), Mm.write_mem_ne _ _ _ _ (by omega)]
    · have hgt : ¬ clearWrite (pte m d i) > LOW_MEM * 4096 := fun hc => hl ((low_iff hpe).mp hc)
      rw [if_neg hgt]
      refine ⟨(h.mapLow hd' hi hp' hn (by rw [frame_clearWrite]; omega)).congr ?_, ?_⟩
      · intro e _ j _
        unfold setAt copyCell protectMain
        by_cases hto : e = d' ∧ j = i
        · rw [if_pos hto, if_pos hto, if_pos hpe]
        · rw [if_neg hto, if_neg hto]
          by_cases hfrom : e = d ∧ j = i
          · rw [if_pos hfrom, hfrom.1, hfrom.2, if_neg (fun hc => hl hc.2)]
          · rw [if_neg hfrom]
      · intro e
        rw [Mm.write_mem_ne _ _ _ _ (by omega)]
  · rw [if_pos hpe]
    refine ⟨h.refl.congr ?_, fun _ => rfl⟩
    intro e _ j _
    unfold copyCell protectMain
    by_cases hto : e = d' ∧ j = i
    · rw [if_pos hto, if_neg hpe]
    · rw [if_neg hto]
      by_cases hfrom : e = d ∧ j = i
      · rw [if_pos hfrom, hfrom.1, hfrom.2, if_neg (fun hc => hpe hc.1)]
      · rw [if_neg hfrom]

/-- Task 0's own table maps low memory, writable, and is left as it is. -/
theorem copyEntry_kernel (h : Inv lo held m) {d' i : ℕ} (hd' : d' ∈ userDirs) (hi : i < 160)
    (hp' : present (m.mem 0 d')) (hn : ¬ present (pte m d' i)) :
    Leads lo held held m (copyEntry 1 (frame (m.mem 0 d')) i m)
      (copyCell (entryOf i) (pte m) 0 d' i) ∧
    (∀ e, (copyEntry 1 (frame (m.mem 0 d')) i m).mem 0 e = m.mem 0 e) := by
  have hlow := h.low
  have ht' := (h.table d' hd' hp').1
  unfold copyEntry
  have hcell : m.mem 1 i = entryOf i := by
    have := h.kernelTable 0 (by omega) i (by omega)
    rwa [Nat.zero_mul, Nat.zero_add, Nat.zero_add] at this
  simp only [hcell]
  have hpe := present_entryOf i
  have hgt : ¬ clearWrite (entryOf i) > LOW_MEM * 4096 := fun hc => by
    have := (low_iff hpe).mp hc
    rw [frame_entryOf] at this
    omega
  rw [if_neg (not_not.mpr hpe), if_neg hgt]
  refine ⟨(h.mapLow hd' (by omega) hp' hn
    (by rw [frame_clearWrite, frame_entryOf]; omega)).congr ?_, ?_⟩
  · intro e he j _
    have he0 : ¬ e = 0 := fun hc => by
      have := mem_userDirs.mp he
      omega
    unfold setAt copyCell
    by_cases hto : e = d' ∧ j = i
    · rw [if_pos hto, if_pos hto, if_pos hpe]
    · rw [if_neg hto, if_neg hto, if_neg (fun hc => he0 hc.1)]
  · intro e
    rw [Mm.write_mem_ne _ _ _ _ (by omega)]

/-- The inner loop of `copy_page_tables`, over a body known entry by entry. -/
theorem Inv.copyTable (h : Inv lo held m) {d d' a t n : ℕ} {g : ℕ → ℕ} (hd' : d' ∈ userDirs)
    (hn : n ≤ 1024) (hempty : ∀ i < 1024, ¬ present (pte m d' i))
    (hstep : ∀ i < n, ∀ m₁, Inv lo held m₁ → (∀ e, m₁.mem 0 e = m.mem 0 e) →
      (d ∈ userDirs → pte m₁ d i = pte m d i) → ¬ present (pte m₁ d' i) →
      Leads lo held held m₁ (copyEntry a t i m₁)
        (copyCell (g i) (pte m₁) d d' i) ∧
      ∀ e, (copyEntry a t i m₁).mem 0 e = m₁.mem 0 e) :
    ∃ m', forUpto n (fun i m => .ok () (copyEntry a t i m)) m = .ok () m' ∧
      Leads lo held held m m' (copyOne g (pte m) d d' n) ∧ Uses m m' ∧
      ∀ e, m'.mem 0 e = m.mem 0 e := by
  apply forUpto_ok (P := fun k m' => Leads lo held held m m' (copyOne g (pte m) d d' k) ∧
    Uses m m' ∧ ∀ e, m'.mem 0 e = m.mem 0 e)
  · refine ⟨h.refl.congr ?_, fun _ hp => hp, fun _ => rfl⟩
    intro e _ j _
    simp [copyOne]
  · rintro i hi m₁ ⟨hl, hu, hdir⟩
    have hto : pte m₁ d' i = pte m d' i := by
      rw [hl.pte d' hd' i (by omega)]
      simp [copyOne]
    have hfrom : d ∈ userDirs → pte m₁ d i = pte m d i := fun hd => by
      rw [hl.pte d hd i (by omega)]
      simp [copyOne]
    have hn' : ¬ present (pte m₁ d' i) := by
      rw [hto]
      exact hempty i (by omega)
    obtain ⟨hl', hdir'⟩ := hstep i hi m₁ hl.inv hdir hfrom hn'
    refine ⟨_, rfl, (hl.chain hu hl').congr ?_, ?_, fun e => (hdir' e).trans (hdir e)⟩
    · intro e he j hj
      unfold copyCell
      rw [hl.pte e he j hj]
      unfold copyOne
      by_cases hji : j = i
      · simp [hji]
      · have hlt : j < i + 1 ↔ j < i := by omega
        simp [hji, hlt]
    · exact fun p hp => uses_copyCell hn' hl'.pte p (hu p hp)

/-- A directory that is not there yet is filled from the source's entries. -/
theorem copyDir_sat (h : Inv lo held m) {d d' n : ℕ} {g : ℕ → ℕ} (hd' : d' ∈ userDirs)
    (hn : n ≤ 1024) (hne : d ≠ d') (hg : ¬ present (m.mem 0 d) → ∀ i < n, ¬ present (g i))
    (hg' : ∀ i < 1024, n ≤ i → ¬ present (g i))
    (hfrom : ¬ present (m.mem 0 d) → ∀ i < 1024, protectMain (pte m d i) = pte m d i)
    (hrest : d ∈ userDirs → n = 1024)
    (hstep : present (m.mem 0 d) → ∀ i < n, ∀ m₁, Inv lo held m₁ → m₁.mem 0 d = m.mem 0 d →
      present (m₁.mem 0 d') →
      (d ∈ userDirs → pte m₁ d i = pte m d i) → ¬ present (pte m₁ d' i) →
      Leads lo held held m₁ (copyEntry (frame (m.mem 0 d)) (frame (m₁.mem 0 d')) i m₁)
        (copyCell (g i) (pte m₁) d d' i) ∧
      ∀ e, (copyEntry (frame (m.mem 0 d)) (frame (m₁.mem 0 d')) i m₁).mem 0 e = m₁.mem 0 e) :
    (copyDir d d' n m).Sat
      (fun _ m' => Leads lo held held m m' (copyOne g (pte m) d d' 1024) ∧ Uses m m' ∧
        ∀ e, e ≠ d' → m'.mem 0 e = m.mem 0 e)
      (fun w m' => w = .outOfMemory ∧ m' = m) := by
  unfold copyDir
  by_cases hp' : present (m.mem 0 d')
  · rw [if_pos hp']
    trivial
  · rw [if_neg hp']
    by_cases hp : present (m.mem 0 d)
    · rw [if_neg (not_not.mpr hp)]
      cases hg₁ : getFreePage m with
      | none => exact ⟨rfl, rfl⟩
      | some r =>
        obtain ⟨p, m₁⟩ := r
        obtain ⟨hl₁, hdir, hdirs, _⟩ := h.newTable hd' hp' hg₁
        simp only
        generalize m₁.write 0 d' (entryOf p) = m₂ at *
        have hframe : frame (m₂.mem 0 d') = p := by rw [hdir, frame_entryOf]
        have hempty : ∀ i < 1024, ¬ present (pte m₂ d' i) := by
          intro i hi
          rw [hl₁.pte d' hd' i hi]
          unfold pte
          rw [if_neg hp']
          exact present_zero
        obtain ⟨m₃, hrun, hl, hu, hdir₃⟩ := hl₁.inv.copyTable (a := frame (m.mem 0 d)) (t := p) (g := g)
          hd' hn hempty (by
            intro i hi m₃ h₃ hdirs₃ hpte₃ hn₃
            rw [← hframe, ← hdirs₃ d']
            refine hstep hp i hi m₃ h₃ ?_ ?_ ?_ hn₃
            · rw [hdirs₃, hdirs d hne]
            · rw [hdirs₃, hdir]
              exact present_entryOf p
            · intro hd
              rw [hpte₃ hd, hl₁.pte d hd i (by omega)])
        rw [hrun]
        refine ⟨(hl₁.chain ?_ hl).congr ?_, ?_, ?_⟩
        · exact fun q hq => by rwa [pageRefs_congr hl₁.pte]
        · intro e he j hj
          unfold copyOne
          rw [hl₁.pte e he j hj]
          by_cases hjn : j < n
          · simp only [hjn, hj, and_true]
          · simp only [hjn, hj, and_true, and_false, if_false, if_neg (hg' j hj (by omega))]
            by_cases hed : e = d
            · have := hrest (hed ▸ he)
              omega
            · simp [hed]
        · exact fun q hq => hu q (by rwa [pageRefs_congr hl₁.pte])
        · intro e he
          rw [hdir₃, hdirs e he]
    · rw [if_pos hp]
      refine ⟨h.refl.congr ?_, fun _ hq => hq, fun _ _ => rfl⟩
      intro e _ j hj
      have hgj : ¬ present (g j) := by
        by_cases hjn : j < n
        · exact hg hp j hjn
        · exact hg' j hj (by omega)
      unfold copyOne
      rw [if_neg hgj]
      by_cases hed : e = d
      · rw [hed, hfrom hp j hj]
        simp
      · simp [hed]

/-- `n` directories copied, from the source entries `g`. -/
def copied (g f : ℕ → ℕ → ℕ) (src dst n : ℕ) : ℕ → ℕ → ℕ := fun e i =>
  if dst ≤ e ∧ e < dst + n then
    if present (g (e - dst) i) then clearWrite (g (e - dst) i) else f e i
  else if src ≤ e ∧ e < src + n then protectMain (f e i)
  else f e i

theorem copied_succ {g f : ℕ → ℕ → ℕ} {src dst k : ℕ} {h : ℕ → ℕ → ℕ}
    (hdis : ∀ j ≤ k, src + j ≠ dst + k ∧ src + k ≠ dst + j)
    (hh : ∀ e ∈ userDirs, ∀ i < 1024, h e i = copied g f src dst k e i) :
    ∀ e ∈ userDirs, ∀ i < 1024,
      copyOne (g k) h (src + k) (dst + k) 1024 e i = copied g f src dst (k + 1) e i := by
  intro e he i hi
  have hsrc : src + k ≠ dst + k := (hdis k le_rfl).1
  unfold copyOne
  rw [hh e he i hi]
  unfold copied
  by_cases hto : e = dst + k
  · have hnot : ¬ (src ≤ e ∧ e < src + k) := fun hc =>
      (hdis (e - src) (by omega)).1 (by omega)
    have hold : ¬ (dst ≤ e ∧ e < dst + k) := by omega
    have hnew : dst ≤ e ∧ e < dst + (k + 1) := by omega
    rw [if_pos ⟨hto, hi⟩, if_neg hold, if_neg hnot, if_pos hnew, show e - dst = k by omega]
  · by_cases hfrom : e = src + k
    · have hnot : ¬ (dst ≤ e ∧ e < dst + (k + 1)) := fun hc =>
        (hdis (e - dst) (by omega)).2 (by omega)
      have hold : ¬ (dst ≤ e ∧ e < dst + k) := by omega
      have hold' : ¬ (src ≤ e ∧ e < src + k) := by omega
      have hnew : src ≤ e ∧ e < src + (k + 1) := by omega
      rw [if_neg (fun hc => hto hc.1), if_pos ⟨hfrom, hi⟩, if_neg hold, if_neg hold', if_neg hnot,
        if_pos hnew]
    · have hd : (dst ≤ e ∧ e < dst + (k + 1)) ↔ (dst ≤ e ∧ e < dst + k) := by omega
      have hs : (src ≤ e ∧ e < src + (k + 1)) ↔ (src ≤ e ∧ e < src + k) := by omega
      rw [if_neg (fun hc => hto hc.1), if_neg (fun hc => hfrom hc.1)]
      simp only [hd, hs]

/-- The 64MB slot of a task. -/
def slotBase (s : ℕ) : ℕ := 67108864 * s

theorem dirIndex_slotBase {s : ℕ} (hs : s < 64) : dirIndex (slotBase s) = 16 * s := by
  unfold dirIndex slotBase
  omega

theorem slotBase_ne_zero {s : ℕ} (hs : 1 ≤ s) : slotBase s ≠ 0 := by
  unfold slotBase
  omega

theorem slotBase_aligned (s : ℕ) : slotBase s % 4194304 = 0 := by
  unfold slotBase
  omega

/-- The entries `copy_page_tables` reads: task 0 has the kernel's own table. -/
def sourceEntry (m : Mm) (a k i : ℕ) : ℕ :=
  if a = 0 then if k = 0 ∧ i < 160 then entryOf i else 0 else pte m (16 * a + k) i

/-- One turn of the outer loop of `copy_page_tables`, after `k` of them. -/
theorem copyTurn {m₁ : Mm} {a b k size : ℕ} (ha : a < 64) (hb : 1 ≤ b) (hb' : b < 64)
    (hab : a ≠ b) (hsize : dirs size ≤ 16) (h0 : a = 0 → dirs size ≤ 1) (hk : k < dirs size)
    (hl : Leads lo held held m m₁ (copied (sourceEntry m a) (pte m) (16 * a) (16 * b) k)) :
    (copyDir (16 * a + k) (16 * b + k) (if slotBase a = 0 then 160 else 1024) m₁).Sat
      (fun _ m' => Leads lo held held m₁ m'
        (copyOne (sourceEntry m a k) (pte m₁) (16 * a + k) (16 * b + k) 1024) ∧ Uses m₁ m' ∧
        ∀ e, e ≠ 16 * b + k → m'.mem 0 e = m₁.mem 0 e)
      (fun w m' => w = .outOfMemory ∧ m' = m₁) := by
  have hlow := hl.inv.low
  have hd' : 16 * b + k ∈ userDirs := mem_userDirs.mpr (by omega)
  by_cases ha0 : a = 0
  · subst ha0
    obtain rfl : k = 0 := by
      have := h0 rfl
      omega
    have hk0 : present (m₁.mem 0 0) := by
      rw [hl.inv.kernelDir 0 (by omega)]
      exact present_entryOf 1
    have hg : ∀ i < 160, sourceEntry m 0 0 i = entryOf i := fun i hi => by
      simp [sourceEntry, hi]
    have hz : slotBase 0 = 0 := rfl
    rw [if_pos hz]
    apply copyDir_sat hl.inv hd' (by omega) (by omega) (fun hc => absurd hk0 hc) ?_
      (fun hc => absurd hk0 hc) (fun hc => by have := mem_userDirs.mp hc; omega)
    · intro _ i hi m₂ h₂ _ hp₂ _ hn₂
      rw [hl.inv.kernelDir 0 (by omega), if_pos (by omega), frame_entryOf, hg i hi]
      exact copyEntry_kernel h₂ hd' hi hp₂ hn₂
    · intro i _ hi
      simp only [sourceEntry, if_true]
      rw [if_neg (by omega)]
      exact present_zero
  · have hd : 16 * a + k ∈ userDirs := mem_userDirs.mpr (by omega)
    have hz : slotBase a ≠ 0 := slotBase_ne_zero (by omega)
    have hg : ∀ i < 1024, sourceEntry m a k i = pte m₁ (16 * a + k) i := by
      intro i hi
      rw [hl.pte _ hd i hi]
      unfold sourceEntry copied
      rw [if_neg ha0, if_neg (by omega), if_neg (by omega)]
    have habsent : ¬ present (m₁.mem 0 (16 * a + k)) → ∀ i, pte m₁ (16 * a + k) i = 0 :=
      fun hc i => if_neg hc
    rw [if_neg hz]
    apply copyDir_sat hl.inv hd' le_rfl (by omega) ?_ (fun i hi hge => by omega) ?_
      (fun _ => rfl)
    · intro _ i hi m₂ h₂ hdir₂ hp₂ hpte₂ hn₂
      rename_i hp
      rw [hg i hi, ← hpte₂ hd, ← hdir₂]
      exact copyEntry_user h₂ hd hd' (by omega) (by omega) hi (by rwa [hdir₂]) hp₂ hn₂
    · intro hc i hi
      rw [hg i hi, habsent hc]
      exact present_zero
    · intro hc i _
      rw [habsent hc]
      unfold protectMain
      rw [if_neg (fun hc => present_zero hc.1)]

theorem copyPageTables_sat (h : Inv lo held m) {a b size : ℕ} (ha : a < 64) (hb : 1 ≤ b)
    (hb' : b < 64) (hab : a ≠ b) (hsize : dirs size ≤ 16) (h0 : a = 0 → dirs size ≤ 1) :
    (copyPageTables (slotBase a) (slotBase b) size m).Sat
      (fun _ m' => Leads lo held held m m'
        (copied (sourceEntry m a) (pte m) (16 * a) (16 * b) (dirs size)) ∧ Uses m m')
      (fun w m' => w = .outOfMemory ∧ ∃ k ≤ dirs size, Leads lo held held m m'
        (copied (sourceEntry m a) (pte m) (16 * a) (16 * b) k) ∧ Uses m m') := by
  unfold copyPageTables
  rw [if_neg (by simp [slotBase_aligned]), dirIndex_slotBase ha, dirIndex_slotBase hb']
  apply sat_forUpto (P := fun k m' => Leads lo held held m m'
    (copied (sourceEntry m a) (pte m) (16 * a) (16 * b) k) ∧ Uses m m')
  · refine ⟨h.refl.congr ?_, fun _ hp => hp⟩
    intro e _ i _
    unfold copied
    rw [if_neg (by omega), if_neg (by omega)]
  · rintro k hk m₁ ⟨hl, hu⟩
    refine (copyTurn ha hb hb' hab hsize h0 hk hl).mono ?_ ?_
    · rintro _ m' ⟨hl', hu', _⟩
      refine ⟨(hl.chain hu hl').congr (copied_succ (fun j hj => by omega) hl.pte), fun p hp => hu' p (hu p hp)⟩
    · rintro w m' ⟨rfl, rfl⟩
      exact ⟨rfl, k, hk.le, hl, hu⟩

theorem freeSlot_frees (h : Inv lo held m) {b size : ℕ} (hb : 1 ≤ b) (hb' : b < 64)
    (hsize : dirs size ≤ 16) : ∃ m', freePageTables (slotBase b) size m = .ok () m' ∧
      Frees lo held m m' (clearDirs (pte m) (16 * b) (dirs size)) := by
  have hdir := dirIndex_slotBase hb'
  have hf := @freePageTables_frees lo held m h (slotBase b) size (slotBase_aligned b)
    (slotBase_ne_zero hb)
  rw [hdir] at hf
  exact hf fun j hj => mem_userDirs.mpr (by omega)

theorem copyMem_rule {P : Unit → Mm → Prop} {Q Q' : Mm → Prop} {fromAddr toAddr size : ℕ}
    (hcopy : (copyPageTables fromAddr toAddr size m).Sat P fun w m' => w = .outOfMemory ∧ Q m')
    (hfree : ∀ m₁, Q m₁ → ∃ m₂, freePageTables toAddr size m₁ = .ok () m₂ ∧ Q' m₂) :
    (copyMem fromAddr toAddr size m).Sat P fun _ m' => Q' m' := by
  unfold copyMem
  generalize copyPageTables fromAddr toAddr size m = r at hcopy
  cases r with
  | ok _ m₁ => exact hcopy
  | stop w m₁ =>
    cases w with
    | outOfMemory =>
      obtain ⟨m₂, hrun, hQ⟩ := hfree m₁ hcopy.2
      simp only [hrun, Res.bind]
      exact hQ
    | oom => exact absurd hcopy.1 (by simp)
    | nonexistentPage | freeFreePage => exact absurd hcopy id
    | wrongAlignment | swapperMemory | alreadyExist | toPageExists => trivial

/-- A fork that runs out of memory leaves nothing in the new slot. -/
theorem copyMem_sat (h : Inv lo held m) {a b size : ℕ} (ha : a < 64) (hb : 1 ≤ b)
    (hb' : b < 64) (hab : a ≠ b) (hsize : dirs size ≤ 16) (h0 : a = 0 → dirs size ≤ 1) :
    (copyMem (slotBase a) (slotBase b) size m).Sat
      (fun _ m' => Leads lo held held m m'
        (copied (sourceEntry m a) (pte m) (16 * a) (16 * b) (dirs size)))
      (fun _ m' => ∃ k ≤ dirs size, Leads lo held held m m'
        (clearDirs (copied (sourceEntry m a) (pte m) (16 * a) (16 * b) k) (16 * b)
          (dirs size))) := by
  have hcopy := copyPageTables_sat h ha hb hb' hab hsize h0
  apply copyMem_rule (hcopy.mono (fun _ _ hP => hP.1) fun _ _ hQ => hQ)
  rintro m₁ ⟨k, hk, hl, hu⟩
  obtain ⟨m₂, hrun, hf⟩ := freeSlot_frees hl.inv hb hb' hsize
  refine ⟨m₂, hrun, k, hk, (hl.chain hu (hf.leads hl.inv)).congr ?_⟩
  intro d hd i hi
  unfold clearDirs
  rw [hl.pte d hd i hi]

end Linux011.Memory
