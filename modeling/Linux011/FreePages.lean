import Linux011.ForkUndo

set_option autoImplicit false

/-!
# How many pages are free

`get_free_page` fails when no page is free and only then, and each page it hands out is one less.
-/
namespace Linux011.Memory

/-- The free entries of `mem_map`. -/
def freePages (m : Mm) : Finset ℕ := (Finset.range PAGING_PAGES).filter fun i => m.memMap i = 0

variable {lo : ℕ} {held : Finset ℕ} {m m' : Mm}

theorem mem_freePages {i : ℕ} : i ∈ freePages m ↔ i < PAGING_PAGES ∧ m.memMap i = 0 := by
  rw [freePages, Finset.mem_filter, Finset.mem_range]

theorem findFree_isSome {f : ℕ → ℕ} {n i : ℕ} (hi : i < n) (h : f i = 0) :
    (findFree f n).isSome := by
  induction n with
  | zero => omega
  | succ n ih =>
    rw [findFree]
    split
    · rfl
    · next hne =>
      refine ih ?_
      have : i ≠ n := by
        rintro rfl
        exact hne h
      omega

theorem findFree_eq_none {f : ℕ → ℕ} {n : ℕ} : findFree f n = none ↔ ∀ i < n, f i ≠ 0 := by
  constructor
  · intro h i hi hzero
    have hsome := findFree_isSome hi hzero
    rw [h] at hsome
    cases hsome
  · intro h
    cases hf : findFree f n with
    | none => rfl
    | some i => exact absurd (findFree_some hf).2 (h i (findFree_some hf).1)

theorem getFreePage_isSome {i : ℕ} (hi : i < PAGING_PAGES) (h : m.memMap i = 0) :
    (getFreePage m).isSome := by
  rw [getFreePage, Option.isSome_map]
  exact findFree_isSome hi h

theorem getFreePage_room (h : 0 < (freePages m).card) : ∃ p m', getFreePage m = some (p, m') := by
  obtain ⟨i, hi⟩ := Finset.card_pos.1 h
  rw [mem_freePages] at hi
  obtain ⟨r, hr⟩ := Option.isSome_iff_exists.1 (getFreePage_isSome hi.1 hi.2)
  exact ⟨r.1, r.2, hr⟩

theorem freePages_got {p : ℕ} (hg : getFreePage m = some (p, m')) :
    (freePages m').card + 1 = (freePages m).card := by
  simp only [getFreePage, Option.map_eq_some_iff] at hg
  obtain ⟨i, hi, he⟩ := hg
  obtain ⟨hlt, h0⟩ := findFree_some hi
  cases he
  have herase : freePages ((m.setMap i 1).fill (LOW_MEM + i) fun _ => 0) = (freePages m).erase i := by
    ext j
    rw [Finset.mem_erase, mem_freePages, mem_freePages, Mm.fill_memMap, Mm.setMap_memMap]
    split
    · next hj => simp [hj]
    · next hj => simp [hj]
  rw [herase]
  exact Finset.card_erase_add_one (mem_freePages.2 ⟨hlt, h0⟩)

theorem getFreePage_none (h : (freePages m).card = 0) : getFreePage m = none := by
  cases hg : getFreePage m with
  | none => rfl
  | some r =>
    have : (freePages r.2).card + 1 = (freePages m).card := freePages_got (p := r.1) hg
    omega

theorem freePages_map (h : m'.memMap = m.memMap) : freePages m' = freePages m := by
  rw [freePages, freePages, h]

theorem freePages_memInit (startMem endMem : ℕ) (mem : ℕ → ℕ → ℕ) (hlow : 256 ≤ startMem)
    (hhigh : endMem ≤ 4096) : (freePages (memInit startMem endMem mem)).card = endMem - startMem := by
  have hsame : freePages (memInit startMem endMem mem) =
      Finset.Ico (startMem - 256) (startMem - 256 + (endMem - startMem)) := by
    ext i
    have hfree : (memInit startMem endMem mem).memMap i = 0 ↔
        startMem - 256 ≤ i ∧ i < startMem - 256 + (endMem - startMem) := by
      rw [memInit_memMap]
      unfold mapNr LOW_MEM
      split
      · next h => exact iff_of_true rfl h
      · next h => exact iff_of_false (by decide) h
    rw [mem_freePages, Finset.mem_Ico, hfree]
    unfold PAGING_PAGES
    omega
  rw [hsame, Nat.card_Ico]
  omega

/-- A page that nothing uses any more stays free, or becomes so. -/
theorem Inv.freePages_mono {held' : Finset ℕ} (h : Inv lo held m) (h' : Inv lo held' m')
    (hhigh : m'.highMemory = m.highMemory)
    (hpages : ∀ p, pageRefs m p = 0 → pageRefs m' p = 0)
    (htables : ∀ p, tableRefs m p = 0 → tableRefs m' p = 0)
    (hheld : held' ⊆ held) : (freePages m).card ≤ (freePages m').card := by
  refine Finset.card_le_card fun i hi => ?_
  rw [mem_freePages] at hi ⊢
  obtain ⟨hlt, hzero⟩ := hi
  have hlow := h.low
  have hmain : lo ≤ i + 256 ∧ i + 256 < m.highMemory := by
    by_contra hc
    exact h.used i hlt (by omega) hzero
  have hcount := h.count (i + 256) hmain.1 hmain.2
  have hcount' := h'.count (i + 256) hmain.1 (by rw [hhigh]; exact hmain.2)
  rw [Nat.add_sub_cancel, hzero] at hcount
  have hnot : i + 256 ∉ held := heldRefs_eq_zero.1 (by omega)
  rw [Nat.add_sub_cancel, hpages _ (by omega), htables _ (by omega),
    heldRefs_eq_zero.2 fun hc => hnot (hheld hc)] at hcount'
  exact ⟨hlt, hcount'⟩

/-- The tables of a slot and what they map give their pages back. -/
theorem Inv.freePages_cleared (h : Inv lo held m) (h' : Inv lo held m')
    (hhigh : m'.highMemory = m.highMemory) (hdir : ∀ d ∈ userDirs, m'.mem 0 d = m.mem 0 d ∨ m'.mem 0 d = 0)
    (hpte : ∀ d ∈ userDirs, ∀ i < 1024, pte m' d i = pte m d i ∨ pte m' d i = 0) :
    (freePages m).card ≤ (freePages m').card := by
  refine h.freePages_mono h' hhigh ?_ ?_ (Finset.Subset.refl _)
  · intro p hp
    refine FiniteCount.tally_eq_zero.2 fun x hx hmap => ?_
    obtain ⟨hd, hi⟩ := mem_userEntries.1 (show (x.1, x.2) ∈ userEntries from hx)
    rcases hpte x.1 hd x.2 hi with he | he
    · rw [he] at hmap
      exact FiniteCount.tally_eq_zero.1 hp x hx hmap
    · rw [he] at hmap
      exact present_zero hmap.1
  · intro p hp
    refine FiniteCount.tally_eq_zero.2 fun d hd hmap => ?_
    rcases hdir d hd with he | he
    · rw [he] at hmap
      exact FiniteCount.tally_eq_zero.1 hp d hd hmap
    · rw [he] at hmap
      exact present_zero hmap.1

/-- A page for an address without a table takes two. -/
theorem getEmptyPage_room (h : Inv lo held m) {address : ℕ} (hd : dirIndex address ∈ userDirs)
    (hn : ¬ present (m.mem 0 (dirIndex address))) (hroom : 2 ≤ (freePages m).card) :
    ∃ m', getEmptyPage address m = .ok () m' ∧ Inv lo held m' ∧
      (freePages m').card + 2 = (freePages m).card ∧ present (m'.mem 0 (dirIndex address)) ∧
      ∀ d, d ≠ dirIndex address → m'.mem 0 d = m.mem 0 d := by
  obtain ⟨page, m₁, hg⟩ := getFreePage_room (m := m) (by omega)
  have ha := h.alloc hg
  have hcard := freePages_got hg
  obtain ⟨tmp, m₂, hg'⟩ := getFreePage_room (m := m₁) (by omega)
  have ha' := ha.inv.alloc hg'
  have hcard' := freePages_got hg'
  have hn' : ¬ present (m₁.mem 0 (dirIndex address)) := by rwa [ha.same.dir]
  have hput : putPage page address m₁ = .ok ()
      ((m₂.write 0 (dirIndex address) (entryOf tmp)).write tmp (tableIndex address)
        (entryOf page)) := by
    unfold putPage
    simp only [if_neg hn', hg']
  have htmp : (0 : ℕ) ≠ tmp := by
    have := ha'.main.1
    have := h.low
    omega
  have hget : getEmptyPage address m = .ok ()
      ((m₂.write 0 (dirIndex address) (entryOf tmp)).write tmp (tableIndex address)
        (entryOf page)) := by
    simp only [getEmptyPage, hg, hput]
  have hsat := getEmptyPage_sat h hd fun hc => hn (present_dir_of_pte hc)
  rw [hget] at hsat
  obtain ⟨_, -, -, -, -, hl⟩ := hsat
  refine ⟨_, hget, hl.inv, ?_, ?_, fun d hne => ?_⟩
  · rw [@freePages_map m₂ ((m₂.write _ _ _).write _ _ _) rfl]
    omega
  · rw [Mm.write_mem_ne _ _ _ _ htmp, Mm.write_mem_self, if_pos rfl]
    exact present_entryOf tmp
  · rw [Mm.write_mem_ne _ _ _ _ htmp, Mm.write_mem_self, if_neg hne, ha'.same.dir, ha.same.dir]

/-- Pages are taken and kept. -/
inductive Takes : State → State → Prop
  | refl (s : State) : Takes s s
  | step {s t : State} {p : ℕ} {m : Mm} (hg : getFreePage s.mm = some (p, m))
      (tail : Takes ⟨insert p s.held, m⟩ t) : Takes s t

/-- Pages can be taken until any smaller number of them is left. -/
theorem takes_down (n k : ℕ) (s : State) (h : Inv lo s.held s.mm)
    (hn : (freePages s.mm).card = n + k) :
    ∃ t, Takes s t ∧ Inv lo t.held t.mm ∧ (freePages t.mm).card = n ∧
      ∀ d, t.mm.mem 0 d = s.mm.mem 0 d := by
  induction k generalizing s with
  | zero => exact ⟨s, .refl s, h, hn, fun _ => rfl⟩
  | succ k ih =>
    obtain ⟨p, m, hg⟩ := getFreePage_room (m := s.mm) (by omega)
    have hcard := freePages_got hg
    have ha := h.alloc hg
    obtain ⟨t, htakes, hinv, hleft, hdir⟩ := ih ⟨insert p s.held, m⟩ ha.inv
      (by change (freePages m).card = n + k; omega)
    exact ⟨t, .step hg htakes, hinv, hleft, fun d => (hdir d).trans (ha.same.dir d)⟩

end Linux011.Memory
