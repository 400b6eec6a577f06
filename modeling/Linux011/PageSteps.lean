import Linux011.PageCounts

set_option autoImplicit false

/-! # What one allocation, one release and one store into a table do to the counts -/
namespace Linux011.Memory
open FiniteCount

theorem findFree_some {f : ℕ → ℕ} {n i : ℕ} (h : findFree f n = some i) : i < n ∧ f i = 0 := by
  induction n with
  | zero => simp [findFree] at h
  | succ n ih =>
    simp only [findFree] at h
    split_ifs at h with h0
    · cases h
      exact ⟨Nat.lt_succ_self _, h0⟩
    · exact ⟨(ih h).1.trans (Nat.lt_succ_self _), (ih h).2⟩

/-- The tables and what they say stay; `mem_map` and frames that are no table may differ. -/
structure SameEntries (m m' : Mm) : Prop where
  dir : ∀ d, m'.mem 0 d = m.mem 0 d
  pte : ∀ d ∈ userDirs, ∀ i, pte m' d i = pte m d i
  high : m'.highMemory = m.highMemory
  kernel : ∀ p < 256, p ≠ 0 → m'.mem p = m.mem p

theorem SameEntries.pageRefs {m m' : Mm} (hs : SameEntries m m') (p : ℕ) :
    pageRefs m' p = pageRefs m p :=
  tally_congr fun x hx => by
    rw [hs.pte x.1 (mem_userEntries.mp (show (x.1, x.2) ∈ userEntries from hx)).1]

theorem SameEntries.tableRefs {m m' : Mm} (hs : SameEntries m m') (p : ℕ) :
    tableRefs m' p = tableRefs m p :=
  tally_congr fun d _ => by rw [hs.dir]

/-- The kernel takes pages that nobody uses, or lets pages go. -/
theorem Inv.rehold {lo : ℕ} {held held' : Finset ℕ} {m m' : Mm} (h : Inv lo held m)
    (hs : SameEntries m m')
    (hc : ∀ p, lo ≤ p → p < m.highMemory →
      m'.memMap (p - 256) + heldRefs held p = m.memMap (p - 256) + heldRefs held' p)
    (hu : ∀ i < 3840, i + 256 < lo ∨ m.highMemory ≤ i + 256 → m'.memMap i = m.memMap i)
    (hn : ∀ p ∈ held', p ∉ held → lo ≤ p ∧ p < m.highMemory ∧ m.memMap (p - 256) = 0) :
    Inv lo held' m' := by
  have hfree : ∀ p ∈ held', p ∉ held → pageRefs m p = 0 ∧ tableRefs m p = 0 := by
    intro p hp hp'
    obtain ⟨hlo, hhi, h0⟩ := hn p hp hp'
    have := h.count p hlo hhi
    omega
  have hsame : ∀ p, lo ≤ p → p < m.highMemory → p ∉ held →
      0 < pageRefs m p ∨ 0 < tableRefs m p → m'.memMap (p - 256) = m.memMap (p - 256) := by
    intro p hlo hhi hp hpos
    have hp' : p ∉ held' := fun hc => by
      have := hfree p hc hp
      omega
    have := hc p hlo hhi
    rwa [heldRefs_eq_zero.mpr hp, heldRefs_eq_zero.mpr hp'] at this
  refine ⟨h.low, hs.high ▸ h.high, ?_, ?_, ?_, ?_, ?_, ?_, ?_, 
    fun d hd => (hs.dir d).trans (h.kernelDir d hd), ?_⟩
  · intro p hlo hhi
    rw [hs.high] at hhi
    have h1 := h.count p hlo hhi
    have h2 := hc p hlo hhi
    rw [hs.pageRefs, hs.tableRefs]
    omega
  · intro j hj hout
    rw [hs.high] at hout
    rw [hu j hj hout]
    exact h.used j hj hout
  · intro p hp
    rw [hs.high]
    by_cases hph : p ∈ held
    · obtain ⟨hlo, hhi, h1⟩ := h.held_main p hph
      have := hc p hlo hhi
      rw [heldRefs_mem hp, heldRefs_mem hph] at this
      exact ⟨hlo, hhi, by omega⟩
    · obtain ⟨hlo, hhi, h0⟩ := hn p hp hph
      have := hc p hlo hhi
      rw [heldRefs_mem hp, heldRefs_eq_zero.mpr hph] at this
      exact ⟨hlo, hhi, by omega⟩
  · intro d hd hp
    rw [hs.dir] at hp ⊢
    rw [hs.high]
    obtain ⟨hlo, hhi, h1⟩ := h.table d hd hp
    rw [hsame _ hlo hhi (h.table_only hd hp).2.2 (.inr (tableRefs_pos hd hp))]
    exact ⟨hlo, hhi, h1⟩
  · intro d hd i hi hp hl
    rw [hs.pte d hd] at hp hl ⊢
    rw [hs.high]
    exact h.page d hd i hi hp hl
  · intro p hp x hx y hy hpx hpy
    rw [hs.pte x.1 (mem_userEntries.mp (show (x.1, x.2) ∈ userEntries from hx)).1] at hpx
    rw [hs.pte y.1 (mem_userEntries.mp (show (y.1, y.2) ∈ userEntries from hy)).1] at hpy
    exact h.slot p hp x hx y hy hpx hpy
  · intro x hx hp hw hl
    obtain ⟨hd, hi⟩ := mem_userEntries.mp (show (x.1, x.2) ∈ userEntries from hx)
    rw [hs.pte x.1 hd] at hp hw hl ⊢
    obtain ⟨hlo, hhi⟩ := h.page _ hd _ hi hp hl
    rw [hsame _ hlo hhi (h.alone_refs hx hp hw hl).2.2
      (.inl (pageRefs_pos hd hi ⟨hp, rfl⟩))]
    exact h.alone x hx hp hw hl
  · intro e he j hj
    rw [hs.kernel _ (by omega) (by omega)]
    exact h.kernelTable e he j hj

/-- Frames that are no table in use change without any entry noticing. -/
theorem fill_same {m : Mm} {p : ℕ} (hp : 256 ≤ p) (ht : tableRefs m p = 0) (words : ℕ → ℕ) :
    SameEntries m (m.fill p words) := by
  have h0 : (0 : ℕ) ≠ p := by omega
  refine ⟨fun d => by rw [m.fill_mem_ne p words h0], ?_, rfl,
    fun q hq _ => m.fill_mem_ne p words (by omega)⟩
  intro d hd i
  unfold pte
  rw [m.fill_mem_ne p words h0]
  by_cases hpd : present (m.mem 0 d)
  · have hne : frame (m.mem 0 d) ≠ p := fun hc => by
      have := tableRefs_pos hd hpd
      rw [hc] at this
      omega
    rw [if_pos hpd, if_pos hpd, m.fill_mem_ne p words hne]
  · rw [if_neg hpd, if_neg hpd]

theorem SameEntries.setMap {m m' : Mm} (hs : SameEntries m m') (i v : ℕ) :
    SameEntries m (m'.setMap i v) :=
  ⟨hs.dir, hs.pte, hs.high, hs.kernel⟩

/-- What `get_free_page` hands out: a page in use nowhere, cleared, and nothing else touched. -/
structure Allocated (lo : ℕ) (held : Finset ℕ) (m m' : Mm) (p : ℕ) : Prop where
  inv : Inv lo (insert p held) m'
  main : lo ≤ p ∧ p < m.highMemory
  unmapped : pageRefs m p = 0 ∧ tableRefs m p = 0 ∧ p ∉ held
  same : SameEntries m m'
  cleared : m'.mem p = fun _ => 0
  other : ∀ q, q ≠ p → m'.mem q = m.mem q
  count : ∀ q, 256 ≤ q → q ≠ p → m'.memMap (q - 256) = m.memMap (q - 256)

theorem Inv.alloc {lo : ℕ} {held : Finset ℕ} {m m' : Mm} {p : ℕ} (h : Inv lo held m)
    (hg : getFreePage m = some (p, m')) : Allocated lo held m m' p := by
  simp only [getFreePage, Option.map_eq_some_iff, LOW_MEM, PAGING_PAGES] at hg
  obtain ⟨i, hi, he⟩ := hg
  obtain ⟨hlt, h0⟩ := findFree_some hi
  have hlow := h.low
  have hmain : lo ≤ 256 + i ∧ 256 + i < m.highMemory := by
    by_contra hc
    exact h.used i hlt (by omega) h0
  have hcnt := h.count _ hmain.1 hmain.2
  rw [show 256 + i - 256 = i by omega, h0] at hcnt
  have hnot : 256 + i ∉ held := heldRefs_eq_zero.mp (by omega)
  have hsame := (fill_same (m := m) (p := 256 + i) (by omega) (by omega) (fun _ => 0)).setMap i 1
  change SameEntries m ((m.setMap i 1).fill (256 + i) fun _ => 0) at hsame
  have hmap : ∀ j, j ≠ i →
      ((m.setMap i 1).fill (256 + i) fun _ => 0).memMap j = m.memMap j := by
    intro j hj
    rw [Mm.fill_memMap, Mm.setMap_memMap, if_neg hj]
  have hself : ((m.setMap i 1).fill (256 + i) fun _ => 0).memMap i = 1 := by
    rw [Mm.fill_memMap, Mm.setMap_memMap, if_pos rfl]
  obtain ⟨rfl, rfl⟩ := Prod.mk.inj he
  refine ⟨h.rehold hsame ?_ ?_ ?_, hmain, ⟨by omega, by omega, hnot⟩, hsame,
    Mm.fill_mem_self _ _ _, fun q hq => Mm.fill_mem_ne _ _ _ hq,
    fun q hq hne => hmap _ (by omega)⟩
  · intro q hlo hhi
    by_cases hq : q = 256 + i
    · subst hq
      rw [show 256 + i - 256 = i by omega, heldRefs_eq_zero.mpr hnot,
        heldRefs_mem (Finset.mem_insert_self _ _), h0, hself]
    · have hr : heldRefs (insert (256 + i) held) q = heldRefs held q := by
        simp [heldRefs, hq]
      rw [hr, hmap _ (by omega)]
  · intro j hj hout
    exact hmap j (by omega)
  · intro q hq hqh
    obtain rfl : q = 256 + i := by simpa [hqh] using hq
    exact ⟨hmain.1, hmain.2, by rw [show 256 + i - 256 = i by omega, h0]⟩

theorem freePage_low {m : Mm} {p : ℕ} (hp : p < 256) : freePage p m = .ok () m := if_pos hp

theorem freePage_main {m : Mm} {p : ℕ} (hlo : 256 ≤ p) (hhi : p < m.highMemory)
    (hc : m.memMap (p - 256) ≠ 0) :
    freePage p m = .ok () (m.setMap (p - 256) (m.memMap (p - 256) - 1)) := by
  have hl : ¬ p < LOW_MEM := Nat.not_lt.mpr hlo
  unfold freePage
  rw [if_neg hl, if_neg (by omega)]
  exact if_pos hc

/-- `free_page` on a page the kernel holds. -/
theorem Inv.release {lo : ℕ} {held : Finset ℕ} {m : Mm} {p : ℕ} (h : Inv lo held m)
    (hp : p ∈ held) : ∃ m', freePage p m = .ok () m' ∧ Inv lo (held.erase p) m' ∧
      m'.mem = m.mem ∧ m'.highMemory = m.highMemory := by
  have hlow := h.low
  obtain ⟨hlo, hhi, h1⟩ := h.held_main p hp
  have hf := freePage_main (m := m) (p := p) (by omega) hhi (by omega)
  rw [h1] at hf
  have hmap : ∀ j, j ≠ p - 256 → (m.setMap (p - 256) (1 - 1)).memMap j = m.memMap j := by
    intro j hj
    rw [Mm.setMap_memMap, if_neg hj]
  have hself : (m.setMap (p - 256) (1 - 1)).memMap (p - 256) = 0 := by
    rw [Mm.setMap_memMap, if_pos rfl]
  refine ⟨_, hf, h.rehold ⟨fun _ => rfl, fun _ _ _ => rfl, rfl, fun _ _ _ => rfl⟩
    ?_ ?_ ?_, rfl, rfl⟩
  · intro q hlo' hhi'
    by_cases hq : q = p
    · subst hq
      rw [h1, hself, heldRefs_mem hp, heldRefs_eq_zero.mpr (Finset.notMem_erase _ _)]
    · have hr : heldRefs (held.erase p) q = heldRefs held q := by simp [heldRefs, hq]
      rw [hr, hmap _ (by omega)]
  · intro j hj hout
    exact hmap j (by omega)
  · intro q hq hqh
    exact absurd (Finset.mem_of_mem_erase hq) hqh

/-- A directory entry changes; the table behind it is empty before and after. -/
structure SetsDir (m m' : Mm) (d e : ℕ) : Prop where
  dir : ∀ d', m'.mem 0 d' = if d' = d then e else m.mem 0 d'
  pte : ∀ d' ∈ userDirs, ∀ i < 1024, pte m' d' i = pte m d' i
  high : m'.highMemory = m.highMemory
  kernel : ∀ p < 256, p ≠ 0 → m'.mem p = m.mem p

/-- A cleared page of the kernel's becomes a page table, or an empty table is released. -/
theorem Inv.setDir {lo : ℕ} {held held' : Finset ℕ} {m m' : Mm} {d e : ℕ} (h : Inv lo held m)
    (hd : d ∈ userDirs) (hs : SetsDir m m' d e) (hh : held' ⊆ held)
    (hc : ∀ p, lo ≤ p → p < m.highMemory →
      m'.memMap (p - 256) + (if mapsTo (m.mem 0 d) p then 1 else 0) + heldRefs held p =
        m.memMap (p - 256) + (if mapsTo e p then 1 else 0) + heldRefs held' p)
    (hu : ∀ i < 3840, i + 256 < lo ∨ m.highMemory ≤ i + 256 → m'.memMap i = m.memMap i)
    (he : present e → frame e ∈ held ∧ frame e ∉ held') : Inv lo held' m' := by
  have hlow := h.low
  have htable : ∀ p, tableRefs m' p + (if mapsTo (m.mem 0 d) p then 1 else 0) =
      tableRefs m p + (if mapsTo e p then 1 else 0) := by
    intro p
    have hr := tally_replace hd (q := fun x => mapsTo (m.mem 0 x) p)
      (r := fun x => mapsTo (m'.mem 0 x) p) (fun x _ hx => by rw [hs.dir, if_neg hx])
    simpa [tableRefs, hs.dir d] using hr
  have hpage : ∀ p, pageRefs m' p = pageRefs m p := fun p =>
    tally_congr fun x hx => by
      obtain ⟨hd', hi'⟩ := mem_userEntries.mp (show (x.1, x.2) ∈ userEntries from hx)
      rw [hs.pte x.1 hd' x.2 hi']
  have hnot : ∀ p, p ∉ held → ¬ mapsTo e p := fun p hp hm => hp (hm.2 ▸ (he hm.1).1)
  have hsame : ∀ p, lo ≤ p → p < m.highMemory → p ∉ held → ¬ mapsTo (m.mem 0 d) p →
      m'.memMap (p - 256) = m.memMap (p - 256) := by
    intro p hlo hhi hp hm
    have := hc p hlo hhi
    rwa [if_neg hm, if_neg (hnot p hp), heldRefs_eq_zero.mpr hp,
      heldRefs_eq_zero.mpr (fun hc => hp (hh hc))] at this
  refine ⟨hlow, hs.high ▸ h.high, ?_, ?_, ?_, ?_, ?_, ?_, ?_, ?_, ?_⟩
  · intro p hlo hhi
    rw [hs.high] at hhi
    have h1 := h.count p hlo hhi
    have h2 := hc p hlo hhi
    have h3 := htable p
    rw [hpage]
    omega
  · intro j hj hout
    rw [hs.high] at hout
    rw [hu j hj hout]
    exact h.used j hj hout
  · intro p hp
    rw [hs.high]
    obtain ⟨hlo, hhi, h1⟩ := h.held_main p (hh hp)
    have hold : ¬ mapsTo (m.mem 0 d) p := fun hm => by
      have := tableRefs_pos hd hm.1
      rw [hm.2] at this
      have := (h.held_only (hh hp)).2
      omega
    have hnew : ¬ mapsTo e p := fun hm => (he hm.1).2 (hm.2 ▸ hp)
    have := hc p hlo hhi
    rw [if_neg hold, if_neg hnew, heldRefs_mem hp, heldRefs_mem (hh hp)] at this
    exact ⟨hlo, hhi, by omega⟩
  · intro d' hd' hp'
    rw [hs.high]
    by_cases hdd : d' = d
    · subst hdd
      rw [hs.dir, if_pos rfl] at hp' ⊢
      obtain ⟨hin, hout⟩ := he hp'
      obtain ⟨hlo, hhi, h1⟩ := h.held_main _ hin
      have hold : ¬ mapsTo (m.mem 0 d') (frame e) := fun hm => by
        have := tableRefs_pos hd hm.1
        rw [hm.2] at this
        have := (h.held_only hin).2
        omega
      have := hc _ hlo hhi
      rw [if_neg hold, if_pos ⟨hp', rfl⟩, heldRefs_mem hin, heldRefs_eq_zero.mpr hout] at this
      exact ⟨hlo, hhi, by omega⟩
    · rw [hs.dir, if_neg hdd] at hp' ⊢
      obtain ⟨hlo, hhi, h1⟩ := h.table d' hd' hp'
      have hold : ¬ mapsTo (m.mem 0 d) (frame (m.mem 0 d')) := fun hm =>
        hdd (h.table_inj hd' hd hp' hm.1 hm.2.symm)
      rw [hsame _ hlo hhi (h.table_only hd' hp').2.2 hold]
      exact ⟨hlo, hhi, h1⟩
  · intro d' hd' i hi hp hl
    rw [hs.pte d' hd' i hi] at hp hl ⊢
    rw [hs.high]
    exact h.page d' hd' i hi hp hl
  · intro p hp x hx y hy hpx hpy
    obtain ⟨hdx, hix⟩ := mem_userEntries.mp (show (x.1, x.2) ∈ userEntries from hx)
    obtain ⟨hdy, hiy⟩ := mem_userEntries.mp (show (y.1, y.2) ∈ userEntries from hy)
    rw [hs.pte _ hdx _ hix] at hpx
    rw [hs.pte _ hdy _ hiy] at hpy
    exact h.slot p hp x hx y hy hpx hpy
  · intro x hx hp hw hl
    obtain ⟨hdx, hix⟩ := mem_userEntries.mp (show (x.1, x.2) ∈ userEntries from hx)
    rw [hs.pte _ hdx _ hix] at hp hw hl ⊢
    obtain ⟨hlo, hhi⟩ := h.page _ hdx _ hix hp hl
    obtain ⟨_, ht, hnh⟩ := h.alone_refs hx hp hw hl
    have hold : ¬ mapsTo (m.mem 0 d) (frame (pte m x.1 x.2)) := fun hm => by
      have := tableRefs_pos hd hm.1
      rw [hm.2] at this
      omega
    rw [hsame _ hlo hhi hnh hold]
    exact h.alone x hx hp hw hl
  · intro e he
    have hed : e ≠ d := by
      have := mem_userDirs.mp hd
      omega
    rw [hs.dir, if_neg hed]
    exact h.kernelDir e he
  · intro e he j hj
    rw [hs.kernel _ (by omega) (by omega)]
    exact h.kernelTable e he j hj

end Linux011.Memory
