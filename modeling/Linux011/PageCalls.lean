import Linux011.PageOps

set_option autoImplicit false

/-! # The functions of mm/memory.c that map, copy and share one page -/
namespace Linux011.Memory
open FiniteCount

variable {lo : ℕ} {held : Finset ℕ} {m : Mm}

theorem Leads.trans {held₁ held₂ : Finset ℕ} {m₁ m₂ : Mm} {new new' : ℕ → ℕ → ℕ}
    (h : Leads lo held held₁ m m₁ new) (h' : Leads lo held₁ held₂ m₁ m₂ new')
    (hk : ∀ p ≥ 256, 0 < pageRefs m p ∨ p ∈ held → 0 < pageRefs m₁ p ∨ p ∈ held₁) :
    Leads lo held held₂ m m₂ new' :=
  ⟨h'.inv, h'.pte, fun p hp hu => (h'.keep p hp (hk p hp hu)).trans (h.keep p hp hu),
    h'.high.trans h.high⟩

theorem Leads.still {m' : Mm} (h : Leads lo held held m m' (Memory.pte m)) (p : ℕ) (_ : p ≥ 256)
    (hu : 0 < pageRefs m p ∨ p ∈ held) : 0 < pageRefs m' p ∨ p ∈ held := by
  rwa [pageRefs_congr h.pte]

theorem Leads.congr {held' : Finset ℕ} {m' : Mm} {new new' : ℕ → ℕ → ℕ}
    (h : Leads lo held held' m m' new) (he : ∀ d ∈ userDirs, ∀ i < 1024, new d i = new' d i) :
    Leads lo held held' m m' new' :=
  ⟨h.inv, fun d hd i hi => (h.pte d hd i hi).trans (he d hd i hi), h.keep, h.high⟩

/-- A page table fetched on the way: what `put_page`, `try_to_share` and `copy_page_tables` do
    at a directory entry that is not present. -/
theorem Inv.newTable (h : Inv lo held m) {d p : ℕ} {m' : Mm} (hd : d ∈ userDirs)
    (hn : ¬ present (m.mem 0 d)) (hg : getFreePage m = some (p, m')) :
    Leads lo held held m (m'.write 0 d (entryOf p)) (pte m) ∧
      (m'.write 0 d (entryOf p)).mem 0 d = entryOf p ∧
      (∀ e, e ≠ d → (m'.write 0 d (entryOf p)).mem 0 e = m.mem 0 e) ∧
      ((m'.write 0 d (entryOf p)).mem p = fun _ => 0) ∧
      (∀ q, q ≠ p → q ≠ 0 → (m'.write 0 d (entryOf p)).mem q = m.mem q) ∧
      lo ≤ p ∧ pageRefs m p = 0 ∧ tableRefs m p = 0 ∧ p ∉ held := by
  have hlow := h.low
  have ha := h.alloc hg
  have hn' : ¬ present (m'.mem 0 d) := by rwa [ha.same.dir]
  obtain ⟨hl, hdir⟩ := ha.inv.install hd hn' (Finset.mem_insert_self p held) ha.cleared
  have he : (insert p held).erase p = held := Finset.erase_insert ha.unmapped.2.2
  rw [he] at hl
  have hp0 : p ≠ 0 := by
    have := ha.main.1
    omega
  refine ⟨⟨hl.inv, ?_, ?_, hl.high.trans ha.same.high⟩, hdir, ?_, ?_, ?_, ha.main.1,
    ha.unmapped⟩
  · intro e he i hi
    rw [hl.pte e he i hi, ha.same.pte e he]
  · intro q hq hu
    have hqp : q ≠ p := by
      rintro rfl
      obtain ⟨h0, _, hnh⟩ := ha.unmapped
      rcases hu with hu | hu
      · omega
      · exact hnh hu
    rw [m'.write_mem_ne 0 d _ (by omega), ha.other q hqp]
  · intro e hed
    rw [m'.write_mem_self, if_neg hed, ha.same.dir]
  · rw [m'.write_mem_ne 0 d _ hp0, ha.cleared]
  · intro q hqp hq0
    rw [m'.write_mem_ne 0 d _ hq0, ha.other q hqp]

theorem putPage_sat (h : Inv lo held m) {page address : ℕ}
    (hd : dirIndex address ∈ userDirs)
    (hn : ¬ present (pte m (dirIndex address) (tableIndex address))) (hh : page ∈ held) :
    (putPage page address m).Sat
      (fun _ m' => Leads lo held (held.erase page) m m'
        (setAt (pte m) (dirIndex address) (tableIndex address) (entryOf page)))
      (fun w m' => w = .outOfMemory ∧ m' = m) := by
  have hi : tableIndex address < 1024 := Nat.mod_lt _ (by omega)
  unfold putPage
  by_cases hp : present (m.mem 0 (dirIndex address))
  · simp only [hp, if_true]
    exact h.mapHeld hd hi hp hn hh
  · simp only [hp, if_false]
    cases hg : getFreePage m with
    | none => exact ⟨rfl, rfl⟩
    | some r =>
      obtain ⟨tmp, m'⟩ := r
      obtain ⟨hl, hdir, _⟩ := h.newTable hd hp hg
      have hpte := hl.pte _ hd _ hi
      have hmap := hl.inv.mapHeld hd hi (by rw [hdir]; exact present_entryOf tmp)
        (by rw [hpte]; exact hn) hh
      rw [hdir, frame_entryOf] at hmap
      refine (hl.trans hmap hl.still).congr ?_
      intro e he j hj
      unfold setAt
      rw [hl.pte e he j hj]

/-- `get_free_page`, then `put_page`; a page that finds no table goes back. -/
theorem getEmptyPage_sat (h : Inv lo held m) {address : ℕ} (hd : dirIndex address ∈ userDirs)
    (hn : ¬ present (pte m (dirIndex address) (tableIndex address))) :
    (getEmptyPage address m).Sat
      (fun _ m' => ∃ page, lo ≤ page ∧ pageRefs m page = 0 ∧ page ∉ held ∧
        (m'.mem page = fun _ => 0) ∧
        Leads lo held held m m'
          (setAt (pte m) (dirIndex address) (tableIndex address) (entryOf page)))
      (fun _ m' => Leads lo held held m m' (pte m)) := by
  unfold getEmptyPage
  cases hg : getFreePage m with
  | none =>
    simp only [freePage_low (show 0 < 256 by decide)]
    exact h.refl
  | some r =>
    obtain ⟨page, m₁⟩ := r
    have ha := h.alloc hg
    have hin : page ∈ insert page held := Finset.mem_insert_self _ _
    have herase : (insert page held).erase page = held := Finset.erase_insert ha.unmapped.2.2
    have hput := putPage_sat ha.inv hd
      (by rw [ha.same.pte _ hd]; exact hn) hin
    rw [herase] at hput
    have hk : ∀ p ≥ 256, 0 < pageRefs m p ∨ p ∈ held →
        0 < pageRefs m₁ p ∨ p ∈ insert page held := by
      intro p _ hu
      rw [pageRefs_congr ha.leads.pte]
      exact hu.imp_right Finset.mem_insert_of_mem
    dsimp only
    generalize putPage page address m₁ = r at hput
    cases r with
    | ok a m₂ =>
      have hl : Leads lo (insert page held) held m₁ m₂ _ := hput
      refine ⟨page, ha.main.1, ha.unmapped.1, ha.unmapped.2.2, ?_,
        (ha.leads.trans hl hk).congr ?_⟩
      · rw [hl.keep page (by have := ha.main.1; have := h.low; omega) (.inr hin), ha.cleared]
      · intro d hd i hi
        unfold setAt
        rw [ha.leads.pte d hd i hi]
    | stop w m₂ =>
      cases w with
      | outOfMemory =>
        obtain ⟨-, rfl⟩ := hput
        obtain ⟨m₃, hf, hl⟩ := ha.inv.free hin
        rw [herase] at hl
        simp only [hf]
        exact (ha.leads.trans hl hk).congr fun d hd i hi => ha.leads.pte d hd i hi
      | oom => exact absurd hput.1 (by simp)
      | nonexistentPage | freeFreePage => exact absurd hput id
      | wrongAlignment | swapperMemory | alreadyExist | toPageExists => trivial

/-- A write-protected page is handed over when it is used once, and copied otherwise. -/
theorem unWpPage_sat (h : Inv lo held m) {d i : ℕ} (hd : d ∈ userDirs) (hi : i < 1024)
    (hp : present (m.mem 0 d)) (hpe : present (pte m d i)) :
    (unWpPage (frame (m.mem 0 d)) i m).Sat
      (fun _ m' => (m.memMap (frame (pte m d i) - 256) = 1 ∧ 256 ≤ frame (pte m d i) ∧
          Leads lo held held m m' (setAt (pte m) d i (setWrite (pte m d i)))) ∨
        ∃ page, pageRefs m page = 0 ∧ page ∉ held ∧ lo ≤ page ∧
          m'.mem page = m.mem (frame (pte m d i)) ∧
          Leads lo held held m m' (setAt (pte m) d i (entryOf page)))
      (fun _ m' => m' = m) := by
  have hlow := h.low
  have hcell : m.mem (frame (m.mem 0 d)) i = pte m d i := (if_pos hp).symm
  have hx : (d, i) ∈ userEntries := mem_userEntries.mpr ⟨hd, hi⟩
  unfold unWpPage
  simp only [hcell, LOW_MEM, mapNr]
  by_cases h1 : frame (pte m d i) ≥ 256 ∧ m.memMap (frame (pte m d i) - 256) = 1
  · rw [if_pos h1]
    exact .inl ⟨h1.2, h1.1, h.reuse hd hi hp h1.2⟩
  · rw [if_neg h1]
    cases hg : getFreePage m with
    | none => exact rfl
    | some r =>
      obtain ⟨page, m₁⟩ := r
      have ha := h.alloc hg
      have hin : page ∈ insert page held := Finset.mem_insert_self _ _
      have herase : (insert page held).erase page = held := Finset.erase_insert ha.unmapped.2.2
      have hpte : pte m₁ d i = pte m d i := ha.leads.pte d hd i hi
      have hold : frame (pte m d i) ≠ page := fun hc => by
        have := pageRefs_pos hd hi (⟨hpe, hc⟩ : mapsTo (pte m d i) page)
        have := ha.unmapped.1
        omega
      have hrep := ha.inv.replace hd hi (by rwa [ha.same.dir]) (by rwa [hpte]) hin (by
        rw [hpte]
        rintro ⟨hl, hc⟩
        exact h1 ⟨hl, by rwa [ha.count _ hl hold] at hc⟩)
      rw [hpte, ha.same.dir, herase] at hrep
      obtain ⟨hinv, hnew, hkeep, hcopy, hhigh⟩ := hrep
      refine .inr ⟨page, ha.unmapped.1, ha.unmapped.2.2, ha.main.1, ?_, hinv, ?_, ?_,
        hhigh.trans ha.same.high⟩
      · exact hcopy.trans (ha.other _ hold)
      · intro e he j hj
        refine (hnew e he j).trans ?_
        unfold setAt
        rw [ha.leads.pte e he j hj]
      · intro p hp hu
        have hne : p ≠ page := by
          rintro rfl
          obtain ⟨h0, _, hnh⟩ := ha.unmapped
          rcases hu with hu | hu
          · omega
          · exact hnh hu
        have hu' : 0 < pageRefs m₁ p ∨ p ∈ insert page held := by
          rw [pageRefs_congr ha.leads.pte]
          exact hu.imp_right Finset.mem_insert_of_mem
        exact (hkeep p hne hu').trans (ha.other p hne)

/-- What `try_to_share` needs of the two tables once both are there. -/
theorem Inv.shareEntry (h : Inv lo held m) {d d' i : ℕ} (hd : d ∈ userDirs) (hd' : d' ∈ userDirs)
    (hmod : d % 16 = d' % 16) (hi : i < 1024) (hp : present (m.mem 0 d))
    (hp' : present (m.mem 0 d')) (hpe : present (pte m d i)) (hl : 256 ≤ frame (pte m d i))
    (hn : ¬ present (pte m d' i)) :
    Leads lo held held m
      (((m.write (frame (m.mem 0 d)) i (clearWrite (pte m d i))).write (frame (m.mem 0 d')) i
        (clearWrite (pte m d i))).setMap (frame (pte m d i) - 256)
        (m.memMap (frame (pte m d i) - 256) + 1))
      (setAt (setAt (pte m) d i (clearWrite (pte m d i))) d' i (clearWrite (pte m d i))) := by
  have hlow := h.low
  have hprot := h.protect hd hi hp
  have hdir : ∀ e, (m.write (frame (m.mem 0 d)) i (clearWrite (pte m d i))).mem 0 e =
      m.mem 0 e := by
    have := (h.table d hd hp).1
    intro e
    rw [m.write_mem_ne _ _ _ (by omega)]
  have hself := hprot.pte d hd i hi
  have hother := hprot.pte d' hd' i hi
  rw [setAt_self] at hself
  have hne : d' ≠ d := by
    rintro rfl
    exact hn hpe
  rw [setAt, if_neg (fun hc => hne hc.1)] at hother
  have hshare := hprot.inv.share (d := d') (v := clearWrite (pte m d i)) hd' hi
    (by rw [hdir]; exact hp') (by rw [hother]; exact hn) hd hmod
    ((present_clearWrite _).mpr hpe) ⟨by rw [hself, present_clearWrite]; exact hpe, by rw [hself]⟩
    (by rw [frame_clearWrite]; exact hl) (writable_clearWrite _)
    (by rw [hself]; exact writable_clearWrite _)
  rw [hdir, frame_clearWrite, Mm.write_memMap] at hshare
  refine (hprot.trans hshare ?_).congr ?_
  · intro p _ hu
    refine hu.imp_left fun hpos => ?_
    have hsame : pageRefs (m.write (frame (m.mem 0 d)) i (clearWrite (pte m d i))) p =
        pageRefs m p := by
      apply tally_congr
      intro x hx
      obtain ⟨hxd, hxi⟩ := mem_userEntries.mp (show (x.1, x.2) ∈ userEntries from hx)
      rw [hprot.pte x.1 hxd x.2 hxi]
      unfold setAt mapsTo
      split_ifs with hc
      · rw [present_clearWrite, frame_clearWrite, hc.1, hc.2]
      · rfl
    omega
  · intro e he j hj
    unfold setAt
    rw [hprot.pte e he j hj]
    rfl

/-- `try_to_share` shares a present, clean page of main memory at the same place of another
    slot, or changes nothing. -/
theorem tryToShare_sat (h : Inv lo held m) {address pStart start : ℕ}
    (hd : dirIndex address + dirIndex pStart ∈ userDirs)
    (hd' : dirIndex address + dirIndex start ∈ userDirs)
    (hmod : (dirIndex address + dirIndex pStart) % 16 = (dirIndex address + dirIndex start) % 16) :
    (tryToShare address pStart start m).Sat
      (fun shared m' =>
        let d := dirIndex address + dirIndex pStart
        let d' := dirIndex address + dirIndex start
        let i := tableIndex address
        if shared then
          present (pte m d i) ∧ ¬ dirty (pte m d i) ∧ 256 ≤ frame (pte m d i) ∧
            ¬ present (pte m d' i) ∧
            Leads lo held held m m' (setAt (setAt (pte m) d i (clearWrite (pte m d i))) d' i
              (clearWrite (pte m d i)))
        else m' = m)
      (fun _ m' => m' = m) := by
  have hlow := h.low
  have hi : tableIndex address < 1024 := Nat.mod_lt _ (by omega)
  unfold tryToShare
  generalize dirIndex address + dirIndex pStart = d at *
  generalize dirIndex address + dirIndex start = d' at *
  generalize tableIndex address = i at *
  by_cases hp : present (m.mem 0 d)
  · have hcell : m.mem (frame (m.mem 0 d)) i = pte m d i := (if_pos hp).symm
    simp only [hp, not_true, if_false, hcell]
    by_cases hclean : present (pte m d i) ∧ ¬ dirty (pte m d i)
    · rw [if_neg (not_not.mpr hclean)]
      by_cases hbad : frame (pte m d i) ≥ m.highMemory ∨ frame (pte m d i) < LOW_MEM
      · rw [if_pos hbad]
        simp [Res.Sat]
      · rw [if_neg hbad]
        have hl : 256 ≤ frame (pte m d i) := by
          have : ¬ frame (pte m d i) < 256 := fun hc => hbad (.inr hc)
          omega
        by_cases hp' : present (m.mem 0 d')
        · have hcell' : m.mem (frame (m.mem 0 d')) i = pte m d' i := (if_pos hp').symm
          simp only [hp', if_true, Res.bind, hcell']
          by_cases hn : present (pte m d' i)
          · rw [if_pos hn]
            trivial
          · rw [if_neg hn]
            have hsh := h.shareEntry hd hd' hmod hi hp hp' hclean.1 hl hn
            simp only [Res.Sat, hcell, if_true, Mm.write_mem_self, Mm.write_memMap, mapNr, LOW_MEM]
            exact ⟨hclean.1, hclean.2, hl, hn, hsh⟩
        · simp only [hp', if_false]
          have hn : ¬ present (pte m d' i) := by
            unfold pte
            rw [if_neg hp']
            exact present_zero
          have hdd : d ≠ d' := fun hc => hp' (hc ▸ hp)
          cases hg : getFreePage m with
          | none => exact rfl
          | some r =>
            obtain ⟨p, m₁⟩ := r
            obtain ⟨hl₁, hdir, hdirs, hzero, hkeep, hp0, _⟩ := h.newTable hd' hp' hg
            simp only [Res.bind]
            generalize hm₂ : m₁.write 0 d' (entryOf p) = m₂ at *
            have hfree : ¬ present (m₂.mem p i) := by
              rw [hzero]
              exact present_zero
            have hpte : pte m₂ d i = pte m d i := hl₁.pte d hd i hi
            have hcell₂ : m₂.mem (frame (m.mem 0 d)) i = pte m₂ d i := by
              unfold pte
              rw [hdirs d hdd, if_pos hp]
            rw [if_neg hfree]
            have hsh := hl₁.inv.shareEntry hd hd' hmod hi (by rwa [hdirs d hdd])
              (by rw [hdir]; exact present_entryOf p) (by rw [hpte]; exact hclean.1) (by rwa [hpte])
              (by rw [hl₁.pte d' hd' i hi]; exact hn)
            rw [hdirs d hdd, hdir, frame_entryOf, hpte] at hsh
            simp only [Res.Sat, hcell₂, hpte, if_true, Mm.write_mem_self, Mm.write_memMap, mapNr,
              LOW_MEM]
            refine ⟨hclean.1, hclean.2, hl, hn, (hl₁.trans hsh hl₁.still).congr ?_⟩
            intro e he j hj
            unfold setAt
            rw [hl₁.pte e he j hj]
    · rw [if_pos hclean]
      simp [Res.Sat]
  · simp only [hp, not_false_eq_true, if_true, Res.Sat]
    simp

end Linux011.Memory
