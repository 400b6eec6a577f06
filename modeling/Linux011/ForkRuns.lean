import Linux011.Fork
import Linux011.FreePages

set_option autoImplicit false

/-!
# fork is all or nothing

As long as the code segments lie in their slots, a slot without a task has no page tables: whatever
a task does stays below its data limit, and `exec` and `exit` free the tables up to there. A failed
fork therefore finds the slot of the child empty, and leaves it so.
-/
namespace Linux011.Fork
open Memory FiniteCount
open Exec (Header)
open ProcessTree (findPid findSlot)
open Scheduler (NR_TASKS)
open WaitQueue (TaskState)

variable {lo : ℕ} {k k' : Kernel} {s : ℕ} {t : Task}

/-- What holds in all reachable states. -/
structure Sound (lo : ℕ) (k : Kernel) : Prop where
  good : Good lo ⟨k.held, k.mm⟩
  tables : ∀ d ∈ userDirs, k.mm.mem 0 d = 0 ∨ present (k.mm.mem 0 d) ∧
    ∃ t, k.task (d / 16) = some t ∧ t.info.state ≠ .zombie ∧ d % 16 < dirs t.dataLimit
  limits : ∀ s t, k.task s = some t → s < 64 ∧ t.codeLimit ≤ t.dataLimit ∧
    dirs t.dataLimit ≤ 16 ∧ (s = 0 → dirs t.dataLimit ≤ 1) ∧ 0 < t.codeLimit
  pages : ∀ s t, 1 ≤ s → k.task s = some t → t.page ∈ k.held
  apart : ∀ s s' t t', 1 ≤ s → 1 ≤ s' → k.task s = some t → k.task s' = some t' →
    t.page = t'.page → s = s'

/-! ### Calls that change one page -/

theorem outcome_mm {held : Finset ℕ} {r : Res (Finset ℕ)} {st : State}
    (h : outcome held r = some st) :
    st.mm = r.mm ∧ (st.held = held ∨ r = .ok st.held st.mm) := by
  cases r with
  | ok held' m =>
    cases h
    exact ⟨rfl, .inr rfl⟩
  | stop w m => cases w <;> cases h <;> exact ⟨rfl, .inl rfl⟩

theorem Sound.reach (h : Sound lo k) (ht : k.task s = some t) : t.reach = t.dataLimit := by
  obtain ⟨-, hcode, -, -, hpos⟩ := h.limits s t ht
  unfold Task.reach
  rw [if_neg (by omega), max_eq_left hcode]

theorem reaches_dir {address : ℕ} (ho : t.Reaches s address) (hr : t.reach = t.dataLimit)
    (hs : s < 64) (hd : dirs t.dataLimit ≤ 16) :
    dirIndex address / 16 = s ∧ dirIndex address % 16 < dirs t.dataLimit := by
  obtain ⟨offset, hlt, rfl⟩ := ho
  unfold dirs slotBase at *
  unfold dirIndex
  omega

theorem share_dir {address : ℕ} (ha : address < t.dataLimit) (hs : s < 64)
    (hd : dirs t.dataLimit ≤ 16) :
    (dirIndex address + dirIndex (slotBase s)) / 16 = s ∧
      (dirIndex address + dirIndex (slotBase s)) % 16 < dirs t.dataLimit := by
  rw [dirIndex_slotBase hs]
  unfold dirs at *
  unfold dirIndex
  omega

/-- The entries of the directory that the task in slot `s` may fill. -/
def Within (t : Task) (s d : ℕ) : Prop := d / 16 = s ∧ d % 16 < dirs t.dataLimit

theorem run_dirs (h : Sound lo k) {c : Call} (ht : k.task s = some t) (ho : t.Calls k s c)
    (hc : c.Allowed ⟨k.held, k.mm⟩) :
    DirsWithin (Within t s) k.mm (c.run ⟨k.held, k.mm⟩).mm := by
  obtain ⟨hs, -, hsize, -⟩ := h.limits s t ht
  have hreach := h.reach ht
  have hapart := h.good.inv.tablesApart
  cases c with
  | getFreePage =>
    simp only [Call.run]
    cases hg : Memory.getFreePage k.mm with
    | none => exact .refl
    | some r => exact .of_eq (getFreePage_dirs hg).2
  | freePage page => exact (freePage_dirs page).bind fun _ _ _ => .refl
  | getEmptyPage address =>
    exact (getEmptyPage_dirs (reaches_dir ho hreach hs hsize) hapart).bind fun _ _ _ => .refl
  | putPage page address =>
    exact (putPage_dirs (reaches_dir ho.1 hreach hs hsize) hapart).bind fun _ _ _ => .refl
  | doWpPage address =>
    exact (unWpPage_dirs (hapart _ (dirIndex_lt _) (present_dir_of_pte hc.2))).bind
      fun _ _ _ => .refl
  | writeVerify address => exact (writeVerify_dirs hapart).bind fun _ _ _ => .refl
  | tryToShare address p current =>
    obtain ⟨rfl, ha⟩ := ho
    rw [hreach] at ha
    obtain ⟨hd, hd', -⟩ := share_dirs hc.1 hc.2.1 hc.2.2.1
    exact (tryToShare_dirs (share_dir ha hs hsize) (mem_userDirs.mp hd).2 (mem_userDirs.mp hd').2
      hapart).bind fun _ _ _ => .refl
  | copyMem parent child size => exact ho.elim
  | freePageTables slot size => exact ho.elim
  | userStore address v =>
    obtain ⟨hd, hp, hw⟩ := hc
    have hpd := present_dir_of_pte hp
    have hcell : pte k.mm (dirIndex address) (tableIndex address) =
        k.mm.mem (frame (k.mm.mem 0 (dirIndex address))) (tableIndex address) := if_pos hpd
    have hmain := h.good.main_of_writable hd hp hw
    unfold entryAt at hmain
    rw [hcell] at hmain
    exact store_dirs (hapart _ (dirIndex_lt _) hpd) (by omega)

/-- A page of the kernel's stays so unless a call gives it away. -/
theorem call_held {c : Call} {held held' : Finset ℕ} {m m' : Mm} {p : ℕ}
    (hr : c.run ⟨held, m⟩ = .ok held' m') (hp : p ∈ held) (hfree : c ≠ .freePage p)
    (hput : ∀ address, c ≠ .putPage p address) : p ∈ held' := by
  have hbind : ∀ {α : Type} {r : Res α} {g : Finset ℕ}, (r.bind fun _ m => .ok g m) = .ok held' m' →
      held' = g := by
    intro α r g h
    cases r with
    | ok _ m =>
      cases h
      rfl
    | stop w m => cases h
  cases c with
  | getFreePage =>
    simp only [Call.run] at hr
    cases hg : Memory.getFreePage m with
    | none => rw [hg] at hr; cases hr
    | some r =>
      rw [hg] at hr
      cases hr
      exact Finset.mem_insert_of_mem hp
  | freePage page =>
    obtain rfl := hbind hr
    exact Finset.mem_erase.mpr ⟨fun hc => hfree (by rw [hc]), hp⟩
  | putPage page address =>
    obtain rfl := hbind hr
    exact Finset.mem_erase.mpr ⟨fun hc => hput address (by rw [hc]), hp⟩
  | getEmptyPage address | doWpPage address | writeVerify address | tryToShare address p current
    | copyMem parent child size | freePageTables slot size =>
    obtain rfl := hbind hr
    exact hp
  | userStore address v =>
    cases hr
    exact hp

/-- The pages of the tasks stay the kernel's. -/
theorem run_held {c : Call} {held' : Finset ℕ} {m : Mm} (ho : t.Calls k s c)
    (hr : c.run ⟨k.held, k.mm⟩ = .ok held' m) {i : ℕ} {u : Task} (hi : 1 ≤ i)
    (hu : k.task i = some u) (hp : u.page ∈ k.held) : u.page ∈ held' := by
  refine call_held hr hp ?_ ?_
  · rintro rfl
    exact ho i u hi hu rfl
  · rintro address rfl
    exact ho.2 i u hi hu rfl

theorem Sound.page (h : Sound lo k) {c : Call} {st : State} (ht : k.task s = some t)
    (hz : t.info.state ≠ .zombie) (ho : t.Calls k s c) (hc : c.Allowed ⟨k.held, k.mm⟩)
    (hr : outcome k.held (c.run ⟨k.held, k.mm⟩) = some st) :
    Sound lo { k with held := st.held, mm := st.mm } := by
  obtain ⟨hmm, hheld⟩ := outcome_mm hr
  refine ⟨good_outcome (h.good.call hc) hr, ?_, h.limits, ?_, h.apart⟩
  · intro d hd
    rcases run_dirs h ht ho hc d with hsame | hzero | ⟨⟨hslot, hlt⟩, hp⟩
    · rw [← hmm] at hsame
      simp only [hsame]
      exact h.tables d hd
    · rw [← hmm] at hzero
      exact .inl hzero
    · rw [← hmm] at hp
      exact .inr ⟨hp, t, by rw [hslot]; exact ht, hz, hlt⟩
  · intro i u hi hu
    have hp := h.pages i u hi hu
    rcases hheld with hsame | hok
    · rw [← hsame] at hp
      exact hp
    · exact run_held ho hok hi hu hp

/-! ### fork -/

theorem findSlot_free {task : ℕ → Option ProcessTree.Task} {nr : ℕ} (h : findSlot task = some nr) :
    1 ≤ nr ∧ nr < 64 ∧ task nr = none := by
  unfold findSlot at h
  have hp := List.find?_some h
  have hm := List.mem_range.mp (List.mem_of_find?_eq_some h)
  simp only [Bool.and_eq_true, decide_eq_true_eq, Option.isNone_iff_eq_none] at hp
  exact ⟨hp.1, hm, hp.2⟩

/-- A slot without a task has no page tables. -/
theorem Sound.empty_slot (h : Sound lo k) {nr : ℕ} (h1 : 1 ≤ nr) (h64 : nr < 64)
    (hn : k.task nr = none) : ∀ d, d / 16 = nr → k.mm.mem 0 d = 0 := by
  intro d hd
  refine (h.tables d (mem_userDirs.mpr (by omega))).resolve_right ?_
  rintro ⟨-, u, hu, -⟩
  rw [hd, hn] at hu
  cases hu

/-- `mem_map` is a function of what the entries and the kernel use. -/
theorem Undone.memMap {held : Finset ℕ} {m m' : Mm} (h : Inv lo held m) (h' : Inv lo held m')
    (hkeep : MapKeeps lo m m') (hdir : ∀ d, m'.mem 0 d = m.mem 0 d)
    (hpte : ∀ d ∈ userDirs, ∀ i < 1024, pte m' d i = pte m d i ∨
      d / 16 = s ∧ pte m' d i = clearWrite (pte m d i)) (i : ℕ) : m'.memMap i = m.memMap i := by
  have hlow := h.low
  by_cases hmain : lo ≤ i + 256 ∧ i + 256 < m.highMemory
  · have hc := h.count (i + 256) hmain.1 hmain.2
    have hc' := h'.count (i + 256) hmain.1 (by rw [hkeep.high]; exact hmain.2)
    have hp : pageRefs m' (i + 256) = pageRefs m (i + 256) := by
      apply tally_congr
      intro x hx
      obtain ⟨hd, hi⟩ := mem_userEntries.mp (show (x.1, x.2) ∈ userEntries from hx)
      rcases hpte x.1 hd x.2 hi with he | ⟨-, he⟩
      · rw [he]
      · unfold mapsTo
        rw [he, present_clearWrite, frame_clearWrite]
    have ht : tableRefs m' (i + 256) = tableRefs m (i + 256) :=
      tally_congr fun d _ => by rw [hdir]
    rw [Nat.add_sub_cancel] at hc hc'
    omega
  · exact hkeep.map i (by omega)

/-- The table behind a directory entry, kernel's or user's. -/
theorem Undone.table {held : Finset ℕ} {m m' : Mm} (h : Inv lo held m) (h' : Inv lo held m')
    (hdir : ∀ d, m'.mem 0 d = m.mem 0 d)
    (hpte : ∀ d ∈ userDirs, ∀ i < 1024, pte m' d i = pte m d i ∨
      d / 16 = s ∧ pte m' d i = clearWrite (pte m d i)) {d i : ℕ} (hd : d < 1024)
    (hp : present (m.mem 0 d)) (hi : i < 1024) :
    m'.mem (frame (m.mem 0 d)) i = m.mem (frame (m.mem 0 d)) i ∨
      d / 16 = s ∧ m'.mem (frame (m.mem 0 d)) i = clearWrite (m.mem (frame (m.mem 0 d)) i) := by
  by_cases hk : d < 16
  · have hdk := h.kernelDir d hk
    split_ifs at hdk with h4
    · rw [hdk, frame_entryOf, h.kernelTable d h4 i hi, h'.kernelTable d h4 i hi]
      exact .inl rfl
    · rw [hdk] at hp
      exact absurd hp present_zero
  · have hcell : pte m d i = m.mem (frame (m.mem 0 d)) i := if_pos hp
    have hcell' : pte m' d i = m'.mem (frame (m.mem 0 d)) i := by
      unfold Memory.pte
      rw [hdir, if_pos hp]
    rw [← hcell, ← hcell']
    exact hpte d (mem_userDirs.mpr ⟨by omega, hd⟩) i hi

theorem copyProcess_again (h : Sound lo k) (ht : k.task s = some t) {nr : ℕ} (h1 : 1 ≤ nr)
    (h64 : nr < 64) (hn : k.task nr = none) (hr : copyProcess k s t nr = .again k') :
    AsBefore s k k' ∧ Inv lo k'.held k'.mm ∧ k'.held = k.held := by
  obtain ⟨hs, -, hsize, h0, -⟩ := h.limits s t ht
  have hne : s ≠ nr := by
    rintro rfl
    rw [hn] at ht
    cases ht
  have hinv := h.good.inv
  unfold copyProcess at hr
  cases hg : getFreePage k.mm with
  | none =>
    simp only [hg] at hr
    cases hr
    exact ⟨⟨fun _ _ => rfl, fun _ _ => rfl, fun _ _ _ _ _ => .inl rfl, rfl, rfl, rfl⟩, hinv, rfl⟩
  | some r =>
    obtain ⟨page, m⟩ := r
    have ha := hinv.alloc hg
    have hget := (getFreePage_keeps (D := fun _ => False) hinv hg).2
    have hundo := copyMem_undone ha.inv hs h1 h64 hne hsize h0 fun d hd => by
      rw [ha.same.dir]
      exact h.empty_slot h1 h64 hn d hd
    simp only [hg, copyMem] at hr
    split_ifs at hr
    generalize Memory.copyMem (slotBase s) (slotBase nr) t.dataLimit m = r at hr hundo
    cases r with
    | ok _ m₂ => cases hr
    | stop w m₂ =>
      cases w with
      | outOfMemory =>
        obtain ⟨hinv₂, hkeep, hdir, hpte⟩ : Undone lo (insert page k.held) m s m₂ := hundo
        obtain ⟨m₃, hfree, hinv₃, hmem, hhigh⟩ := hinv₂.release (Finset.mem_insert_self page k.held)
        have hkeep₃ := (freePage_keeps (.inr ha.main.1) hfree).1
        rw [Finset.erase_insert ha.unmapped.2.2] at hinv₃
        simp only [hfree] at hr
        cases hr
        have hpte₃ : ∀ d ∈ userDirs, ∀ i < 1024, pte m₃ d i = pte k.mm d i ∨
            d / 16 = s ∧ pte m₃ d i = clearWrite (pte k.mm d i) := by
          intro d hd i hi
          have hsame : pte m₃ d i = pte m₂ d i := by
            unfold Memory.pte
            rw [hmem]
          rw [hsame, ← ha.same.pte d hd i]
          exact hpte d hd i hi
        have hdir₃ : ∀ d, m₃.mem 0 d = k.mm.mem 0 d := fun d => by
          rw [hmem, hdir, ha.same.dir]
        have hall : MapKeeps lo k.mm m₃ := hget.trans (hkeep.trans hkeep₃)
        have htask : Function.update (Function.update k.task nr (some { t with
            page := page, info := { t.info with
              state := .uninterruptible, pid := k.lastPid, father := t.info.pid, signal := 0,
              leader := false } })) nr none = k.task := by
          rw [Function.update_idem, ← hn, Function.update_eq_self]
        refine ⟨⟨fun i _ => Undone.memMap hinv hinv₃ hall hdir₃ hpte₃ i, fun d _ => hdir₃ d,
          fun d hd hp i hi => Undone.table hinv hinv₃ hdir₃ hpte₃ hd hp hi, htask, rfl, rfl⟩, ?_, ?_⟩
        · rw [Finset.erase_insert ha.unmapped.2.2]
          exact hinv₃
        · exact Finset.erase_insert ha.unmapped.2.2
      | oom | nonexistentPage | freeFreePage | wrongAlignment | swapperMemory | alreadyExist
        | toPageExists => cases hr

theorem infos_none {nr : ℕ} (h : (k.task nr).map Task.info = none) : k.task nr = none :=
  Option.map_eq_none_iff.mp h

theorem sysFork_again (h : Sound lo k) (ht : k.task s = some t) (hr : sysFork k s t = .again k') :
    AsBefore s k k' ∧ Inv lo k'.held k'.mm ∧ k'.held = k.held := by
  unfold sysFork at hr
  simp only at hr
  cases hpid : findPid (fun i => (k.task i).map Task.info) (NR_TASKS + 1) k.lastPid with
  | none => rw [hpid] at hr; cases hr
  | some pid =>
    cases hslot : findSlot fun i => (k.task i).map Task.info with
    | none =>
      simp only [hpid, hslot] at hr
      cases hr
      exact ⟨⟨fun _ _ => rfl, fun _ _ => rfl, fun _ _ _ _ _ => .inl rfl, rfl, rfl, rfl⟩,
        h.good.inv, rfl⟩
    | some nr =>
      simp only [hpid, hslot] at hr
      obtain ⟨h1, h64, hn⟩ := findSlot_free hslot
      have h' : Sound lo { k with lastPid := pid } := ⟨h.good, h.tables, h.limits, h.pages, h.apart⟩
      obtain ⟨⟨hmap, hdir, htab, htask, hf, hi⟩, hinv, hheld⟩ :=
        copyProcess_again h' ht h1 h64 (infos_none hn) hr
      exact ⟨⟨hmap, hdir, htab, htask, hf, hi⟩, hinv, hheld⟩

theorem AsBefore.sound (h : Sound lo k) (ha : AsBefore s k k') (hinv : Inv lo k'.held k'.mm)
    (hheld : k'.held = k.held) : Sound lo k' := by
  refine ⟨⟨hinv, ?_⟩, ?_, ?_, ?_, ?_⟩
  · intro d hd i hi hp hl
    have hd' := (mem_userDirs.mp hd).2
    have hpd : present (k.mm.mem 0 d) := by
      rw [← ha.pgDir d hd']
      exact present_dir_of_pte hp
    have hcell : pte k.mm d i = k.mm.mem (frame (k.mm.mem 0 d)) i := if_pos hpd
    have hcell' : pte k'.mm d i = k'.mm.mem (frame (k.mm.mem 0 d)) i := by
      unfold pte
      rw [ha.pgDir d hd', if_pos hpd]
    rcases ha.table d hd' hpd i hi with he | ⟨-, he⟩
    · rw [← hcell, ← hcell'] at he
      rw [he] at hp hl ⊢
      exact h.good.low d hd i hi hp hl
    · rw [← hcell, ← hcell'] at he
      rw [he]
      exact writable_clearWrite _
  · intro d hd
    rw [ha.pgDir d (mem_userDirs.mp hd).2, ha.task]
    exact h.tables d hd
  · rw [ha.task]
    exact h.limits
  · rw [ha.task, hheld]
    exact h.pages
  · rw [ha.task]
    exact h.apart

/-- The page of a new task is nobody else's. -/
theorem Sound.forked (h : Sound lo k) (ht : k.task s = some t) {nr page : ℕ} {m m' : Mm}
    {p : Task} (h1 : 1 ≤ nr) (h64 : nr < 64) (hn : k.task nr = none)
    (hg : getFreePage k.mm = some (page, m))
    (hc : Copied lo (insert page k.held) m s nr (dirs t.dataLimit) m')
    (hp : p.memory = (page, t.codeLimit, t.dataLimit, false)) :
    Sound lo { k with
      held := insert page k.held, mm := m', task := Function.update k.task nr (some p) } := by
  have ha := h.good.inv.alloc hg
  obtain ⟨hpage, hcode, hdata, hlive⟩ : p.page = page ∧ p.codeLimit = t.codeLimit ∧
      p.dataLimit = t.dataLimit ∧ p.info.state ≠ .zombie := by
    unfold Task.memory at hp
    simp only [Prod.mk.injEq, decide_eq_false_iff_not] at hp
    exact hp
  have hother : ∀ i ≠ nr, Function.update k.task nr (some p) i = k.task i := fun i hi =>
    Function.update_of_ne hi _ _
  have hself : Function.update k.task nr (some p) nr = some p := Function.update_self _ _ _
  refine ⟨?_, ?_, ?_, ?_, ?_⟩
  · have hlow : LowReadOnly (pte m) := (ha.leads.good h.good.low).low
    exact hc.leads.good (hlow.copied _ _ _ _)
  · intro d hd
    by_cases hin : 16 * nr ≤ d ∧ d < 16 * nr + dirs t.dataLimit
    · have hsize := (h.limits s t ht).2.2.1
      have hslot : d / 16 = nr := by omega
      rcases hc.inside d with he | he
      · refine .inl ?_
        rw [he, ha.same.dir]
        exact h.empty_slot h1 h64 hn d hslot
      · exact .inr ⟨he, p, by rw [hslot]; exact hself, hlive, by rw [hdata]; omega⟩
    · rw [hc.outside d hin, ha.same.dir]
      rcases h.tables d hd with hz | ⟨hpd, u, hu, hr⟩
      · exact .inl hz
      · have hne : d / 16 ≠ nr := fun hc => by
          rw [hc, hn] at hu
          cases hu
        exact .inr ⟨hpd, u, (hother _ hne).trans hu, hr⟩
  · intro i u hu
    by_cases hi : i = nr
    · rw [hi] at hu
      obtain rfl := Option.some.inj (hself.symm.trans hu)
      obtain ⟨-, hcd, hsize, -, hpos⟩ := h.limits s t ht
      exact ⟨by omega, by rwa [hcode, hdata], by rwa [hdata], by omega, by rwa [hcode]⟩
    · replace hu := (hother i hi).symm.trans hu
      exact h.limits i u hu
  · intro i u hi1 hu
    by_cases hi : i = nr
    · rw [hi] at hu
      obtain rfl := Option.some.inj (hself.symm.trans hu)
      rw [hpage]
      exact Finset.mem_insert_self _ _
    · replace hu := (hother i hi).symm.trans hu
      exact Finset.mem_insert_of_mem (h.pages i u hi1 hu)
  · have hfresh : ∀ i u, 1 ≤ i → k.task i = some u → u.page ≠ page := fun i u hi hu hc =>
      ha.unmapped.2.2 (hc ▸ h.pages i u hi hu)
    intro i j u v hi1 hj1 hu hv he
    by_cases hi : i = nr <;> by_cases hj : j = nr
    · rw [hi, hj]
    · rw [hi] at hu
      replace hv := (hother j hj).symm.trans hv
      obtain rfl := Option.some.inj (hself.symm.trans hu)
      exact absurd (he.symm.trans hpage) (hfresh j v hj1 hv)
    · rw [hj] at hv
      replace hu := (hother i hi).symm.trans hu
      obtain rfl := Option.some.inj (hself.symm.trans hv)
      exact absurd (he.trans hpage) (hfresh i u hi1 hu)
    · replace hu := (hother i hi).symm.trans hu
      replace hv := (hother j hj).symm.trans hv
      exact h.apart i j u v hi1 hj1 hu hv he

theorem Sound.others (h : Sound lo k) (hheld : k'.held = k.held) (hmm : k'.mm = k.mm)
    (htask : ∀ i, (k'.task i).map Task.memory = (k.task i).map Task.memory) : Sound lo k' := by
  have hback : ∀ i v, k'.task i = some v → ∃ u, k.task i = some u ∧ u.memory = v.memory := by
    intro i v hv
    have hi := htask i
    rw [hv, Option.map_some] at hi
    exact Option.map_eq_some_iff.mp hi.symm
  have hforth : ∀ i u, k.task i = some u → ∃ v, k'.task i = some v ∧ v.memory = u.memory := by
    intro i u hu
    have hi := htask i
    rw [hu, Option.map_some] at hi
    exact Option.map_eq_some_iff.mp hi
  have hsame : ∀ {u v : Task}, u.memory = v.memory → u.page = v.page ∧ u.codeLimit = v.codeLimit ∧
      u.dataLimit = v.dataLimit ∧ (u.info.state = .zombie ↔ v.info.state = .zombie) := by
    intro u v he
    unfold Task.memory at he
    simpa only [Prod.mk.injEq, decide_eq_decide] using he
  refine ⟨by rw [hheld, hmm]; exact h.good, ?_, ?_, ?_, ?_⟩
  · intro d hd
    rw [hmm]
    rcases h.tables d hd with h0 | ⟨hp, u, hu, hlive, hlt⟩
    · exact .inl h0
    · obtain ⟨v, hv, he⟩ := hforth _ u hu
      obtain ⟨-, -, hdata, hzombie⟩ := hsame he
      exact .inr ⟨hp, v, hv, fun hc => hlive (hzombie.mp hc), by rwa [hdata]⟩
  · intro i v hv
    obtain ⟨u, hu, he⟩ := hback i v hv
    obtain ⟨-, hcode, hdata, -⟩ := hsame he
    rw [← hcode, ← hdata]
    exact h.limits i u hu
  · intro i v hi hv
    obtain ⟨u, hu, he⟩ := hback i v hv
    rw [hheld, ← (hsame he).1]
    exact h.pages i u hi hu
  · intro i j v w hi hj hv hw hpage
    obtain ⟨v', hv', hev⟩ := hback i v hv
    obtain ⟨w', hw', hew⟩ := hback j w hw
    exact h.apart i j v' w' hi hj hv' hw' (by rw [(hsame hev).1, (hsame hew).1, hpage])

/-- A new task: its page, the copy of the page tables, and its place in the table of tasks. -/
structure Child (lo : ℕ) (k : Kernel) (s : ℕ) (t : Task) (nr page : ℕ) (m : Mm) (p : Task)
    (k' : Kernel) : Prop where
  slot : 1 ≤ nr ∧ nr < 64 ∧ k.task nr = none
  got : getFreePage k.mm = some (page, m)
  copied : Copied lo (insert page k.held) m s nr (dirs t.dataLimit) k'.mm
  memory : p.memory = (page, t.codeLimit, t.dataLimit, false)
  held : k'.held = insert page k.held
  task : k'.task = Function.update k.task nr (some p)

theorem copyProcess_child (h : Sound lo k) (ht : k.task s = some t) {nr : ℕ} {pid : ℤ}
    (h1 : 1 ≤ nr) (h64 : nr < 64) (hn : k.task nr = none)
    (hr : copyProcess k s t nr = .forked pid k') : ∃ page m p, Child lo k s t nr page m p k' := by
  obtain ⟨hs, -, hsize, h0, -⟩ := h.limits s t ht
  have hne : s ≠ nr := by
    rintro rfl
    rw [hn] at ht
    cases ht
  unfold copyProcess at hr
  cases hg : getFreePage k.mm with
  | none =>
    simp only [hg] at hr
    cases hr
  | some r =>
    obtain ⟨page, m⟩ := r
    have ha := h.good.inv.alloc hg
    have hcopy : (Memory.copyMem (slotBase s) (slotBase nr) t.dataLimit m).Sat
        (fun _ m' => Copied lo (insert page k.held) m s nr (dirs t.dataLimit) m')
        (fun _ _ => True) := by
      apply copyMem_rule ((copySlot_keeps ha.inv hs h1 h64 hne hsize h0).mono
        (fun _ _ hP => hP) fun _ _ hQ => hQ)
      rintro m₁ ⟨_, -, hc⟩
      obtain ⟨m₂, hrun, -⟩ := freeSlot_frees hc.leads.inv h1 h64 hsize
      exact ⟨m₂, hrun, trivial⟩
    simp only [hg, copyMem] at hr
    split_ifs at hr
    generalize Memory.copyMem (slotBase s) (slotBase nr) t.dataLimit m = r at hr hcopy
    cases r with
    | ok _ m₂ =>
      have hc : Copied lo (insert page k.held) m s nr (dirs t.dataLimit) m₂ := hcopy
      simp only [Function.update_idem] at hr
      cases hr
      exact ⟨page, m, _, ⟨h1, h64, hn⟩, hg, hc, rfl, rfl, rfl⟩
    | stop w m₂ =>
      cases w with
      | outOfMemory =>
        simp only at hr
        cases hf : freePage page m₂ with
        | ok _ m₃ => rw [hf] at hr; cases hr
        | stop w m₃ => rw [hf] at hr; cases hr
      | oom | nonexistentPage | freeFreePage | wrongAlignment | swapperMemory | alreadyExist
        | toPageExists => cases hr

theorem sysFork_child (h : Sound lo k) (ht : k.task s = some t) {pid : ℤ}
    (hr : sysFork k s t = .forked pid k') : ∃ nr page m p, Child lo k s t nr page m p k' := by
  unfold sysFork at hr
  simp only at hr
  cases hpid : findPid (fun i => (k.task i).map Task.info) (NR_TASKS + 1) k.lastPid with
  | none => rw [hpid] at hr; cases hr
  | some pid =>
    cases hslot : findSlot fun i => (k.task i).map Task.info with
    | none => simp only [hpid, hslot] at hr; cases hr
    | some nr =>
      simp only [hpid, hslot] at hr
      obtain ⟨h1, h64, hn⟩ := findSlot_free hslot
      have h' : Sound lo { k with lastPid := pid } := ⟨h.good, h.tables, h.limits, h.pages, h.apart⟩
      obtain ⟨page, m, p, hslot, hgot, hcopied, hmemory, hheld, htask⟩ :=
        copyProcess_child h' ht h1 h64 (infos_none hn) hr
      exact ⟨nr, page, m, p, hslot, hgot, hcopied, hmemory, hheld, htask⟩

theorem sysFork_forked (h : Sound lo k) (ht : k.task s = some t) {pid : ℤ}
    (hr : sysFork k s t = .forked pid k') : Sound lo k' := by
  obtain ⟨nr, page, m, p, ⟨h1, h64, hn⟩, hgot, hcopied, hmemory, hheld, htask⟩ :=
    sysFork_child h ht hr
  have hsound := h.forked ht h1 h64 hn hgot hcopied hmemory
  exact hsound.others hheld rfl fun i => by rw [htask]

/-! ### exec, exit and release -/

theorem freeSlot_good {held : Finset ℕ} {m m' : Mm} {size : ℕ} (h : Good lo ⟨held, m⟩)
    (h1 : 1 ≤ s) (h64 : s < 64) (hsize : dirs size ≤ 16)
    (hr : freePageTables (slotBase s) size m = .ok () m') : Good lo ⟨held, m'⟩ := by
  obtain ⟨m₁, hrun, hf⟩ := freeSlot_frees h.inv h1 h64 hsize
  rw [hrun] at hr
  cases hr
  exact (hf.leads h.inv).good (h.low.clearDirs _ _)

/-- The slot of a task that executes a file or exits is empty for a moment. -/
theorem freeTables_spec (h : Sound lo k) (ht : k.task s = some t) {m' : Mm}
    (hr : freeTables s t k.mm = .ok () m') :
    1 ≤ s ∧ Good lo ⟨k.held, m'⟩ ∧ (∀ d, d / 16 ≠ s → m'.mem 0 d = k.mm.mem 0 d) ∧
      ∀ d ∈ userDirs, d / 16 = s → m'.mem 0 d = 0 := by
  obtain ⟨hs, hcode, hsize, -⟩ := h.limits s t ht
  have hsize' : dirs t.codeLimit ≤ 16 := by
    unfold dirs at *
    omega
  have h1 : 1 ≤ s := by
    by_contra hc
    obtain rfl : s = 0 := by omega
    cases hr
  unfold freeTables at hr
  cases hc : freePageTables (slotBase s) t.codeLimit k.mm with
  | stop w m₁ => rw [hc] at hr; cases hr
  | ok _ m₁ =>
    rw [hc] at hr
    have hr : freePageTables (slotBase s) t.dataLimit m₁ = .ok () m' := hr
    have hgood₁ := freeSlot_good h.good h1 hs hsize' hc
    have hdir₁ := (freeSlot_keeps h.good.inv h1 hs hsize' hc).2
    have hdir := (freeSlot_keeps hgood₁.inv h1 hs hsize hr).2
    refine ⟨h1, freeSlot_good hgood₁ h1 hs hsize hr, fun d hd => ?_, fun d hd hslot => ?_⟩
    · rw [hdir]
      unfold clearedDirs
      rw [if_neg (by omega), hdir₁]
      unfold clearedDirs
      rw [if_neg (by omega)]
    · have hold : m₁.mem 0 d = 0 ∨ m₁.mem 0 d = k.mm.mem 0 d := by
        rw [hdir₁]
        unfold clearedDirs
        split_ifs
        · exact .inl rfl
        · exact .inr rfl
      rw [hdir]
      unfold clearedDirs
      split_ifs with hin
      · rfl
      · rcases hold with hz | hsame
        · exact hz
        · rcases h.tables d hd with hz | ⟨hp, u, hu, -, hlt⟩
          · rw [hsame, hz]
          · rw [hslot, ht] at hu
            cases hu
            exact absurd ⟨by omega, by omega, hsame ▸ hp⟩ hin

/-- The slot of the task is empty, and all else is as before. -/
structure Emptied (lo : ℕ) (k : Kernel) (s : ℕ) (m' : Mm) : Prop where
  inv : Inv lo k.held m'
  pte : ∀ d ∈ userDirs, ∀ i < 1024, pte m' d i = if d / 16 = s then 0 else pte k.mm d i
  inside : ∀ d ∈ userDirs, d / 16 = s → m'.mem 0 d = 0
  outside : ∀ d, d / 16 ≠ s → m'.mem 0 d = k.mm.mem 0 d
  high : m'.highMemory = k.mm.highMemory

theorem freeTables_emptied (h : Sound lo k) (ht : k.task s = some t) (h1 : 1 ≤ s) :
    ∃ m', freeTables s t k.mm = .ok () m' ∧ Emptied lo k s m' := by
  obtain ⟨hs, hcode, hsize, -⟩ := h.limits s t ht
  have hsize' : dirs t.codeLimit ≤ 16 := by
    unfold dirs at *
    omega
  obtain ⟨m₁, hrun₁, hf₁⟩ := freeSlot_frees h.good.inv h1 hs hsize'
  obtain ⟨m', hrun, hf⟩ := freeSlot_frees hf₁.inv h1 hs hsize
  have hfree : freeTables s t k.mm = .ok () m' := by
    rw [freeTables, hrun₁]
    exact hrun
  obtain ⟨-, hgood, hout, hin⟩ := freeTables_spec h ht hfree
  refine ⟨m', hfree, hgood.inv, fun d hd i hi => ?_, hin, hout, hf.high.trans hf₁.high⟩
  split
  · next hslot =>
    unfold Memory.pte
    rw [hin d hd hslot, if_neg present_zero]
  · next hslot =>
    rw [hf.pte d hd i hi, clearDirs, if_neg (by omega), hf₁.pte d hd i hi, clearDirs,
      if_neg (by omega)]

theorem Emptied.freePages_le {m : Mm} (he : Emptied lo k s m) (h : Inv lo k.held k.mm) :
    (freePages k.mm).card ≤ (freePages m).card := by
  refine h.freePages_cleared he.inv he.high (fun d hd => ?_) fun d hd i hi => ?_
  · by_cases hslot : d / 16 = s
    · exact .inr (he.inside d hd hslot)
    · exact .inl (he.outside d hslot)
  · rw [he.pte d hd i hi]
    split
    · exact .inr rfl
    · exact .inl rfl

/-- The task keeps its page and its slot is empty. -/
theorem Sound.emptied (h : Sound lo k) (ht : k.task s = some t) {m' : Mm}
    (hr : freeTables s t k.mm = .ok () m') {u : Task} (hpage : u.page = t.page)
    (hcode : u.codeLimit ≤ u.dataLimit) (hpos : 0 < u.codeLimit) (hsize : dirs u.dataLimit ≤ 16) :
    Sound lo { k with mm := m', task := Function.update k.task s (some u) } := by
  obtain ⟨h1, hgood, hout, hin⟩ := freeTables_spec h ht hr
  have hs := (h.limits s t ht).1
  have hother : ∀ i ≠ s, Function.update k.task s (some u) i = k.task i := fun i hi =>
    Function.update_of_ne hi _ _
  have hself : Function.update k.task s (some u) s = some u := Function.update_self _ _ _
  -- the pages of the tasks are those of before
  have hold : ∀ i v, Function.update k.task s (some u) i = some v →
      ∃ v', k.task i = some v' ∧ v'.page = v.page := by
    intro i v hv
    by_cases hi : i = s
    · rw [hi] at hv
      obtain rfl := Option.some.inj (hself.symm.trans hv)
      exact ⟨t, by rw [hi]; exact ht, hpage.symm⟩
    · replace hv := (hother i hi).symm.trans hv
      exact ⟨v, hv, rfl⟩
  refine ⟨hgood, ?_, ?_, ?_, ?_⟩
  · intro d hd
    by_cases hslot : d / 16 = s
    · exact .inl (hin d hd hslot)
    · rw [hout d hslot]
      exact (h.tables d hd).imp_right fun ⟨hp, v, hv, hr⟩ => ⟨hp, v, (hother _ hslot).trans hv, hr⟩
  · intro i v hv
    by_cases hi : i = s
    · rw [hi] at hv
      obtain rfl := Option.some.inj (hself.symm.trans hv)
      exact ⟨by omega, hcode, hsize, by omega, hpos⟩
    · replace hv := (hother i hi).symm.trans hv
      exact h.limits i v hv
  · intro i v hi hv
    obtain ⟨v', hv', he⟩ := hold i v hv
    rw [← he]
    exact h.pages i v' hi hv'
  · intro i j v w hi hj hv hw he
    obtain ⟨v', hv', hev⟩ := hold i v hv
    obtain ⟨w', hw', hew⟩ := hold j w hw
    exact h.apart i j v' w' hi hj hv' hw' (by rw [hev, hew, he])

theorem Sound.release (h : Sound lo k) (h1 : 1 ≤ s) (ht : k.task s = some t)
    (hz : t.info.state = .zombie) (hr : release k s t = some k') : Sound lo k' := by
  obtain ⟨m', hfree, hinv, hmem, -⟩ := h.good.inv.release (h.pages s t h1 ht)
  simp only [Fork.release, hfree] at hr
  cases hr
  have hother : ∀ i v, Function.update k.task s none i = some v → i ≠ s ∧ k.task i = some v := by
    intro i v hv
    by_cases hi : i = s
    · rw [hi, Function.update_self] at hv
      cases hv
    · rw [Function.update_of_ne hi] at hv
      exact ⟨hi, hv⟩
  have hpte : ∀ d i, pte m' d i = pte k.mm d i := fun d i => by
    unfold pte
    rw [hmem]
  refine ⟨⟨hinv, fun d hd i hi => ?_⟩, ?_, ?_, ?_, ?_⟩
  · simp only [hpte]
    exact h.good.low d hd i hi
  · intro d hd
    simp only [hmem]
    rcases h.tables d hd with h0 | ⟨hp, u, hu, hlive, hlt⟩
    · exact .inl h0
    · have hne : d / 16 ≠ s := fun hc => by
        rw [hc, ht] at hu
        cases hu
        exact hlive hz
      exact .inr ⟨hp, u, (Function.update_of_ne hne _ _).trans hu, hlive, hlt⟩
  · exact fun i v hv => h.limits i v (hother i v hv).2
  · intro i v hi hv
    obtain ⟨hne, hv⟩ := hother i v hv
    exact Finset.mem_erase.mpr ⟨fun hc => hne (h.apart i s v t hi h1 hv ht hc), h.pages i v hi hv⟩
  · exact fun i j v w hi hj hv hw => h.apart i j v w hi hj (hother i v hv).2 (hother j w hw).2

/-! ### Runs -/

theorem codeLimitOf_bounds {ex : Header} (h : Confined ex) :
    codeLimitOf ex.text ≤ 67108864 ∧ 0 < codeLimitOf ex.text := by
  obtain ⟨hpos, hle⟩ := h
  unfold codeLimitOf
  omega

theorem Sound.step (h : Sound lo k) (hs : Step Confined k k') : Sound lo k' := by
  cases hs with
  | page ht hz ho hc hr => exact h.page ht hz ho hc hr
  | fork ht hz hr => exact sysFork_forked h ht hr
  | again ht hz hr =>
    obtain ⟨ha, hinv, hheld⟩ := sysFork_again h ht hr
    exact ha.sound h hinv hheld
  | @exec s size ex t k' ht hz hw hv hP hr =>
    unfold doExecve at hr
    cases hf : freeTables s t k.mm with
    | stop w m => rw [hf] at hr; cases hr
    | ok _ m =>
      rw [hf] at hr
      cases hr
      obtain ⟨hcode, hpos⟩ := codeLimitOf_bounds hP
      refine h.emptied ht hf rfl hcode hpos ?_
      change (67108864 + 4194303) / 4194304 ≤ 16
      decide
  | @exit s t k' ht hz hr =>
    unfold doExit at hr
    cases hf : freeTables s t k.mm with
    | stop w m => rw [hf] at hr; cases hr
    | ok _ m =>
      rw [hf] at hr
      cases hr
      obtain ⟨-, hcode, hsize, -, hpos⟩ := h.limits s t ht
      exact h.emptied ht hf rfl hcode hpos hsize
  | release h1 ht hz hr => exact h.release h1 ht hz hr
  | others hheld hmm htask => exact h.others hheld hmm htask

theorem Start.sound {startMem endMem : ℕ} {mem : ℕ → ℕ → ℕ} (h : Start startMem endMem mem k) :
    Sound startMem k := by
  obtain ⟨hlow, hhigh, hp, hheld, hmm, htask⟩ := h
  refine ⟨by rw [hheld, hmm]; exact memInit_good hlow hhigh hp, ?_, ?_, ?_, ?_⟩
  · intro d hd
    rw [hmm]
    exact .inl (hp.userDir d (by have := mem_userDirs.mp hd; omega))
  · intro i t ht
    obtain ⟨rfl, hcode, hdata, -⟩ := htask i t ht
    rw [hcode, hdata]
    decide
  · intro i t hi ht
    have := (htask i t ht).1
    omega
  · intro i _ t _ hi _ ht
    have := (htask i t ht).1
    omega

theorem Reachable.sound {k₀ : Kernel} {startMem endMem : ℕ} {mem : ℕ → ℕ → ℕ}
    (h₀ : Start startMem endMem mem k₀) (hr : Reachable Confined k₀ k) : Sound startMem k := by
  induction hr with
  | init => exact h₀.sound
  | step _ hs ih => exact ih.step hs

/-- The task that `copy_process` makes. -/
def childOf (t : Task) (page : ℕ) (pid : ℤ) : Task :=
  { t with
    page := page
    info := { t.info with
      state := .running, pid := pid, father := t.info.pid, signal := 0, leader := false } }

/-- The kernel's own table lies below main memory, so no count is raised for it. -/
theorem copyEntry_low {m : Mm} {a i : ℕ} (hi : i < 160) (h : ∀ j < 1024, m.mem 1 j = entryOf j)
    (ha : a ≠ 1) : (copyEntry 1 a i m).memMap = m.memMap ∧
      ∀ j < 1024, (copyEntry 1 a i m).mem 1 j = entryOf j := by
  have hpe := present_entryOf i
  have hgt : ¬ clearWrite (entryOf i) > LOW_MEM * 4096 := fun hc => by
    have := (low_iff hpe).mp hc
    rw [frame_entryOf] at this
    omega
  unfold copyEntry
  simp only [h i (by omega)]
  rw [if_neg (not_not.mpr hpe), if_neg hgt, Mm.write_memMap, Mm.write_mem_ne _ _ _ _ (Ne.symm ha)]
  exact ⟨rfl, h⟩

/-- The table of task 0 is copied whenever there is a page for the copy. -/
theorem copyMem_first {held : Finset ℕ} {m : Mm} (h : Inv lo held m) {size nr : ℕ}
    (hsize : dirs size = 1) (h64 : nr < 64) (hempty : m.mem 0 (16 * nr) = 0)
    (hroom : 1 ≤ (freePages m).card) :
    ∃ m', Memory.copyMem (slotBase 0) (slotBase nr) size m = .ok () m' ∧
      (freePages m').card + 1 = (freePages m).card := by
  obtain ⟨tmp, m₁, hget⟩ := getFreePage_room (m := m) (by omega)
  have ha := h.alloc hget
  have hcard := freePages_got hget
  have hlow := h.low
  have htmp : tmp ≠ 1 ∧ (1 : ℕ) ≠ 0 := by
    have := ha.main.1
    omega
  have htable : ∀ j < 1024, m₁.mem 1 j = entryOf j := fun j hj => by
    rw [ha.other 1 htmp.1.symm]
    have hcell := h.kernelTable 0 (by decide) j hj
    rwa [Nat.zero_add, Nat.zero_mul, Nat.zero_add] at hcell
  have hloop : ∃ m', forUpto 160 (fun i m => .ok () (copyEntry 1 tmp i m))
      (m₁.write 0 (16 * nr) (entryOf tmp)) = .ok () m' ∧
      (m'.memMap = m₁.memMap ∧ ∀ j < 1024, m'.mem 1 j = entryOf j) := by
    apply forUpto_ok (P := fun _ m' => m'.memMap = m₁.memMap ∧ ∀ j < 1024, m'.mem 1 j = entryOf j)
    · refine ⟨rfl, fun j hj => ?_⟩
      rw [Mm.write_mem_ne _ _ _ _ htmp.2]
      exact htable j hj
    · rintro i hi m₂ ⟨hmap, hcells⟩
      obtain ⟨hmap', hcells'⟩ := copyEntry_low (a := tmp) hi hcells htmp.1
      exact ⟨_, rfl, hmap'.trans hmap, hcells'⟩
  obtain ⟨m', hrun, hmap, -⟩ := hloop
  have hdir : m.mem 0 0 = entryOf 1 := h.kernelDir 0 (by omega)
  have hcopy : copyDir (dirIndex (slotBase 0) + 0) (dirIndex (slotBase nr) + 0) 160 m =
      .ok () m' := by
    have hself : dirIndex (slotBase 0) + 0 = 0 := rfl
    unfold copyDir
    rw [dirIndex_slotBase h64, Nat.add_zero, hself, if_neg (by rw [hempty]; exact present_zero),
      if_neg (by rw [hdir]; exact not_not.mpr (present_entryOf 1))]
    simp only [hget, hdir, frame_entryOf]
    exact hrun
  have htables : copyPageTables (slotBase 0) (slotBase nr) size m = .ok () m' := by
    unfold copyPageTables
    rw [if_neg (by simp [slotBase_aligned]), hsize]
    exact hcopy
  refine ⟨m', ?_, ?_⟩
  · unfold Memory.copyMem
    rw [htables]
  · rw [freePages_map hmap]
    exact hcard

/-- A fork of task 0 takes two pages, and works when there are two. -/
theorem first_forks (h : Sound lo k) (ht : k.task 0 = some t) (hsize : dirs t.dataLimit = 1)
    {pid : ℤ} {nr : ℕ}
    (hpid : findPid (fun i => (k.task i).map Task.info) (NR_TASKS + 1) k.lastPid = some pid)
    (hslot : findSlot (fun i => (k.task i).map Task.info) = some nr)
    (hroom : 2 ≤ (freePages k.mm).card) :
    ∃ page k', sysFork k 0 t = .forked pid k' ∧ k'.lastPid = pid ∧
      k'.task = Function.update k.task nr (some (childOf t page pid)) ∧
      (freePages k'.mm).card + 2 = (freePages k.mm).card := by
  obtain ⟨h1, h64, hn⟩ := findSlot_free hslot
  obtain ⟨page, m, hget⟩ := getFreePage_room (m := k.mm) (by omega)
  have ha := h.good.inv.alloc hget
  have hcard := freePages_got hget
  have hempty : m.mem 0 (16 * nr) = 0 := by
    rw [ha.same.dir]
    exact h.empty_slot h1 h64 (infos_none hn) _ (by omega)
  obtain ⟨m', hcopy, hcard'⟩ := copyMem_first ha.inv hsize h64 hempty (by omega)
  obtain ⟨-, hcode, -⟩ := h.limits 0 t ht
  have hfork : copyMem t 0 nr m = some (.ok () m') := by
    unfold copyMem
    rw [if_neg (by omega), hcopy]
  simp only [sysFork, hpid, hslot, copyProcess, hget, hfork, Function.update_idem]
  exact ⟨page, _, rfl, rfl, rfl, by change (freePages m').card + 2 = _; omega⟩

theorem Step.take {P : Header → Prop} {m : Mm} {p : ℕ} (ht : k.task s = some t)
    (hz : t.info.state ≠ .zombie) (hg : getFreePage k.mm = some (p, m)) :
    Step P k { k with held := insert p k.held, mm := m } := by
  have hout : outcome k.held (Call.run ⟨k.held, k.mm⟩ .getFreePage) =
      some ⟨insert p k.held, m⟩ := by
    simp only [Call.run, hg, outcome]
  exact .page (c := .getFreePage) ht hz trivial trivial hout

/-- A task in the kernel takes pages. -/
theorem Takes.reachable {P : Header → Prop} {k₀ : Kernel} {a b : State} (h : Takes a b)
    (ht : k.task s = some t) (hz : t.info.state ≠ .zombie)
    (hr : Reachable P k₀ { k with held := a.held, mm := a.mm }) :
    Reachable P k₀ { k with held := b.held, mm := b.mm } := by
  induction h with
  | refl => exact hr
  | @step a b p m hg tail ih =>
    exact ih (hr.step (.take ht hz hg))

theorem forUpto_stop {body : ℕ → Mm → Res Unit} {m m' : Mm} {w : Stop} {n : ℕ} (hn : 1 ≤ n)
    (h : body 0 m = .stop w m') : forUpto n body m = .stop w m' := by
  induction n, hn using Nat.le_induction with
  | base => simp only [forUpto, Res.bind, h]
  | succ n _ ih => rw [forUpto, ih, Res.bind]

/-- No page for the first table: what is in the slot of the child is freed. -/
theorem sysFork_starved (hinv : Inv lo k.held k.mm) (hs : s < 64)
    (hlimits : t.codeLimit ≤ t.dataLimit) (hsize : dirs t.dataLimit = 16) {pid : ℤ} {nr : ℕ}
    (hpid : findPid (fun i => (k.task i).map Task.info) (NR_TASKS + 1) k.lastPid = some pid)
    (hslot : findSlot (fun i => (k.task i).map Task.info) = some nr)
    (hfirst : present (k.mm.mem 0 (16 * s))) (hchild : ¬ present (k.mm.mem 0 (16 * nr)))
    (hroom : (freePages k.mm).card = 1) :
    ∃ k', sysFork k s t = .again k' ∧
      ∀ d, k'.mm.mem 0 d = clearedDirs (k.mm.mem 0) (16 * nr) 16 d := by
  obtain ⟨h1, h64, -⟩ := findSlot_free hslot
  obtain ⟨page, m, hget⟩ := getFreePage_room (m := k.mm) (by omega)
  have ha := hinv.alloc hget
  have hcard := freePages_got hget
  have hnone : getFreePage m = none := getFreePage_none (by omega)
  have htables : copyPageTables (slotBase s) (slotBase nr) t.dataLimit m = .stop .outOfMemory m := by
    unfold copyPageTables
    rw [if_neg (by simp [slotBase_aligned]), hsize, dirIndex_slotBase hs, dirIndex_slotBase h64]
    apply forUpto_stop (by omega)
    unfold copyDir
    rw [if_neg (by rwa [Nat.add_zero, ha.same.dir]),
      if_neg (by rw [Nat.add_zero, ha.same.dir]; exact not_not.mpr hfirst)]
    simp only [hnone]
  obtain ⟨m₁, hfree, hf⟩ := freeSlot_frees ha.inv h1 h64 hsize.le
  have hdir := (freeSlot_keeps ha.inv h1 h64 hsize.le hfree).2
  obtain ⟨m₂, hpage, -, hmem, -⟩ := hf.inv.release (Finset.mem_insert_self page k.held)
  have hcopy : copyMem t s nr m = some (.stop .outOfMemory m₁) := by
    unfold copyMem Memory.copyMem
    rw [if_neg (by omega), htables]
    simp only [hfree, Res.bind]
  simp only [sysFork, hpid, hslot, copyProcess, hget, hcopy, hpage]
  refine ⟨_, rfl, fun d => ?_⟩
  change m₂.mem 0 d = _
  rw [hmem, hdir, hsize]
  unfold clearedDirs
  rw [ha.same.dir]

/-- A fork that returns `-EAGAIN` has left everything as it was, when the code segments of the
    programs lie in their slots. -/
theorem fork_all_or_nothing {k₀ : Kernel} {startMem endMem : ℕ} {mem : ℕ → ℕ → ℕ}
    (h₀ : Start startMem endMem mem k₀) (hr : Reachable Confined k₀ k) (ht : k.task s = some t)
    (hf : sysFork k s t = .again k') : AsBefore s k k' :=
  (sysFork_again (hr.sound h₀) ht hf).1

/-- Task 0. -/
def initTask : Task where
  page := 0
  info := ⟨0, -1, 0, 0, false, true, .running, 0, 0, 0, .user⟩
  codeLimit := 655360
  dataLimit := 655360
  filp _ := none
  pwd := none
  root := none
  executable := none

/-- A machine with its main memory from `startMem` on. -/
def machine (startMem : ℕ) : Kernel where
  held := ∅
  mm := memInit startMem 4096 setupPaging
  task i := if i = 0 then some initTask else none
  lastPid := 0
  fCount _ := 0
  iCount _ := 0

theorem machine_start (startMem : ℕ) (h : LOW_MEM ≤ startMem) :
    Start startMem 4096 setupPaging (machine startMem) := by
  refine ⟨h, by decide, setupPaging_spec, rfl, rfl, fun i t ht => ?_⟩
  by_cases hi : i = 0
  · rw [hi] at ht
    cases ht
    exact ⟨hi, rfl, rfl, by decide⟩
  · cases (if_neg hi).symm.trans ht

def onePage : Kernel := machine 4095

/-- The one page is enough for the task, and not for its page table. -/
theorem fork_all_or_nothing_one_page :
    ∃ k', sysFork onePage 0 initTask = .again k' ∧ AsBefore 0 onePage k' := by
  have hstart : Start 4095 4096 setupPaging onePage := machine_start 4095 (by decide)
  have hget : getFreePage onePage.mm =
      some (4095, (onePage.mm.setMap 3839 1).fill 4095 fun _ => 0) := rfl
  have hnone : getFreePage ((onePage.mm.setMap 3839 1).fill 4095 fun _ => 0) = none := by
    rw [getFreePage, Option.map_eq_none_iff, findFree_eq_none]
    intro i hi
    rw [Mm.fill_memMap, Mm.setMap_memMap]
    split_ifs with h
    · decide
    · change (memInit 4095 4096 setupPaging).memMap i ≠ 0
      unfold PAGING_PAGES at hi
      rw [memInit_memMap, if_neg (by unfold mapNr LOW_MEM; omega)]
      decide
  have hf : ∃ k', sysFork onePage 0 initTask = .again k' := by
    have hpid : findPid (fun i => (onePage.task i).map Task.info) (NR_TASKS + 1) onePage.lastPid =
        some 1 := rfl
    have hslot : findSlot (fun i => (onePage.task i).map Task.info) = some 1 := rfl
    have hcopy : copyMem initTask 0 1 ((onePage.mm.setMap 3839 1).fill 4095 fun _ => 0) =
        some (.stop .outOfMemory ((onePage.mm.setMap 3839 1).fill 4095 fun _ => 0)) := by
      have hdirs : dirs 655360 = 1 := by decide
      have htables : copyPageTables (slotBase 0) (slotBase 1) 655360
          ((onePage.mm.setMap 3839 1).fill 4095 fun _ => 0) =
          .stop .outOfMemory ((onePage.mm.setMap 3839 1).fill 4095 fun _ => 0) := by
        unfold copyPageTables
        rw [if_neg (by decide), hdirs]
        simp only [forUpto, Res.bind, copyDir, hnone]
        rw [if_neg (by decide), if_neg (by decide)]
      have hlimit : ¬ initTask.dataLimit < initTask.codeLimit := by decide
      unfold copyMem
      rw [if_neg hlimit]
      unfold Memory.copyMem
      rw [show initTask.dataLimit = 655360 from rfl, htables]
      have hempty : freeDir (dirIndex (slotBase 1) + 0)
          ((onePage.mm.setMap 3839 1).fill 4095 fun _ => 0) =
          .ok () ((onePage.mm.setMap 3839 1).fill 4095 fun _ => 0) := if_pos (by decide)
      have hfreed : freePageTables (slotBase 1) 655360
          ((onePage.mm.setMap 3839 1).fill 4095 fun _ => 0) =
          .ok () ((onePage.mm.setMap 3839 1).fill 4095 fun _ => 0) := by
        unfold freePageTables
        rw [if_neg (by decide), if_neg (by decide), hdirs]
        simp only [forUpto, Res.bind, hempty]
      simp only [hfreed, Res.bind]
    have hfree : ∃ m, freePage 4095 ((onePage.mm.setMap 3839 1).fill 4095 fun _ => 0) = .ok () m :=
      ⟨_, rfl⟩
    obtain ⟨m, hfree⟩ := hfree
    simp only [sysFork, hpid, hslot, copyProcess, hget, hcopy, hfree]
    exact ⟨_, rfl⟩
  obtain ⟨k', hk⟩ := hf
  exact ⟨k', hk, fork_all_or_nothing hstart .init rfl hk⟩

/-- A fault at an address without a table, with pages to spare. -/
theorem faulted (P : Header → Prop) (h : Inv lo k.held k.mm) (ht : k.task s = some t)
    (hz : t.info.state ≠ .zombie) (address : ℕ) (hreach : t.Reaches s address)
    (hd : dirIndex address ∈ userDirs) (hn : ¬ present (k.mm.mem 0 (dirIndex address)))
    (hroom : 2 ≤ (freePages k.mm).card) :
    ∃ m, Step P k { k with mm := m } ∧ Inv lo k.held m ∧
      (freePages m).card + 2 = (freePages k.mm).card ∧ present (m.mem 0 (dirIndex address)) ∧
      ∀ d, d ≠ dirIndex address → m.mem 0 d = k.mm.mem 0 d := by
  obtain ⟨m, hget, hinv, hcard, hdir, hother⟩ := getEmptyPage_room h hd hn hroom
  have hentry : ¬ present (entryAt k.mm address) := fun hc => hn (present_dir_of_pte hc)
  have hout : outcome k.held (Call.run ⟨k.held, k.mm⟩ (.getEmptyPage address)) =
      some ⟨k.held, m⟩ := by
    simp only [Call.run, hget, Res.bind, outcome]
  have hcalls : t.Calls k s (.getEmptyPage address) := hreach
  have hallowed : (Call.getEmptyPage address).Allowed ⟨k.held, k.mm⟩ := ⟨hd, hentry⟩
  exact ⟨m, .page ht hz hcalls hallowed hout, hinv, hcard, hdir, hother⟩

/-- A program without text has a code segment of 4GB. -/
def noText : Header := ⟨Exec.ZMAGIC, 0, 4096, 0, 0, 0, 0, 0⟩

/-- Task 1 runs `noText`, has one table of its own, and has left another one in the free slot behind
    its own; one page is left. -/
theorem stray_table : ∃ k t, Reachable (fun _ => True) (machine 4080) k ∧
    k.task = Function.update (machine 4080).task 1 (some t) ∧ t.info = (childOf initTask 0 1).info ∧ k.lastPid = 1 ∧
    t.codeLimit = 0 ∧ t.dataLimit = 67108864 ∧ Inv 4080 k.held k.mm ∧
    (freePages k.mm).card = 1 ∧ present (k.mm.mem 0 16) ∧ ¬ present (k.mm.mem 0 32) ∧
    present (k.mm.mem 0 33) := by
  have hstart := machine_start 4080 (by decide)
  have hsound := hstart.sound
  have hfull := freePages_memInit 4080 4096 setupPaging (by decide) le_rfl
  change (freePages (machine 4080).mm).card = 4096 - 4080 at hfull
  have hpid : findPid (fun i => ((machine 4080).task i).map Task.info) (NR_TASKS + 1)
      (machine 4080).lastPid = some 1 := rfl
  have hslot : findSlot (fun i => ((machine 4080).task i).map Task.info) = some 1 := rfl
  obtain ⟨page, k₁, hfork, hlast, htask, hcard⟩ := first_forks (t := initTask) hsound rfl (by decide)
    hpid hslot (by omega)
  have hsound₁ := sysFork_forked hsound rfl hfork
  have ht : k₁.task 1 = some (childOf initTask page 1) := by rw [htask, Function.update_self]
  obtain ⟨m, hfree, he⟩ := freeTables_emptied hsound₁ ht le_rfl
  have hdirs : ∀ d, 16 ≤ d → d < 1024 → m.mem 0 d = 0 := by
    intro d hd hd'
    have hd := mem_userDirs.mpr ⟨hd, hd'⟩
    by_cases hslot : d / 16 = 1
    · exact he.inside d hd hslot
    · rw [he.outside d hslot]
      refine (hsound₁.tables d hd).resolve_right ?_
      rintro ⟨-, u, hu, -⟩
      rw [htask, Function.update_of_ne hslot] at hu
      have hzero : (machine 4080).task (d / 16) = none := if_neg (by omega)
      rw [hzero] at hu
      cases hu
  have hcard₂ := he.freePages_le hsound₁.good.inv
  let t : Task := { childOf initTask page 1 with codeLimit := codeLimitOf 0, dataLimit := 67108864 }
  let k₂ : Kernel := { k₁ with mm := m, task := Function.update k₁.task 1 (some t) }
  have ht₂ : k₂.task 1 = some t := by
    change Function.update k₁.task 1 (some t) 1 = some t
    exact Function.update_self _ _ _
  have hz : TaskState.running ≠ .zombie := by decide
  have hfar : t.reach = 4294967296 :=
    show max 67108864 (if codeLimitOf 0 = 0 then 4294967296 else codeLimitOf 0) = 4294967296 from rfl
  have hvalid : noText.Valid 8192 := by decide
  have hreach₂ : Reachable (fun _ => True) (machine 4080) k₂ := by
    refine (Reachable.init.step (.fork (s := 0) (t := initTask) rfl (by decide) hfork)).step
      (.exec ht hz (by decide) hvalid trivial ?_)
    unfold doExecve
    rw [hfree]
    rfl
  -- a page at the beginning of its slot, and one beyond the end
  obtain ⟨m₃, hstep₃, hinv₃, hcard₃, hown, hother₃⟩ := faulted (fun _ => True) (k := k₂) he.inv ht₂
    hz 67108864 ⟨0, by omega, by decide⟩ (mem_userDirs.mpr (by decide))
    (by rw [show dirIndex 67108864 = 16 by decide]; exact (hdirs 16 (by omega) (by omega)).symm ▸ present_zero)
    (by change 2 ≤ (freePages m).card; omega)
  have ht₃ : ({ k₂ with mm := m₃ } : Kernel).task 1 = some t := ht₂
  obtain ⟨m₄, hstep₄, hinv₄, hcard₄, hstray, hother₄⟩ := faulted (fun _ => True) hinv₃ ht₃ hz
    138412032 ⟨71303168, by omega, by decide⟩ (mem_userDirs.mpr (by decide))
    (by
      rw [show dirIndex 138412032 = 33 by decide]
      change ¬ present (m₃.mem 0 33)
      rw [hother₃ 33 (by decide)]
      exact (hdirs 33 (by omega) (by omega)).symm ▸ present_zero)
    (by change 2 ≤ (freePages m₃).card; change _ = (freePages m).card at hcard₃; omega)
  change _ = (freePages m).card at hcard₃
  change _ = (freePages m₃).card at hcard₄
  obtain ⟨st, htakes, hinv, hleft, hdir⟩ := takes_down 1 ((freePages m₄).card - 1) ⟨k₂.held, m₄⟩ hinv₄
    (by change (freePages m₄).card = _; omega)
  have hreach := Takes.reachable htakes (k := k₂) ht₂ hz ((hreach₂.step hstep₃).step hstep₄)
  refine ⟨_, t, hreach, ?_, rfl, hlast, rfl, rfl, hinv, hleft, ?_, ?_, ?_⟩
  · change Function.update k₁.task 1 (some t) = _
    rw [htask, Function.update_idem]
  · change present (st.mm.mem 0 16)
    rw [hdir]
    change present (m₄.mem 0 16)
    rw [hother₄ 16 (by decide)]
    exact hown
  · change ¬ present (st.mm.mem 0 32)
    rw [hdir]
    change ¬ present (m₄.mem 0 32)
    rw [hother₄ 32 (by decide)]
    change ¬ present (m₃.mem 0 32)
    rw [hother₃ 32 (by decide)]
    exact (hdirs 32 (by omega) (by omega)).symm ▸ present_zero
  · change present (st.mm.mem 0 33)
    rw [hdir]
    exact hstray

/-- The fork that finds no page for its first table frees the stray one. -/
theorem fork_frees_stray : ∃ k₀ k t k', Start 4080 4096 setupPaging k₀ ∧
    Reachable (fun _ => True) k₀ k ∧ k.task 1 = some t ∧ sysFork k 1 t = .again k' ∧
    ¬ AsBefore 1 k k' := by
  obtain ⟨k, t, hreach, htask, htinfo, hlast, hcode, hdata, hinv, hleft, hown, hchild, hstray⟩ :=
    stray_table
  have hinfo : (fun i => (k.task i).map Task.info) =
      Function.update (fun i => ((machine 4080).task i).map Task.info) 1 (some (childOf initTask 0 1).info) := by
    funext i
    rw [htask]
    by_cases hi : i = 1
    · rw [hi, Function.update_self, Function.update_self, Option.map_some, htinfo]
    · rw [Function.update_of_ne hi, Function.update_of_ne hi]
  have hpid : findPid (fun i => (k.task i).map Task.info) (NR_TASKS + 1) k.lastPid = some 2 := by
    rw [hinfo, hlast]
    rfl
  have hslot : findSlot (fun i => (k.task i).map Task.info) = some 2 := by
    rw [hinfo]
    rfl
  obtain ⟨k', hfork, hdir⟩ := sysFork_starved (s := 1) (t := t) hinv (by omega) (by omega)
    (by rw [hdata]; decide) hpid hslot hown hchild hleft
  refine ⟨_, k, t, k', machine_start 4080 (by decide), hreach, by rw [htask, Function.update_self], hfork,
    fun hbefore => ?_⟩
  have hsame := hbefore.pgDir 33 (by omega)
  rw [hdir 33] at hsame
  unfold clearedDirs at hsame
  rw [if_pos ⟨by omega, by omega, hstray⟩] at hsame
  exact present_zero (hsame ▸ hstray)

end Linux011.Fork
