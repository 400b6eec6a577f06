import Linux011.PageTables

set_option autoImplicit false

/-!
# Any sequence of memory calls

Calls are made the way the kernel makes them: a page is put where none is, copies and
releases go over whole slots, and only pages the kernel got are given back.
-/
namespace Linux011.Memory
open FiniteCount

/-- `held` is the set of pages the kernel itself has taken and not yet given away. -/
structure State where
  held : Finset ℕ
  mm : Mm

inductive Call where
  | getFreePage
  | freePage (page : ℕ)
  | getEmptyPage (address : ℕ)
  | putPage (page address : ℕ)
  | doWpPage (address : ℕ)
  | writeVerify (address : ℕ)
  /-- `try_to_share` of the current task, in slot `current`, with the task in slot `p`. -/
  | tryToShare (address p current : ℕ)
  | copyMem (parent child size : ℕ)
  | freePageTables (slot size : ℕ)
  /-- a store of a task in user mode -/
  | userStore (address v : ℕ)
  deriving DecidableEq

def Call.run (s : State) : Call → Res (Finset ℕ)
  | .getFreePage => match Memory.getFreePage s.mm with
    | none => .stop .outOfMemory s.mm
    | some (page, m) => .ok (insert page s.held) m
  | .freePage page => (Memory.freePage page s.mm).bind fun _ m => .ok (s.held.erase page) m
  | .getEmptyPage address => (Memory.getEmptyPage address s.mm).bind fun _ m => .ok s.held m
  | .putPage page address =>
    (Memory.putPage page address s.mm).bind fun _ m => .ok (s.held.erase page) m
  | .doWpPage address => (Memory.doWpPage address s.mm).bind fun _ m => .ok s.held m
  | .writeVerify address => (Memory.writeVerify address s.mm).bind fun _ m => .ok s.held m
  | .tryToShare address p current =>
    (Memory.tryToShare address (slotBase p) (slotBase current) s.mm).bind fun _ m => .ok s.held m
  | .copyMem parent child size =>
    (Memory.copyMem (slotBase parent) (slotBase child) size s.mm).bind fun _ m => .ok s.held m
  | .freePageTables slot size =>
    (Memory.freePageTables (slotBase slot) size s.mm).bind fun _ m => .ok s.held m
  | .userStore address v => .ok s.held (store address v s.mm)

/-- The entry an address of a task goes through. -/
def entryAt (m : Mm) (address : ℕ) : ℕ := pte m (dirIndex address) (tableIndex address)

def Call.Allowed (s : State) : Call → Prop
  | .getFreePage => True
  | .freePage page => page ∈ s.held
  | .getEmptyPage address => dirIndex address ∈ userDirs ∧ ¬ present (entryAt s.mm address)
  | .putPage page address =>
    page ∈ s.held ∧ dirIndex address ∈ userDirs ∧ ¬ present (entryAt s.mm address)
  | .doWpPage address => dirIndex address ∈ userDirs ∧ present (entryAt s.mm address)
  | .writeVerify _ => True
  | .tryToShare address p current =>
    address < slotBase 1 ∧ p ∈ Finset.Ico 1 64 ∧ current ∈ Finset.Ico 1 64 ∧ p ≠ current
  | .copyMem parent child size =>
    parent < 64 ∧ child ∈ Finset.Ico 1 64 ∧ parent ≠ child ∧ dirs size ≤ 16 ∧
      (parent = 0 → dirs size ≤ 1)
  | .freePageTables slot size => slot ∈ Finset.Ico 1 64 ∧ dirs size ≤ 16
  | .userStore address _ =>
    dirIndex address ∈ userDirs ∧ present (entryAt s.mm address) ∧ writable (entryAt s.mm address)

/-- The kernel goes on after a call that worked, and after one that found no memory. -/
def outcome (held : Finset ℕ) : Res (Finset ℕ) → Option State
  | .ok held' m => some ⟨held', m⟩
  | .stop .outOfMemory m | .stop .oom m => some ⟨held, m⟩
  | .stop _ _ => none

inductive Reachable (s₀ : State) : State → Prop
  | init : Reachable s₀ s₀
  | call {s s' : State} (c : Call) (hs : Reachable s₀ s) (hc : c.Allowed s)
      (hr : outcome s.held (c.run s) = some s') : Reachable s₀ s'

/-- Pages below `LOW_MEM` are never mapped writable. -/
def LowReadOnly (f : ℕ → ℕ → ℕ) : Prop :=
  ∀ d ∈ userDirs, ∀ i < 1024, present (f d i) → frame (f d i) < 256 → ¬ writable (f d i)

structure Good (lo : ℕ) (s : State) : Prop where
  inv : Inv lo s.held s.mm
  low : LowReadOnly (pte s.mm)

section
variable {lo : ℕ} {held : Finset ℕ} {m : Mm}

theorem LowReadOnly.setAt {f : ℕ → ℕ → ℕ} (h : LowReadOnly f) (d i v : ℕ)
    (hv : frame v < 256 → ¬ writable v) : LowReadOnly (setAt f d i v) := by
  intro e he j hj hp hl
  unfold Memory.setAt at *
  split_ifs at * with hc
  · exact hv hl
  · exact h e he j hj hp hl

theorem LowReadOnly.clearDirs {f : ℕ → ℕ → ℕ} (h : LowReadOnly f) (d n : ℕ) :
    LowReadOnly (clearDirs f d n) := by
  intro e he j hj hp hl
  unfold Memory.clearDirs at *
  split_ifs at * with hc
  · exact absurd hp present_zero
  · exact h e he j hj hp hl

theorem LowReadOnly.copied {f : ℕ → ℕ → ℕ} (h : LowReadOnly f) (g : ℕ → ℕ → ℕ)
    (src dst n : ℕ) : LowReadOnly (copied g f src dst n) := by
  intro e he j hj hp hl
  unfold Memory.copied protectMain at *
  split_ifs at * with h1 h2 h3 h4
  · exact writable_clearWrite _
  · exact h e he j hj hp hl
  · exact writable_clearWrite _
  · exact h e he j hj hp hl
  · exact h e he j hj hp hl

theorem Leads.good {held' : Finset ℕ} {m' : Mm} {new : ℕ → ℕ → ℕ}
    (h : Leads lo held held' m m' new) (hn : LowReadOnly new) : Good lo ⟨held', m'⟩ := by
  refine ⟨h.inv, ?_⟩
  intro d hd i hi
  rw [h.pte d hd i hi]
  exact hn d hd i hi

theorem tableIndex_lt (address : ℕ) : tableIndex address < 1024 := Nat.mod_lt _ (by omega)

theorem present_dir_of_pte {d i : ℕ} (h : present (pte m d i)) : present (m.mem 0 d) := by
  by_contra hc
  unfold pte at h
  rw [if_neg hc] at h
  exact present_zero h

/-- What one store does: a word of the page and a flag of the entry. -/
structure Stored (lo : ℕ) (held : Finset ℕ) (m m' : Mm) (d i j v : ℕ) : Prop where
  inv : Inv lo held m'
  pte : ∀ e ∈ userDirs, ∀ k < 1024, pte m' e k = setAt (pte m) d i (setDirty (pte m d i)) e k
  page : m'.mem (frame (Memory.pte m d i)) =
    Function.update (m.mem (frame (Memory.pte m d i))) j v
  keep : ∀ p, p ≠ frame (Memory.pte m d i) → p < 256 ∨ 0 < pageRefs m p ∨ p ∈ held →
    m'.mem p = m.mem p
  high : m'.highMemory = m.highMemory

theorem store_stored (h : Inv lo held m) {address v : ℕ} (hd : dirIndex address ∈ userDirs)
    (hp : present (entryAt m address)) (hl : 256 ≤ frame (entryAt m address)) :
    Stored lo held m (store address v m) (dirIndex address) (tableIndex address)
      (address % 4096 / 4) v := by
  unfold entryAt at hp hl
  unfold store
  have hi := tableIndex_lt address
  generalize dirIndex address = d at *
  generalize tableIndex address = i at *
  generalize address % 4096 / 4 = j at *
  have hpd := present_dir_of_pte hp
  have hcell : m.mem (frame (m.mem 0 d)) i = pte m d i := (if_pos hpd).symm
  have htab : ∀ p < 256, (m.write (frame (m.mem 0 d)) i (setDirty (pte m d i))).mem p =
      m.mem p := fun p hp => by
    have := (h.table d hd hpd).1
    have := h.low
    rw [Mm.write_mem_ne _ _ _ _ (by omega)]
  simp only [hcell]
  generalize hpage : frame (pte m d i) = page at *
  have hm : mapsTo (pte m d i) page := ⟨hp, hpage⟩
  have hpos := pageRefs_pos hd hi hm
  have hmark := h.reflag hd hi hpd (v := setDirty (pte m d i)) (present_setDirty _)
    (frame_setDirty _) (by
      intro _ hw _
      rw [frame_setDirty]
      exact h.alone (d, i) (mem_userEntries.mpr ⟨hd, hi⟩) hp ((writable_setDirty _).mp hw)
        (by rw [hpage]; exact hl))
  generalize m.write (frame (m.mem 0 d)) i (setDirty (pte m d i)) = m₁ at *
  have hm₁ : mapsTo (pte m₁ d i) page := by
    rw [hmark.pte d hd i hi, setAt_self]
    exact ⟨(present_setDirty _).mpr hp, by rw [frame_setDirty, hpage]⟩
  have hsame : SameEntries m₁ (m₁.write page j v) :=
    fill_same hl (hmark.inv.mapped_only hd hi hm₁).1 _
  have hold : m₁.mem page = m.mem page := hmark.keep page hl (.inl hpos)
  refine ⟨hmark.inv.rehold hsame (fun _ _ _ => rfl) (fun _ _ _ => rfl)
    (fun q hq hn => absurd hq hn), ?_, ?_, ?_, hmark.high⟩
  · intro e he k hk
    rw [hsame.pte e he k, hmark.pte e he k hk]
  · rw [hpage]
    funext k
    rw [Mm.write_mem_self, hold, Function.update_apply]
  · intro q hne hu
    rw [hpage] at hne
    rw [Mm.write_mem_ne _ _ _ _ hne]
    rcases Nat.lt_or_ge q 256 with hq | hq
    · exact htab q hq
    · exact hmark.keep q hq (hu.resolve_left (by omega))

theorem Good.main_entry (h : Good lo ⟨held, m⟩) {p : ℕ} (hp : lo ≤ p) :
    frame (entryOf p) < 256 → ¬ writable (entryOf p) := by
  intro hl
  have := h.inv.low
  rw [frame_entryOf] at hl
  omega

theorem Good.main_of_writable {s : State} (h : Good lo s) {address : ℕ}
    (hd : dirIndex address ∈ userDirs) (hp : present (entryAt s.mm address))
    (hw : writable (entryAt s.mm address)) : 256 ≤ frame (entryAt s.mm address) := by
  by_contra hc
  exact h.low _ hd _ (tableIndex_lt address) hp (Nat.not_le.mp hc) hw

theorem unWp_good (h : Good lo ⟨held, m⟩) {d i : ℕ} (hd : d ∈ userDirs) (hi : i < 1024)
    (hp : present (m.mem 0 d)) (hpe : present (pte m d i)) :
    (unWpPage (frame (m.mem 0 d)) i m).Sat (fun _ m' => Good lo ⟨held, m'⟩)
      (fun _ m' => Good lo ⟨held, m'⟩) := by
  refine (unWpPage_sat h.inv hd hi hp hpe).mono ?_ (fun _ _ hm => hm ▸ h)
  rintro _ m' (⟨_, hl, hlead⟩ | ⟨page, _, _, hlo, _, hlead⟩)
  · exact hlead.good (h.low.setAt d i _ fun hc => by
      rw [frame_setWrite] at hc
      omega)
  · exact hlead.good (h.low.setAt d i _ (h.main_entry hlo))

/-- The kernel's own entries are writable. -/
theorem writeVerify_kernel (h : Inv lo held m) {address : ℕ}
    (hd : dirIndex address ∉ userDirs) : writeVerify address m = .ok () m := by
  have h1024 : dirIndex address < 1024 := Nat.mod_lt _ (by omega)
  have hd16 : dirIndex address < 16 := by
    by_contra hc
    exact hd (mem_userDirs.mpr ⟨by omega, h1024⟩)
  have hdir := h.kernelDir _ hd16
  unfold writeVerify
  rw [hdir]
  split_ifs with h4
  · have hw : ∀ p, entryOf p % 4 ≠ 1 := fun p => by
      unfold entryOf
      omega
    simp only [present_entryOf, not_true, if_false, frame_entryOf,
      h.kernelTable _ h4 _ (tableIndex_lt address), if_neg (hw _)]
  · simp only [present_zero, not_false_eq_true, if_true]

theorem writeVerify_good (h : Good lo ⟨held, m⟩) {address : ℕ} :
    (writeVerify address m).Sat (fun _ m' => Good lo ⟨held, m'⟩)
      (fun _ m' => Good lo ⟨held, m'⟩) := by
  by_cases hd : dirIndex address ∈ userDirs
  case neg =>
    rw [writeVerify_kernel h.inv hd]
    exact h
  unfold writeVerify
  have hi := tableIndex_lt address
  generalize dirIndex address = d at *
  generalize tableIndex address = i at *
  by_cases hp : present (m.mem 0 d)
  · have hcell : m.mem (frame (m.mem 0 d)) i = pte m d i := (if_pos hp).symm
    simp only [hp, not_true, if_false]
    split_ifs with hw
    · refine unWp_good h hd hi hp ?_
      rw [hcell] at hw
      unfold present
      omega
    · exact h
  · simp only [hp, not_false_eq_true, if_true]
    exact h

theorem putPage_good (h : Good lo ⟨held, m⟩) {page address : ℕ}
    (hd : dirIndex address ∈ userDirs) (hn : ¬ present (entryAt m address)) (hh : page ∈ held) :
    (putPage page address m).Sat (fun _ m' => Good lo ⟨held.erase page, m'⟩)
      (fun _ m' => Good lo ⟨held, m'⟩) := by
  refine (putPage_sat h.inv hd hn hh).mono ?_ (fun _ _ hm => hm.2 ▸ h)
  intro _ m' hl
  exact hl.good (h.low.setAt _ _ _ (h.main_entry (h.inv.held_main page hh).1))

theorem share_dirs {address p current : ℕ} (ha : address < slotBase 1)
    (hp : p ∈ Finset.Ico 1 64) (hc : current ∈ Finset.Ico 1 64) :
    dirIndex address + dirIndex (slotBase p) ∈ userDirs ∧
      dirIndex address + dirIndex (slotBase current) ∈ userDirs ∧
      (dirIndex address + dirIndex (slotBase p)) % 16 =
        (dirIndex address + dirIndex (slotBase current)) % 16 := by
  rw [Finset.mem_Ico] at hp hc
  rw [dirIndex_slotBase hp.2, dirIndex_slotBase hc.2]
  have hd : dirIndex address < 16 := by
    unfold slotBase at ha
    unfold dirIndex
    omega
  exact ⟨mem_userDirs.mpr (by omega), mem_userDirs.mpr (by omega), by omega⟩

theorem tryToShare_good (h : Good lo ⟨held, m⟩) {address p current : ℕ}
    (ha : address < slotBase 1) (hp : p ∈ Finset.Ico 1 64) (hc : current ∈ Finset.Ico 1 64) :
    (tryToShare address (slotBase p) (slotBase current) m).Sat (fun _ m' => Good lo ⟨held, m'⟩)
      (fun _ m' => Good lo ⟨held, m'⟩) := by
  obtain ⟨hd, hd', hmod⟩ := share_dirs ha hp hc
  refine (tryToShare_sat h.inv hd hd' hmod).mono ?_ (fun _ _ hm => hm ▸ h)
  rintro (_ | _) m' hP
  · obtain rfl : m' = m := hP
    exact h
  · obtain ⟨_, _, _, _, hl⟩ := hP
    exact hl.good ((h.low.setAt _ _ _ fun _ => writable_clearWrite _).setAt _ _ _
      fun _ => writable_clearWrite _)

/-- What one call does to the counts: it keeps them, and `free_page` does not complain. -/
theorem Good.call {s : State} (h : Good lo s) {c : Call} (hc : c.Allowed s) :
    (c.run s).Sat (fun held' m' => Good lo ⟨held', m'⟩) (fun _ m' => Good lo ⟨s.held, m'⟩) := by
  obtain ⟨held, m⟩ := s
  cases c with
  | getFreePage =>
    simp only [Call.run]
    cases hg : Memory.getFreePage m with
    | none => exact h
    | some r => exact (h.inv.alloc hg).leads.good h.low
  | freePage page =>
    obtain ⟨m', hf, hl⟩ := h.inv.free hc
    simp only [Call.run, hf]
    exact hl.good h.low
  | getEmptyPage address =>
    refine ((getEmptyPage_sat h.inv hc.1 hc.2).mono (A := fun _ m' => Good lo ⟨held, m'⟩)
      (B := fun _ m' => Good lo ⟨held, m'⟩) ?_ ?_).bind fun _ m' hm => hm
    · rintro _ m' ⟨page, hlo, _, _, _, hl⟩
      exact hl.good (h.low.setAt _ _ _ (h.main_entry hlo))
    · exact fun _ m' hl => hl.good h.low
  | putPage page address =>
    exact (putPage_good h hc.2.1 hc.2.2 hc.1).bind fun _ m' hm => hm
  | doWpPage address =>
    exact (unWp_good h hc.1 (tableIndex_lt address) (present_dir_of_pte hc.2) hc.2).bind
      fun _ m' hm => hm
  | writeVerify address =>
    exact (writeVerify_good h).bind fun _ m' hm => hm
  | tryToShare address p current =>
    exact (tryToShare_good h hc.1 hc.2.1 hc.2.2.1).bind fun _ m' hm => hm
  | copyMem parent child size =>
    obtain ⟨hp, hch, hne, hsize, h0⟩ := hc
    rw [Finset.mem_Ico] at hch
    refine ((copyMem_sat h.inv hp hch.1 hch.2 hne hsize h0).mono
      (A := fun _ m' => Good lo ⟨held, m'⟩) (B := fun _ m' => Good lo ⟨held, m'⟩) ?_ ?_).bind
      fun _ m' hm => hm
    · exact fun _ m' hl => hl.good (h.low.copied _ _ _ _)
    · rintro _ m' ⟨k, _, hl⟩
      exact hl.good ((h.low.copied _ _ _ _).clearDirs _ _)
  | freePageTables slot size =>
    obtain ⟨hs, hsize⟩ := hc
    rw [Finset.mem_Ico] at hs
    obtain ⟨m', hrun, hf⟩ := freeSlot_frees h.inv hs.1 hs.2 hsize
    simp only [Call.run, hrun, Res.bind]
    exact (hf.leads h.inv).good (h.low.clearDirs _ _)
  | userStore address v =>
    obtain ⟨hd, hp, hw⟩ := hc
    have hl := h.main_of_writable hd hp hw
    have hst := store_stored h.inv (v := v) hd hp hl
    refine ⟨hst.inv, ?_⟩
    intro e he k hk
    rw [hst.pte e he k hk]
    exact h.low.setAt _ _ _ (fun hc => absurd hl (by
      rw [frame_setDirty] at hc
      exact Nat.not_le.mpr hc)) e he k hk

theorem memInit_good {startMem endMem : ℕ} {mem : ℕ → ℕ → ℕ} (hlow : LOW_MEM ≤ startMem)
    (hhigh : endMem ≤ LOW_MEM + PAGING_PAGES) (hp : PagingSetup mem) :
    Good startMem ⟨∅, memInit startMem endMem mem⟩ := by
  simp only [LOW_MEM, PAGING_PAGES] at hlow hhigh
  have hdir : ∀ d ∈ userDirs, ¬ present (mem 0 d) := by
    intro d hd
    rw [hp.userDir d (by have := mem_userDirs.mp hd; omega)]
    exact present_zero
  have hpte : ∀ d ∈ userDirs, ∀ i, pte (memInit startMem endMem mem) d i = 0 :=
    fun d hd i => if_neg (hdir d hd)
  refine ⟨⟨hlow, hhigh, ?_, ?_, by simp, fun d hd hc => absurd hc (hdir d hd), ?_, ?_, ?_,
    ?_, hp.kernelTable⟩, ?_⟩
  · intro p hplo hphi
    have hz : (memInit startMem endMem mem).memMap (p - 256) = 0 := by
      rw [memInit_high] at hphi
      rw [memInit_memMap, mapNr, if_pos (by simp only [LOW_MEM]; omega)]
    have hpage : pageRefs (memInit startMem endMem mem) p = 0 := by
      apply tally_eq_zero.mpr
      intro x hx hm
      rw [hpte x.1 (mem_userEntries.mp (show (x.1, x.2) ∈ userEntries from hx)).1] at hm
      exact present_zero hm.1
    have htable : tableRefs (memInit startMem endMem mem) p = 0 :=
      tally_eq_zero.mpr fun d hd hm => hdir d hd hm.1
    rw [hz, hpage, htable]
    rfl
  · intro j hj hout
    rw [memInit_high] at hout
    rw [memInit_memMap, mapNr, if_neg (by simp only [LOW_MEM]; omega)]
    decide
  · intro d hd i _ hc
    rw [hpte d hd] at hc
    exact absurd hc present_zero
  · intro p _ x hx _ _ hm
    rw [hpte x.1 (mem_userEntries.mp (show (x.1, x.2) ∈ userEntries from hx)).1] at hm
    exact absurd hm.1 present_zero
  · intro x hx hc
    rw [hpte x.1 (mem_userEntries.mp (show (x.1, x.2) ∈ userEntries from hx)).1] at hc
    exact absurd hc present_zero
  · intro d hd
    by_cases h4 : d < 4
    · rw [if_pos h4]
      exact hp.kernelDir d h4
    · rw [if_neg h4]
      exact hp.userDir d (by omega)
  · intro d hd i _ hc
    rw [hpte d hd] at hc
    exact absurd hc present_zero

theorem good_outcome {held : Finset ℕ} {r : Res (Finset ℕ)} {s' : State}
    (h : r.Sat (fun held' m' => Good lo ⟨held', m'⟩) (fun _ m' => Good lo ⟨held, m'⟩))
    (hr : outcome held r = some s') : Good lo s' := by
  cases r with
  | ok held' m =>
    cases hr
    exact h
  | stop w m =>
    cases w <;> cases hr <;> exact h

theorem Reachable.good {s₀ s : State} (h₀ : Good lo s₀) (hr : Reachable s₀ s) : Good lo s := by
  induction hr with
  | init => exact h₀
  | call c _ hc hr ih => exact good_outcome (ih.call hc) hr

/-- `free_page` stopped the kernel. -/
def Res.freePanic {α : Type} : Res α → Prop
  | .stop .freeFreePage _ | .stop .nonexistentPage _ => True
  | _ => False

theorem Res.Sat.no_freePanic {α : Type} {P : α → Mm → Prop} {Q : Stop → Mm → Prop} {r : Res α}
    (h : r.Sat P Q) : ¬ r.freePanic := by
  cases r with
  | ok a m => exact id
  | stop w m => cases w <;> first | exact id | exact fun _ => h

end

/-! ### The count is exact -/

theorem mem_map_exact {startMem endMem : ℕ} {mem : ℕ → ℕ → ℕ} {s : State}
    (hlow : LOW_MEM ≤ startMem) (hhigh : endMem ≤ LOW_MEM + PAGING_PAGES) (hp : PagingSetup mem)
    (hr : Reachable ⟨∅, memInit startMem endMem mem⟩ s) :
    (∀ page, startMem ≤ page → page < s.mm.highMemory →
      s.mm.memMap (mapNr page) = pageRefs s.mm page + tableRefs s.mm page + heldRefs s.held page) ∧
    (∀ c : Call, c.Allowed s → ¬ (c.run s).freePanic) ∧
    (∀ page m', getFreePage s.mm = some (page, m') →
      pageRefs s.mm page = 0 ∧ tableRefs s.mm page = 0 ∧ page ∉ s.held) := by
  have h := hr.good (memInit_good hlow hhigh hp)
  exact ⟨h.inv.count, fun c hc => (h.call hc).no_freePanic,
    fun page m' hg => (h.inv.alloc hg).unmapped⟩

/-! A page of slot 1 that is stored into, its copy for slot 2, and a write fault there. -/

theorem copyEntry_absent {f t i : ℕ} {m : Mm} (h : ¬ present (m.mem f i)) :
    copyEntry f t i m = m := if_pos h

/-- A table whose first entry only is present. -/
theorem copy_one_entry {f t n : ℕ} {m : Mm} (hne : f ≠ t)
    (h : ∀ i, 0 < i → ¬ present (m.mem f i)) :
    forUpto (n + 1) (fun i m => .ok () (copyEntry f t i m)) m = .ok () (copyEntry f t 0 m) := by
  have hrest : ∀ i, 0 < i → ¬ present ((copyEntry f t 0 m).mem f i) := by
    intro i hi
    have hkeep : (copyEntry f t 0 m).mem f i = m.mem f i := by
      unfold copyEntry
      dsimp only
      split_ifs
      · rw [Mm.setMap_mem, Mm.write_mem_self, if_neg hi.ne', Mm.write_mem_ne _ _ _ _ hne]
      · rw [Mm.write_mem_ne _ _ _ _ hne]
      · rfl
    rw [hkeep]
    exact h i hi
  induction n with
  | zero => rfl
  | succ n ih =>
    rw [forUpto, ih]
    exact congrArg (Res.ok ()) (copyEntry_absent (hrest (n + 1) n.succ_pos))

/-- The page 4095 in the table 4094. -/
def filled : Mm :=
  (((((memInit 4090 4096 setupPaging).setMap 3839 1).fill 4095 fun _ => 0).setMap 3838 1).fill 4094
    fun _ => 0).write 0 16 (entryOf 4094) |>.write 4094 0 (entryOf 4095)

def stored : Mm := (filled.write 4094 0 (setDirty (entryOf 4095))).write 4095 0 5

/-- The table of the copy is 4093. -/
def forked : Mm :=
  copyEntry 4094 4093 0 (((stored.setMap 3837 1).fill 4093 fun _ => 0).write 0 32 (entryOf 4093))

theorem stored_table {i : ℕ} (hi : 0 < i) : stored.mem 4094 i = 0 := by
  have hne : ¬ i = 0 := hi.ne'
  unfold stored filled
  rw [Mm.write_mem_ne _ _ _ _ (by decide), Mm.write_mem_self, if_neg hne, Mm.write_mem_self,
    if_neg hne, Mm.write_mem_ne _ _ _ _ (by decide), Mm.fill_mem_self]

theorem copyMem_stored : Memory.copyMem (slotBase 1) (slotBase 2) 4096 stored = .ok () forked := by
  have hget : getFreePage stored = some (4093, (stored.setMap 3837 1).fill 4093 fun _ => 0) := rfl
  have htable : frame (stored.mem 0 16) = 4094 := rfl
  have hcopy : copyDir 16 32 1024 stored = .ok () forked := by
    unfold copyDir
    rw [if_neg (by decide), if_neg (by decide), hget]
    dsimp only
    rw [htable]
    refine copy_one_entry (by decide) fun i hi => ?_
    rw [Mm.write_mem_ne _ _ _ _ (by decide), Mm.fill_mem_ne _ _ _ (by decide), Mm.setMap_mem,
      stored_table hi]
    exact present_zero
  have htables : copyPageTables (slotBase 1) (slotBase 2) 4096 stored = .ok () forked := by
    have hdirs : dirs 4096 = 1 := by decide
    unfold copyPageTables
    rw [if_neg (by decide), hdirs]
    dsimp only
    rw [if_neg (by decide)]
    simp only [forUpto, Res.bind]
    exact hcopy
  unfold Memory.copyMem
  rw [htables]

theorem forked_reachable : Reachable ⟨∅, memInit 4090 4096 setupPaging⟩ ⟨∅, forked⟩ := by
  have hfilled : Reachable ⟨∅, memInit 4090 4096 setupPaging⟩ ⟨∅, filled⟩ :=
    .call (.getEmptyPage (slotBase 1)) .init ⟨mem_userDirs.mpr (by decide), by decide⟩ rfl
  have hstored : Reachable ⟨∅, memInit 4090 4096 setupPaging⟩ ⟨∅, stored⟩ :=
    .call (.userStore (slotBase 1) 5) hfilled
      ⟨mem_userDirs.mpr (by decide), by decide, by decide⟩ rfl
  have hallowed : (Call.copyMem 1 2 4096).Allowed ⟨∅, stored⟩ :=
    ⟨by decide, by decide, by decide, by decide, fun h => absurd h (by decide)⟩
  refine .call (.copyMem 1 2 4096) hstored hallowed ?_
  simp only [Call.run, copyMem_stored, Res.bind, outcome]

/-- A page that a fork has copied into the tables of the child. -/
theorem mem_map_exact_one_page : ∃ s, Reachable ⟨∅, memInit 4090 4096 setupPaging⟩ s ∧
    s.mm.memMap (mapNr 4095) = 2 ∧
    pageRefs s.mm 4095 + tableRefs s.mm 4095 + heldRefs s.held 4095 = 2 := by
  have h := mem_map_exact (by decide) (by decide) setupPaging_spec forked_reachable
  have hcount : forked.memMap (mapNr 4095) = 2 := by decide +kernel
  exact ⟨_, forked_reachable, hcount, (h.1 4095 (by decide) (by decide)).symm.trans hcount⟩

/-! ### Copy-on-write -/

/-- The word a task in user mode reads at an address. -/
def readWord (m : Mm) (address : ℕ) : Option ℕ :=
  if present (entryAt m address) then
    some (m.mem (frame (entryAt m address)) (address % 4096 / 4))
  else none

theorem copy_on_write {startMem endMem : ℕ} {mem : ℕ → ℕ → ℕ} {s : State}
    (hlow : LOW_MEM ≤ startMem) (hhigh : endMem ≤ LOW_MEM + PAGING_PAGES) (hp : PagingSetup mem)
    (hr : Reachable ⟨∅, memInit startMem endMem mem⟩ s) :
    (∀ d ∈ userDirs, ∀ i < 1024, present (pte s.mm d i) → writable (pte s.mm d i) →
      LOW_MEM ≤ frame (pte s.mm d i) →
      s.mm.memMap (mapNr (frame (pte s.mm d i))) = 1 ∧
      ∀ d' ∈ userDirs, ∀ i' < 1024, mapsTo (pte s.mm d' i') (frame (pte s.mm d i)) →
        d' = d ∧ i' = i) ∧
    (∀ address v, (Call.userStore address v).Allowed s → ∀ address',
      dirIndex address' ∈ userDirs → address' / slotBase 1 ≠ address / slotBase 1 →
      address < 4294967296 → address' < 4294967296 →
      readWord (store address v s.mm) address' = readWord s.mm address') := by
  have h := hr.good (memInit_good hlow hhigh hp)
  refine ⟨?_, ?_⟩
  · intro d hd i hi hpe hw hl
    have hx : (d, i) ∈ userEntries := mem_userEntries.mpr ⟨hd, hi⟩
    refine ⟨h.inv.alone (d, i) hx hpe hw hl, ?_⟩
    intro d' hd' i' hi' hm
    have hone := (h.inv.alone_refs hx hpe hw hl).1
    have := tally_unique (q := fun y : ℕ × ℕ => mapsTo (pte s.mm y.1 y.2) (frame (pte s.mm d i)))
      hone.le (mem_userEntries.mpr ⟨hd', hi'⟩) hx hm ⟨hpe, rfl⟩
    exact ⟨congrArg Prod.fst this, congrArg Prod.snd this⟩
  · rintro address v ⟨hd, hpe, hw⟩ address' hd' hslot ha ha'
    have hl := h.main_of_writable hd hpe hw
    have hst := store_stored h.inv (v := v) hd hpe hl
    have hne : dirIndex address' ≠ dirIndex address := by
      unfold slotBase at hslot
      unfold dirIndex
      omega
    have hx : (dirIndex address, tableIndex address) ∈ userEntries :=
      mem_userEntries.mpr ⟨hd, tableIndex_lt address⟩
    have hentry : entryAt (store address v s.mm) address' = entryAt s.mm address' := by
      unfold entryAt
      rw [hst.pte _ hd' _ (tableIndex_lt address'), setAt, if_neg (fun hc => hne hc.1)]
    unfold readWord
    rw [hentry]
    by_cases hpe' : present (entryAt s.mm address')
    · rw [if_pos hpe', if_pos hpe']
      have hpos := pageRefs_pos hd' (tableIndex_lt address')
        (⟨hpe', rfl⟩ : mapsTo (entryAt s.mm address') _)
      have hdiff : frame (entryAt s.mm address') ≠ frame (entryAt s.mm address) := by
        intro hc
        have hone := (h.inv.alone_refs hx hpe hw hl).1
        have := tally_unique
          (q := fun y : ℕ × ℕ => mapsTo (pte s.mm y.1 y.2) (frame (entryAt s.mm address)))
          hone.le (mem_userEntries.mpr ⟨hd', tableIndex_lt address'⟩) hx ⟨hpe', hc⟩ ⟨hpe, rfl⟩
        exact hne (congrArg Prod.fst this)
      rw [hst.keep _ hdiff (.inr (.inl hpos))]
    · rw [if_neg hpe', if_neg hpe']

/-- The child gets a page of its own before it stores, and the parent does not see the store. -/
theorem copy_on_write_one_page : ∃ s, Reachable ⟨∅, memInit 4090 4096 setupPaging⟩ s ∧
    frame (pte s.mm 16 0) = 4095 ∧ frame (pte s.mm 32 0) = 4092 ∧
    s.mm.memMap (mapNr (frame (pte s.mm 32 0))) = 1 ∧
    readWord (store (slotBase 2) 9 s.mm) (slotBase 1) = some 5 := by
  have hr : Reachable ⟨∅, memInit 4090 4096 setupPaging⟩ _ :=
    .call (.doWpPage (slotBase 2)) forked_reachable ⟨mem_userDirs.mpr (by decide), by decide⟩ rfl
  have h := copy_on_write (by decide) (by decide) setupPaging_spec hr
  have hd : 32 ∈ userDirs := mem_userDirs.mpr (by decide)
  refine ⟨_, hr, rfl, rfl, (h.1 32 hd 0 (by decide) (by decide) (by decide) (by decide)).1, ?_⟩
  rw [h.2 (slotBase 2) 9 ⟨hd, by decide, by decide⟩ (slotBase 1) (mem_userDirs.mpr (by decide))
    (by decide) (by decide) (by decide)]
  rfl

end Linux011.Memory
