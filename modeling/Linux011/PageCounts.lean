import Linux011.Memory
import Linux011.FiniteCount

set_option autoImplicit false

/-!
# What `mem_map` counts

The tables of the tasks in slots 1 to 63 are those of the directory entries 16 to
1023; the kernel's own pages are the set `held`. `Inv` ties both to `mem_map` and
to the read/write bits.
-/
namespace Linux011.Memory
open FiniteCount

/-- The entry the processor finds for a page of the linear address space. -/
def pte (m : Mm) (d i : ℕ) : ℕ :=
  if present (m.mem 0 d) then m.mem (frame (m.mem 0 d)) i else 0

def mapsTo (e p : ℕ) : Prop := present e ∧ frame e = p

instance (e p : ℕ) : Decidable (mapsTo e p) := inferInstanceAs (Decidable (_ ∧ _))

def userDirs : Finset ℕ := Finset.Ico 16 1024
def userEntries : Finset (ℕ × ℕ) := userDirs ×ˢ Finset.range 1024

theorem mem_userDirs {d : ℕ} : d ∈ userDirs ↔ 16 ≤ d ∧ d < 1024 := Finset.mem_Ico

theorem mem_userEntries {d i : ℕ} : (d, i) ∈ userEntries ↔ d ∈ userDirs ∧ i < 1024 := by
  simp [userEntries]

attribute [irreducible] userDirs userEntries

def tableRefs (m : Mm) (p : ℕ) : ℕ := tally userDirs fun d => mapsTo (m.mem 0 d) p
def pageRefs (m : Mm) (p : ℕ) : ℕ := tally userEntries fun x => mapsTo (pte m x.1 x.2) p

def heldRefs (held : Finset ℕ) (p : ℕ) : ℕ := if p ∈ held then 1 else 0

structure Inv (lo : ℕ) (held : Finset ℕ) (m : Mm) : Prop where
  low : 256 ≤ lo
  high : m.highMemory ≤ 4096
  count : ∀ p, lo ≤ p → p < m.highMemory →
    m.memMap (p - 256) = pageRefs m p + tableRefs m p + heldRefs held p
  used : ∀ i < 3840, i + 256 < lo ∨ m.highMemory ≤ i + 256 → m.memMap i ≠ 0
  held_main : ∀ p ∈ held, lo ≤ p ∧ p < m.highMemory ∧ m.memMap (p - 256) = 1
  table : ∀ d ∈ userDirs, present (m.mem 0 d) →
    lo ≤ frame (m.mem 0 d) ∧ frame (m.mem 0 d) < m.highMemory ∧
      m.memMap (frame (m.mem 0 d) - 256) = 1
  page : ∀ d ∈ userDirs, ∀ i < 1024, present (pte m d i) → 256 ≤ frame (pte m d i) →
    lo ≤ frame (pte m d i) ∧ frame (pte m d i) < m.highMemory
  slot : ∀ p ≥ 256, ∀ x ∈ userEntries, ∀ y ∈ userEntries, mapsTo (pte m x.1 x.2) p →
    mapsTo (pte m y.1 y.2) p → x.1 % 16 = y.1 % 16 ∧ x.2 = y.2
  alone : ∀ x ∈ userEntries, present (pte m x.1 x.2) → writable (pte m x.1 x.2) →
    256 ≤ frame (pte m x.1 x.2) → m.memMap (frame (pte m x.1 x.2) - 256) = 1
  kernelDir : ∀ d < 16, m.mem 0 d = if d < 4 then entryOf (d + 1) else 0
  kernelTable : ∀ d < 4, ∀ i < 1024, m.mem (d + 1) i = entryOf (d * 1024 + i)

theorem heldRefs_le (held : Finset ℕ) (p : ℕ) : heldRefs held p ≤ 1 := by
  unfold heldRefs
  split_ifs <;> omega

theorem heldRefs_mem {held : Finset ℕ} {p : ℕ} (h : p ∈ held) : heldRefs held p = 1 := by
  simp [heldRefs, h]

theorem heldRefs_eq_zero {held : Finset ℕ} {p : ℕ} : heldRefs held p = 0 ↔ p ∉ held := by
  simp [heldRefs]

theorem tableRefs_pos {m : Mm} {d : ℕ} (hd : d ∈ userDirs) (hp : present (m.mem 0 d)) :
    0 < tableRefs m (frame (m.mem 0 d)) :=
  tally_pos (q := fun d' => mapsTo (m.mem 0 d') (frame (m.mem 0 d))) hd ⟨hp, rfl⟩

theorem pageRefs_pos {m : Mm} {d i p : ℕ} (hd : d ∈ userDirs) (hi : i < 1024)
    (hp : mapsTo (pte m d i) p) : 0 < pageRefs m p :=
  tally_pos (q := fun x : ℕ × ℕ => mapsTo (pte m x.1 x.2) p)
    (mem_userEntries.mpr ⟨hd, hi⟩) hp

section Facts
variable {lo : ℕ} {held : Finset ℕ} {m : Mm} (h : Inv lo held m)
include h

/-- A page table is used as nothing else. -/
theorem Inv.table_only {d : ℕ} (hd : d ∈ userDirs) (hp : present (m.mem 0 d)) :
    tableRefs m (frame (m.mem 0 d)) = 1 ∧ pageRefs m (frame (m.mem 0 d)) = 0 ∧
      frame (m.mem 0 d) ∉ held := by
  obtain ⟨hlo, hhi, h1⟩ := h.table d hd hp
  have hc := h.count _ hlo hhi
  have hpos := tableRefs_pos hd hp
  rw [← heldRefs_eq_zero]
  omega

/-- A page the kernel holds is mapped nowhere. -/
theorem Inv.held_only {p : ℕ} (hp : p ∈ held) : pageRefs m p = 0 ∧ tableRefs m p = 0 := by
  obtain ⟨hlo, hhi, h1⟩ := h.held_main p hp
  have hc := h.count p hlo hhi
  rw [heldRefs_mem hp] at hc
  omega

/-- A page that an entry maps is no table and not the kernel's. -/
theorem Inv.mapped_only {d i p : ℕ} (hd : d ∈ userDirs) (hi : i < 1024)
    (hm : mapsTo (pte m d i) p) : tableRefs m p = 0 ∧ p ∉ held := by
  have hpos := pageRefs_pos hd hi hm
  constructor
  · by_contra hc
    have : ∃ d' ∈ userDirs, mapsTo (m.mem 0 d') p := by
      by_contra hno
      exact hc (tally_eq_zero.mpr fun d' hd' hm => hno ⟨d', hd', hm⟩)
    obtain ⟨d', hd', hp', rfl⟩ := this
    have := (h.table_only hd' hp').2.1
    omega
  · intro hh
    have := (h.held_only hh).1
    omega

theorem Inv.tableRefs_le (p : ℕ) : tableRefs m p ≤ 1 := by
  by_cases hz : tableRefs m p = 0
  · omega
  · have : ∃ d ∈ userDirs, mapsTo (m.mem 0 d) p := by
      by_contra hno
      exact hz (tally_eq_zero.mpr fun d hd hm => hno ⟨d, hd, hm⟩)
    obtain ⟨d, hd, hpd, rfl⟩ := this
    exact (h.table_only hd hpd).1.le

theorem Inv.table_inj {d d' : ℕ} (hd : d ∈ userDirs) (hd' : d' ∈ userDirs)
    (hp : present (m.mem 0 d)) (hp' : present (m.mem 0 d'))
    (he : frame (m.mem 0 d) = frame (m.mem 0 d')) : d = d' :=
  tally_unique (q := fun x => mapsTo (m.mem 0 x) (frame (m.mem 0 d')))
    (h.tableRefs_le _) hd hd' ⟨hp, he⟩ ⟨hp', rfl⟩

/-- Two entries that map one page lie at the same place of two different slots. -/
theorem Inv.pageRefs_le {p : ℕ} (hp : 256 ≤ p) : pageRefs m p ≤ 63 := by
  have hb := tally_le (s := userEntries) (q := fun x => mapsTo (pte m x.1 x.2) p)
    (Finset.Ico 1 64) (fun x => x.1 / 16) ?_ ?_
  · simpa [pageRefs] using hb
  · rintro ⟨d, i⟩ hx _
    have := mem_userDirs.mp (mem_userEntries.mp hx).1
    simp only [Finset.mem_Ico]
    omega
  · rintro ⟨d, i⟩ hx ⟨d', i'⟩ hy hqx hqy he
    have hs := h.slot p hp _ hx _ hy hqx hqy
    simp only at hs he
    ext <;> simp only <;> omega

theorem Inv.count_lt {p : ℕ} (hlo : lo ≤ p) (hhi : p < m.highMemory) :
    m.memMap (p - 256) < 255 := by
  have hlow := h.low
  have hc := h.count p hlo hhi
  have := h.pageRefs_le (p := p) (by omega)
  have := h.tableRefs_le p
  have := heldRefs_le held p
  omega

/-- A writable entry is the only use of its page. -/
theorem Inv.alone_refs {x : ℕ × ℕ} (hx : x ∈ userEntries) (hp : present (pte m x.1 x.2))
    (hw : writable (pte m x.1 x.2)) (hl : 256 ≤ frame (pte m x.1 x.2)) :
    pageRefs m (frame (pte m x.1 x.2)) = 1 ∧ tableRefs m (frame (pte m x.1 x.2)) = 0 ∧
      frame (pte m x.1 x.2) ∉ held := by
  obtain ⟨hd, hi⟩ := mem_userEntries.mp (show (x.1, x.2) ∈ userEntries from hx)
  obtain ⟨hlo, hhi⟩ := h.page _ hd _ hi hp hl
  have hc := h.count _ hlo hhi
  have h1 := h.alone x hx hp hw hl
  have hpos := pageRefs_pos hd hi (⟨hp, rfl⟩ : mapsTo (pte m x.1 x.2) _)
  rw [← heldRefs_eq_zero]
  omega

end Facts

/-- One entry of an installed table changes, and nothing else an address goes through. -/
structure SetsEntry (m m' : Mm) (d i v : ℕ) : Prop where
  dir : ∀ d', m'.mem 0 d' = m.mem 0 d'
  pte : ∀ d' ∈ userDirs, ∀ i', pte m' d' i' = if d' = d ∧ i' = i then v else pte m d' i'
  high : m'.highMemory = m.highMemory
  kernel : ∀ p < 256, p ≠ 0 → m'.mem p = m.mem p

theorem Inv.write_sets {lo : ℕ} {held : Finset ℕ} {m : Mm} (h : Inv lo held m) {d : ℕ}
    (hd : d ∈ userDirs) (hp : present (m.mem 0 d)) (i v : ℕ) :
    SetsEntry m (m.write (frame (m.mem 0 d)) i v) d i v := by
  have hlow := h.low
  have hf := (h.table d hd hp).1
  have h0 : frame (m.mem 0 d) ≠ 0 := by omega
  have hdir : ∀ d', (m.write (frame (m.mem 0 d)) i v).mem 0 d' = m.mem 0 d' := by
    intro d'
    simp only [Mm.write, Function.update_of_ne h0.symm]
  refine ⟨hdir, ?_, rfl, ?_⟩
  · intro d' hd' i'
    simp only [Memory.pte, hdir]
    by_cases hp' : present (m.mem 0 d')
    · simp only [hp', if_true]
      by_cases he : d' = d
      · subst he
        by_cases hi : i' = i
        · simp [hi, Mm.write]
        · simp [hi, Mm.write]
      · have hne : frame (m.mem 0 d') ≠ frame (m.mem 0 d) := fun hc =>
          he (h.table_inj hd' hd hp' hp hc)
        simp only [he, false_and, if_false, Mm.write, Function.update_of_ne hne]
    · have he : d' ≠ d := fun hc => hp' (hc ▸ hp)
      simp [hp', he]
  · intro p hp _
    exact m.write_mem_ne _ _ _ (by omega)

theorem SetsEntry.pageRefs {m m' : Mm} {d i v : ℕ} (hs : SetsEntry m m' d i v)
    (hd : d ∈ userDirs) (hi : i < 1024) (p : ℕ) :
    pageRefs m' p + (if mapsTo (Memory.pte m d i) p then 1 else 0) =
      pageRefs m p + (if mapsTo v p then 1 else 0) := by
  have hx : (d, i) ∈ userEntries := mem_userEntries.mpr ⟨hd, hi⟩
  have hr := tally_replace hx (q := fun x => mapsTo (Memory.pte m x.1 x.2) p)
    (r := fun x => mapsTo (Memory.pte m' x.1 x.2) p) ?_
  · simpa [Memory.pageRefs, hs.pte d hd i] using hr
  · rintro ⟨d', i'⟩ hy hne
    have hne : ¬ (d' = d ∧ i' = i) := fun hc => hne (by rw [hc.1, hc.2])
    rw [hs.pte d' (mem_userEntries.mp hy).1 i', if_neg hne]

theorem SetsEntry.tableRefs {m m' : Mm} {d i v : ℕ} (hs : SetsEntry m m' d i v) (p : ℕ) :
    tableRefs m' p = tableRefs m p :=
  tally_congr fun d' _ => by rw [hs.dir d']

/-- What has to be checked of a new entry: its page, the other entries of that page, and the
    count, which moves with the entry and with what the kernel lets go of. -/
structure Fits (lo : ℕ) (held held' : Finset ℕ) (m m' : Mm) (d i v : ℕ) : Prop where
  count : ∀ p, lo ≤ p → p < m.highMemory →
    m'.memMap (p - 256) + (if mapsTo (pte m d i) p then 1 else 0) + heldRefs held p =
      m.memMap (p - 256) + (if mapsTo v p then 1 else 0) + heldRefs held' p
  used : ∀ i < 3840, i + 256 < lo ∨ m.highMemory ≤ i + 256 → m'.memMap i = m.memMap i
  held : held' ⊆ held
  page : present v → 256 ≤ frame v → lo ≤ frame v ∧ frame v < m.highMemory
  noTable : present v → 256 ≤ frame v → Memory.tableRefs m (frame v) = 0
  notHeld : present v → 256 ≤ frame v → frame v ∉ held'
  slot : present v → 256 ≤ frame v → ∀ y ∈ userEntries, y ≠ (d, i) →
    mapsTo (pte m y.1 y.2) (frame v) → y.1 % 16 = d % 16 ∧ y.2 = i
  alone : present v → writable v → 256 ≤ frame v → m'.memMap (frame v - 256) = 1
  others : ∀ y ∈ userEntries, y ≠ (d, i) → present (pte m y.1 y.2) → writable (pte m y.1 y.2) →
    256 ≤ frame (pte m y.1 y.2) → m'.memMap (frame (pte m y.1 y.2) - 256) = 1

theorem Inv.set {lo : ℕ} {held held' : Finset ℕ} {m m' : Mm} {d i v : ℕ} (h : Inv lo held m)
    (hd : d ∈ userDirs) (hi : i < 1024) (hs : SetsEntry m m' d i v)
    (hf : Fits lo held held' m m' d i v) : Inv lo held' m' := by
  have hlow := h.low
  have hpte : ∀ y ∈ userEntries, y ≠ (d, i) → pte m' y.1 y.2 = pte m y.1 y.2 := by
    rintro ⟨d', i'⟩ hy hne
    rw [hs.pte d' (mem_userEntries.mp hy).1 i', if_neg (fun hc => hne (by rw [hc.1, hc.2]))]
  have hself : pte m' d i = v := by simp [hs.pte d hd i]
  refine ⟨hlow, hs.high ▸ h.high, ?_, ?_, ?_, ?_, ?_, ?_, ?_, 
    fun d hd => (hs.dir d).trans (h.kernelDir d hd), ?_⟩
  · intro p hlo hhi
    rw [hs.high] at hhi
    have h1 := h.count p hlo hhi
    have h2 := hf.count p hlo hhi
    have h3 := hs.pageRefs hd hi p
    rw [hs.tableRefs]
    omega
  · intro j hj hout
    rw [hs.high] at hout
    rw [hf.used j hj hout]
    exact h.used j hj hout
  · intro p hp
    rw [hs.high]
    obtain ⟨hlo, hhi, h1⟩ := h.held_main p (hf.held hp)
    have hold : ¬ mapsTo (pte m d i) p := fun hc => by
      have := pageRefs_pos hd hi hc
      have := (h.held_only (hf.held hp)).1
      omega
    have hnew : ¬ mapsTo v p := fun hc =>
      hf.notHeld hc.1 (by rw [hc.2]; omega) (by rw [hc.2]; exact hp)
    have hc := hf.count p hlo hhi
    rw [if_neg hold, if_neg hnew, heldRefs_mem hp, heldRefs_mem (hf.held hp)] at hc
    exact ⟨hlo, hhi, by omega⟩
  · intro d' hd' hp'
    rw [hs.dir] at hp' ⊢
    rw [hs.high]
    obtain ⟨hlo, hhi, h1⟩ := h.table d' hd' hp'
    obtain ⟨ht, hpg, hh⟩ := h.table_only hd' hp'
    have hold : ¬ mapsTo (pte m d i) (frame (m.mem 0 d')) := fun hc => by
      have := pageRefs_pos hd hi hc
      omega
    have hnew : ¬ mapsTo v (frame (m.mem 0 d')) := fun hc => by
      have hz := hf.noTable hc.1 (by rw [hc.2]; omega)
      rw [hc.2] at hz
      omega
    have hh' : frame (m.mem 0 d') ∉ held' := fun hc => hh (hf.held hc)
    have hc := hf.count _ hlo hhi
    rw [if_neg hold, if_neg hnew, heldRefs_eq_zero.mpr hh, heldRefs_eq_zero.mpr hh'] at hc
    exact ⟨hlo, hhi, by omega⟩
  · intro d' hd' i' hi' hp hl
    rw [hs.high]
    by_cases he : (d', i') = (d, i)
    · cases he
      rw [hself] at hp hl ⊢
      exact hf.page hp hl
    · have := hpte (d', i') (mem_userEntries.mpr ⟨hd', hi'⟩) he
      simp only at this
      rw [this] at hp hl ⊢
      exact h.page d' hd' i' hi' hp hl
  · intro p hp x hx y hy hpx hpy
    by_cases hex : x = (d, i) <;> by_cases hey : y = (d, i)
    · rw [hex, hey]
      exact ⟨rfl, rfl⟩
    · subst hex
      rw [hself] at hpx
      rw [hpte y hy hey] at hpy
      have hv := hf.slot hpx.1 (by rw [hpx.2]; exact hp) y hy hey (by rw [hpx.2]; exact hpy)
      exact ⟨hv.1.symm, hv.2.symm⟩
    · subst hey
      rw [hself] at hpy
      rw [hpte x hx hex] at hpx
      exact hf.slot hpy.1 (by rw [hpy.2]; exact hp) x hx hex (by rw [hpy.2]; exact hpx)
    · rw [hpte x hx hex] at hpx
      rw [hpte y hy hey] at hpy
      exact h.slot p hp x hx y hy hpx hpy
  · intro x hx hp hw hl
    by_cases he : x = (d, i)
    · subst he
      rw [hself] at hp hw hl ⊢
      exact hf.alone hp hw hl
    · rw [hpte x hx he] at hp hw hl ⊢
      exact hf.others x hx he hp hw hl
  · intro e he j hj
    rw [hs.kernel _ (by omega) (by omega)]
    exact h.kernelTable e he j hj

end Linux011.Memory
