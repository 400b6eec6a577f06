import Linux011.PageSteps

set_option autoImplicit false

/-! # Mapping, copying and sharing one page keeps the counts -/
namespace Linux011.Memory
open FiniteCount

/-- How a call ended: with a result, for want of memory, or in one of the panics that are the
    caller's fault; never in a panic of `free_page`. -/
def Res.Sat {α : Type} (P : α → Mm → Prop) (Q : Stop → Mm → Prop) : Res α → Prop
  | .ok a m => P a m
  | .stop .outOfMemory m => Q .outOfMemory m
  | .stop .oom m => Q .oom m
  | .stop .nonexistentPage _ | .stop .freeFreePage _ => False
  | .stop _ _ => True

theorem Res.Sat.bind {α β : Type} {P : α → Mm → Prop} {P' : β → Mm → Prop}
    {Q : Stop → Mm → Prop} {r : Res α} {f : α → Mm → Res β} (h : r.Sat P Q)
    (hf : ∀ a m, P a m → (f a m).Sat P' Q) : (r.bind f).Sat P' Q := by
  cases r with
  | ok a m => exact hf a m h
  | stop w m => cases w <;> exact h

theorem Res.Sat.mono {α : Type} {P A : α → Mm → Prop} {Q B : Stop → Mm → Prop} {r : Res α}
    (h : r.Sat P Q) (hP : ∀ a m, P a m → A a m) (hQ : ∀ w m, Q w m → B w m) :
    r.Sat A B := by
  cases r with
  | ok a m => exact hP a m h
  | stop w m => cases w <;> first | exact hQ _ m h | exact h

/-- The loop rule: what holds after `n` turns. -/
theorem sat_forUpto {P : ℕ → Mm → Prop} {Q : Stop → Mm → Prop} {body : ℕ → Mm → Res Unit} {m : Mm}
    (n : ℕ) (h₀ : P 0 m)
    (hb : ∀ i < n, ∀ m, P i m → (body i m).Sat (fun _ m => P (i + 1) m) Q) :
    (forUpto n body m).Sat (fun _ m => P n m) Q := by
  induction n with
  | zero => exact h₀
  | succ n ih =>
    exact (ih fun i hi => hb i (by omega)).bind fun _ m hm => hb n (Nat.lt_succ_self n) m hm

/-- The loop rule for a body that always comes back. -/
theorem forUpto_ok {P : ℕ → Mm → Prop} {body : ℕ → Mm → Res Unit} {m : Mm} (n : ℕ) (h₀ : P 0 m)
    (hb : ∀ i < n, ∀ m, P i m → ∃ m', body i m = .ok () m' ∧ P (i + 1) m') :
    ∃ m', forUpto n body m = .ok () m' ∧ P n m' := by
  induction n with
  | zero => exact ⟨m, rfl, h₀⟩
  | succ n ih =>
    obtain ⟨m₁, h₁, hP⟩ := ih fun i hi => hb i (by omega)
    obtain ⟨m₂, h₂, hP'⟩ := hb n (Nat.lt_succ_self n) m₁ hP
    refine ⟨m₂, ?_, hP'⟩
    simp only [forUpto, h₁, Res.bind, h₂]

def setAt (f : ℕ → ℕ → ℕ) (d i v : ℕ) : ℕ → ℕ → ℕ :=
  fun d' i' => if d' = d ∧ i' = i then v else f d' i'

@[simp] theorem setAt_self (f : ℕ → ℕ → ℕ) (d i v : ℕ) : setAt f d i v d i = v := by
  simp [setAt]

/-- A call keeps the invariant, leaves the given entries, and writes to no page in use. -/
structure Leads (lo : ℕ) (held held' : Finset ℕ) (m m' : Mm) (new : ℕ → ℕ → ℕ) : Prop where
  inv : Inv lo held' m'
  pte : ∀ d ∈ userDirs, ∀ i < 1024, pte m' d i = new d i
  keep : ∀ p ≥ 256, 0 < pageRefs m p ∨ p ∈ held → m'.mem p = m.mem p
  high : m'.highMemory = m.highMemory

section
variable {lo : ℕ} {held : Finset ℕ} {m : Mm}

theorem Inv.refl (h : Inv lo held m) : Leads lo held held m m (pte m) :=
  ⟨h, fun _ _ _ _ => rfl, fun _ _ _ => rfl, rfl⟩

theorem pageRefs_congr {m m' : Mm} (h : ∀ d ∈ userDirs, ∀ i < 1024, pte m' d i = pte m d i)
    (p : ℕ) : pageRefs m' p = pageRefs m p :=
  tally_congr fun x hx => by
    obtain ⟨hd, hi⟩ := mem_userEntries.mp (show (x.1, x.2) ∈ userEntries from hx)
    rw [h x.1 hd x.2 hi]

theorem Inv.write_keep (h : Inv lo held m) {d : ℕ} (hd : d ∈ userDirs)
    (hp : present (m.mem 0 d)) (i v p : ℕ) (hu : 0 < pageRefs m p ∨ p ∈ held) :
    (m.write (frame (m.mem 0 d)) i v).mem p = m.mem p := by
  apply Mm.write_mem_ne
  rintro rfl
  obtain ⟨_, h0, hn⟩ := h.table_only hd hp
  rcases hu with hu | hu
  · omega
  · exact hn hu

/-- No page in use is touched by an allocation. -/
theorem Allocated.leads {m' : Mm} {p : ℕ} (ha : Allocated lo held m m' p) :
    Leads lo held (insert p held) m m' (pte m) := by
  refine ⟨ha.inv, fun d hd i _ => ha.same.pte d hd i, ?_, ha.same.high⟩
  intro q _ hu
  apply ha.other
  rintro rfl
  obtain ⟨h0, _, hnh⟩ := ha.unmapped
  rcases hu with hu | hu
  · omega
  · exact hnh hu

theorem Inv.free (h : Inv lo held m) {p : ℕ} (hp : p ∈ held) : ∃ m', freePage p m = .ok () m' ∧
    Leads lo held (held.erase p) m m' (pte m) := by
  obtain ⟨m', hf, hinv, hmem, hhigh⟩ := h.release hp
  refine ⟨m', hf, hinv, ?_, fun q _ _ => by rw [hmem], hhigh⟩
  intro d _ i _
  simp only [pte, hmem]

/-- A cleared page of the kernel's is put into the directory. -/
theorem Inv.install (h : Inv lo held m) {d p : ℕ} (hd : d ∈ userDirs)
    (hn : ¬ present (m.mem 0 d)) (hp : p ∈ held) (h0 : m.mem p = fun _ => 0) :
    Leads lo held (held.erase p) m (m.write 0 d (entryOf p)) (pte m) ∧
      (m.write 0 d (entryOf p)).mem 0 d = entryOf p := by
  have hlow := h.low
  obtain ⟨hlo, hhi, h1⟩ := h.held_main p hp
  have hdir : ∀ d', (m.write 0 d (entryOf p)).mem 0 d' =
      if d' = d then entryOf p else m.mem 0 d' := fun d' => m.write_mem_self 0 d _ d'
  have hpte : ∀ d' ∈ userDirs, ∀ i < 1024, pte (m.write 0 d (entryOf p)) d' i = pte m d' i := by
    intro d' hd' i _
    unfold pte
    rw [hdir]
    by_cases he : d' = d
    · rw [if_pos he, if_pos (present_entryOf p), frame_entryOf, m.write_mem_ne 0 d _ (by omega),
        h0, he, if_neg hn]
    · rw [if_neg he]
      by_cases hp' : present (m.mem 0 d')
      · have := (h.table d' hd' hp').1
        rw [if_pos hp', if_pos hp', m.write_mem_ne 0 d _ (by omega)]
      · rw [if_neg hp', if_neg hp']
  refine ⟨⟨?_, hpte, fun q hq _ => m.write_mem_ne 0 d _ (by omega), rfl⟩, by rw [hdir, if_pos rfl]⟩
  apply h.setDir hd ⟨hdir, hpte, rfl, fun q _ hq => m.write_mem_ne 0 d _ hq⟩ (Finset.erase_subset _ _)
  · intro q _ _
    have hmn : ¬ mapsTo (m.mem 0 d) q := fun hc => hn hc.1
    rw [if_neg hmn, m.write_memMap]
    by_cases hq : q = p
    · subst hq
      rw [if_pos ⟨present_entryOf q, frame_entryOf q⟩, heldRefs_mem hp,
        heldRefs_eq_zero.mpr (Finset.notMem_erase _ _)]
    · have hr : heldRefs (held.erase p) q = heldRefs held q := by simp [heldRefs, hq]
      rw [if_neg (fun hc => hq ((frame_entryOf p).symm.trans hc.2).symm), hr]
  · exact fun _ _ _ => rfl
  · intro _
    rw [frame_entryOf]
    exact ⟨hp, Finset.notMem_erase _ _⟩

/-- An empty entry of an installed table comes to map a page of the kernel's. -/
theorem Inv.mapHeld (h : Inv lo held m) {d i p : ℕ} (hd : d ∈ userDirs) (hi : i < 1024)
    (hp : present (m.mem 0 d)) (hn : ¬ present (pte m d i)) (hh : p ∈ held) :
    Leads lo held (held.erase p) m (m.write (frame (m.mem 0 d)) i (entryOf p))
      (setAt (pte m) d i (entryOf p)) := by
  have hs := h.write_sets hd hp i (entryOf p)
  obtain ⟨hlo, hhi, h1⟩ := h.held_main p hh
  obtain ⟨hz, ht⟩ := h.held_only hh
  refine ⟨h.set hd hi hs ⟨?_, fun _ _ _ => rfl, Finset.erase_subset _ _, ?_, ?_, ?_, ?_, ?_, ?_⟩,
    fun d' hd' i' _ => hs.pte d' hd' i', fun q _ hq => h.write_keep hd hp i _ q hq, rfl⟩
  · intro q _ _
    rw [if_neg (fun hc => hn hc.1), m.write_memMap]
    by_cases hq : q = p
    · subst hq
      rw [if_pos ⟨present_entryOf q, frame_entryOf q⟩, heldRefs_mem hh,
        heldRefs_eq_zero.mpr (Finset.notMem_erase _ _)]
    · have hr : heldRefs (held.erase p) q = heldRefs held q := by simp [heldRefs, hq]
      rw [if_neg (fun hc => hq ((frame_entryOf p).symm.trans hc.2).symm), hr]
  · intro _ _
    rw [frame_entryOf]
    exact ⟨hlo, hhi⟩
  · intro _ _
    rw [frame_entryOf]
    exact ht
  · intro _ _
    rw [frame_entryOf]
    exact Finset.notMem_erase _ _
  · intro _ _ y hy _ hm
    rw [frame_entryOf] at hm
    obtain ⟨hyd, hyi⟩ := mem_userEntries.mp (show (y.1, y.2) ∈ userEntries from hy)
    have := pageRefs_pos hyd hyi hm
    omega
  · intro _ _ _
    rw [frame_entryOf]
    exact h1
  · intro y hy _ hyp hyw hyl
    exact h.alone y hy hyp hyw hyl

/-- The flags of an entry change; it may become writable on a page used once only. -/
theorem Inv.reflag (h : Inv lo held m) {d i v : ℕ} (hd : d ∈ userDirs) (hi : i < 1024)
    (hp : present (m.mem 0 d)) (hpe : present v ↔ present (pte m d i))
    (hfr : frame v = frame (pte m d i))
    (hw : present v → writable v → 256 ≤ frame v → m.memMap (frame v - 256) = 1) :
    Leads lo held held m (m.write (frame (m.mem 0 d)) i v) (setAt (pte m) d i v) := by
  have hs := h.write_sets hd hp i v
  have hx : (d, i) ∈ userEntries := mem_userEntries.mpr ⟨hd, hi⟩
  refine ⟨h.set hd hi hs ⟨?_, fun _ _ _ => rfl, Finset.Subset.refl _, ?_, ?_, ?_, ?_, hw, ?_⟩,
    fun d' hd' i' _ => hs.pte d' hd' i', fun q _ hq => h.write_keep hd hp i _ q hq, rfl⟩
  · intro q _ _
    have hiff : mapsTo v q ↔ mapsTo (pte m d i) q := by
      unfold mapsTo
      rw [hpe, hfr]
    simp only [hiff, m.write_memMap]
  · intro hv hl
    rw [hfr] at hl ⊢
    exact h.page d hd i hi (hpe.mp hv) hl
  · intro hv _
    rw [hfr]
    exact (h.mapped_only hd hi ⟨hpe.mp hv, rfl⟩).1
  · intro hv _
    rw [hfr]
    exact (h.mapped_only hd hi ⟨hpe.mp hv, rfl⟩).2
  · intro hv hl y hy _ hm
    rw [hfr] at hl hm
    exact h.slot _ hl y hy (d, i) hx hm ⟨hpe.mp hv, rfl⟩
  · intro y hy _ hyp hyw hyl
    exact h.alone y hy hyp hyw hyl

/-- The read/write bit of an entry is cleared. -/
theorem Inv.protect (h : Inv lo held m) {d i : ℕ} (hd : d ∈ userDirs) (hi : i < 1024)
    (hp : present (m.mem 0 d)) :
    Leads lo held held m (m.write (frame (m.mem 0 d)) i (clearWrite (pte m d i)))
      (setAt (pte m) d i (clearWrite (pte m d i))) :=
  h.reflag hd hi hp (present_clearWrite _) (frame_clearWrite _)
    fun _ hw => absurd hw (writable_clearWrite _)

/-- The read/write bit of an entry is set, on a page used once. -/
theorem Inv.reuse (h : Inv lo held m) {d i : ℕ} (hd : d ∈ userDirs) (hi : i < 1024)
    (hp : present (m.mem 0 d)) (h1 : m.memMap (frame (pte m d i) - 256) = 1) :
    Leads lo held held m (m.write (frame (m.mem 0 d)) i (setWrite (pte m d i)))
      (setAt (pte m) d i (setWrite (pte m d i))) :=
  h.reflag hd hi hp (present_setWrite _) (frame_setWrite _)
    fun _ _ _ => by rw [frame_setWrite, h1]

/-- A mapping is taken back together with its count. -/
theorem freeEntry_leads (h : Inv lo held m) {d i : ℕ} (hd : d ∈ userDirs) (hi : i < 1024)
    (hp : present (m.mem 0 d)) : ∃ m', freeEntry (frame (m.mem 0 d)) i m = .ok () m' ∧
      Leads lo held held m m' (setAt (pte m) d i 0) ∧
      ∀ p, p ≠ frame (m.mem 0 d) → m'.mem p = m.mem p := by
  have hlow := h.low
  have hcell : m.mem (frame (m.mem 0 d)) i = pte m d i := (if_pos hp).symm
  have hs := h.write_sets hd hp i 0
  have hx : (d, i) ∈ userEntries := mem_userEntries.mpr ⟨hd, hi⟩
  unfold freeEntry
  rw [hcell]
  by_cases hmain : present (pte m d i) ∧ 256 ≤ frame (pte m d i)
  · obtain ⟨hpe, hl⟩ := hmain
    obtain ⟨hlo, hhi⟩ := h.page d hd i hi hpe hl
    have hpos := pageRefs_pos hd hi (⟨hpe, rfl⟩ : mapsTo (pte m d i) _)
    have hcnt := h.count _ hlo hhi
    have hlt := h.count_lt hlo hhi
    rw [if_pos hpe, freePage_main hl hhi (by omega)]
    have hs' : SetsEntry m ((m.setMap (frame (pte m d i) - 256)
        (m.memMap (frame (pte m d i) - 256) - 1)).write (frame (m.mem 0 d)) i 0) d i 0 :=
      ⟨hs.dir, hs.pte, hs.high, hs.kernel⟩
    have hmap : ∀ j, ((m.setMap (frame (pte m d i) - 256)
        (m.memMap (frame (pte m d i) - 256) - 1)).write (frame (m.mem 0 d)) i 0).memMap j =
        if j = frame (pte m d i) - 256 then m.memMap (frame (pte m d i) - 256) - 1
          else m.memMap j := by
      intro j
      rw [Mm.write_memMap, Mm.setMap_memMap, Nat.mod_eq_of_lt (by omega)]
    refine ⟨_, rfl, ⟨h.set hd hi hs' ⟨?_, ?_, Finset.Subset.refl _, ?_, ?_, ?_, ?_, ?_, ?_⟩,
      fun d' hd' i' _ => hs'.pte d' hd' i', fun q _ hq => h.write_keep hd hp i 0 q hq, rfl⟩,
      fun q hq => Mm.write_mem_ne _ _ _ _ hq⟩
    · intro q hqlo _
      rw [hmap, if_neg (fun hc : mapsTo 0 q => present_zero hc.1)]
      by_cases hq : q = frame (pte m d i)
      · subst hq
        rw [if_pos rfl, if_pos ⟨hpe, rfl⟩]
        omega
      · rw [if_neg (by omega), if_neg (fun hc : mapsTo _ q => hq hc.2.symm)]
    · intro j hj hout
      rw [hmap, if_neg (by omega)]
    all_goals first
      | exact fun hc => absurd hc present_zero
      | skip
    intro y hy hne hyp hyw hyl
    rw [hmap]
    have hya := h.alone_refs hy hyp hyw hyl
    have hq : frame (pte m y.1 y.2) ≠ frame (pte m d i) := fun hc =>
      hne (tally_unique (q := fun z : ℕ × ℕ => mapsTo (pte m z.1 z.2) (frame (pte m y.1 y.2)))
        hya.1.le hy hx ⟨hyp, rfl⟩ ⟨hpe, hc.symm⟩)
    rw [if_neg (by omega)]
    exact h.alone y hy hyp hyw hyl
  · have hfree : (if present (pte m d i) then freePage (frame (pte m d i)) m else .ok () m) =
        .ok () m := by
      by_cases hpe : present (pte m d i)
      · have hsmall : frame (pte m d i) < 256 := by
          by_contra hc
          exact hmain ⟨hpe, by omega⟩
        rw [if_pos hpe, freePage_low hsmall]
      · rw [if_neg hpe]
    rw [hfree]
    refine ⟨_, rfl, ⟨h.set hd hi hs ⟨?_, fun _ _ _ => rfl, Finset.Subset.refl _, ?_, ?_, ?_, ?_,
      ?_, ?_⟩, fun d' hd' i' _ => hs.pte d' hd' i', fun q _ hq => h.write_keep hd hp i 0 q hq,
      rfl⟩, fun q hq => Mm.write_mem_ne _ _ _ _ hq⟩
    · intro q hqlo _
      rw [if_neg (fun hc => hmain ⟨hc.1, by rw [hc.2]; omega⟩),
        if_neg (fun hc => present_zero hc.1), m.write_memMap]
    all_goals first
      | exact fun hc => absurd hc present_zero
      | skip
    intro y hy _ hyp hyw hyl
    exact h.alone y hy hyp hyw hyl

/-- An entry at the same place of another slot comes to map a page too, write-protected and
    counted once more. -/
theorem Inv.share (h : Inv lo held m) {d i d' v : ℕ} (hd : d ∈ userDirs) (hi : i < 1024)
    (hp : present (m.mem 0 d)) (hn : ¬ present (pte m d i)) (hd' : d' ∈ userDirs)
    (hmod : d' % 16 = d % 16) (hpv : present v) (hv : mapsTo (pte m d' i) (frame v))
    (hl : 256 ≤ frame v) (hw : ¬ writable v) (hw' : ¬ writable (pte m d' i)) :
    Leads lo held held m ((m.write (frame (m.mem 0 d)) i v).setMap (frame v - 256)
      (m.memMap (frame v - 256) + 1)) (setAt (pte m) d i v) := by
  have hlow := h.low
  have hs := h.write_sets hd hp i v
  have hs' : SetsEntry m ((m.write (frame (m.mem 0 d)) i v).setMap (frame v - 256)
      (m.memMap (frame v - 256) + 1)) d i v := ⟨hs.dir, hs.pte, hs.high, hs.kernel⟩
  have hx' : (d', i) ∈ userEntries := mem_userEntries.mpr ⟨hd', hi⟩
  have hmain : lo ≤ frame v ∧ frame v < m.highMemory := by
    have := h.page d' hd' i hi hv.1 (by rw [hv.2]; exact hl)
    rwa [hv.2] at this
  have hlt := h.count_lt hmain.1 hmain.2
  have hmap : ∀ j, ((m.write (frame (m.mem 0 d)) i v).setMap (frame v - 256)
      (m.memMap (frame v - 256) + 1)).memMap j =
      if j = frame v - 256 then m.memMap (frame v - 256) + 1 else m.memMap j := by
    intro j
    rw [Mm.setMap_memMap, Mm.write_memMap, Nat.mod_eq_of_lt (by omega)]
  refine ⟨h.set hd hi hs' ⟨?_, ?_, Finset.Subset.refl _, ?_, ?_, ?_, ?_, ?_, ?_⟩,
    fun e he i' _ => hs'.pte e he i', fun q _ hq => h.write_keep hd hp i v q hq, rfl⟩
  · intro q hqlo _
    rw [hmap, if_neg (fun hc : mapsTo (pte m d i) q => hn hc.1)]
    by_cases hq : q = frame v
    · subst hq
      rw [if_pos rfl, if_pos ⟨hpv, rfl⟩]
    · rw [if_neg (by omega), if_neg (fun hc : mapsTo v q => hq hc.2.symm)]
  · intro j hj hout
    rw [hmap, if_neg (by omega)]
  · intro _ _
    exact hmain
  · intro _ _
    exact (h.mapped_only hd' hi hv).1
  · intro _ _
    exact (h.mapped_only hd' hi hv).2
  · intro _ _ y hy _ hm
    have := h.slot _ hl y hy (d', i) hx' hm hv
    exact ⟨this.1.trans hmod, this.2⟩
  · intro _ hw'' _
    exact absurd hw'' hw
  · intro y hy hne hyp hyw hyl
    rw [hmap]
    have hya := h.alone_refs hy hyp hyw hyl
    have hq : frame (pte m y.1 y.2) ≠ frame v := fun hc => by
      have he := tally_unique (q := fun z : ℕ × ℕ => mapsTo (pte m z.1 z.2)
        (frame (pte m y.1 y.2))) hya.1.le hy hx' ⟨hyp, rfl⟩ (by rw [hc]; exact hv)
      rw [he] at hyw
      exact hw' hyw
    rw [if_neg (by omega)]
    exact h.alone y hy hyp hyw hyl

/-- The second half of `un_wp_page`: the old page is counted once less, the new one, so far the
    kernel's, takes its place and its content. -/
def swapPage (table i old page : ℕ) (m : Mm) : Mm :=
  let m := if old ≥ 256 then m.setMap (old - 256) (m.memMap (old - 256) + 255) else m
  let m := m.write table i (entryOf page)
  m.fill page (m.mem old)

theorem Inv.replace (h : Inv lo held m) {d i page : ℕ} (hd : d ∈ userDirs) (hi : i < 1024)
    (hp : present (m.mem 0 d)) (hpe : present (pte m d i)) (hh : page ∈ held)
    (hn : ¬ (256 ≤ frame (pte m d i) ∧ m.memMap (frame (pte m d i) - 256) = 1)) :
    Inv lo (held.erase page) (swapPage (frame (m.mem 0 d)) i (frame (pte m d i)) page m) ∧
    (∀ d' ∈ userDirs, ∀ i', pte (swapPage (frame (m.mem 0 d)) i (frame (pte m d i)) page m) d' i' =
      setAt (pte m) d i (entryOf page) d' i') ∧
    (∀ p, p ≠ page → 0 < pageRefs m p ∨ p ∈ held →
      (swapPage (frame (m.mem 0 d)) i (frame (pte m d i)) page m).mem p = m.mem p) ∧
    (swapPage (frame (m.mem 0 d)) i (frame (pte m d i)) page m).mem page =
      m.mem (frame (pte m d i)) ∧
    (swapPage (frame (m.mem 0 d)) i (frame (pte m d i)) page m).highMemory = m.highMemory := by
  have hlow := h.low
  obtain ⟨hplo, hphi, hp1⟩ := h.held_main page hh
  obtain ⟨hp0, hpt⟩ := h.held_only hh
  have hx : (d, i) ∈ userEntries := mem_userEntries.mpr ⟨hd, hi⟩
  have htlo := (h.table d hd hp).1
  have hs := h.write_sets hd hp i (entryOf page)
  generalize hold : frame (pte m d i) = old at hn ⊢
  generalize htab : frame (m.mem 0 d) = table at hs htlo ⊢
  have hne : old ≠ table := by
    rintro rfl
    have := (h.table_only hd hp).2.1
    have := pageRefs_pos hd hi (⟨hpe, hold⟩ : mapsTo (pte m d i) old)
    rw [htab] at *
    omega
  have hmem : (swapPage table i old page m).mem =
      ((m.write table i (entryOf page)).fill page (m.mem old)).mem := by
    have hw : ((m.write table i (entryOf page)).mem old) = m.mem old := m.write_mem_ne _ _ _ hne
    unfold swapPage
    split_ifs
    · change Function.update (m.write table i (entryOf page)).mem page
        ((m.write table i (entryOf page)).mem old) = _
      rw [hw]
      rfl
    · change Function.update (m.write table i (entryOf page)).mem page
        ((m.write table i (entryOf page)).mem old) = _
      rw [hw]
      rfl
  have hhigh : (swapPage table i old page m).highMemory = m.highMemory := by
    unfold swapPage
    split_ifs <;> simp only [Mm.fill_high, Mm.write_high, Mm.setMap_high]
  have hcount : 256 ≤ old → lo ≤ old ∧ old < m.highMemory ∧ 2 ≤ m.memMap (old - 256) ∧
      m.memMap (old - 256) < 255 := by
    intro hl
    obtain ⟨hlo, hhi⟩ := h.page d hd i hi hpe (by rw [hold]; exact hl)
    rw [hold] at hlo hhi
    have := h.count old hlo hhi
    have := pageRefs_pos hd hi (⟨hpe, hold⟩ : mapsTo (pte m d i) old)
    have hne1 : m.memMap (old - 256) ≠ 1 := fun hc => hn ⟨hl, hc⟩
    have := h.count_lt hlo hhi
    clear hp1
    refine ⟨hlo, hhi, ?_, this⟩
    omega
  have hmap : ∀ j, (swapPage table i old page m).memMap j =
      if 256 ≤ old ∧ j = old - 256 then m.memMap (old - 256) - 1 else m.memMap j := by
    intro j
    unfold swapPage
    split_ifs with hl hj hj
    · rw [Mm.fill_memMap, Mm.write_memMap, Mm.setMap_memMap, if_pos hj.2]
      have := hcount hl
      omega
    · rw [Mm.fill_memMap, Mm.write_memMap, Mm.setMap_memMap, if_neg (fun hc => hj ⟨hl, hc⟩)]
    · exact absurd hj.1 hl
    · rw [Mm.fill_memMap, Mm.write_memMap]
  have hpage : page ≠ table := by
    rintro rfl
    have := tableRefs_pos hd hp
    rw [htab] at this
    omega
  have hsame : SameEntries (m.write table i (entryOf page))
      ((m.write table i (entryOf page)).fill page (m.mem old)) :=
    fill_same (by omega) (by rw [hs.tableRefs]; exact hpt) _
  have hs' : SetsEntry m (swapPage table i old page m) d i (entryOf page) := by
    refine ⟨fun e => ?_, fun e he j => ?_, hhigh, ?_⟩
    · rw [hmem, hsame.dir, hs.dir]
    · have : pte (swapPage table i old page m) e j =
          pte ((m.write table i (entryOf page)).fill page (m.mem old)) e j := by
        unfold pte
        rw [hmem]
      rw [this, hsame.pte e he j, hs.pte e he j]
    · intro q hq hq0
      rw [hmem, hsame.kernel q hq hq0, hs.kernel q hq hq0]
  refine ⟨h.set hd hi hs' ⟨?_, ?_, Finset.erase_subset _ _, ?_, ?_, ?_, ?_, ?_, ?_⟩,
    fun e he j => hs'.pte e he j, ?_, ?_, hhigh⟩
  · intro q hqlo _
    have hnew : mapsTo (entryOf page) q ↔ q = page := by
      unfold mapsTo
      rw [frame_entryOf]
      exact ⟨fun hc => hc.2.symm, fun hc => ⟨present_entryOf page, hc.symm⟩⟩
    have hcur : mapsTo (pte m d i) q ↔ q = old := by
      unfold mapsTo
      rw [hold]
      exact ⟨fun hc => hc.2.symm, fun hc => ⟨hpe, hc.symm⟩⟩
    rw [hmap]
    simp only [hnew, hcur]
    have hpo : page ≠ old := by
      rintro rfl
      have := pageRefs_pos hd hi (⟨hpe, hold⟩ : mapsTo (pte m d i) page)
      omega
    by_cases hq : q = page
    · subst hq
      rw [if_neg (by omega), if_neg hpo, if_pos rfl, heldRefs_mem hh,
        heldRefs_eq_zero.mpr (Finset.notMem_erase _ _)]
    · have hr : heldRefs (held.erase page) q = heldRefs held q := by simp [heldRefs, hq]
      rw [hr, if_neg hq]
      by_cases hqo : q = old
      · subst hqo
        have := hcount (by omega)
        rw [if_pos ⟨by omega, rfl⟩, if_pos rfl]
        omega
      · rw [if_neg (by omega), if_neg hqo]
  · intro j hj hout
    have hne' : ¬ (256 ≤ old ∧ j = old - 256) := fun hc => by
      have := (hcount hc.1).1
      have := (hcount hc.1).2.1
      clear hp1 hcount hmap
      omega
    rw [hmap, if_neg hne']
  · intro _ _
    rw [frame_entryOf]
    exact ⟨hplo, hphi⟩
  · intro _ _
    rw [frame_entryOf]
    exact hpt
  · intro _ _
    rw [frame_entryOf]
    exact Finset.notMem_erase _ _
  · intro _ _ y hy _ hm
    rw [frame_entryOf] at hm
    obtain ⟨hyd, hyi⟩ := mem_userEntries.mp (show (y.1, y.2) ∈ userEntries from hy)
    have := pageRefs_pos hyd hyi hm
    omega
  · intro _ _ _
    rw [frame_entryOf, hmap, if_neg, hp1]
    rintro ⟨hl, he⟩
    have := hcount hl
    have hpo : page = old := by omega
    rw [← hpo, hp1] at this
    omega
  · intro y hy hne hyp hyw hyl
    rw [hmap, if_neg, h.alone y hy hyp hyw hyl]
    rintro ⟨hl, he⟩
    have := h.alone y hy hyp hyw hyl
    rw [he] at this
    have := hcount hl
    omega
  · intro q hq hu
    rw [hmem]
    rw [Mm.fill_mem_ne _ _ _ hq]
    rw [← htab]
    exact h.write_keep hd hp i _ q hu
  · rw [hmem]
    exact Mm.fill_mem_self _ _ _

end

end Linux011.Memory
