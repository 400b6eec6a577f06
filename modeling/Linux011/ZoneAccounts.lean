import Linux011.FsRelease

set_option autoImplicit false

/-!
# The zones of a device

Each zone that is marked belongs to one place of one inode or is kept for something else: the accounts
of a device. `create_block` and `truncate` on any of its files keep them.
-/
namespace Linux011.Minix
open Outcomes Allotments

variable {s s' : Fs} {dev : ℕ} {k : Fin NR_SUPER} {i j : Slot} {I : Finset Slot} {R : Set ℕ}

def Fs.zones (s : Fs) (k : Fin NR_SUPER) : Set ℕ :=
  {n | (s.supers k).firstdatazone ≤ n ∧ n < (s.supers k).nzones}

/-- What each place of the inodes `I` has, and the zones that are free. -/
def Fs.allotment (s : Fs) (k : Fin NR_SUPER) (I : Finset Slot) : Allotment (Slot × Place) where
  owner x := if x.1 ∈ I then s.at x.1 x.2 else 0
  free := {n | n ∈ s.freeZones k}

/-- The zones of a device, with the files `I` of the inode table. The zones `R` belong to none of
    them, and nobody holds a buffer of a zone. -/
structure Accounted (s : Fs) (dev : ℕ) (k : Fin NR_SUPER) (I : Finset Slot) (R : Set ℕ) : Prop where
  volume : Volume s dev k
  quiet : Quiet s
  idle : ∀ n ∈ s.zones k, s.bcount (dev, n) = 0
  files : ∀ i ∈ I, (s.inodes i).dev = dev ∧ (isReg (s.inodes i).mode ∨ isDir (s.inodes i).mode)
  exact : Exact (s.zones k) R (s.allotment k I)

theorem allotment_owner (hi : i ∈ I) (p : Place) : (s.allotment k I).owner (i, p) = s.at i p :=
  if_pos hi

theorem Accounted.at_zone (h : Accounted s dev k I R) (hi : i ∈ I) {p : Place} (hp : s.at i p ≠ 0) :
    s.at i p ∈ s.zones k ∧ s.at i p ∉ s.freeZones k := by
  have hown := allotment_owner (s := s) (k := k) hi p
  have hne : (s.allotment k I).owner (i, p) ≠ 0 := by
    rw [hown]
    exact hp
  rw [← hown]
  exact ⟨h.exact.inside _ hne, h.exact.not_free hne⟩

theorem Accounted.same_place (h : Accounted s dev k I R) (hi : i ∈ I) (hj : j ∈ I) {p q : Place}
    (hp : s.at i p ≠ 0) (hpq : s.at i p = s.at j q) : i = j ∧ p = q := by
  have hx := h.exact.once (i, p) (j, q) (by rw [allotment_owner hi]; exact hp)
    (by rw [allotment_owner hi, allotment_owner hj]; exact hpq)
  exact Prod.mk.inj hx

theorem Accounted.grounded (h : Accounted s dev k I R) (hi : i ∈ I) : Grounded s i := by
  obtain ⟨hdev, -⟩ := h.files i hi
  refine { toZoned := hdev ▸ h.volume.toZoned, marks := fun p hp => ?_, distinct := fun p q hp hpq => ?_ }
  · obtain ⟨⟨hle, hlt⟩, hnot⟩ := h.at_zone hi hp
    obtain ⟨b, hb⟩ := h.volume.covered _ hle hlt
    refine ⟨k, b, hdev ▸ h.volume.super, hle, hb, ?_⟩
    by_contra hc
    refine hnot (mem_freeZones.2 ⟨hle, hlt, ?_⟩)
    rw [zoneBit_some hb]
    simpa using hc
  · exact (h.same_place hi hi hp hpq).2

theorem Accounted.not_map (h : Accounted s dev k I R) {n : ℕ} (hn : n ∈ s.zones k) :
    ¬ s.ZoneMap dev (dev, n) := by
  rintro ⟨k', m, hk', hb⟩
  obtain rfl : k = k' := Option.some.inj (h.volume.super.symm.trans hk')
  exact absurd (h.volume.maps k m _ hk' hb rfl) (Nat.not_lt.mpr hn.1)

theorem free_zone : (s.allotment k I).free ⊆ s.zones k :=
  fun _ hn => ⟨(mem_freeZones.1 hn).1, (mem_freeZones.1 hn).2.1⟩

/-! ### `create_block` -/

/-- Another file has what it had, and so do its blocks. -/
theorem Growth.other (hg : Growth s s' i k) (h : Accounted s dev k I R) (hi : i ∈ I) (hj : j ∈ I)
    (hij : j ≠ i) : s'.inodes j = s.inodes j ∧ (∀ q, s'.at j q = s.at j q) ∧
      ∀ q, s.at j q ≠ 0 → s'.data (dev, s.at j q) = s.data (dev, s.at j q) := by
  obtain ⟨hdevi, -⟩ := h.files i hi
  obtain ⟨hdevj, -⟩ := h.files j hj
  have hinode : s'.inodes j = s.inodes j := by
    obtain ⟨data, zone, dirt, rfl⟩ := hg.same
    exact Function.update_of_ne hij _ _
  have hdata : ∀ q, s.at j q ≠ 0 → s'.data (dev, s.at j q) = s.data (dev, s.at j q) := fun q hq => by
    obtain ⟨hzone, hnot⟩ := h.at_zone hj hq
    refine hg.foreign _ (fun _ => ⟨hnot, fun p hp hpq => hij ?_⟩) (hdevi ▸ h.not_map hzone)
    exact (h.same_place hi hj hp hpq).1.symm
  refine ⟨hinode, fun q => ?_, hdata⟩
  unfold Fs.at
  rw [hinode, hdevj]
  refine blockAt_congr rfl (fun p hp => ?_) q
  have hat : s.at j p = (s.inodes j).blockAt (s.blocks dev) p := by
    unfold Fs.at
    rw [hdevj]
  rw [← hat] at hp ⊢
  exact hdata p hp

theorem Growth.granted (hg : Growth s s' i k) (h : Accounted s dev k I R) (hi : i ∈ I) :
    Granted (s.allotment k I) (s'.allotment k I) := by
  have hsame : ∀ j q, j ≠ i →
      (s'.allotment k I).owner (j, q) = (s.allotment k I).owner (j, q) := fun j q hj => by
    by_cases hjI : j ∈ I
    · rw [allotment_owner hjI, allotment_owner hjI, (hg.other h hi hjI hj).2.1]
    · exact (if_neg hjI).trans (if_neg hjI).symm
  have hown : ∀ q, (s.allotment k I).owner (i, q) = s.at i q := allotment_owner hi
  have hown' : ∀ q, (s'.allotment k I).owner (i, q) = s'.at i q := allotment_owner hi
  refine ⟨fun ⟨j, q⟩ hp => ?_, fun ⟨j, q⟩ h0 hp => ?_, fun ⟨j, q⟩ ⟨j', q'⟩ h0 hp hpq => ?_,
    fun n => ?_⟩
  · by_cases hj : j = i
    · subst hj
      rw [hown] at hp
      rw [hown, hown', hg.keep q hp]
    · exact hsame j q hj
  · by_cases hj : j = i
    · subst hj
      rw [hown] at h0
      rw [hown'] at hp ⊢
      exact hg.fresh q h0 hp
    · rw [hsame j q hj] at hp
      exact absurd h0 hp
  · by_cases hj : j = i
    · subst hj
      rw [hown] at h0
      rw [hown'] at hp hpq
      by_cases hj' : j' = j
      · subst hj'
        rw [hown'] at hpq
        rw [hg.grounded.distinct q q' hp hpq]
      · rw [hsame j' q' hj'] at hpq
        have hfree : s'.at j q ∈ s.freeZones k := hg.fresh q h0 hp
        rw [hpq] at hp hfree
        exact absurd hfree (h.exact.not_free hp)
    · rw [hsame j q hj] at hp
      exact absurd h0 hp
  · change n ∈ s'.freeZones k ↔ n ∈ s.freeZones k ∧ _
    rw [hg.free]
    refine and_congr_right fun hn => ⟨fun hall => ?_, fun hall p h0 => ?_⟩
    · rintro ⟨j, q⟩ h0
      by_cases hj : j = i
      · subst hj
        rw [hown] at h0
        rw [hown']
        exact hall q h0
      · rw [hsame j q hj, h0]
        exact (hg.pos n hn).symm
    · rw [← hown']
      exact hall (i, p) (by rw [hown]; exact h0)

theorem Growth.accounted (hg : Growth s s' i k) (h : Accounted s dev k I R) (hi : i ∈ I) :
    Accounted s' dev k I R := by
  obtain ⟨hdevi, -⟩ := h.files i hi
  have hquiet : Quiet s' := by
    obtain ⟨data, zone, dirt, rfl⟩ := hg.same
    exact ⟨h.quiet.reads, h.quiet.bcount⟩
  have hzones : s'.zones k = s.zones k := by
    obtain ⟨data, zone, dirt, rfl⟩ := hg.same
    rfl
  have hidle : ∀ n ∈ s'.zones k, s'.bcount (dev, n) = 0 := fun n hn => by
    rw [hzones] at hn
    obtain ⟨data, zone, dirt, rfl⟩ := hg.same
    exact h.idle n hn
  refine ⟨hdevi ▸ hg.volume, hquiet, hidle, fun j hj => ?_, ?_⟩
  · obtain ⟨data, zone, dirt, rfl⟩ := hg.same
    change ((s.setInode i _).inodes j).dev = dev ∧
      (isReg ((s.setInode i _).inodes j).mode ∨ isDir ((s.setInode i _).inodes j).mode)
    by_cases hji : j = i
    · subst hji
      rw [Fs.setInode_self]
      exact h.files j hj
    · have hother : (s.setInode i { s.inodes i with zone := zone, dirt := dirt }).inodes j =
          s.inodes j := Function.update_of_ne hji _ _
      rw [hother]
      exact h.files j hj
  · rw [hzones]
    exact h.exact.granted free_zone (hg.granted h hi)

/-! ### `truncate` -/

/-- An inode that says nothing of blocks. -/
theorem blockAt_bare {d : DInode} (hz : ∀ z, d.zone z = 0) (data : ℕ → Block) (p : Place) :
    d.blockAt data p = 0 := by
  induction p using Place.induction with
  | root p hp =>
    rw [blockAt_root hp, hz]
    rfl
  | entry p q m hp ih => rw [blockAt_entry hp, entryOf, if_pos ih]

theorem truncated_at (ht : Truncated s s' i k) (p : Place) : s'.at i p = 0 := by
  obtain ⟨time, hinodes⟩ := ht.inodes
  exact blockAt_bare (fun z => by rw [hinodes, Function.update_self]) _ p

theorem Truncated.other (ht : Truncated s s' i k) (h : Accounted s dev k I R) (hi : i ∈ I)
    (hj : j ∈ I) (hij : j ≠ i) : s'.inodes j = s.inodes j ∧ (∀ q, s'.at j q = s.at j q) ∧
      ∀ q, s.at j q ≠ 0 → s'.data (dev, s.at j q) = s.data (dev, s.at j q) := by
  obtain ⟨hdevi, -⟩ := h.files i hi
  obtain ⟨hdevj, -⟩ := h.files j hj
  obtain ⟨time, hinodes⟩ := ht.inodes
  have hinode : s'.inodes j = s.inodes j := by
    rw [hinodes]
    exact Function.update_of_ne hij _ _
  have hdata : ∀ q, s.at j q ≠ 0 → s'.data (dev, s.at j q) = s.data (dev, s.at j q) := fun q hq => by
    obtain ⟨hzone, -⟩ := h.at_zone hj hq
    refine Released.data ht.lost _ (fun _ hc => ?_) (hdevi ▸ h.not_map hzone)
    obtain ⟨-, p, hp⟩ := hc
    exact hij (h.same_place hj hi hq hp.symm).1
  refine ⟨hinode, fun q => ?_, hdata⟩
  unfold Fs.at
  rw [hinode, hdevj]
  refine blockAt_congr rfl (fun p hp => ?_) q
  have hat : s.at j p = (s.inodes j).blockAt (s.blocks dev) p := by
    unfold Fs.at
    rw [hdevj]
  rw [← hat] at hp ⊢
  exact hdata p hp

theorem Truncated.dropped (ht : Truncated s s' i k) (h : Accounted s dev k I R) (hi : i ∈ I) :
    Allotments.Dropped {x : Slot × Place | x.1 = i} (s.allotment k I) (s'.allotment k I) := by
  refine ⟨?_, ?_, fun n => ?_⟩
  · rintro ⟨j, q⟩ rfl
    rw [allotment_owner hi, truncated_at ht]
  · rintro ⟨j, q⟩ hj
    by_cases hjI : j ∈ I
    · rw [allotment_owner hjI, allotment_owner hjI, (ht.other h hi hjI hj).2.1]
    · exact (if_neg hjI).trans (if_neg hjI).symm
  · change n ∈ s'.freeZones k ↔ n ∈ s.freeZones k ∨ _
    have hfree : n ∈ s'.freeZones k ↔ n ∈ s.freeZones k ∨ n ≠ 0 ∧ ∃ p, s.at i p = n :=
      Released.free ht.lost n
    rw [hfree]
    refine or_congr_right (and_congr_right fun _ => ⟨?_, ?_⟩)
    · rintro ⟨p, hp⟩
      exact ⟨(i, p), rfl, (allotment_owner hi p).trans hp⟩
    · rintro ⟨⟨j, p⟩, rfl, hp⟩
      exact ⟨p, (allotment_owner hi p).symm.trans hp⟩

theorem Truncated.accounted (ht : Truncated s s' i k) (h : Accounted s dev k I R) (hi : i ∈ I) :
    Accounted s' dev k I R := by
  obtain ⟨hdevi, -⟩ := h.files i hi
  obtain ⟨time, hinodes⟩ := ht.inodes
  have hzones : s'.zones k = s.zones k := by
    have hs : (s'.withInodes s.inodes).supers = s.supers := Released.supers ht.lost
    unfold Fs.zones
    rw [← hs]
    rfl
  have hv : Volume s' dev k := hdevi ▸ Lost.volume ht.lost
  have hb : (s'.withInodes s.inodes).bcount = s.bcount := Released.bcount ht.lost
  refine ⟨hv, ⟨(Released.reads ht.lost).trans h.quiet.reads, fun b => ?_⟩, fun n hn => ?_,
    fun j hj => ?_, ?_⟩
  · exact (congrFun hb b).trans_lt (h.quiet.bcount b)
  · rw [hzones] at hn
    exact (congrFun hb _).trans (h.idle n hn)
  · rw [hinodes, Function.update_apply]
    split_ifs with hji
    · subst hji
      exact h.files j hj
    · exact h.files j hj
  · rw [hzones]
    exact h.exact.dropped (ht.dropped h hi)

theorem Accounted.truncate (h : Accounted s dev k I R) (hi : i ∈ I) :
    (Minix.truncate i s).Sat (fun _ s' => Truncated s s' i k) fun _ => False := by
  obtain ⟨hdev, hmode⟩ := h.files i hi
  have hg := h.grounded hi
  refine truncate_truncated (hdev ▸ h.volume) h.quiet.reads hmode ⟨hg.distinct, ⟨?_, ?_, ?_, ?_⟩⟩
  · rintro n ⟨hn, p, -, rfl⟩
    have hat : s.at i p = (s.inodes i).blockAt (s.blocks (s.inodes i).dev) p := rfl
    rw [← hat] at hn ⊢
    rw [hdev]
    exact h.idle _ (h.at_zone hi hn).1
  · rintro n ⟨hn, p, -, rfl⟩
    exact (h.at_zone hi hn).1
  · rintro n ⟨hn, p, -, rfl⟩
    exact (h.at_zone hi hn).2
  · rintro n -
    rfl

end Linux011.Minix
