import Linux011.FsTruncate
import Linux011.FsVolumes
import Linux011.Allotments

set_option autoImplicit false

/-!
# Who owns a zone

`create_block` gives zones that are free to places of one file, and `truncate` takes back all that
its file has. Over all inodes of a device these are steps between exact accounts of its zones.
-/
namespace Linux011.Minix
open Outcomes Allotments

variable {s s' s'' : Fs} {dev n : ℕ} {i j : Slot} {k : Fin NR_SUPER}

/-! ### What `create_block` gives -/

/-- Places of one file have been filled with zones that were free; what other files and the places
    filled before hold, other than new entries of indirect blocks, has not changed. -/
structure Growth (s s' : Fs) (i : Slot) (k : Fin NR_SUPER) : Prop where
  same : ∃ data zone dirt, s' = { s.setInode i { s.inodes i with zone := zone, dirt := dirt } with
    data := data }
  grounded : Grounded s' i
  volume : Volume s' (s.inodes i).dev k
  pos : ∀ n ∈ s.freeZones k, n ≠ 0
  keep : ∀ p, s.at i p ≠ 0 → s'.at i p = s.at i p
  fresh : ∀ p, s.at i p = 0 → s'.at i p ≠ 0 → s'.at i p ∈ s.freeZones k
  free : ∀ n, n ∈ s'.freeZones k ↔ n ∈ s.freeZones k ∧ ∀ p, s.at i p = 0 → s'.at i p ≠ n
  foreign : ∀ b : Buffer, (b.1 = (s.inodes i).dev → b.2 ∉ s.freeZones k ∧ ∀ p, s.at i p ≠ 0 →
    s.at i p ≠ b.2) → ¬ s.ZoneMap (s.inodes i).dev b → s'.data b = s.data b

theorem Growth.refl (hg : Grounded s i) (v : Volume s (s.inodes i).dev k) : Growth s s i k where
  same := same_refl s i
  grounded := hg
  volume := v
  pos n hn := v.newBlock_pos hn
  keep _ _ := rfl
  fresh p h0 hp := absurd h0 hp
  free n := by
    refine (and_iff_left_of_imp fun hn p h0 hp => ?_).symm
    exact v.newBlock_pos hn (hp.symm.trans h0)
  foreign _ _ _ := rfl

theorem Growth.device (h : Growth s s' i k) : (s'.inodes i).dev = (s.inodes i).dev := by
  obtain ⟨data, zone, dirt, rfl⟩ := h.same
  change ((s.setInode i _).inodes i).dev = _
  rw [Fs.setInode_self]

theorem Growth.zoneMap (h : Growth s s' i k) (dev : ℕ) (b : Buffer) :
    s'.ZoneMap dev b ↔ s.ZoneMap dev b := by
  obtain ⟨data, zone, dirt, rfl⟩ := h.same
  exact Iff.rfl

theorem Growth.trans (h : Growth s s' i k) (h' : Growth s' s'' i k) : Growth s s'' i k where
  same := same_trans h.same h'.same
  grounded := h'.grounded
  volume := h.device ▸ h'.volume
  pos := h.pos
  keep p hp := by
    rw [← h.keep p hp]
    exact h'.keep p (by rw [h.keep p hp]; exact hp)
  fresh p h0 hp := by
    by_cases hp' : s'.at i p = 0
    · exact ((h.free _).1 (h'.fresh p hp' hp)).1
    · rw [h'.keep p hp']
      exact h.fresh p h0 hp'
  free n := by
    rw [h'.free, h.free, and_assoc]
    refine and_congr_right fun hn => ?_
    have hn0 := h.pos n hn
    constructor
    · rintro ⟨hold, hnew⟩ p h0 rfl
      by_cases hp' : s'.at i p = 0
      · exact hnew p hp' rfl
      · exact hold p h0 (h'.keep p hp').symm
    · intro hall
      refine ⟨fun p h0 hp => ?_, fun p h0 hp => ?_⟩
      · subst hp
        exact hall p h0 (h'.keep p hn0)
      · by_cases hp' : s.at i p = 0
        · exact hall p hp' hp
        · exact hp' ((h.keep p hp').symm.trans h0)
  foreign b hb hmap := by
    rw [h'.foreign b (fun hdev => ?_) fun hc => hmap ((h.zoneMap _ _).1 (h.device ▸ hc)),
      h.foreign b hb hmap]
    obtain ⟨hfree, hat⟩ := hb (hdev.trans h.device)
    refine ⟨fun hc => hfree ((h.free _).1 hc).1, fun p hp hpb => ?_⟩
    by_cases h0 : s.at i p = 0
    · exact hfree (hpb ▸ h.fresh p h0 hp)
    · exact hat p h0 ((h.keep p h0).symm.trans hpb)

/-- A zone is given to one place, and at most an entry of an indirect block is set for it. -/
theorem grown_new {p : Place} (v : Volume s (s.inodes i).dev k)
    (v' : Volume s' (s.inodes i).dev k) (hn : n ∈ s.freeZones k) (h0 : s.at i p = 0)
    (hf : Filled s s' i p n) (hfree : s'.freeZones k = (s.freeZones k).erase n)
    (hforeign : ∀ b : Buffer, (b.1 = (s.inodes i).dev → b.2 ∉ s.freeZones k ∧ ∀ p, s.at i p ≠ 0 →
      s.at i p ≠ b.2) → ¬ s.ZoneMap (s.inodes i).dev b → s'.data b = s.data b) :
    Growth s s' i k where
  same := hf.same
  grounded := hf.grounded
  volume := v'
  pos m hm := v.newBlock_pos hm
  keep q hq := by
    rw [hf.at_eq, if_neg]
    rintro rfl
    exact hq h0
  fresh q hq hq' := by
    rw [hf.at_eq] at hq' ⊢
    split_ifs at hq' ⊢
    · exact hn
    · exact absurd hq hq'
  free m := by
    rw [hfree, Finset.mem_erase, and_comm]
    refine and_congr_right fun hm => ?_
    constructor
    · intro hmn q hq hqm
      rw [hf.at_eq] at hqm
      split_ifs at hqm
      · exact hmn hqm.symm
      · exact v.newBlock_pos hm (hqm.symm.trans hq)
    · intro hall hmn
      refine hall p h0 ?_
      rw [hf.at_eq, if_pos rfl, hmn]
  foreign := hforeign

theorem Volume.fillZone_grows (v : Volume s (s.inodes i).dev k) (hg : Grounded s i) {p : Place}
    (hp : p.up = none) :
    ∃ n s', Minix.fillZone true i p.zone s = .ok n s' ∧ Supplied s s' i k p n ∧ Growth s s' i k := by
  obtain ⟨n, s', heq, hs⟩ := v.fillZone hg hp
  refine ⟨n, s', heq, hs, ?_⟩
  by_cases h0 : s.at i p = 0
  swap
  · rw [(hs.provided.1 h0).1]
    exact .refl hg v
  by_cases hn : n = 0
  · rw [(hs.none hn).1]
    exact .refl hg v
  have hzone : (s.inodes i).zone p.zone = 0 := by
    have hat : s.at i p = ((s.inodes i).zone p.zone).toNat := blockAt_root hp _ _
    exact UInt16.toNat_inj.mp (hat.symm.trans h0)
  have hf := hs.provided.2 h0 hn
  rcases v.newBlock_eq with ⟨hempty, hnew⟩ | ⟨m, b, hm, hb, hnew⟩
  · unfold Minix.fillZone at heq
    rw [if_pos ⟨rfl, hzone⟩, hnew] at heq
    cases heq
    exact absurd rfl hn
  · have hm0 := v.newBlock_pos hm
    unfold Minix.fillZone at heq
    rw [if_pos ⟨rfl, hzone⟩, hnew, Outcome.bind_ok, if_pos hm0] at heq
    cases heq
    obtain ⟨v₁, hfree⟩ := v.takeZone hm hb
    refine grown_new v hs.volume hm h0 hf hfree fun b' hb' hmap => ?_
    refine (Function.update_of_ne ?_ _ _).trans (Function.update_of_ne ?_ _ _)
    · rintro rfl
      exact (hb' rfl).1 hm
    · rintro rfl
      exact hmap ⟨k, _, v.super, hb⟩

theorem Volume.fillEntry_grows (v : Volume s (s.inodes i).dev k) (hq : Quiet s) (hg : Grounded s i)
    {p q : Place} {m : ℕ} (hp : p.up = some (q, m)) (h : s.at i q ≠ 0) :
    ∃ n s', Minix.fillEntry true (s.inodes i).dev (s.at i q) m s = .ok n s' ∧
      Supplied s s' i k p n ∧ Growth s s' i k := by
  obtain ⟨n, s', heq, hs⟩ := v.fillEntry hq hg hp h
  refine ⟨n, s', heq, hs, ?_⟩
  by_cases h0 : s.at i p = 0
  swap
  · rw [(hs.provided.1 h0).1]
    exact .refl hg v
  by_cases hn : n = 0
  · rw [(hs.none hn).1]
    exact .refl hg v
  have hword : word (s.data ((s.inodes i).dev, s.at i q)) (2 * m) = 0 := by
    have hat : s.at i p = (word (s.data ((s.inodes i).dev, s.at i q)) (2 * m)).toNat := by
      unfold Fs.at
      rw [blockAt_entry hp]
      exact if_neg h
    exact UInt16.toNat_inj.mp (hat.symm.trans h0)
  have hf := hs.provided.2 h0 hn
  have hnot := v.marked_not_free (hg.marks q h)
  obtain ⟨vh, hfreeh⟩ := v.congr
      (rfl : (s.hold ((s.inodes i).dev, s.at i q)).supers = s.supers) (fun l hl => by
    have hne : ((s.inodes i).dev, l) ≠ ((s.inodes i).dev, s.at i q) := by
      intro hc
      exact hnot ((Prod.mk.inj hc).2 ▸ hl)
    exact (Function.update_of_ne hne _ _).trans (v.unused l hl)) fun _ _ _ => rfl
  unfold Minix.fillEntry at heq
  rw [hq.bread, Outcome.bind_ok] at heq
  dsimp only at heq
  rw [if_pos ⟨rfl, hword⟩] at heq
  rcases vh.newBlock_eq with ⟨hempty, hnew⟩ | ⟨l, b, hl, hb, hnew⟩
  · rw [hnew, Outcome.bind_ok, if_neg (not_not_intro rfl), Outcome.bind_ok, brelse_hold,
      Outcome.bind_ok] at heq
    cases heq
    exact absurd rfl hn
  · rw [hfreeh] at hl
    have hl0 := v.newBlock_pos hl
    rw [hnew, Outcome.bind_ok, if_pos hl0, Outcome.bind_ok] at heq
    change (brelse _ (((s.takeZone (s.inodes i).dev k b l).setData ((s.inodes i).dev, s.at i q)
      (setWord ((s.takeZone (s.inodes i).dev k b l).data ((s.inodes i).dev, s.at i q)) (2 * m)
        (UInt16.ofNat l))).hold _)).bind _ = _ at heq
    rw [brelse_hold, Outcome.bind_ok] at heq
    cases heq
    obtain ⟨v₁, hfree⟩ := v.takeZone hl hb
    obtain ⟨-, hfree'⟩ := v₁.congr (rfl : ((s.takeZone (s.inodes i).dev k b n).setData
      ((s.inodes i).dev, s.at i q) (setWord ((s.takeZone (s.inodes i).dev k b n).data
        ((s.inodes i).dev, s.at i q)) (2 * m) (UInt16.ofNat n))).supers = _) v₁.unused
      fun l' b' hb' => by
      apply Function.update_of_ne
      rintro rfl
      exact hg.marked_ne (hg.marks q h) ⟨k, l', v.super, hb'⟩ rfl
    refine grown_new v hs.volume hl h0 hf (hfree'.trans hfree) fun b' hb' hmap => ?_
    refine (Function.update_of_ne ?_ _ _).trans
      ((Function.update_of_ne ?_ _ _).trans (Function.update_of_ne ?_ _ _))
    · rintro rfl
      exact (hb' rfl).2 q h rfl
    · rintro rfl
      exact (hb' rfl).1 hl
    · rintro rfl
      exact hmap ⟨k, _, v.super, hb⟩

theorem Supplied.full {p : Place} (hs : Supplied s s' i k p n) (hn : n = 0) :
    s'.freeZones k = ∅ := by
  obtain ⟨rfl, -, hempty⟩ := hs.none hn
  exact hempty

/-- `create_block` on a sound device: it comes back, and the zones that were free and are not are
    those of places that had none. It only fails when there are no more. -/
theorem Volume.createBlock_grows (v : Volume s (s.inodes i).dev k) (hq : Quiet s)
    (hg : Grounded s i) {l : ℕ} (hl : l < 7 + 512 + 512 * 512) :
    (Minix.createBlock i l s).Sat (fun n s' => Growth s s' i k ∧ (n = 0 → s'.freeZones k = ∅))
      fun _ => False := by
  by_cases h0 : s.blockOf i l = 0
  swap
  · rw [createBlock_mapped hq hl h0]
    exact ⟨.refl hg v, fun hn => absurd hn h0⟩
  unfold Minix.createBlock bmapWith
  rw [if_neg (Nat.not_le.mpr hl)]
  by_cases h7 : l < 7
  · have hplace : placeOf l = .direct ⟨l, h7⟩ := dif_pos h7
    have hz : Fin.ofNat 9 l = (placeOf l).zone := by
      rw [hplace]
      exact Fin.ext (Nat.mod_eq_of_lt (by omega))
    obtain ⟨n, s', he, hs, hgrow⟩ := v.fillZone_grows hg (p := placeOf l) (by rw [hplace]; rfl)
    rw [if_pos h7, hz, he]
    exact ⟨hgrow, hs.full⟩
  rw [if_neg h7]
  by_cases h512 : l - 7 < 512
  · have hplace : placeOf l = .singleEntry (Fin.ofNat 512 (l - 7)) := by
      unfold placeOf
      rw [dif_neg h7, if_pos h512]
    have hup : (placeOf l).up = some (.single, l - 7) := by
      have hval : (Fin.ofNat 512 (l - 7) : Fin 512).val = l - 7 := Nat.mod_eq_of_lt h512
      rw [hplace]
      exact congrArg (fun m => some (_, m)) hval
    obtain ⟨ind, s₁, he₁, hs₁, hg₁⟩ := v.fillZone_grows (p := .single) hg rfl
    rw [if_pos h512]
    change ((Minix.fillZone true i Place.single.zone s).bind _).Sat _ _
    rw [he₁, Outcome.bind_ok]
    split_ifs with hind
    · exact ⟨hg₁, fun _ => hs₁.full hind⟩
    obtain ⟨hd₁, hat₁, -⟩ := hs₁.deepened hg (up_ne_placeOf hup) hind
    have v₁ := hs₁.volume
    rw [← hd₁.device] at v₁
    subst hat₁
    obtain ⟨n, s', he, hs, hgrow⟩ := v₁.fillEntry_grows (hd₁.quiet hq) hd₁.grounded hup hind
    rw [he]
    exact ⟨hg₁.trans hgrow, hs.full⟩
  · have hplace : placeOf l = .doubleEntryEntry (Fin.ofNat 512 ((l - 7 - 512) / 512))
        (Fin.ofNat 512 ((l - 7 - 512) % 512)) := by
      unfold placeOf
      rw [dif_neg h7, if_neg h512]
    have hup : (placeOf l).up = some (.doubleEntry (Fin.ofNat 512 ((l - 7 - 512) / 512)),
        (l - 7 - 512) % 512) := by
      have hval : (Fin.ofNat 512 ((l - 7 - 512) % 512) : Fin 512).val = (l - 7 - 512) % 512 :=
        Nat.mod_mod _ _
      rw [hplace]
      exact congrArg (fun m => some (_, m)) hval
    have hup' : (Place.doubleEntry (Fin.ofNat 512 ((l - 7 - 512) / 512))).up =
        some (.double, (l - 7 - 512) / 512) := by
      have hval : (Fin.ofNat 512 ((l - 7 - 512) / 512) : Fin 512).val = (l - 7 - 512) / 512 :=
        Nat.mod_eq_of_lt (by omega)
      exact congrArg (fun m => some (_, m)) hval
    obtain ⟨dind, s₁, he₁, hs₁, hg₁⟩ := v.fillZone_grows (p := .double) hg rfl
    rw [if_neg h512]
    change ((Minix.fillZone true i Place.double.zone s).bind _).Sat _ _
    rw [he₁, Outcome.bind_ok]
    split_ifs with hdind
    · exact ⟨hg₁, fun _ => hs₁.full hdind⟩
    obtain ⟨hd₁, hat₁, -⟩ := hs₁.deepened hg (up_ne_placeOf hup') hdind
    have v₁ := hs₁.volume
    rw [← hd₁.device] at v₁
    subst hat₁
    obtain ⟨ind, s₂, he₂, hs₂, hg₂⟩ :=
      v₁.fillEntry_grows (hd₁.quiet hq) hd₁.grounded hup' hdind
    rw [he₂, Outcome.bind_ok]
    split_ifs with hind
    · exact ⟨hg₁.trans hg₂, fun _ => hs₂.full hind⟩
    obtain ⟨hd₂, hat₂, -⟩ := hs₂.deepened hd₁.grounded (up_ne_placeOf hup) hind
    have v₂ := hs₂.volume
    rw [← hd₂.device] at v₂
    subst hat₂
    have hd := hd₁.trans hd₂
    obtain ⟨n, s', he, hs, hgrow⟩ := v₂.fillEntry_grows (hd.quiet hq) hd.grounded hup hind
    rw [he]
    exact ⟨(hg₁.trans hg₂).trans hgrow, hs.full⟩

end Linux011.Minix
