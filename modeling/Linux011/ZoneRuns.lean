import Linux011.ZoneAccounts
import Linux011.FileOffsets

set_option autoImplicit false

/-!
# The files of a device are separate

In any run of `create_block`, `truncate` and stores into blocks that are there, the files of a device
are maps from block numbers to blocks, none of which is changed through another.
-/
namespace Linux011.Minix
open Outcomes Allotments

variable {s s' s'' : Fs} {dev : ℕ} {k : Fin NR_SUPER} {i j : Slot} {I : Finset Slot} {R : Set ℕ}

/-- The numbers of the blocks that a file may have. -/
abbrev Index := Fin (7 + 512 + 512 * 512)

/-- What the files `I` have in each of their blocks. -/
def Fs.contents (s : Fs) (I : Finset Slot) (i : Slot) (l : Index) : Option Block :=
  if i ∈ I ∧ s.blockOf i l ≠ 0 then some (s.data ((s.inodes i).dev, s.blockOf i l)) else none

inductive Access where
  | create (i : Slot) (l : Index) (n : ℕ)
  | truncate (i : Slot)
  | store (i : Slot) (l : Index) (x : Block)

/-- What an access does when files are maps of their own. -/
def Access.apply (f : Slot → Index → Option Block) : Access → Slot → Index → Option Block
  | .create i l n =>
    if n ≠ 0 ∧ f i l = none then
      Function.update f i (Function.update (f i) l (some fun _ => 0))
    else f
  | .truncate i => Function.update f i fun _ => none
  | .store i l x => Function.update f i (Function.update (f i) l (some x))

/-- What it does on the device. -/
inductive Accessed (dev : ℕ) (I : Finset Slot) (s : Fs) : Access → Fs → Prop
  | create {i : Slot} {l : Index} {n : ℕ} {s' : Fs} : i ∈ I → createBlock i l s = .ok n s' →
      Accessed dev I s (.create i l n) s'
  | truncate {i : Slot} {s' : Fs} : i ∈ I → Minix.truncate i s = .ok () s' →
      Accessed dev I s (.truncate i) s'
  | store {i : Slot} {l : Index} {x : Block} : i ∈ I → s.blockOf i l ≠ 0 →
      Accessed dev I s (.store i l x) (s.setData (dev, s.blockOf i l) x)

inductive Accesses (dev : ℕ) (I : Finset Slot) : Fs → List Access → Fs → Prop
  | nil {s : Fs} : Accesses dev I s [] s
  | cons {s s' s'' : Fs} {c : Access} {cs : List Access} : Accessed dev I s c s' →
      Accesses dev I s' cs s'' → Accesses dev I s (c :: cs) s''

/-! ### The contents of one file -/

theorem contents_none (l : Index) (h0 : s.blockOf i l = 0) : s.contents I i l = none :=
  if_neg fun hc => hc.2 h0

theorem Accounted.contents_some (h : Accounted s dev k I R) (hi : i ∈ I) {l : Index}
    (h0 : s.blockOf i l ≠ 0) : s.contents I i l = some (s.data (dev, s.blockOf i l)) := by
  obtain ⟨hdev, -⟩ := h.files i hi
  rw [← hdev]
  exact if_pos ⟨hi, h0⟩

theorem Accounted.contents_iff (h : Accounted s dev k I R) (hi : i ∈ I) (l : Index) :
    s.contents I i l = none ↔ s.blockOf i l = 0 := by
  refine ⟨fun hc => ?_, contents_none l⟩
  by_contra h0
  rw [h.contents_some hi h0] at hc
  cases hc

theorem contents_congr (hdev : (s'.inodes j).dev = (s.inodes j).dev) {l : Index}
    (hb : s'.blockOf j l = s.blockOf j l)
    (hd : s.blockOf j l ≠ 0 →
      s'.data ((s.inodes j).dev, s.blockOf j l) = s.data ((s.inodes j).dev, s.blockOf j l)) :
    s'.contents I j l = s.contents I j l := by
  unfold Fs.contents
  rw [hdev, hb]
  split_ifs with hc
  · rw [hd hc.2]
  · rfl

/-- A file whose inode and blocks have not changed. -/
theorem Accounted.contents_other (h : Accounted s dev k I R) (hj : j ∉ I ∨
    (s'.inodes j = s.inodes j ∧ (∀ q, s'.at j q = s.at j q) ∧
      ∀ q, s.at j q ≠ 0 → s'.data (dev, s.at j q) = s.data (dev, s.at j q))) :
    s'.contents I j = s.contents I j := by
  funext l
  by_cases hjI : j ∈ I
  · obtain ⟨hinode, hat, hdata⟩ := hj.resolve_left (not_not_intro hjI)
    obtain ⟨hdev, -⟩ := h.files j hjI
    refine contents_congr (by rw [hinode]) (hat (placeOf l)) fun h0 => ?_
    rw [hdev]
    exact hdata (placeOf l) h0
  · exact (if_neg fun hc => hjI hc.1).trans (if_neg fun hc => hjI hc.1).symm

theorem update_self_of_ne {α β : Type*} [DecidableEq α] {f g : α → β} {a : α} {x : β}
    (ha : g a = x) (hne : ∀ b ≠ a, g b = f b) : g = Function.update f a x := by
  funext b
  by_cases hb : b = a
  · rw [hb, ha, Function.update_self]
  · rw [hne b hb, Function.update_of_ne hb]

/-! ### Each access -/

theorem Growth.contents_ne (hg : Growth s s' i k) (h : Accounted s dev k I R) (hi : i ∈ I)
    (hij : j ≠ i) : s'.contents I j = s.contents I j := by
  apply h.contents_other
  by_cases hj : j ∈ I
  · exact .inr (hg.other h hi hj hij)
  · exact .inl hj

theorem Growth.create (hg : Growth s s' i k) (h : Accounted s dev k I R) (hi : i ∈ I) {l : Index}
    {n : ℕ} (heq : createBlock i l s = .ok n s') :
    s'.contents I = (Access.create i l n).apply (s.contents I) := by
  have hgrounded := h.grounded hi
  have hv : Volume s (s.inodes i).dev k := (h.files i hi).1 ▸ h.volume
  simp only [Access.apply]
  by_cases h0 : s.blockOf i l = 0
  swap
  · rw [createBlock_mapped h.quiet l.isLt h0] at heq
    cases heq
    rw [if_neg fun hc => h0 ((h.contents_iff hi l).1 hc.2)]
  have hnone := contents_none (I := I) l h0
  by_cases hn : n = 0
  · rw [if_neg fun hc => hc.1 hn]
    obtain ⟨n', s₁, heq₁, ha⟩ := hv.createBlock h.quiet hgrounded l.isLt h0
    rw [heq] at heq₁
    cases heq₁
    have hd := ha.none hn
    funext j
    by_cases hj : j = i
    · subst hj
      funext m
      exact contents_congr hg.device (hd.blocks m) (hd.data m)
    · exact hg.contents_ne h hi hj
  · rw [if_pos ⟨hn, hnone⟩]
    have hc := (createBlock_created h.quiet hgrounded l.isLt h0).of_ok heq hn
    have hacc := hg.accounted h hi
    refine update_self_of_ne (update_self_of_ne ?_ fun m hm => ?_) fun j hj =>
      hg.contents_ne h hi hj
    · rw [hacc.contents_some hi (by rw [hc.self]; exact hn), hc.self, ← (h.files i hi).1]
      exact congrArg some (funext hc.zero)
    · exact contents_congr hg.device (hc.blocks m m.isLt fun he => hm (Fin.ext he)) (hc.data m)

theorem Truncated.contents (ht : Truncated s s' i k) (h : Accounted s dev k I R) (hi : i ∈ I) :
    s'.contents I = (Access.truncate i).apply (s.contents I) := by
  refine update_self_of_ne ?_ fun j hj => h.contents_other ?_
  · funext l
    exact contents_none l (truncated_at ht (placeOf l))
  · by_cases hjI : j ∈ I
    · exact .inr (ht.other h hi hjI hj)
    · exact .inl hjI

section
variable {l : Index} (x : Block)

/-- Blocks of data are not those that say where others are. -/
theorem Accounted.store_at (h : Accounted s dev k I R) (hi : i ∈ I) (hj : j ∈ I)
    (p : Place) : (s.setData (dev, s.blockOf i l) x).at j p = s.at j p := by
  obtain ⟨hdev, -⟩ := h.files j hj
  induction p using Place.induction with
  | root p hp =>
    unfold Fs.at
    rw [blockAt_root hp, blockAt_root hp]
    rfl
  | entry p q m hp ih =>
    have hentry : ∀ t : Fs, t.at j p = entryOf (t.blocks (t.inodes j).dev) (t.at j q) m :=
      fun t => blockAt_entry hp _ _
    rw [hentry, hentry, ih]
    unfold entryOf
    split_ifs with hq
    · rfl
    · have hne : ((s.inodes j).dev, s.at j q) ≠ (dev, s.blockOf i l) := fun hc =>
        up_ne_placeOf hp l (h.same_place hj hi hq (Prod.mk.inj hc).2).2
      have hsame : (s.setData (dev, s.blockOf i l) x).data ((s.inodes j).dev, s.at j q) =
          s.data ((s.inodes j).dev, s.at j q) := Function.update_of_ne hne _ _
      exact congrArg (fun b => (word b (2 * m)).toNat) hsame

theorem Accounted.store (h : Accounted s dev k I R) (hi : i ∈ I) (h0 : s.blockOf i l ≠ 0) :
    Accounted (s.setData (dev, s.blockOf i l) x) dev k I R := by
  obtain ⟨hv, hfree⟩ := h.volume.congr
    (rfl : (s.setData (dev, s.blockOf i l) x).supers = s.supers) h.volume.unused fun m b hb => by
      apply Function.update_of_ne
      rintro rfl
      exact h.not_map (h.at_zone hi h0).1 ⟨k, m, h.volume.super, hb⟩
  have hsame : (s.setData (dev, s.blockOf i l) x).allotment k I = s.allotment k I := by
    unfold Fs.allotment
    rw [hfree]
    congr 1
    funext ⟨j, p⟩
    by_cases hj : j ∈ I
    · rw [if_pos hj, if_pos hj, h.store_at x hi hj]
    · rw [if_neg hj, if_neg hj]
  refine ⟨hv, ⟨h.quiet.reads, h.quiet.bcount⟩, h.idle, h.files, ?_⟩
  rw [hsame]
  exact h.exact

theorem Accounted.store_contents (h : Accounted s dev k I R) (hi : i ∈ I)
    (h0 : s.blockOf i l ≠ 0) : (s.setData (dev, s.blockOf i l) x).contents I =
      (Access.store i l x).apply (s.contents I) := by
  have hblock : ∀ j ∈ I, ∀ m : Index,
      (s.setData (dev, s.blockOf i l) x).blockOf j m = s.blockOf j m :=
    fun j hj m => h.store_at x hi hj (placeOf m)
  have hsame : ∀ j ∈ I, ∀ m : Index, (j = i → m ≠ l) →
      (s.setData (dev, s.blockOf i l) x).contents I j m = s.contents I j m := by
    intro j hj m hm
    have hdev : ((s.setData (dev, s.blockOf i l) x).inodes j).dev = (s.inodes j).dev := rfl
    refine contents_congr hdev (hblock j hj m) fun hjm => ?_
    refine Function.update_of_ne (fun hc => ?_) x s.data
    obtain ⟨hji, hplace⟩ := h.same_place hj hi hjm (Prod.mk.inj hc).2
    exact hm hji (Fin.ext (placeOf_inj m.isLt l.isLt hplace))
  refine update_self_of_ne (update_self_of_ne ?_ fun m hm => hsame i hi m fun _ => hm)
    fun j hj => ?_
  · have hself := (h.store x hi h0).contents_some hi (l := l) (by rw [hblock i hi]; exact h0)
    rw [hself, hblock i hi]
    exact congrArg some (Function.update_self _ _ _)
  · by_cases hjI : j ∈ I
    · exact funext fun m => hsame j hjI m fun hc => absurd hc hj
    · exact h.contents_other (.inl hjI)

end

theorem Accounted.create (h : Accounted s dev k I R) (hi : i ∈ I) (l : Index) :
    (createBlock i l s).Sat (fun n s' => Growth s s' i k ∧ (n = 0 → s'.freeZones k = ∅))
      fun _ => False :=
  Volume.createBlock_grows ((h.files i hi).1 ▸ h.volume) h.quiet (h.grounded hi) l.isLt

theorem Accessed.sound {c : Access} (h : Accounted s dev k I R) (hc : Accessed dev I s c s') :
    Accounted s' dev k I R ∧ s'.contents I = c.apply (s.contents I) := by
  cases hc with
  | @create i l n _ hi heq =>
    obtain ⟨hg, -⟩ := (h.create hi l).of_ok heq
    exact ⟨hg.accounted h hi, hg.create h hi heq⟩
  | truncate hi heq =>
    have ht := (h.truncate hi).of_ok heq
    exact ⟨ht.accounted h hi, ht.contents h hi⟩
  | store hi h0 => exact ⟨h.store _ hi h0, h.store_contents _ hi h0⟩

/-- `create_block` comes back, and fails for want of zones only. -/
theorem Accounted.creates (h : Accounted s dev k I R) (hi : i ∈ I) (l : Index) :
    ∃ n s', createBlock i l s = .ok n s' ∧ (n = 0 → s'.freeZones k = ∅) ∧
      (n = 0 ↔ s.contents I i l = none ∧
        (s.freeZones k).card < (s.inodes i).lacking (s.blocks dev) (placeOf l)) := by
  have hv : Volume s (s.inodes i).dev k := (h.files i hi).1 ▸ h.volume
  have hsat := h.create hi l
  by_cases h0 : s.blockOf i l = 0
  · obtain ⟨n, s', heq, ha⟩ := hv.createBlock h.quiet (h.grounded hi) l.isLt h0
    refine ⟨n, s', heq, (hsat.of_ok heq).2, ?_⟩
    rw [← not_iff_not, ← ne_eq, ha.given, (h.files i hi).1, (h.contents_iff hi l).2 h0]
    simp only [true_and, Nat.not_lt]
  · refine ⟨_, s, createBlock_mapped h.quiet l.isLt h0, fun hc => absurd hc h0, ?_⟩
    rw [h.contents_iff hi]
    exact ⟨fun hc => absurd hc h0, fun hc => absurd hc.1 h0⟩

theorem Accesses.sound {cs : List Access} (h : Accounted s dev k I R)
    (hrun : Accesses dev I s cs s') : Accounted s' dev k I R ∧
      s'.contents I = cs.foldl Access.apply (s.contents I) := by
  induction hrun with
  | nil => exact ⟨h, rfl⟩
  | cons hc _ ih =>
    obtain ⟨hacc, hcon⟩ := hc.sound h
    rw [List.foldl_cons, ← hcon]
    exact ih hacc

/-- Whatever is done to the files of a device, no zone is lost or in two places, each file has what
    was done to it alone, and neither call stops. -/
theorem files_separate {cs : List Access} (h : Accounted s dev k I R)
    (hrun : Accesses dev I s cs s') :
    Accounted s' dev k I R ∧ s'.contents I = cs.foldl Access.apply (s.contents I) ∧
      ∀ i ∈ I, (∃ t, truncate i s' = .ok () t) ∧ ∀ l : Index, ∃ n t,
        createBlock i l s' = .ok n t ∧ (n = 0 → t.freeZones k = ∅) ∧
          (n = 0 ↔ s'.contents I i l = none ∧
            (s'.freeZones k).card < (s'.inodes i).lacking (s'.blocks dev) (placeOf l)) := by
  obtain ⟨hacc, hcon⟩ := hrun.sound h
  refine ⟨hacc, hcon, fun i hi => ⟨?_, hacc.creates hi⟩⟩
  have hsat := hacc.truncate hi
  cases heq : truncate i s' with
  | ok x t => exact ⟨t, rfl⟩
  | stop why =>
    rw [heq] at hsat
    exact hsat.elim

/-! ### A disk with free zones -/

/-- The bits of the zones 5 to 63, of which the first is set, and those behind. -/
def spaciousMap : Block := fun o =>
  if o = 0 then 3 else if o < 7 then 0 else if o = 7 then 240 else 255

/-- `hdDisk`, of which all zones are free but that of the root directory. -/
def spacious : Fs := hdDisk.setData (0x301, 3) spaciousMap

theorem spacious_zones : spacious.data (0x301, 3) = spaciousMap := by
  have h : Function.update hdDisk.data ((0x301, 3) : Buffer) spaciousMap (0x301, 3) = spaciousMap :=
    Function.update_self _ _ _
  exact h

theorem spacious_zmap {m : ℕ} {b : Buffer} (h : (spacious.supers k).zmap m = some b) :
    m = 0 ∧ b = (0x301, 3) := by
  by_cases h0 : m = 0
  · subst h0
    cases h
    exact ⟨rfl, rfl⟩
  · rw [show (spacious.supers k).zmap m = none from if_neg h0] at h
    cases h

theorem spacious_bit {n : ℕ} (hle : 5 ≤ n) (hlt : n < 64) :
    spacious.zoneBit ⟨0, by decide⟩ n = decide (n = 5) := by
  have h0 : (n + 1 - 5) / 8192 = 0 := by omega
  have hmap : (spacious.supers ⟨0, by decide⟩).zmap ((n + 1 - 5) / 8192) = some (0x301, 3) := if_pos h0
  have hall : ∀ n < 64, 5 ≤ n → testBit spaciousMap ((n + 1 - 5) % 8192) = decide (n = 5) := by
    decide +kernel
  rw [zoneBit_some hmap, spacious_zones]
  exact hall n hlt hle

theorem mem_spacious {n : ℕ} :
    n ∈ spacious.freeZones ⟨0, by decide⟩ ↔ 5 ≤ n ∧ n < 64 ∧ n ≠ 5 := by
  rw [mem_freeZones]
  change 5 ≤ n ∧ n < 64 ∧ _ ↔ _
  refine and_congr_right fun hle => and_congr_right fun hlt => ?_
  rw [spacious_bit hle hlt, decide_eq_false_iff_not]

theorem spacious_idle {n : ℕ} (hle : 5 ≤ n) : spacious.bcount (0x301, n) = 0 := by
  change (if (0x301, n).1 = 0x301 then if (1, n) = ((1, 2) : Buffer) ∨ (1, n) = ((1, 3) : Buffer)
    then 1 else 0 else 0) = 0
  rw [if_pos rfl, if_neg]
  rintro (hc | hc)
  · have := (Prod.mk.inj hc).2
    omega
  · have := (Prod.mk.inj hc).2
    omega

theorem spacious_volume : Volume spacious 0x301 ⟨0, by decide⟩ where
  behind k _ := Nat.succ_pos 4
  maps k m b _ hb _ := by
    obtain ⟨-, rfl⟩ := spacious_zmap hb
    exact Nat.lt_succ_of_lt (Nat.lt_succ_self 3)
  first k b _ hb := by
    obtain ⟨-, rfl⟩ := spacious_zmap hb
    rw [spacious_zones]
    decide
  short k _ := (by decide : 64 ≤ 65535)
  super := by decide
  covered n hle hlt := by
    have hlt : n < 64 := hlt
    have h0 : (n + 1 - 5) / 8192 = 0 := by omega
    exact ⟨(0x301, 3), if_pos h0⟩
  apart m m' b hm hm' := (spacious_zmap hm).1.trans (spacious_zmap hm').1.symm
  beyond m b bit hm hbit hge := by
    obtain ⟨rfl, rfl⟩ := spacious_zmap hm
    have hge : 64 ≤ bit + 0 * 8192 + 5 - 1 := hge
    have hall : ∀ r < 8, 4 ≤ r → (240 : UInt8).toNat.testBit r = true := by decide
    have hall' : ∀ r < 8, (255 : UInt8).toNat.testBit r = true := by decide
    rw [spacious_zones]
    unfold testBit spaciousMap
    rw [if_neg (by omega), if_neg (by omega)]
    split_ifs with h7
    · exact hall _ (Nat.mod_lt bit (by decide)) (by omega)
    · exact hall' _ (Nat.mod_lt bit (by decide))
  unused n hn := spacious_idle (mem_spacious.1 hn).1

theorem spacious_at (p : Place) : spacious.at 1 p = 0 := blockAt_bare (fun _ => rfl) _ p

/-- The zone of the root directory belongs to no file. -/
theorem spacious_accounted : Accounted spacious 0x301 ⟨0, by decide⟩ {1} {5} where
  volume := spacious_volume
  quiet := by
    refine ⟨rfl, fun b => ?_⟩
    change (if b.1 = 0x301 then if (1, b.2) = ((1, 2) : Buffer) ∨ (1, b.2) = ((1, 3) : Buffer)
      then 1 else 0 else 0) < 255
    split_ifs
    all_goals decide
  idle n hn := spacious_idle hn.1
  files := by decide
  exact := by
    have hown : ∀ x, (spacious.allotment ⟨0, by decide⟩ {1}).owner x = 0 := by
      rintro ⟨i, p⟩
      by_cases hi : i = 1
      · subst hi
        rw [allotment_owner (Finset.mem_singleton_self _)]
        exact spacious_at p
      · exact if_neg fun hc => hi (Finset.mem_singleton.1 hc)
    refine ⟨fun hc => absurd hc.1 (by decide), fun n hn => ?_, fun x _ hx => absurd (hown x) hx,
      fun x hx => absurd (hown x) hx, fun x hx => absurd (hown x) hx⟩
    change n ∉ spacious.freeZones _ ↔ _
    obtain ⟨hle, hlt⟩ : 5 ≤ n ∧ n < 64 := hn
    rw [mem_spacious, Set.mem_singleton_iff]
    constructor
    · intro hc
      by_contra hne
      exact hc ⟨hle, hlt, fun h5 => hne (.inl h5)⟩
    · rintro (rfl | ⟨x, rfl⟩) hfree
      · exact hfree.2.2 rfl
      · rw [hown] at hle
        omega

theorem files_separate_spacious : ∃ n s', n ≠ 0 ∧
    Accesses 0x301 {1} spacious [.create 1 0 n, .store 1 0 fun _ => 7] s' ∧
    Accounted s' 0x301 ⟨0, by decide⟩ {1} {5} ∧ s'.contents {1} 1 0 = some fun _ => 7 := by
  obtain ⟨-, -, hcalls⟩ := files_separate spacious_accounted .nil
  obtain ⟨n, t, heq, -, hn⟩ := (hcalls 1 (by decide)).2 0
  have hlack : (spacious.inodes 1).lacking (spacious.blocks 0x301) (placeOf 0) = 1 := rfl
  have hfree : 6 ∈ spacious.freeZones ⟨0, by decide⟩ := mem_spacious.2 (by decide)
  have hn0 : n ≠ 0 := by
    intro hc
    have hlt := (hn.1 hc).2
    change _ < (spacious.inodes 1).lacking (spacious.blocks 0x301) (placeOf 0) at hlt
    rw [hlack, Nat.lt_one_iff] at hlt
    exact Finset.card_ne_zero_of_mem hfree hlt
  have hcreate : Accessed 0x301 {1} spacious (.create 1 0 n) t := .create (by decide) heq
  obtain ⟨hacc, hcon⟩ := hcreate.sound spacious_accounted
  have hblock : t.blockOf 1 (0 : Index) ≠ 0 := by
    intro hc
    have hnone := contents_none (I := {1}) 0 hc
    have hzero : spacious.contents {1} 1 0 = none := contents_none 0 rfl
    rw [hcon] at hnone
    simp only [Access.apply] at hnone
    rw [if_pos ⟨hn0, hzero⟩, Function.update_self, Function.update_self] at hnone
    cases hnone
  have hrun : Accesses 0x301 {1} spacious [.create 1 0 n, .store 1 0 fun _ => 7] _ :=
    .cons hcreate (.cons (.store (by decide) hblock) .nil)
  obtain ⟨hacc', hcon', -⟩ := files_separate spacious_accounted hrun
  refine ⟨n, _, hn0, hrun, hacc', ?_⟩
  rw [hcon']
  simp only [List.foldl_cons, List.foldl_nil, Access.apply, Function.update_self]

end Linux011.Minix
