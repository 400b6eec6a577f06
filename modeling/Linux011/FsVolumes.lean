import Linux011.MinixDirectory

set_option autoImplicit false

/-!
# Whether there is room

On a device whose map of zones is sound, `new_block` gives a block if one is free, and `add_entry` finds
room if an entry is free or as many blocks as the directory lacks.
-/
namespace Linux011.Minix
open Outcomes SlotTables

variable {s s' t : Fs} {dev n : ℕ} {i : Slot} {k : Fin NR_SUPER} {name : Name}

def Fs.zoneBit (s : Fs) (k : Fin NR_SUPER) (n : ℕ) : Bool :=
  match (s.supers k).zmap ((n + 1 - (s.supers k).firstdatazone) / 8192) with
  | none => true
  | some b => testBit (s.data b) ((n + 1 - (s.supers k).firstdatazone) % 8192)

def Fs.freeZones (s : Fs) (k : Fin NR_SUPER) : Finset ℕ :=
  (Finset.Ico (s.supers k).firstdatazone (s.supers k).nzones).filter fun n => s.zoneBit k n = false

/-- Each zone has a bit of its own, the bits behind the last one are set, and no buffer of a zone is in
    use. -/
structure Volume (s : Fs) (dev : ℕ) (k : Fin NR_SUPER) : Prop extends Zoned s dev where
  super : s.getSuper dev = some k
  covered : ∀ n, (s.supers k).firstdatazone ≤ n → n < (s.supers k).nzones →
    ∃ b, (s.supers k).zmap ((n + 1 - (s.supers k).firstdatazone) / 8192) = some b
  apart : ∀ m m' b, (s.supers k).zmap m = some b → (s.supers k).zmap m' = some b → m = m'
  beyond : ∀ m b bit, (s.supers k).zmap m = some b → bit < 8192 →
    (s.supers k).nzones ≤ bit + m * 8192 + (s.supers k).firstdatazone - 1 →
    testBit (s.data b) bit = true
  unused : ∀ n ∈ s.freeZones k, s.bcount (dev, n) = 0

/-- Block `n` is taken, whose bit is in buffer `b`. -/
def Fs.takeZone (s : Fs) (dev : ℕ) (k : Fin NR_SUPER) (b : Buffer) (n : ℕ) : Fs :=
  (s.setData b (setBit (s.data b) ((n + 1 - (s.supers k).firstdatazone) % 8192))).setData (dev, n)
    fun _ => 0

theorem zoneBit_some {b : Buffer}
    (h : (s.supers k).zmap ((n + 1 - (s.supers k).firstdatazone) / 8192) = some b) :
    s.zoneBit k n = testBit (s.data b) ((n + 1 - (s.supers k).firstdatazone) % 8192) := by
  unfold Fs.zoneBit
  rw [h]

theorem mem_freeZones : n ∈ s.freeZones k ↔ (s.supers k).firstdatazone ≤ n ∧
    n < (s.supers k).nzones ∧ s.zoneBit k n = false := by
  unfold Fs.freeZones
  rw [Finset.mem_filter, Finset.mem_Ico, and_assoc]

theorem findFirstZero_full {b : Block} (h : ¬findFirstZero b < 8192) {bit : ℕ} (hbit : bit < 8192) :
    testBit b bit = true := by
  unfold findFirstZero at h
  cases hf : (List.range 8192).find? fun n => !testBit b n with
  | none =>
    have hn := List.find?_eq_none.mp hf bit (List.mem_range.mpr hbit)
    simpa using hn
  | some m =>
    rw [hf, Option.getD_some] at h
    exact absurd (List.mem_range.mp (List.mem_of_find?_eq_some hf)) h

theorem firstFree_none {map : ℕ → Option Buffer} (h : firstFree map s = none) {m bit : ℕ} {b : Buffer}
    (hm : m < MAP_SLOTS) (hb : map m = some b) (hbit : bit < 8192) : testBit (s.data b) bit = true := by
  unfold firstFree at h
  have hnone := List.findSome?_eq_none_iff.mp h m (List.mem_range.mpr hm)
  rw [hb, Option.bind_some] at hnone
  apply findFirstZero_full _ hbit
  intro hlt
  rw [if_pos hlt] at hnone
  cases hnone

theorem Volume.slot_lt (v : Volume s dev k) (h : n < (s.supers k).nzones) :
    (n + 1 - (s.supers k).firstdatazone) / 8192 < MAP_SLOTS := by
  have hshort := v.short k v.super
  have hbehind := v.behind k v.super
  unfold MAP_SLOTS
  omega

/-- `new_block` gives a free zone if there is one. -/
theorem Volume.newBlock_eq (v : Volume s dev k) :
    (s.freeZones k = ∅ ∧ newBlock dev s = .ok 0 s) ∨
    ∃ n b, n ∈ s.freeZones k ∧
      (s.supers k).zmap ((n + 1 - (s.supers k).firstdatazone) / 8192) = some b ∧
      newBlock dev s = .ok n (s.takeZone dev k b n) := by
  unfold newBlock
  rw [v.super]
  dsimp only
  cases hf : firstFree (s.supers k).zmap s with
  | none =>
    refine .inl ⟨?_, rfl⟩
    apply Finset.eq_empty_of_forall_notMem
    intro n hn
    obtain ⟨hle, hlt, hbit⟩ := mem_freeZones.mp hn
    obtain ⟨b, hb⟩ := v.covered n hle hlt
    rw [zoneBit_some hb, firstFree_none hf (v.slot_lt hlt) hb (Nat.mod_lt _ (by decide))] at hbit
    cases hbit
  | some p =>
    obtain ⟨m, b⟩ := p
    obtain ⟨-, hmap, hlt⟩ := firstFree_some hf
    have hclear := findFirstZero_clear hlt
    dsimp only
    generalize findFirstZero (s.data b) = bit at hlt hclear
    have hbit : testBit (s.data b) bit = false := hclear
    rw [if_neg (by rw [hbit]; exact Bool.false_ne_true)]
    have hbehind := v.behind k v.super
    have hpos : 0 < bit + m * 8192 := by
      by_contra h0
      have hb0 : bit = 0 := by omega
      have hm0 : m = 0 := by omega
      subst hb0 hm0
      rw [v.first k b v.super hmap] at hbit
      cases hbit
    have hzone : ¬bit + m * 8192 + (s.supers k).firstdatazone - 1 ≥ (s.supers k).nzones := by
      intro hge
      rw [v.beyond m b bit hmap hlt hge] at hbit
      cases hbit
    have hdiv : (bit + m * 8192 + (s.supers k).firstdatazone - 1 + 1 -
        (s.supers k).firstdatazone) / 8192 = m := by omega
    have hmod : (bit + m * 8192 + (s.supers k).firstdatazone - 1 + 1 -
        (s.supers k).firstdatazone) % 8192 = bit := by omega
    have hle : (s.supers k).firstdatazone ≤ bit + m * 8192 + (s.supers k).firstdatazone - 1 := by omega
    generalize bit + m * 8192 + (s.supers k).firstdatazone - 1 = j at *
    have hfree : j ∈ s.freeZones k := by
      apply mem_freeZones.mpr
      refine ⟨hle, Nat.not_le.mp hzone, ?_⟩
      rw [zoneBit_some (by rw [hdiv]; exact hmap), hmod]
      exact hbit
    have hunused : (s.setData b (setBit (s.data b) bit)).bcount (dev, j) = 0 := v.unused j hfree
    rw [if_neg hzone, if_neg (not_not_intro hunused)]
    refine .inr ⟨j, b, hfree, by rw [hdiv]; exact hmap, ?_⟩
    unfold Fs.takeZone
    rw [hmod]

theorem Volume.newBlock_pos (v : Volume s dev k) (h : n ∈ s.freeZones k) : n ≠ 0 := by
  have hbehind := v.behind k v.super
  have hle := (mem_freeZones.mp h).1
  omega

/-- What the maps say, and that free zones are not in use, is what counts. -/
theorem Volume.congr (v : Volume s dev k) (hs : s'.supers = s.supers)
    (hb : ∀ n ∈ s.freeZones k, s'.bcount (dev, n) = 0)
    (hd : ∀ m b, (s.supers k).zmap m = some b → s'.data b = s.data b) :
    Volume s' dev k ∧ s'.freeZones k = s.freeZones k := by
  have hsuper : s'.getSuper dev = s.getSuper dev := Fs.getSuper_congr hs dev
  have hk : ∀ k', s'.getSuper dev = some k' → k' = k := by
    intro k' hk'
    rw [hsuper] at hk'
    exact Option.some.inj (hk'.symm.trans v.super)
  have hfree : s'.freeZones k = s.freeZones k := by
    unfold Fs.freeZones Fs.zoneBit
    rw [hs]
    apply Finset.filter_congr
    intro n _
    cases hb' : (s.supers k).zmap ((n + 1 - (s.supers k).firstdatazone) / 8192) with
    | none => exact Iff.rfl
    | some b =>
      dsimp only
      rw [hd _ b hb']
  refine ⟨⟨⟨?_, ?_, ?_, ?_⟩, hsuper.trans v.super, ?_, ?_, ?_, ?_⟩, hfree⟩
  · intro k' hk'
    rw [hk k' hk', hs]
    exact v.behind k v.super
  · intro k' m b hk' hb'
    rw [hk k' hk', hs] at hb' ⊢
    exact v.maps k m b v.super hb'
  · intro k' b hk' hb'
    rw [hk k' hk', hs] at hb'
    rw [hd 0 b hb']
    exact v.first k b v.super hb'
  · intro k' hk'
    rw [hk k' hk', hs]
    exact v.short k v.super
  · rw [hs]
    exact v.covered
  · rw [hs]
    exact v.apart
  · rw [hs]
    intro m b bit hb' hbit hge
    rw [hd m b hb']
    exact v.beyond m b bit hb' hbit hge
  · rw [hfree]
    exact hb

theorem Volume.takeZone_data (v : Volume s dev k) {b : Buffer} (hn : n ∈ s.freeZones k) {m : ℕ}
    {b' : Buffer} (hb' : (s.supers k).zmap m = some b') : (s.takeZone dev k b n).data b' =
      if b' = b then setBit (s.data b) ((n + 1 - (s.supers k).firstdatazone) % 8192) else s.data b' := by
  have hne : b' ≠ (dev, n) := by
    rintro rfl
    exact absurd (v.maps k m _ v.super hb' rfl) (Nat.not_lt.mpr (mem_freeZones.mp hn).1)
  change Function.update (Function.update s.data b _) (dev, n) _ b' = _
  rw [Function.update_of_ne hne]
  split_ifs with h
  · rw [h, Function.update_self]
  · rw [Function.update_of_ne h]

theorem Volume.takeZone_bit (v : Volume s dev k) {b : Buffer} (hn : n ∈ s.freeZones k)
    (hb : (s.supers k).zmap ((n + 1 - (s.supers k).firstdatazone) / 8192) = some b) {l : ℕ}
    (hle : (s.supers k).firstdatazone ≤ l) (hlt : l < (s.supers k).nzones) :
    (s.takeZone dev k b n).zoneBit k l = (s.zoneBit k l || decide (l = n)) := by
  obtain ⟨b', hb'⟩ := v.covered l hle hlt
  rw [zoneBit_some hb', zoneBit_some (s := s.takeZone dev k b n) hb', v.takeZone_data hn hb']
  have hn' := (mem_freeZones.mp hn).1
  change testBit _ ((l + 1 - (s.supers k).firstdatazone) % 8192) = _
  split_ifs with h
  · subst h
    have hslot := v.apart _ _ b' hb' hb
    rw [testBit_setBit]
    congr 1
    apply decide_eq_decide.mpr
    constructor
    · intro he
      omega
    · intro he
      rw [he]
  · have hne : l ≠ n := by
      rintro rfl
      exact h (Option.some.inj (hb'.symm.trans hb))
    rw [decide_eq_false hne, Bool.or_false]

/-- A zone that is taken is free no more, and all others stay as they were. -/
theorem Volume.takeZone (v : Volume s dev k) {b : Buffer} (hn : n ∈ s.freeZones k)
    (hb : (s.supers k).zmap ((n + 1 - (s.supers k).firstdatazone) / 8192) = some b) :
    Volume (s.takeZone dev k b n) dev k ∧
      (s.takeZone dev k b n).freeZones k = (s.freeZones k).erase n := by
  have hset : ∀ m b' l, (s.supers k).zmap m = some b' → testBit (s.data b') l = true →
      testBit ((s.takeZone dev k b n).data b') l = true := by
    intro m b' l hb' hl
    rw [v.takeZone_data hn hb']
    split_ifs with h
    · rw [← h]
      exact setBit_keeps _ hl
    · exact hl
  have hfree : (s.takeZone dev k b n).freeZones k = (s.freeZones k).erase n := by
    ext l
    rw [Finset.mem_erase, mem_freeZones, mem_freeZones]
    change ((s.supers k).firstdatazone ≤ l ∧ l < (s.supers k).nzones ∧ _) ↔ _
    constructor
    · rintro ⟨hle, hlt, hbit⟩
      rw [v.takeZone_bit hn hb hle hlt, Bool.or_eq_false_iff, decide_eq_false_iff_not] at hbit
      exact ⟨hbit.2, hle, hlt, hbit.1⟩
    · rintro ⟨hln, hle, hlt, hbit⟩
      rw [v.takeZone_bit hn hb hle hlt, hbit, decide_eq_false hln]
      exact ⟨hle, hlt, rfl⟩
  refine ⟨⟨⟨v.behind, v.maps, ?_, v.short⟩, v.super, v.covered, v.apart, ?_, ?_⟩, hfree⟩
  · intro k' b' hk' hb'
    obtain rfl : k = k' := Option.some.inj (v.super.symm.trans hk')
    exact hset 0 b' 0 hb' (v.first k b' v.super hb')
  · intro m b' bit hb' hlt' hge
    exact hset m b' bit hb' (v.beyond m b' bit hb' hlt' hge)
  · rw [hfree]
    intro l hl
    exact v.unused l (Finset.mem_of_mem_erase hl)

/-! ### Providing for a place -/

def Place.chain : Place → List Place
  | .singleEntry n => [.singleEntry n, .single]
  | .doubleEntry n => [.doubleEntry n, .double]
  | .doubleEntryEntry n m => [.doubleEntryEntry n m, .doubleEntry n, .double]
  | p => [p]

/-- How many of them have no block. -/
def DInode.lacking (d : DInode) (data : ℕ → Block) (p : Place) : ℕ :=
  (p.chain.filter fun q => d.blockAt data q = 0).length

theorem chain_root {p : Place} (h : p.up = none) : p.chain = [p] := by
  cases p <;> first | rfl | cases h

theorem chain_entry {p q : Place} {m : ℕ} (h : p.up = some (q, m)) : p.chain = p :: q.chain := by
  cases p <;> cases h <;> rfl

theorem lacking_root {p : Place} (h : p.up = none) (d : DInode) (data : ℕ → Block) :
    d.lacking data p = if d.blockAt data p = 0 then 1 else 0 := by
  unfold DInode.lacking
  rw [chain_root h]
  split_ifs with h0
  · rw [List.filter_cons_of_pos (by simpa using h0)]
    rfl
  · rw [List.filter_cons_of_neg (by simpa using h0)]
    rfl

theorem lacking_entry {p q : Place} {m : ℕ} (h : p.up = some (q, m)) (d : DInode)
    (data : ℕ → Block) :
    d.lacking data p = d.lacking data q + if d.blockAt data p = 0 then 1 else 0 := by
  unfold DInode.lacking
  rw [chain_entry h]
  split_ifs with h0
  · rw [List.filter_cons_of_pos (by simpa using h0), List.length_cons]
  · rw [List.filter_cons_of_neg (by simpa using h0), Nat.add_zero]

theorem lacking_zero {d : DInode} {data : ℕ → Block} {p : Place} (h : d.blockAt data p ≠ 0) :
    d.lacking data p = 0 := by
  induction p using Place.induction with
  | root p hp => rw [lacking_root hp, if_neg h]
  | entry p q m hp ih =>
    rw [lacking_entry hp, if_neg h, Nat.add_zero]
    apply ih
    rw [blockAt_entry hp] at h
    exact (entryOf_ne h).1

/-- A place of a file has been provided for from the free zones of its device. -/
structure Supplied (s s' : Fs) (i : Slot) (k : Fin NR_SUPER) (p : Place) (n : ℕ) : Prop where
  provided : Provided s i p n s'
  volume : Volume s' (s.inodes i).dev k
  none : n = 0 → s' = s ∧ s.at i p = 0 ∧ s.freeZones k = ∅
  some : s.at i p = 0 → n ≠ 0 → (s'.freeZones k).card + 1 = (s.freeZones k).card
  fewer : s'.freeZones k ⊆ s.freeZones k

theorem supplied_mapped {p : Place} (v : Volume s (s.inodes i).dev k) (h : s.at i p ≠ 0) :
    Supplied s s i k p (s.at i p) :=
  ⟨⟨fun _ => ⟨rfl, rfl⟩, fun h0 => absurd h0 h⟩, v, fun h0 => absurd h0 h, fun h0 => absurd h0 h,
    fun _ hl => hl⟩

theorem supplied_none {p : Place} (v : Volume s (s.inodes i).dev k) (h : s.at i p = 0)
    (hempty : s.freeZones k = ∅) : Supplied s s i k p 0 :=
  ⟨⟨fun h0 => absurd h h0, fun _ h0 => absurd rfl h0⟩, v, fun _ => ⟨rfl, h, hempty⟩,
    fun _ h0 => absurd rfl h0, fun _ hl => hl⟩

/-- A free zone is taken for it, and then the maps stay. -/
theorem supplied_new {p : Place} {s₁ : Fs} (v : Volume s₁ (s.inodes i).dev k)
    (hfree : s₁.freeZones k = (s.freeZones k).erase n) (hn : n ∈ s.freeZones k) (hn0 : n ≠ 0)
    (hs : s'.supers = s₁.supers) (hb : s'.bcount = s.bcount)
    (hd : ∀ m b, (s₁.supers k).zmap m = some b → s'.data b = s₁.data b)
    (hu : ∀ m ∈ s.freeZones k, s.bcount ((s.inodes i).dev, m) = 0)
    (hp : Provided s i p n s') : Supplied s s' i k p n := by
  have hu₁ : ∀ m ∈ s₁.freeZones k, s'.bcount ((s.inodes i).dev, m) = 0 := by
    intro m hm
    rw [hfree] at hm
    rw [hb]
    exact hu m (Finset.mem_of_mem_erase hm)
  obtain ⟨v', hfree'⟩ := v.congr hs hu₁ hd
  rw [hfree] at hfree'
  refine ⟨hp, v', fun h0 => absurd h0 hn0, fun _ _ => ?_, ?_⟩
  · rw [hfree', Finset.card_erase_of_mem hn]
    exact Nat.sub_add_cancel (Finset.card_pos.mpr ⟨n, hn⟩)
  · rw [hfree']
    exact Finset.erase_subset _ _

theorem Volume.fillZone (v : Volume s (s.inodes i).dev k) (hg : Grounded s i) {p : Place}
    (hp : p.up = none) :
    ∃ n s', Minix.fillZone true i p.zone s = .ok n s' ∧ Supplied s s' i k p n := by
  have hat : s.at i p = ((s.inodes i).zone p.zone).toNat := blockAt_root hp _ _
  by_cases h0 : (s.inodes i).zone p.zone = 0
  · have hz : s.at i p = 0 := by
      rw [hat, h0]
      rfl
    rcases v.newBlock_eq with ⟨hempty, hnew⟩ | ⟨n, b, hn, hb, hnew⟩
    · refine ⟨0, s, ?_, supplied_none v hz hempty⟩
      unfold Minix.fillZone
      rw [if_pos ⟨rfl, h0⟩, hnew]
      rfl
    · have hn0 := v.newBlock_pos hn
      obtain ⟨v₁, hfree⟩ := v.takeZone hn hb
      have heq : Minix.fillZone true i p.zone s = .ok n
          (((s.takeZone (s.inodes i).dev k b n).setZone i p.zone (UInt16.ofNat n)).setInode i
            { ((s.takeZone (s.inodes i).dev k b n).setZone i p.zone (UInt16.ofNat n)).inodes i with
              dirt := true }) := by
        unfold Minix.fillZone
        rw [if_pos ⟨rfl, h0⟩, hnew, Outcome.bind_ok, if_pos hn0]
      refine ⟨_, _, heq, supplied_new v₁ hfree hn hn0 rfl rfl (fun _ _ _ => rfl) v.unused ?_⟩
      exact (fillZone_provided hg hp).of_ok heq
  · refine ⟨_, s, fillZone_mapped h0 true, ?_⟩
    rw [← hat]
    apply supplied_mapped v
    rw [hat]
    exact fun hc => h0 (UInt16.toNat_inj.mp hc)

theorem Volume.marked_not_free (v : Volume s dev k) (h : s.Marked dev n) : n ∉ s.freeZones k := by
  obtain ⟨k', b, hk', -, hb, hbit⟩ := h
  obtain rfl : k = k' := Option.some.inj (v.super.symm.trans hk')
  intro hn
  have hclear := (mem_freeZones.mp hn).2.2
  rw [zoneBit_some hb, hbit] at hclear
  cases hclear

theorem Volume.fillEntry (v : Volume s (s.inodes i).dev k) (hq : Quiet s) (hg : Grounded s i)
    {p q : Place} {m : ℕ} (hp : p.up = some (q, m)) (h : s.at i q ≠ 0) :
    ∃ n s', Minix.fillEntry true (s.inodes i).dev (s.at i q) m s = .ok n s' ∧
      Supplied s s' i k p n := by
  have hat : s.at i p = (word (s.data ((s.inodes i).dev, s.at i q)) (2 * m)).toNat := by
    unfold Fs.at
    rw [blockAt_entry hp]
    exact if_neg h
  by_cases h0 : word (s.data ((s.inodes i).dev, s.at i q)) (2 * m) = 0
  · have hz : s.at i p = 0 := by
      rw [hat, h0]
      rfl
    -- the indirect block is held, and is not free
    have hnot := v.marked_not_free (hg.marks q h)
    obtain ⟨vh, hfreeh⟩ := v.congr
        (rfl : (s.hold ((s.inodes i).dev, s.at i q)).supers = s.supers) (fun l hl => by
      have hne : ((s.inodes i).dev, l) ≠ ((s.inodes i).dev, s.at i q) := by
        intro hc
        exact hnot ((Prod.mk.inj hc).2 ▸ hl)
      exact (Function.update_of_ne hne _ _).trans (v.unused l hl)) fun _ _ _ => rfl
    rcases vh.newBlock_eq with ⟨hempty, hnew⟩ | ⟨n, b, hn, hb, hnew⟩
    · rw [hfreeh] at hempty
      refine ⟨0, s, ?_, supplied_none v hz hempty⟩
      unfold Minix.fillEntry
      rw [hq.bread, Outcome.bind_ok]
      dsimp only
      rw [if_pos ⟨rfl, h0⟩, hnew, Outcome.bind_ok, if_neg (not_not_intro rfl), Outcome.bind_ok,
        brelse_hold, Outcome.bind_ok]
    · rw [hfreeh] at hn
      have hn0 := v.newBlock_pos hn
      obtain ⟨v₁, hfree⟩ := v.takeZone hn hb
      have heq : Minix.fillEntry true (s.inodes i).dev (s.at i q) m s = .ok n
          ((s.takeZone (s.inodes i).dev k b n).setData ((s.inodes i).dev, s.at i q)
            (setWord ((s.takeZone (s.inodes i).dev k b n).data ((s.inodes i).dev, s.at i q)) (2 * m)
              (UInt16.ofNat n))) := by
        unfold Minix.fillEntry
        rw [hq.bread, Outcome.bind_ok]
        dsimp only
        rw [if_pos ⟨rfl, h0⟩, hnew, Outcome.bind_ok, if_pos hn0, Outcome.bind_ok]
        change (brelse _ (((s.takeZone (s.inodes i).dev k b n).setData ((s.inodes i).dev, s.at i q)
          (setWord ((s.takeZone (s.inodes i).dev k b n).data ((s.inodes i).dev, s.at i q)) (2 * m)
            (UInt16.ofNat n))).hold _)).bind _ = _
        rw [brelse_hold, Outcome.bind_ok]
      refine ⟨_, _, heq, supplied_new v₁ hfree hn hn0 rfl rfl ?_ v.unused ?_⟩
      · intro l b' hb'
        apply Function.update_of_ne
        rintro rfl
        exact hg.marked_ne (hg.marks q h) ⟨k, l, v.super, hb'⟩ rfl
      · exact (fillEntry_provided hq hg hp h).of_ok heq
  · refine ⟨_, s, hq.fillEntry_mapped h0 true, ?_⟩
    rw [← hat]
    apply supplied_mapped v
    rw [hat]
    exact fun hc => h0 (UInt16.toNat_inj.mp hc)

theorem Supplied.deepened {q : Place} (h : Supplied s s' i k q n) (hg : Grounded s i)
    (hq : ∀ l, q ≠ placeOf l) (hn : n ≠ 0) : Deepened s s' i ∧ s'.at i q = n ∧
      (s'.freeZones k).card + (if s.at i q = 0 then 1 else 0) = (s.freeZones k).card ∧
      ∀ p, p ≠ q → s'.at i p = s.at i p := by
  obtain ⟨hd, hat⟩ := h.provided.deepened hg hq hn
  refine ⟨hd, hat, ?_, ?_⟩
  · split_ifs with h0
    · exact h.some h0 hn
    · rw [(h.provided.1 h0).1, Nat.add_zero]
  · intro p hp
    by_cases h0 : s.at i q = 0
    · rw [(h.provided.2 h0 hn).at_eq, if_neg hp]
    · rw [(h.provided.1 h0).1]

theorem Supplied.given {p : Place} (h : Supplied s s' i k p n) (h0 : s.at i p = 0) :
    n ≠ 0 ↔ 0 < (s.freeZones k).card := by
  constructor
  · intro hn
    have hcard := h.some h0 hn
    omega
  · rintro hcard rfl
    rw [(h.none rfl).2.2, Finset.card_empty] at hcard
    exact absurd hcard (lt_irrefl 0)

/-- What `create_block` does on a sound device, for a block that is not there. -/
structure Attempted (s s' : Fs) (i : Slot) (k : Fin NR_SUPER) (l n : ℕ) : Prop where
  given : n ≠ 0 ↔ (s.inodes i).lacking (s.blocks (s.inodes i).dev) (placeOf l) ≤ (s.freeZones k).card
  volume : Volume s' (s.inodes i).dev k
  fewer : s'.freeZones k ⊆ s.freeZones k
  none : n = 0 → Deepened s s' i

theorem Supplied.attempted {s₁ : Fs} {l : ℕ} (h : Supplied s₁ s' i k (placeOf l) n)
    (hd : Deepened s s₁ i) (h0 : s.blockOf i l = 0) (hfewer : s₁.freeZones k ⊆ s.freeZones k)
    (hcard : (s.inodes i).lacking (s.blocks (s.inodes i).dev) (placeOf l) + (s₁.freeZones k).card =
      (s.freeZones k).card + 1) : Attempted s s' i k l n := by
  have hz : s₁.at i (placeOf l) = 0 := (hd.blocks l).trans h0
  refine ⟨?_, hd.device ▸ h.volume, h.fewer.trans hfewer, ?_⟩
  · rw [h.given hz]
    omega
  · intro hn
    rw [(h.none hn).1]
    exact hd

theorem attempted_short {s₁ : Fs} {l : ℕ} (hd : Deepened s s₁ i)
    (v : Volume s₁ (s.inodes i).dev k) (hfewer : s₁.freeZones k ⊆ s.freeZones k)
    (hlack : (s.freeZones k).card <
      (s.inodes i).lacking (s.blocks (s.inodes i).dev) (placeOf l)) : Attempted s s₁ i k l 0 :=
  ⟨iff_of_false (not_not_intro rfl) (Nat.not_le.mpr hlack), v, hfewer, fun _ => hd⟩

theorem Volume.createBlock (v : Volume s (s.inodes i).dev k) (hq : Quiet s) (hg : Grounded s i) {l : ℕ}
    (hl : l < 7 + 512 + 512 * 512) (h0 : s.blockOf i l = 0) :
    ∃ n s', Minix.createBlock i l s = .ok n s' ∧ Attempted s s' i k l n := by
  have hz : (s.inodes i).blockAt (s.blocks (s.inodes i).dev) (placeOf l) = 0 := h0
  unfold Minix.createBlock bmapWith
  rw [if_neg (Nat.not_le.mpr hl)]
  by_cases h7 : l < 7
  · have hplace : placeOf l = .direct ⟨l, h7⟩ := dif_pos h7
    have hroot : (placeOf l).up = none := by rw [hplace]; rfl
    have hzone : Fin.ofNat 9 l = (placeOf l).zone := by
      rw [hplace]
      exact Fin.ext (Nat.mod_eq_of_lt (by omega))
    obtain ⟨n, s', he, hs⟩ := v.fillZone hg hroot
    rw [if_pos h7, hzone]
    refine ⟨n, s', he, hs.attempted (.refl hg) h0 (fun _ hm => hm) ?_⟩
    rw [lacking_root hroot, if_pos hz, Nat.add_comm]
  rw [if_neg h7]
  by_cases h512 : l - 7 < 512
  · have hplace : placeOf l = .singleEntry (Fin.ofNat 512 (l - 7)) := by
      unfold placeOf
      rw [dif_neg h7, if_pos h512]
    have hup : (placeOf l).up = some (.single, l - 7) := by
      have hval : (Fin.ofNat 512 (l - 7) : Fin 512).val = l - 7 := Nat.mod_eq_of_lt h512
      rw [hplace]
      exact congrArg (fun m => some (_, m)) hval
    have hlack : (s.inodes i).lacking (s.blocks (s.inodes i).dev) (placeOf l) =
        (if s.at i .single = 0 then 1 else 0) + 1 := by
      rw [lacking_entry hup, lacking_root (p := .single) rfl, if_pos hz]
      rfl
    obtain ⟨ind, s₁, he₁, hs₁⟩ := v.fillZone (p := .single) hg rfl
    rw [if_pos h512]
    change ∃ n s', ((Minix.fillZone true i Place.single.zone s).bind _) = _ ∧ _
    rw [he₁, Outcome.bind_ok]
    by_cases hind : ind = 0
    · obtain ⟨rfl, hno, hempty⟩ := hs₁.none hind
      rw [if_pos hind]
      refine ⟨0, s₁, rfl, attempted_short (.refl hg) hs₁.volume (fun _ hm => hm) ?_⟩
      rw [hlack, hempty, Finset.card_empty]
      exact Nat.succ_pos _
    · obtain ⟨hd₁, hat₁, hcard₁, -⟩ := hs₁.deepened hg (up_ne_placeOf hup) hind
      have v₁ := hs₁.volume
      rw [← hd₁.device] at v₁
      subst hat₁
      obtain ⟨n, s', he, hs⟩ := v₁.fillEntry (hd₁.quiet hq) hd₁.grounded hup hind
      rw [if_neg hind]
      refine ⟨n, s', he, hs.attempted hd₁ h0 hs₁.fewer ?_⟩
      rw [hlack]
      omega
  · have hplace : placeOf l = .doubleEntryEntry (Fin.ofNat 512 ((l - 7 - 512) / 512))
        (Fin.ofNat 512 ((l - 7 - 512) % 512)) := by
      unfold placeOf
      rw [dif_neg h7, if_neg h512]
    generalize hentry : Place.doubleEntry (Fin.ofNat 512 ((l - 7 - 512) / 512)) = q
    have hup : (placeOf l).up = some (q, (l - 7 - 512) % 512) := by
      have hval : (Fin.ofNat 512 ((l - 7 - 512) % 512) : Fin 512).val = (l - 7 - 512) % 512 :=
        Nat.mod_mod _ _
      rw [hplace, ← hentry]
      exact congrArg (fun m => some (_, m)) hval
    have hup' : q.up = some (.double, (l - 7 - 512) / 512) := by
      have hval : (Fin.ofNat 512 ((l - 7 - 512) / 512) : Fin 512).val = (l - 7 - 512) / 512 :=
        Nat.mod_eq_of_lt (by omega)
      rw [← hentry]
      exact congrArg (fun m => some (_, m)) hval
    have hne : q ≠ .double := by
      rw [← hentry]
      exact fun hc => nomatch hc
    have hlack : (s.inodes i).lacking (s.blocks (s.inodes i).dev) (placeOf l) =
        (if s.at i .double = 0 then 1 else 0) + (if s.at i q = 0 then 1 else 0) + 1 := by
      rw [lacking_entry hup, lacking_entry hup', lacking_root (p := .double) rfl, if_pos hz]
      rfl
    obtain ⟨dind, s₁, he₁, hs₁⟩ := v.fillZone (p := .double) hg rfl
    rw [if_neg h512]
    change ∃ n s', ((Minix.fillZone true i Place.double.zone s).bind _) = _ ∧ _
    rw [he₁, Outcome.bind_ok]
    by_cases hdind : dind = 0
    · obtain ⟨rfl, hno, hempty⟩ := hs₁.none hdind
      rw [if_pos hdind]
      refine ⟨0, s₁, rfl, attempted_short (.refl hg) hs₁.volume (fun _ hm => hm) ?_⟩
      rw [hlack, hempty, Finset.card_empty]
      exact Nat.succ_pos _
    · obtain ⟨hd₁, hat₁, hcard₁, hrest₁⟩ := hs₁.deepened hg (up_ne_placeOf hup') hdind
      have v₁ := hs₁.volume
      rw [← hd₁.device] at v₁
      subst hat₁
      have hat' : s₁.at i q = s.at i q := hrest₁ q hne
      obtain ⟨ind, s₂, he₂, hs₂⟩ := v₁.fillEntry (hd₁.quiet hq) hd₁.grounded hup' hdind
      rw [if_neg hdind, he₂, Outcome.bind_ok]
      by_cases hind : ind = 0
      · obtain ⟨rfl, hno, hempty⟩ := hs₂.none hind
        rw [if_pos hind]
        refine ⟨0, s₂, rfl, attempted_short hd₁ (hd₁.device ▸ v₁) hs₁.fewer ?_⟩
        rw [hempty, Finset.card_empty] at hcard₁
        rw [hat'] at hno
        rw [hlack, if_pos hno]
        omega
      · obtain ⟨hd₂, hat₂, hcard₂, -⟩ := hs₂.deepened hd₁.grounded (up_ne_placeOf hup) hind
        have v₂ := hs₂.volume
        rw [← hd₂.device] at v₂
        subst hat₂
        have hd := hd₁.trans hd₂
        obtain ⟨n, s', he, hs⟩ := v₂.fillEntry (hd.quiet hq) hd.grounded hup hind
        rw [if_neg hind]
        refine ⟨n, s', he, hs.attempted hd h0 (hs₂.fewer.trans hs₁.fewer) ?_⟩
        rw [hat'] at hcard₂
        rw [hlack]
        omega

/-! ### Room in a directory -/

/-- A directory has a free entry, or what it lacks for one more block can be had from so many zones. -/
def DInode.HasRoom (d : DInode) (data : ℕ → Block) (zones : ℕ) : Prop :=
  (∃ m < d.size.toNat / 16, entryInode (data (d.block data (m / DIR_ENTRIES_PER_BLOCK)))
    (m % DIR_ENTRIES_PER_BLOCK) = 0) ∨
  d.size.toNat / 16 / DIR_ENTRIES_PER_BLOCK < 7 + 512 + 512 * 512 ∧
    d.lacking data (placeOf (d.size.toNat / 16 / DIR_ENTRIES_PER_BLOCK)) ≤ zones

def Fs.roomIn (s : Fs) (i : Slot) (k : Fin NR_SUPER) : Prop :=
  (s.inodes i).HasRoom (s.blocks (s.inodes i).dev) (s.freeZones k).card

theorem roomIn_iff : s.roomIn i k ↔ (∃ m < s.entries i, dirEntries.live (s.slotAt i m) = false) ∨
    s.entries i / DIR_ENTRIES_PER_BLOCK < 7 + 512 + 512 * 512 ∧
      (s.inodes i).lacking (s.blocks (s.inodes i).dev) (placeOf (s.entries i / DIR_ENTRIES_PER_BLOCK)) ≤
        (s.freeZones k).card := by
  apply or_congr _ Iff.rfl
  apply exists_congr
  intro m
  apply and_congr Iff.rfl
  unfold Fs.slotAt
  rw [live_entry, decide_eq_false_iff_not, not_not]
  exact Iff.rfl

theorem Room.roomIn {m : ℕ} (h : Room s i m) (k : Fin NR_SUPER) : s.roomIn i k := by
  rw [roomIn_iff]
  by_cases hlt : m < s.entries i
  · exact .inl ⟨m, hlt, h.free hlt⟩
  · have hm : m = s.entries i := le_antisymm h.le (Nat.not_lt.mp hlt)
    obtain ⟨hbig, hblock⟩ := h.mapped
    rw [hm] at hbig hblock
    refine .inr ⟨hbig, ?_⟩
    rw [lacking_zero hblock]
    exact Nat.zero_le _

structure Refused (s s' : Fs) (i : Slot) (k : Fin NR_SUPER) : Prop where
  full : ¬s.roomIn i k
  deepened : Deepened s s' i
  volume : Volume s' (s.inodes i).dev k
  fewer : s'.freeZones k ⊆ s.freeZones k

/-- Room is found if there is any. -/
def Finds (s s' : Fs) (i : Slot) (k : Fin NR_SUPER) (r : Option (Buffer × ℕ)) : Prop :=
  (r ≠ none → s.roomIn i k) ∧ (r = none → Refused s s' i k)

theorem finds_some (h : s.roomIn i k) (r : Buffer × ℕ) : Finds s s' i k (some r) :=
  ⟨fun _ => h, fun hc => absurd hc (Option.some_ne_none r)⟩

theorem addBlocks_room {left : ℕ} : ∀ {l : ℕ} {s : Fs}, MappedDir s i → Volume s (s.inodes i).dev k →
    s.Mapped i l → DIR_ENTRIES_PER_BLOCK * l ≤ s.entries i →
    (∀ m < DIR_ENTRIES_PER_BLOCK * l, dirEntries.live (s.slotAt i m) = true) →
    left + l + 1 = 7 + 512 + 512 * 512 →
    (addBlocks i name left l (some ((s.inodes i).dev, s.blockOf i l))
      (s.hold ((s.inodes i).dev, s.blockOf i l))).Sat (fun r s' => Finds s s' i k r)
        fun _ => ¬s.roomIn i k := by
  -- nothing is free, and the block behind the last one is not there
  have hfull : ∀ {l : ℕ} {s : Fs}, s.entries i = DIR_ENTRIES_PER_BLOCK * l →
      (∀ m < DIR_ENTRIES_PER_BLOCK * l, dirEntries.live (s.slotAt i m) = true) →
      (l < 7 + 512 + 512 * 512 → (s.freeZones k).card <
        (s.inodes i).lacking (s.blocks (s.inodes i).dev) (placeOf l)) → ¬s.roomIn i k := by
    intro l s he hlive hlack hroom
    rw [roomIn_iff] at hroom
    have hdiv : s.entries i / DIR_ENTRIES_PER_BLOCK = l := by
      rw [he]
      exact Nat.mul_div_cancel_left l (by decide)
    rw [hdiv] at hroom
    rcases hroom with ⟨m, hm, hfree⟩ | ⟨hl, hle⟩
    · rw [hlive m (by omega)] at hfree
      cases hfree
    · exact absurd hle (Nat.not_le.mpr (hlack hl))
  induction left with
  | zero =>
    intro l s hd v hm hl hlive hleft
    unfold addBlocks
    have hroom : roomHere ((s.hold ((s.inodes i).dev, s.blockOf i l)).inodes i).size.toNat l
        (some ((s.inodes i).dev, s.blockOf i l)) (s.hold ((s.inodes i).dev, s.blockOf i l)) =
        (findRoom (s.dirData i l) (s.inodes i).size.toNat l).map
          fun j => (((s.inodes i).dev, s.blockOf i l), j) := rfl
    rw [hroom]
    cases hf : findRoom (s.dirData i l) (s.inodes i).size.toNat l with
    | some j => exact finds_some ((findRoom_some hd hm hl hlive hf).2.roomIn k) _
    | none =>
      obtain ⟨hl', hlive'⟩ := findRoom_none hd hlive hf
      dsimp only [Option.map_none]
      rw [brelse_hold, Outcome.bind_ok]
      refine hfull (le_antisymm ?_ hl') hlive' fun hc => by omega
      by_contra hlt
      have hbig := (hd.mapped (l + 1) (Nat.not_le.mp hlt)).1
      omega
  | succ left ih =>
    intro l s hd v hm hl hlive hleft
    unfold addBlocks
    have hroom : roomHere ((s.hold ((s.inodes i).dev, s.blockOf i l)).inodes i).size.toNat l
        (some ((s.inodes i).dev, s.blockOf i l)) (s.hold ((s.inodes i).dev, s.blockOf i l)) =
        (findRoom (s.dirData i l) (s.inodes i).size.toNat l).map
          fun j => (((s.inodes i).dev, s.blockOf i l), j) := rfl
    rw [hroom]
    cases hf : findRoom (s.dirData i l) (s.inodes i).size.toNat l with
    | some j => exact finds_some ((findRoom_some hd hm hl hlive hf).2.roomIn k) _
    | none =>
      obtain ⟨hl', hlive'⟩ := findRoom_none hd hlive hf
      dsimp only [Option.map_none]
      rw [brelse_hold, Outcome.bind_ok]
      have hbig : l + 1 < 7 + 512 + 512 * 512 := by omega
      by_cases hblock : s.blockOf i (l + 1) = 0
      · have hend : s.entries i = DIR_ENTRIES_PER_BLOCK * (l + 1) := by
          refine le_antisymm ?_ hl'
          by_contra hlt
          exact (hd.mapped (l + 1) (Nat.not_le.mp hlt)).2 hblock
        obtain ⟨n, s₁, he, ha⟩ := v.createBlock hd.quiet hd.grounded hbig hblock
        have hcreated := (createBlock_created hd.quiet hd.grounded hbig hblock).of_ok he
        rw [he, Outcome.bind_ok]
        split_ifs with hn
        · refine ⟨fun hc => absurd rfl hc, fun _ => ⟨?_, ha.none hn, ha.volume, ha.fewer⟩⟩
          apply hfull hend hlive'
          intro _
          by_contra hlack
          exact ha.given.mpr (Nat.not_lt.mp hlack) hn
        · -- the directory has grown, and there is room
          have hhere : s.roomIn i k := by
            rw [roomIn_iff, hend, Nat.mul_div_cancel_left _ (by decide : 0 < DIR_ENTRIES_PER_BLOCK)]
            exact .inr ⟨hbig, ha.given.mp hn⟩
          obtain ⟨hext, hm₁⟩ := (hcreated hn).extends hd hbig (le_of_eq hend) hn
          have hself := (hcreated hn).self
          have hdev : (s₁.inodes i).dev = (s.inodes i).dev := by
            obtain ⟨zone, dirt, hi⟩ := hext.inode
            rw [hi]
          have v₁ := ha.volume
          rw [← hdev] at v₁
          have hroom₁ : s₁.roomIn i k := by
            rw [roomIn_iff, hext.entries, hend,
              Nat.mul_div_cancel_left _ (by decide : 0 < DIR_ENTRIES_PER_BLOCK)]
            refine .inr ⟨hbig, ?_⟩
            rw [lacking_zero hm₁.2]
            exact Nat.zero_le _
          rw [hext.mapped.quiet.bread, Outcome.bind_ok, ← hself]
          refine (ih hext.mapped v₁ hm₁ ?_ ?_ (by omega)).mono (fun r s' hr => ?_) fun _ hno => ?_
          · rw [hext.entries]
            exact hl'
          · intro m hm'
            rw [hext.slots m (by omega)]
            exact hlive' m hm'
          · exact ⟨fun _ => hhere, fun hnone => absurd hroom₁ (hr.2 hnone).full⟩
          · exact absurd hroom₁ hno
      · rw [createBlock_mapped hd.quiet hbig hblock, Outcome.bind_ok, if_neg hblock, hd.quiet.bread,
          Outcome.bind_ok]
        exact ih hd v ⟨hbig, hblock⟩ hl' hlive' (by omega)

/-- `add_entry` comes back with an entry if and only if there is room. -/
theorem addEntry_room (hd : MappedDir s i) (v : Volume s (s.inodes i).dev k)
    (hname : name.take NAME_LEN ≠ []) (hz : (s.inodes i).zone 0 ≠ 0) :
    (addEntry i name s).Sat (fun r s' => Finds s s' i k r) fun _ => ¬s.roomIn i k := by
  unfold addEntry
  dsimp only
  rw [if_neg hname, if_neg hz, hd.quiet.bread, Outcome.bind_ok]
  refine addBlocks_room hd v ⟨by decide, ?_⟩ (Nat.zero_le _) ?_ rfl
  · rw [blockOf_zero]
    exact fun hc => hz (UInt16.toNat_inj.mp hc)
  · intro m hm
    exact absurd hm (Nat.not_lt_zero m)

theorem blockAt_congr {d d' : DInode} {data data' : ℕ → Block} (hzone : d'.zone = d.zone)
    (hdata : ∀ p, d.blockAt data p ≠ 0 → data' (d.blockAt data p) = data (d.blockAt data p))
    (p : Place) : d'.blockAt data' p = d.blockAt data p := by
  induction p using Place.induction with
  | root p hp => rw [blockAt_root hp, blockAt_root hp, hzone]
  | entry p q m hp ih =>
    rw [blockAt_entry hp, blockAt_entry hp, ih]
    unfold entryOf
    split_ifs with h0
    · rfl
    · rw [hdata q h0]

theorem hasRoom_congr {d d' : DInode} {data data' : ℕ → Block} (hsize : d'.size = d.size)
    (hzone : d'.zone = d.zone)
    (hdata : ∀ p, d.blockAt data p ≠ 0 → data' (d.blockAt data p) = data (d.blockAt data p))
    (hmapped : ∀ m < d.size.toNat / 16, d.block data (m / DIR_ENTRIES_PER_BLOCK) ≠ 0) (zones : ℕ) :
    d'.HasRoom data' zones ↔ d.HasRoom data zones := by
  have hat := blockAt_congr hzone hdata
  unfold DInode.HasRoom DInode.lacking
  rw [hsize]
  apply or_congr
  · apply exists_congr
    intro m
    apply and_congr_right
    intro hm
    have hblock : d'.block data' (m / DIR_ENTRIES_PER_BLOCK) = d.block data (m / DIR_ENTRIES_PER_BLOCK) :=
      hat _
    have hsame : data' (d.block data (m / DIR_ENTRIES_PER_BLOCK)) =
        data (d.block data (m / DIR_ENTRIES_PER_BLOCK)) := hdata _ (hmapped m hm)
    rw [hblock, hsame]
  · simp only [hat]

theorem MappedDir.congr (h : MappedDir s i) (hq : Quiet s') (hi : s'.inodes i = s.inodes i)
    (hdata : ∀ p, s.at i p ≠ 0 → s'.data ((s.inodes i).dev, s.at i p) = s.data ((s.inodes i).dev, s.at i p))
    (hz : Zoned s' (s.inodes i).dev)
    (hm : ∀ n, s.Marked (s.inodes i).dev n → s'.Marked (s.inodes i).dev n) : MappedDir s' i := by
  have hat : ∀ p, s'.at i p = s.at i p := by
    intro p
    unfold Fs.at
    rw [hi]
    exact @blockAt_congr (s.inodes i).toDInode _ _ (s'.blocks (s.inodes i).dev) rfl hdata p
  have hentries : s'.entries i = s.entries i := by
    unfold Fs.entries
    rw [hi]
  refine ⟨hq, { toZoned := ?_, marks := ?_, distinct := ?_ }, ?_, ?_⟩
  · rw [hi]
    exact hz
  · intro p hp
    rw [hat] at hp ⊢
    rw [hi]
    exact hm _ (h.grounded.marks p hp)
  · intro p q hp he
    rw [hat] at hp he
    rw [hat] at he
    exact h.grounded.distinct p q hp he
  · rw [hi]
    exact h.whole
  · intro l hl
    rw [hentries] at hl
    have hblock : s'.blockOf i l = s.blockOf i l := hat _
    exact ⟨(h.mapped l hl).1, by rw [hblock]; exact (h.mapped l hl).2⟩

end Linux011.Minix
