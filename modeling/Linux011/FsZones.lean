import Linux011.FsQuiet
import Linux011.FsWalks

set_option autoImplicit false

/-!
# Taking blocks

A block that is taken is none of those that files have, as long as these are marked in the map of zones.
A file gets it in one place, and what it has elsewhere stays.
-/
namespace Linux011.Minix
open Outcomes

variable {s s' s'' : Fs} {dev n : ℕ} {i : Slot}

/-! ### Bits -/

theorem testBit_setBit (b : Block) (m n : ℕ) :
    testBit (setBit b m) n = (testBit b n || decide (m = n)) := by
  unfold testBit setBit
  have hpow : 2 ^ (m % 8) < 256 :=
    (Nat.pow_lt_pow_right (by decide) (Nat.mod_lt m (by decide))).trans_eq (by decide : 2 ^ 8 = 256)
  by_cases hbyte : n / 8 = m / 8
  · rw [hbyte, Function.update_self, UInt8.toNat_or, UInt8.toNat_ofNat', Nat.mod_eq_of_lt hpow,
      Nat.testBit_or, Nat.testBit_two_pow]
    congr 1
    apply decide_eq_decide.mpr
    omega
  · rw [Function.update_of_ne hbyte]
    have hne : m ≠ n := fun hc => hbyte (by rw [hc])
    rw [decide_eq_false hne, Bool.or_false]

theorem setBit_self (b : Block) (n : ℕ) : testBit (setBit b n) n = true := by
  rw [testBit_setBit, decide_eq_true rfl, Bool.or_true]

theorem setBit_keeps {b : Block} (m : ℕ) (h : testBit b n = true) : testBit (setBit b m) n = true := by
  rw [testBit_setBit, h, Bool.true_or]

theorem findFirstZero_clear {b : Block} (h : findFirstZero b < 8192) :
    testBit b (findFirstZero b) = false := by
  unfold findFirstZero at h ⊢
  cases hf : (List.range 8192).find? fun n => !testBit b n with
  | none =>
    rw [hf] at h
    exact absurd h (by decide)
  | some n =>
    rw [Option.getD_some]
    simpa using List.find?_some hf

theorem firstFree_some {map : ℕ → Option Buffer} {m : ℕ} {b : Buffer}
    (h : firstFree map s = some (m, b)) :
    m < MAP_SLOTS ∧ map m = some b ∧ findFirstZero (s.data b) < 8192 := by
  unfold firstFree at h
  obtain ⟨m', hm, he⟩ := List.exists_of_findSome?_eq_some h
  rw [Option.bind_eq_some_iff] at he
  obtain ⟨b', hb, he⟩ := he
  split_ifs at he with hlt
  obtain ⟨rfl, rfl⟩ := Prod.mk.inj (Option.some.inj he)
  exact ⟨List.mem_range.mp hm, hb, hlt⟩

theorem word_setWord (b : Block) (w : UInt16) (m n : ℕ) :
    word (setWord b (2 * m) w) (2 * n) = if n = m then w else word b (2 * n) := by
  split_ifs with h
  · subst h
    rw [word_eq (n := w.toNat) (if_pos rfl) ((if_neg (by omega)).trans (if_pos rfl)),
      UInt16.ofNat_toNat]
  · unfold word setWord
    rw [if_neg (by omega), if_neg (by omega), if_neg (by omega), if_neg (by omega)]

/-! ### Zones -/

/-- The bit of a block in the map of zones is set. -/
def Fs.Marked (s : Fs) (dev n : ℕ) : Prop :=
  ∃ k b, s.getSuper dev = some k ∧ (s.supers k).firstdatazone ≤ n ∧
    (s.supers k).zmap ((n + 1 - (s.supers k).firstdatazone) / 8192) = some b ∧
    testBit (s.data b) ((n + 1 - (s.supers k).firstdatazone) % 8192) = true

/-- A buffer of the map of zones of a device. -/
def Fs.ZoneMap (s : Fs) (dev : ℕ) (b : Buffer) : Prop :=
  ∃ k m, s.getSuper dev = some k ∧ (s.supers k).zmap m = some b

/-- The map of zones of a device lies before the zones, whose numbers are shorts, and its first bit,
    which is that of no zone, is set. -/
structure Zoned (s : Fs) (dev : ℕ) : Prop where
  behind : ∀ k, s.getSuper dev = some k → 0 < (s.supers k).firstdatazone
  maps : ∀ k m b, s.getSuper dev = some k → (s.supers k).zmap m = some b → b.1 = dev →
    b.2 < (s.supers k).firstdatazone
  first : ∀ k b, s.getSuper dev = some k → (s.supers k).zmap 0 = some b → testBit (s.data b) 0 = true
  short : ∀ k, s.getSuper dev = some k → (s.supers k).nzones ≤ 65535

theorem Zoned.marked_ne (h : Zoned s dev) {m : ℕ} (hn : s.Marked dev n) (hm : s.ZoneMap dev (dev, m)) :
    m ≠ n := by
  obtain ⟨k, b, hk, hle, -, -⟩ := hn
  obtain ⟨k', m', hk', hb⟩ := hm
  obtain rfl : k = k' := Option.some.inj (hk.symm.trans hk')
  have hlt := h.maps k m' _ hk hb rfl
  rintro rfl
  exact absurd hlt (by simpa using hle)

/-- Only what blocks hold has changed: bits of the map were set, and a block that had not been marked is
    marked now and holds zeros. -/
structure Taken (s s' : Fs) (dev n : ℕ) : Prop where
  same : ∃ data, s' = { s with data := data }
  fresh : ¬s.Marked dev n
  marked : s'.Marked dev n
  keeps : ∀ m, s.Marked dev m → s'.Marked dev m
  zoned : Zoned s' dev
  zero : ∀ o, s'.data (dev, n) o = 0
  data : ∀ b, b ≠ (dev, n) → ¬s.ZoneMap dev b → s'.data b = s.data b
  short : n < 65536

/-- `new_block`, when it gives a block or none. -/
theorem newBlock_taken (h : Zoned s dev) : (newBlock dev s).Sat (fun n s' =>
    (n ≠ 0 → Taken s s' dev n) ∧
    (n = 0 → Zoned s' dev ∧ (∃ data, s' = { s with data := data }) ∧
      (∀ m, s.Marked dev m → s'.Marked dev m) ∧
      ∀ b, ¬s.ZoneMap dev b → s'.data b = s.data b)) fun _ => True := by
  unfold newBlock
  cases hk : s.getSuper dev with
  | none => trivial
  | some k =>
    dsimp only
    cases hf : firstFree (s.supers k).zmap s with
    | none =>
      exact ⟨fun h0 => absurd rfl h0,
        fun _ => ⟨h, ⟨s.data, rfl⟩, fun m hm => hm, fun b _ => rfl⟩⟩
    | some p =>
      obtain ⟨m, b⟩ := p
      obtain ⟨-, hmap, hlt⟩ := firstFree_some hf
      have hclear := findFirstZero_clear hlt
      dsimp only
      generalize findFirstZero (s.data b) = bit at hlt hclear
      have hbit : testBit (s.data b) bit = false := hclear
      rw [if_neg (by rw [hbit]; exact Bool.false_ne_true)]
      -- the bit is not that of no zone
      have hpos : 0 < bit + m * 8192 := by
        by_contra h0
        have hb0 : bit = 0 := by omega
        have hm0 : m = 0 := by omega
        subst hb0 hm0
        rw [h.first k b hk hmap] at hbit
        cases hbit
      have hset : ∀ b' l, testBit (s.data b') l = true →
          testBit ((s.setData b (setBit (s.data b) bit)).data b') l = true := by
        intro b' l hl
        change testBit (Function.update s.data b _ b') l = true
        by_cases hb' : b' = b
        · subst hb'
          rw [Function.update_self]
          exact setBit_keeps bit hl
        · rw [Function.update_of_ne hb']
          exact hl
      have hzoned : Zoned (s.setData b (setBit (s.data b) bit)) dev :=
        ⟨h.behind, h.maps, fun k' b' hk' hb' => hset b' 0 (h.first k' b' hk' hb'), h.short⟩
      have hkeeps : ∀ l, s.Marked dev l → (s.setData b (setBit (s.data b) bit)).Marked dev l := by
        rintro l ⟨k', b', hk', hle, hb', hl⟩
        exact ⟨k', b', hk', hle, hb', hset b' _ hl⟩
      have hdata : ∀ b', ¬s.ZoneMap dev b' →
          (s.setData b (setBit (s.data b) bit)).data b' = s.data b' := by
        intro b' hb'
        exact Function.update_of_ne (fun hc => hb' ⟨k, m, hk, by rw [hc]; exact hmap⟩) _ _
      split_ifs with hzones hcount
      · exact ⟨fun h0 => absurd rfl h0, fun _ => ⟨hzoned, ⟨_, rfl⟩, hkeeps, hdata⟩⟩
      · trivial
      · -- the block
        have hshort := h.short k hk
        have hdiv : (bit + m * 8192 + (s.supers k).firstdatazone - 1 + 1 -
            (s.supers k).firstdatazone) / 8192 = m := by omega
        have hmod : (bit + m * 8192 + (s.supers k).firstdatazone - 1 + 1 -
            (s.supers k).firstdatazone) % 8192 = bit := by omega
        generalize hj : bit + m * 8192 + (s.supers k).firstdatazone - 1 = j at *
        have hle : (s.supers k).firstdatazone ≤ j := by omega
        have hmaps : ∀ k' m' b', s.getSuper dev = some k' → (s.supers k').zmap m' = some b' →
            b' ≠ (dev, j) := by
          rintro k' m' b' hk' hb' rfl
          obtain rfl : k = k' := Option.some.inj (hk.symm.trans hk')
          exact absurd (h.maps k m' _ hk hb' rfl) (Nat.not_lt.mpr hle)
        have hsame : ∀ k' m' b', s.getSuper dev = some k' → (s.supers k').zmap m' = some b' →
            ((s.setData b (setBit (s.data b) bit)).setData (dev, j) fun _ => 0).data b' =
              (s.setData b (setBit (s.data b) bit)).data b' := fun k' m' b' hk' hb' =>
          Function.update_of_ne (hmaps k' m' b' hk' hb') _ _
        have hbehind := h.behind k hk
        refine ⟨fun _ => ⟨⟨_, rfl⟩, ?_, ?_, ?_, ?_, ?_, ?_, ?_⟩, fun h0 => by omega⟩
        · rintro ⟨k', b', hk', -, hb', hl⟩
          obtain rfl : k = k' := Option.some.inj (hk.symm.trans hk')
          rw [hdiv, hmap] at hb'
          obtain rfl := Option.some.inj hb'
          rw [hmod, hbit] at hl
          cases hl
        · refine ⟨k, b, hk, hle, by rw [← hmap, ← hdiv]; rfl, ?_⟩
          rw [hsame k m b hk hmap]
          change testBit (Function.update s.data b _ b) _ = true
          rw [Function.update_self]
          have hmod' : (j + 1 - (s.supers k).firstdatazone) % 8192 = bit := hmod
          change testBit _ ((j + 1 - (s.supers k).firstdatazone) % 8192) = true
          rw [hmod']
          exact setBit_self _ _
        · intro l hl
          obtain ⟨k', b', hk', hle', hb', hl'⟩ := hkeeps l hl
          refine ⟨k', b', hk', hle', hb', ?_⟩
          rw [hsame k' _ b' hk' hb']
          exact hl'
        · refine ⟨h.behind, h.maps, fun k' b' hk' hb' => ?_, h.short⟩
          rw [hsame k' 0 b' hk' hb']
          exact hzoned.first k' b' hk' hb'
        · intro o
          have hz : ((s.setData b (setBit (s.data b) bit)).setData (dev, j) fun _ => 0).data (dev, j) =
              fun _ => 0 := Function.update_self ..
          rw [hz]
        · intro b' hb' hm'
          exact (Function.update_of_ne hb' _ _).trans (hdata b' hm')
        · omega

/-! ### Places -/

/-- The indirect block a place is in, and the entry of it. -/
def Place.up : Place → Option (Place × ℕ)
  | .direct _ | .single | .double => none
  | .singleEntry n => some (.single, n)
  | .doubleEntry n => some (.double, n)
  | .doubleEntryEntry n m => some (.doubleEntry n, m)

theorem direct_le : 7 ≤ 9 := by decide

/-- The slot of the inode for a place that is in no block. -/
def Place.zone : Place → Fin 9
  | .direct z => z.castLE direct_le
  | .single | .singleEntry _ => 7
  | .double | .doubleEntry _ | .doubleEntryEntry _ _ => 8

theorem Place.up_inj {p q : Place} {r : Place × ℕ} (hp : p.up = some r) (hq : q.up = some r) :
    p = q := by
  cases p <;> cases q <;> cases hp <;> simp [Place.up, Fin.ext_iff] at hq ⊢ <;> omega

theorem Place.zone_inj {p q : Place} (hp : p.up = none) (hq : q.up = none) (h : p.zone = q.zone) :
    p = q := by
  cases p <;> cases q <;> cases hp <;> cases hq <;>
    simp [Place.zone, Fin.ext_iff] at h ⊢ <;> omega

/-- From the slots of the inode down. -/
theorem Place.induction {motive : Place → Prop} (root : ∀ p, p.up = none → motive p)
    (entry : ∀ p q n, p.up = some (q, n) → motive q → motive p) (p : Place) : motive p := by
  cases p with
  | direct z => exact root _ rfl
  | single => exact root _ rfl
  | double => exact root _ rfl
  | singleEntry n => exact entry _ _ _ rfl (root .single rfl)
  | doubleEntry n => exact entry _ _ _ rfl (root .double rfl)
  | doubleEntryEntry n m => exact entry _ _ _ rfl (entry _ _ _ rfl (root .double rfl))

theorem blockAt_root {p : Place} (h : p.up = none) (d : DInode) (data : ℕ → Block) :
    d.blockAt data p = (d.zone p.zone).toNat := by
  cases p <;> first | rfl | cases h

theorem blockAt_entry {p q : Place} {n : ℕ} (h : p.up = some (q, n)) (d : DInode)
    (data : ℕ → Block) : d.blockAt data p = entryOf data (d.blockAt data q) n := by
  cases p <;> cases h <;> rfl

/-- One place, which had no block, is filled with a block of zeros. -/
theorem blockAt_filled {d d' : DInode} {data data' : ℕ → Block} {p : Place} {w : ℕ}
    (hroot : ∀ q, q.up = none → d'.blockAt data' q = if q = p then w else d.blockAt data q)
    (hentry : ∀ q r m, q.up = some (r, m) → d.blockAt data r ≠ 0 →
      (word (data' (d.blockAt data r)) (2 * m)).toNat =
        if q = p then w else (word (data (d.blockAt data r)) (2 * m)).toNat)
    (hup : ∀ r m, p.up = some (r, m) → d.blockAt data r ≠ 0)
    (hzero : ∀ o, data' w o = 0) (hp : d.blockAt data p = 0) (q : Place) :
    d'.blockAt data' q = if q = p then w else d.blockAt data q := by
  induction q using Place.induction with
  | root q h => exact hroot q h
  | entry q r m h ih =>
    rw [blockAt_entry h d', blockAt_entry h d, ih]
    unfold entryOf
    by_cases hr : d.blockAt data r = 0
    · have hqp : q ≠ p := by
        rintro rfl
        exact hup r m h hr
      rw [if_neg hqp, if_pos hr]
      split_ifs with hrp h0
      · rfl
      · -- the new block has no entries
        unfold word
        rw [hzero, hzero]
        rfl
      · rfl
    · have hrp : r ≠ p := by
        rintro rfl
        exact hr hp
      rw [if_neg hrp, if_neg hr, if_neg hr]
      exact hentry q r m h hr

/-! ### The blocks of one file -/

/-- The block of a file at a place. -/
def Fs.at (s : Fs) (i : Slot) (p : Place) : ℕ :=
  (s.inodes i).blockAt (s.blocks (s.inodes i).dev) p

/-- The blocks of a file are zones of its device, are marked, and are in one place each. -/
structure Grounded (s : Fs) (i : Slot) : Prop extends Zoned s (s.inodes i).dev where
  marks : ∀ p, s.at i p ≠ 0 → s.Marked (s.inodes i).dev (s.at i p)
  distinct : ∀ p q, s.at i p ≠ 0 → s.at i p = s.at i q → p = q

/-- A place of the file has been filled. -/
structure Filled (s s' : Fs) (i : Slot) (p : Place) (n : ℕ) : Prop where
  same : ∃ data zone dirt, s' = { s.setInode i { s.inodes i with zone := zone, dirt := dirt } with
    data := data }
  at_eq : ∀ q, s'.at i q = if q = p then n else s.at i q
  grounded : Grounded s' i
  zero : ∀ o, s'.data ((s.inodes i).dev, n) o = 0
  data : ∀ q, s.at i q ≠ 0 → (∀ m, p.up ≠ some (q, m)) →
    s'.data ((s.inodes i).dev, s.at i q) = s.data ((s.inodes i).dev, s.at i q)
  number : n ≠ 0

theorem Grounded.at_ne (h : Grounded s i) (ht : Taken s s' (s.inodes i).dev n) (hn : n ≠ 0) (p : Place) :
    s.at i p ≠ n := by
  rintro rfl
  exact ht.fresh (h.marks p hn)

/-- The blocks of the file are not those of the map. -/
theorem Grounded.at_data (h : Grounded s i) (ht : Taken s s' (s.inodes i).dev n) (hn : n ≠ 0) {p : Place}
    (hp : s.at i p ≠ 0) : s'.data ((s.inodes i).dev, s.at i p) =
      s.data ((s.inodes i).dev, s.at i p) := by
  apply ht.data
  · intro hc
    exact h.at_ne ht hn p (Prod.mk.inj hc).2
  · intro hm
    exact h.marked_ne (h.marks p hp) hm rfl

/-- A place is filled with a block that was taken. -/
theorem Grounded.filled {s₁ : Fs} {p : Place} (h : Grounded s i) (ht : Taken s s₁ (s.inodes i).dev n)
    (hn : n ≠ 0) (hdev : (s'.inodes i).dev = (s.inodes i).dev) (hzoned : Zoned s' (s.inodes i).dev)
    (hmarks : ∀ m, s₁.Marked (s.inodes i).dev m → s'.Marked (s.inodes i).dev m)
    (hat : ∀ q, s'.at i q = if q = p then n else s.at i q) : Grounded s' i := by
  refine { toZoned := ?_, marks := ?_, distinct := ?_ }
  · rw [hdev]
    exact hzoned
  · intro q hq
    rw [hdev]
    rw [hat] at hq ⊢
    split_ifs at hq ⊢
    · exact hmarks n ht.marked
    · exact hmarks _ (ht.keeps _ (h.marks q hq))
  · intro q r hq he
    rw [hat] at hq he
    rw [hat] at he
    split_ifs at hq he with hqp hrp hrp
    · rw [hqp, hrp]
    · exact absurd he.symm (h.at_ne ht hn r)
    · exact absurd he (h.at_ne ht hn q)
    · exact h.distinct q r hq he

theorem zoned_setData {b : Buffer} (hb : ¬s.ZoneMap dev b) (x : Block) (h : Zoned s dev) :
    Zoned (s.setData b x) dev := by
  refine ⟨h.behind, h.maps, ?_, h.short⟩
  intro k b' hk hb'
  have hne : b' ≠ b := by
    rintro rfl
    exact hb ⟨k, 0, hk, hb'⟩
  have hsame : (s.setData b x).data b' = s.data b' := Function.update_of_ne hne _ _
  rw [hsame]
  exact h.first k b' hk hb'

theorem marked_setData {b : Buffer} (hb : ¬s.ZoneMap dev b) (x : Block) (h : s.Marked dev n) :
    (s.setData b x).Marked dev n := by
  obtain ⟨k, b', hk, hle, hb', hbit⟩ := h
  refine ⟨k, b', hk, hle, hb', ?_⟩
  have hne : b' ≠ b := by
    rintro rfl
    exact hb ⟨k, _, hk, hb'⟩
  have hsame : (s.setData b x).data b' = s.data b' := Function.update_of_ne hne _ _
  rw [hsame]
  exact hbit

/-- What is done for a place: the block that is there, or a new one, or none. -/
def Provided (s : Fs) (i : Slot) (p : Place) (n : ℕ) (s' : Fs) : Prop :=
  (s.at i p ≠ 0 → s' = s ∧ n = s.at i p) ∧ (s.at i p = 0 → n ≠ 0 → Filled s s' i p n)

theorem fillZone_provided {p : Place} (h : Grounded s i) (hp : p.up = none) :
    (fillZone true i p.zone s).Sat (fun n s' => Provided s i p n s') fun _ => True := by
  have hat : s.at i p = ((s.inodes i).zone p.zone).toNat := blockAt_root hp _ _
  unfold fillZone
  by_cases h0 : (s.inodes i).zone p.zone = 0
  · rw [if_pos ⟨rfl, h0⟩]
    refine (newBlock_taken h.toZoned).bind fun n s₁ ⟨ht, _⟩ => ?_
    have hz : s.at i p = 0 := by
      rw [hat, h0]
      rfl
    split_ifs with hn
    · -- a new block
      have ht := ht hn
      refine ⟨fun hc => absurd hz hc, fun _ _ => ?_⟩
      obtain ⟨data, rfl⟩ := ht.same
      generalize hs' : (({ s with data := data }.setZone i p.zone (UInt16.ofNat n)).setInode i
        { ({ s with data := data }.setZone i p.zone (UInt16.ofNat n)).inodes i with dirt := true }) = s'
      have hsame : s' = { s.setInode i { s.inodes i with
          zone := Function.update (s.inodes i).zone p.zone (UInt16.ofNat n), dirt := true } with
          data := data } := by
        rw [← hs']
        unfold Fs.setZone Fs.setInode
        simp only [Function.update_idem, Function.update_self]
      have hinode : s'.inodes i = { s.inodes i with
          zone := Function.update (s.inodes i).zone p.zone (UInt16.ofNat n), dirt := true } := by
        rw [hsame]
        exact Function.update_self ..
      have hdata : s'.data = data := by rw [hsame]
      have hfilled : ∀ q, s'.at i q = if q = p then n else s.at i q := by
        intro q
        unfold Fs.at
        refine blockAt_filled ?_ ?_ ?_ ?_ hz q
        · intro q hq
          rw [blockAt_root hq, blockAt_root hq, hinode]
          dsimp only
          split_ifs with hqp
          · rw [hqp, Function.update_self, UInt16.toNat_ofNat', Nat.mod_eq_of_lt ht.short]
          · rw [Function.update_of_ne fun hc => hqp (Place.zone_inj hq hp hc)]
        · intro q r m hq hr
          have hqp : q ≠ p := by
            rintro rfl
            rw [hp] at hq
            cases hq
          rw [if_neg hqp, hinode]
          unfold Fs.blocks
          rw [hdata]
          exact congrArg (fun b => (word b (2 * m)).toNat) (h.at_data ht hn hr)
        · intro r m hup
          rw [hp] at hup
          cases hup
        · intro o
          unfold Fs.blocks
          rw [hdata, hinode]
          exact ht.zero o
      have hsuper : s'.supers = s.supers := by rw [hsame]; rfl
      refine ⟨⟨_, _, _, hsame⟩, hfilled, ?_, ?_, ?_, hn⟩
      · apply h.filled ht hn (by rw [hinode]) _ _ hfilled
        · rw [hsame]
          exact ⟨ht.zoned.behind, ht.zoned.maps, ht.zoned.first, ht.zoned.short⟩
        · intro m hm
          rw [hsame]
          exact hm
      · intro o
        rw [hdata]
        exact ht.zero o
      · intro q hq _
        rw [hdata]
        exact h.at_data ht hn hq
    · exact ⟨fun hc => absurd hz hc, fun _ hc => absurd rfl hc⟩
  · rw [if_neg fun hc => h0 hc.2]
    refine ⟨fun _ => ⟨rfl, hat.symm⟩, fun hz => ?_⟩
    rw [hat] at hz
    exact absurd (UInt16.toNat_inj.mp hz) h0

theorem fillEntry_provided {p q : Place} {m : ℕ} (hq : Quiet s) (h : Grounded s i)
    (hp : p.up = some (q, m)) (hn : s.at i q ≠ 0) :
    (fillEntry true (s.inodes i).dev (s.at i q) m s).Sat (fun n s' => Provided s i p n s')
      fun _ => True := by
  have hat : s.at i p = (word (s.data ((s.inodes i).dev, s.at i q)) (2 * m)).toNat := by
    unfold Fs.at
    rw [blockAt_entry hp]
    exact if_neg hn
  have hmap : ¬s.ZoneMap (s.inodes i).dev ((s.inodes i).dev, s.at i q) := fun hc =>
    h.marked_ne (h.marks q hn) hc rfl
  unfold fillEntry
  rw [hq.bread, Outcome.bind_ok]
  dsimp only
  by_cases h0 : word (s.data ((s.inodes i).dev, s.at i q)) (2 * m) = 0
  · have hz : s.at i p = 0 := by
      rw [hat, h0]
      rfl
    rw [if_pos ⟨rfl, h0⟩]
    have hzoned : Zoned (s.hold ((s.inodes i).dev, s.at i q)) (s.inodes i).dev :=
      ⟨h.behind, h.maps, h.first, h.short⟩
    rw [Outcome.bind_assoc]
    refine (newBlock_taken hzoned).bind fun n s₁ ⟨ht, hnone⟩ => ?_
    by_cases hn' : n = 0
    · obtain ⟨-, ⟨data, rfl⟩, -⟩ := hnone hn'
      subst hn'
      rw [if_neg (not_not_intro rfl), Outcome.bind_ok]
      change ((brelse _ ({ s with data := data }.hold _)).bind fun _ s => _).Sat _ _
      rw [brelse_hold, Outcome.bind_ok]
      exact ⟨fun hc => absurd hz hc, fun _ hc => absurd rfl hc⟩
    · obtain ⟨data, rfl⟩ := (ht hn').same
      replace ht : Taken s { s with data := data } (s.inodes i).dev n :=
        ⟨⟨data, rfl⟩, (ht hn').fresh, (ht hn').marked, (ht hn').keeps, ⟨(ht hn').zoned.behind,
          (ht hn').zoned.maps, (ht hn').zoned.first, (ht hn').zoned.short⟩, (ht hn').zero, (ht hn').data,
          (ht hn').short⟩
      rw [if_pos hn', Outcome.bind_ok]
      change ((brelse _ (({ s with data := data }.setData ((s.inodes i).dev, s.at i q)
        (setWord (data ((s.inodes i).dev, s.at i q)) (2 * m) (UInt16.ofNat n))).hold _)).bind
          fun _ s => _).Sat _ _
      rw [brelse_hold, Outcome.bind_ok]
      refine ⟨fun hc => absurd hz hc, fun _ _ => ?_⟩
      generalize hs' : { s with data := data }.setData ((s.inodes i).dev, s.at i q)
        (setWord (data ((s.inodes i).dev, s.at i q)) (2 * m) (UInt16.ofNat n)) = s'
      have hinodes : s'.inodes = s.inodes := by rw [← hs']; rfl
      have hself : s'.data ((s.inodes i).dev, s.at i q) =
          setWord (data ((s.inodes i).dev, s.at i q)) (2 * m) (UInt16.ofNat n) := by
        rw [← hs']
        exact Function.update_self ..
      have hother : ∀ l, l ≠ s.at i q →
          s'.data ((s.inodes i).dev, l) = data ((s.inodes i).dev, l) := by
        intro l hl
        rw [← hs']
        exact Function.update_of_ne (fun hc => hl (Prod.mk.inj hc).2) _ _
      have hmap' : ¬Fs.ZoneMap { s with data := data } (s.inodes i).dev
          ((s.inodes i).dev, s.at i q) := hmap
      have hzero : ∀ o, s'.data ((s.inodes i).dev, n) o = 0 := by
        intro o
        rw [hother n (h.at_ne ht hn' q).symm]
        exact ht.zero o
      have hkeep : ∀ r, s.at i r ≠ 0 → r ≠ q → s'.data ((s.inodes i).dev, s.at i r) =
          s.data ((s.inodes i).dev, s.at i r) := by
        intro r hr hrq
        rw [hother _ fun hc => hrq (h.distinct r q hr hc)]
        exact h.at_data ht hn' hr
      have hfilled : ∀ r, s'.at i r = if r = p then n else s.at i r := by
        intro r
        unfold Fs.at
        refine blockAt_filled ?_ ?_ ?_ ?_ hz r
        · intro r hr
          have hrp : r ≠ p := by
            rintro rfl
            rw [hp] at hr
            cases hr
          rw [if_neg hrp, blockAt_root hr, blockAt_root hr, hinodes]
        · intro r t l hr hat'
          rw [hinodes]
          by_cases htq : t = q
          · subst htq
            have hword : s'.blocks (s.inodes i).dev ((s.inodes i).blockAt (s.blocks (s.inodes i).dev) t) =
                setWord (s.data ((s.inodes i).dev, s.at i t)) (2 * m) (UInt16.ofNat n) := by
              rw [← h.at_data ht hn' hn]
              exact hself
            rw [hword, word_setWord]
            by_cases hrp : r = p
            · subst hrp
              obtain ⟨-, rfl⟩ := Prod.mk.inj (Option.some.inj (hr.symm.trans hp))
              rw [if_pos rfl, if_pos rfl, UInt16.toNat_ofNat', Nat.mod_eq_of_lt ht.short]
            · have hlm : l ≠ m := by
                rintro rfl
                exact hrp (Place.up_inj hr hp)
              rw [if_neg hrp, if_neg hlm]
              rfl
          · have hrp : r ≠ p := by
              rintro rfl
              exact htq (Prod.mk.inj (Option.some.inj (hr.symm.trans hp))).1
            rw [if_neg hrp]
            exact congrArg (fun b => (word b (2 * l)).toNat) (hkeep t hat' htq)
        · intro r l hr
          obtain ⟨rfl, -⟩ := Prod.mk.inj (Option.some.inj (hp.symm.trans hr))
          exact hn
        · intro o
          rw [hinodes]
          exact hzero o
      refine ⟨⟨s'.data, (s.inodes i).zone, (s.inodes i).dirt, ?_⟩, hfilled, ?_, hzero, ?_, hn'⟩
      · rw [← hs']
        unfold Fs.setInode
        simp only [Function.update_eq_self]
        rfl
      · apply h.filled ht hn' (by rw [hinodes]) _ _ hfilled
        · rw [← hs']
          exact zoned_setData hmap' _ ht.zoned
        · intro l hl
          rw [← hs']
          exact marked_setData hmap' _ hl
      · intro r hr hup
        exact hkeep r hr fun hc => hup m (by rw [hc]; exact hp)
  · rw [if_neg fun hc => h0 hc.2, Outcome.bind_ok, brelse_hold, Outcome.bind_ok]
    refine ⟨fun _ => ⟨rfl, hat.symm⟩, fun hz => ?_⟩
    rw [hat] at hz
    exact absurd (UInt16.toNat_inj.mp hz) h0

/-! ### `create_block` -/

theorem placeOf_inj {k l : ℕ} (hk : k < 7 + 512 + 512 * 512) (hl : l < 7 + 512 + 512 * 512)
    (h : placeOf k = placeOf l) : k = l := by
  unfold placeOf at h
  split_ifs at h
  · exact congrArg Fin.val (Place.direct.inj h)
  · have he := congrArg Fin.val (Place.singleEntry.inj h)
    simp only [Fin.val_ofNat] at he
    omega
  · have he := congrArg Fin.val (Place.doubleEntryEntry.inj h).1
    have he' := congrArg Fin.val (Place.doubleEntryEntry.inj h).2
    simp only [Fin.val_ofNat] at he he'
    omega

/-- No block of data is an indirect one. -/
theorem up_ne_placeOf {p q : Place} {m : ℕ} (h : p.up = some (q, m)) (k : ℕ) : q ≠ placeOf k := by
  unfold placeOf
  cases p <;> cases h <;> split_ifs <;> exact fun hc => nomatch hc

theorem Quiet.same (hq : Quiet s) (hr : s'.reads = s.reads) (hb : s'.bcount = s.bcount) : Quiet s' :=
  ⟨hr.trans hq.reads, fun b => by rw [hb]; exact hq.bcount b⟩

theorem fillZone_mapped {z : Fin 9} (h : (s.inodes i).zone z ≠ 0) (create : Bool) :
    fillZone create i z s = .ok ((s.inodes i).zone z).toNat s := if_neg fun hc => h hc.2

theorem Quiet.fillEntry_mapped (hq : Quiet s) {block m : ℕ} (h : word (s.data (dev, block)) (2 * m) ≠ 0)
    (create : Bool) :
    Minix.fillEntry create dev block m s = .ok (word (s.data (dev, block)) (2 * m)).toNat s := by
  have hif : ∀ x y : Out ℕ, (if create = true ∧
      word ((s.hold (dev, block)).data (dev, block)) (2 * m) = 0 then x else y) = y :=
    fun x y => if_neg fun hc => h hc.2
  unfold Minix.fillEntry
  rw [hq.bread, Outcome.bind_ok]
  dsimp only
  rw [hif, Outcome.bind_ok, brelse_hold, Outcome.bind_ok]
  rfl

theorem entryOf_ne {data : ℕ → Block} {block m : ℕ} (h : entryOf data block m ≠ 0) :
    block ≠ 0 ∧ word (data block) (2 * m) ≠ 0 := by
  unfold entryOf at h
  split_ifs at h with h0
  · exact absurd rfl h
  · exact ⟨h0, fun hc => h (by rw [hc]; rfl)⟩

theorem entryOf_eq {data : ℕ → Block} {block m : ℕ} (h : block ≠ 0) :
    entryOf data block m = (word (data block) (2 * m)).toNat := if_neg h

/-- A block that is there is not created. -/
theorem createBlock_mapped (hq : Quiet s) {k : ℕ} (hk : k < 7 + 512 + 512 * 512)
    (h : s.blockOf i k ≠ 0) : createBlock i k s = .ok (s.blockOf i k) s := by
  have hread := hq.bmap i hk
  unfold bmap at hread
  unfold createBlock
  rw [← hread]
  unfold Fs.blockOf DInode.block placeOf at h
  unfold bmapWith
  rw [if_neg (Nat.not_le.mpr hk), if_neg (Nat.not_le.mpr hk)]
  split_ifs at h ⊢ with h7 h512
  · have hz : (s.inodes i).zone (Fin.ofNat 9 k) ≠ 0 := by
      intro hc
      apply h
      have he : (⟨k, h7⟩ : Fin 7).castLE (by decide) = Fin.ofNat 9 k :=
        Fin.ext (Nat.mod_eq_of_lt (by omega)).symm
      change ((s.inodes i).zone ((⟨k, h7⟩ : Fin 7).castLE (by decide))).toNat = 0
      rw [he, hc]
      rfl
    rw [fillZone_mapped hz, fillZone_mapped hz]
  · obtain ⟨hind, hw⟩ := entryOf_ne h
    rw [Fin.val_ofNat, Nat.mod_eq_of_lt h512] at hw
    have hz : (s.inodes i).zone 7 ≠ 0 := fun hc => hind (by rw [hc]; rfl)
    rw [fillZone_mapped hz, fillZone_mapped hz, Outcome.bind_ok, Outcome.bind_ok, if_neg hind,
      if_neg hind]
    have hw : word (s.data ((s.inodes i).dev, ((s.inodes i).zone 7).toNat)) (2 * (k - 7)) ≠ 0 := hw
    rw [hq.fillEntry_mapped hw, hq.fillEntry_mapped hw]
  · obtain ⟨hentry, hw'⟩ := entryOf_ne h
    obtain ⟨hdind, hw⟩ := entryOf_ne hentry
    have hind : ∀ m, entryOf (s.blocks (s.inodes i).dev) ((s.inodes i).zone 8).toNat m = _ :=
      fun m => entryOf_eq hdind
    rw [Fin.val_ofNat, Nat.mod_eq_of_lt (by omega : (k - 7 - 512) / 512 < 512)] at hw hw' hentry
    rw [Fin.val_ofNat, Nat.mod_mod] at hw'
    rw [hind] at hw' hentry
    have hz : (s.inodes i).zone 8 ≠ 0 := fun hc => hdind (by rw [hc]; rfl)
    have hw : word (s.data ((s.inodes i).dev, ((s.inodes i).zone 8).toNat))
        (2 * ((k - 7 - 512) / 512)) ≠ 0 := hw
    have hw' : word (s.data ((s.inodes i).dev,
        (word (s.data ((s.inodes i).dev, ((s.inodes i).zone 8).toNat))
          (2 * ((k - 7 - 512) / 512))).toNat)) (2 * ((k - 7 - 512) % 512)) ≠ 0 := hw'
    have hentry : (word (s.data ((s.inodes i).dev, ((s.inodes i).zone 8).toNat))
        (2 * ((k - 7 - 512) / 512))).toNat ≠ 0 := hentry
    dsimp only
    rw [fillZone_mapped hz, fillZone_mapped hz, Outcome.bind_ok, Outcome.bind_ok, if_neg hdind,
      if_neg hdind, hq.fillEntry_mapped hw, hq.fillEntry_mapped hw, Outcome.bind_ok, Outcome.bind_ok,
      if_neg hentry, if_neg hentry, hq.fillEntry_mapped hw', hq.fillEntry_mapped hw']

/-- Indirect blocks have been added to a file. -/
structure Deepened (s s' : Fs) (i : Slot) : Prop where
  same : ∃ data zone dirt, s' = { s.setInode i { s.inodes i with zone := zone, dirt := dirt } with
    data := data }
  grounded : Grounded s' i
  blocks : ∀ l, s'.blockOf i l = s.blockOf i l
  data : ∀ l, s.blockOf i l ≠ 0 → s'.data ((s.inodes i).dev, s.blockOf i l) =
    s.data ((s.inodes i).dev, s.blockOf i l)

/-- A block of data has been added to a file. -/
structure Created (s s' : Fs) (i : Slot) (k n : ℕ) : Prop where
  same : ∃ data zone dirt, s' = { s.setInode i { s.inodes i with zone := zone, dirt := dirt } with
    data := data }
  grounded : Grounded s' i
  self : s'.blockOf i k = n
  zero : ∀ o, s'.data ((s.inodes i).dev, n) o = 0
  blocks : ∀ l < 7 + 512 + 512 * 512, l ≠ k → s'.blockOf i l = s.blockOf i l
  data : ∀ l, s.blockOf i l ≠ 0 → s'.data ((s.inodes i).dev, s.blockOf i l) =
    s.data ((s.inodes i).dev, s.blockOf i l)

theorem same_refl (s : Fs) (i : Slot) : ∃ data zone dirt,
    s = { s.setInode i { s.inodes i with zone := zone, dirt := dirt } with data := data } := by
  refine ⟨s.data, (s.inodes i).zone, (s.inodes i).dirt, ?_⟩
  unfold Fs.setInode
  simp only [Function.update_eq_self]

theorem same_trans
    (h : ∃ data zone dirt, s' = { s.setInode i { s.inodes i with zone := zone, dirt := dirt } with
      data := data })
    (h' : ∃ data zone dirt, s'' = { s'.setInode i { s'.inodes i with zone := zone, dirt := dirt } with
      data := data }) :
    ∃ data zone dirt, s'' = { s.setInode i { s.inodes i with zone := zone, dirt := dirt } with
      data := data } := by
  obtain ⟨data, zone, dirt, rfl⟩ := h
  obtain ⟨data', zone', dirt', rfl⟩ := h'
  refine ⟨data', zone', dirt', ?_⟩
  unfold Fs.setInode
  simp only [Function.update_idem, Function.update_self]

theorem Deepened.refl (h : Grounded s i) : Deepened s s i :=
  ⟨same_refl s i, h, fun _ => rfl, fun _ _ => rfl⟩

theorem Deepened.device (h : Deepened s s' i) : (s'.inodes i).dev = (s.inodes i).dev := by
  obtain ⟨data, zone, dirt, rfl⟩ := h.same
  change ((s.setInode i _).inodes i).dev = _
  rw [Fs.setInode_self]

theorem Deepened.quiet (h : Deepened s s' i) (hq : Quiet s) : Quiet s' := by
  obtain ⟨data, zone, dirt, rfl⟩ := h.same
  exact ⟨hq.reads, hq.bcount⟩

theorem Deepened.trans (h : Deepened s s' i) (h' : Deepened s' s'' i) : Deepened s s'' i := by
  refine ⟨same_trans h.same h'.same, h'.grounded, fun l => (h'.blocks l).trans (h.blocks l), ?_⟩
  intro l hl
  have hd := h'.data l (by rw [h.blocks]; exact hl)
  rw [h.device, h.blocks] at hd
  exact hd.trans (h.data l hl)

/-- What was provided at an indirect place. -/
theorem Provided.deepened {p : Place} (h : Provided s i p n s') (hg : Grounded s i)
    (hp : ∀ k, p ≠ placeOf k) (hn : n ≠ 0) : Deepened s s' i ∧ s'.at i p = n := by
  by_cases h0 : s.at i p = 0
  · have hf := h.2 h0 hn
    refine ⟨⟨hf.same, hf.grounded, fun l => ?_, fun l hl => ?_⟩, ?_⟩
    · exact (hf.at_eq (placeOf l)).trans (if_neg (hp l).symm)
    · exact hf.data (placeOf l) hl fun m hc => up_ne_placeOf hc l rfl
    · rw [hf.at_eq, if_pos rfl]
  · obtain ⟨rfl, rfl⟩ := h.1 h0
    exact ⟨.refl hg, rfl⟩

/-- What was provided for a block of data that was not there. -/
theorem Provided.created {s₁ : Fs} {k : ℕ} (hd : Deepened s s₁ i)
    (h : Provided s₁ i (placeOf k) n s') (hk : k < 7 + 512 + 512 * 512) (h0 : s.blockOf i k = 0)
    (hn : n ≠ 0) : Created s s' i k n := by
  have hf : Filled s₁ s' i (placeOf k) n := h.2 ((hd.blocks k).trans h0) hn
  have hzero := hf.zero
  have hdata := hf.data
  rw [hd.device] at hzero hdata
  refine ⟨same_trans hd.same hf.same, hf.grounded, ?_, hzero, fun l hl hlk => ?_, fun l hl => ?_⟩
  · exact (hf.at_eq (placeOf k)).trans (if_pos rfl)
  · refine ((hf.at_eq (placeOf l)).trans (if_neg ?_)).trans (hd.blocks l)
    exact fun hc => hlk (placeOf_inj hl hk hc)
  · have hl₁ : s₁.at i (placeOf l) ≠ 0 := fun hc => hl ((hd.blocks l).symm.trans hc)
    have he := hdata (placeOf l) hl₁ fun m hc => up_ne_placeOf hc l rfl
    have hb : s₁.at i (placeOf l) = s.blockOf i l := hd.blocks l
    rw [hb] at he
    exact he.trans (hd.data l hl)

theorem createBlock_created (hq : Quiet s) (hg : Grounded s i) {k : ℕ}
    (hk : k < 7 + 512 + 512 * 512) (h0 : s.blockOf i k = 0) :
    (createBlock i k s).Sat (fun n s' => n ≠ 0 → Created s s' i k n) fun _ => True := by
  unfold createBlock bmapWith
  rw [if_neg (Nat.not_le.mpr hk)]
  by_cases h7 : k < 7
  · have hplace : placeOf k = .direct ⟨k, h7⟩ := dif_pos h7
    have hz : Fin.ofNat 9 k = (placeOf k).zone := by
      rw [hplace]
      exact Fin.ext (Nat.mod_eq_of_lt (by omega))
    rw [if_pos h7, hz]
    refine (fillZone_provided hg (by rw [hplace]; rfl)).post fun n s' hp hn => ?_
    exact Provided.created (.refl hg) hp hk h0 hn
  rw [if_neg h7]
  by_cases h512 : k - 7 < 512
  · have hplace : placeOf k = .singleEntry (Fin.ofNat 512 (k - 7)) := by
      unfold placeOf
      rw [dif_neg h7, if_pos h512]
    have hup : (placeOf k).up = some (.single, k - 7) := by
      have hval : (Fin.ofNat 512 (k - 7) : Fin 512).val = k - 7 := Nat.mod_eq_of_lt h512
      rw [hplace]
      exact congrArg (fun m => some (_, m)) hval
    rw [if_pos h512]
    refine (fillZone_provided (p := .single) hg rfl).bind fun ind s₁ hp₁ => ?_
    split_ifs with hind
    · exact fun hn => absurd rfl hn
    obtain ⟨hd₁, hat₁⟩ := hp₁.deepened hg (up_ne_placeOf hup) hind
    subst hat₁
    refine (fillEntry_provided (hd₁.quiet hq) hd₁.grounded hup hind).post fun n s' hp hn => ?_
    exact Provided.created hd₁ hp hk h0 hn
  · have hplace : placeOf k = .doubleEntryEntry (Fin.ofNat 512 ((k - 7 - 512) / 512))
        (Fin.ofNat 512 ((k - 7 - 512) % 512)) := by
      unfold placeOf
      rw [dif_neg h7, if_neg h512]
    have hup : (placeOf k).up = some (.doubleEntry (Fin.ofNat 512 ((k - 7 - 512) / 512)),
        (k - 7 - 512) % 512) := by
      have hval : (Fin.ofNat 512 ((k - 7 - 512) % 512) : Fin 512).val = (k - 7 - 512) % 512 :=
        Nat.mod_mod _ _
      rw [hplace]
      exact congrArg (fun m => some (_, m)) hval
    have hup' : (Place.doubleEntry (Fin.ofNat 512 ((k - 7 - 512) / 512))).up =
        some (.double, (k - 7 - 512) / 512) := by
      have hval : (Fin.ofNat 512 ((k - 7 - 512) / 512) : Fin 512).val = (k - 7 - 512) / 512 :=
        Nat.mod_eq_of_lt (by omega)
      exact congrArg (fun m => some (_, m)) hval
    rw [if_neg h512]
    refine (fillZone_provided (p := .double) hg rfl).bind fun dind s₁ hp₁ => ?_
    split_ifs with hdind
    · exact fun hn => absurd rfl hn
    obtain ⟨hd₁, hat₁⟩ := hp₁.deepened hg (up_ne_placeOf hup') hdind
    subst hat₁
    refine (fillEntry_provided (hd₁.quiet hq) hd₁.grounded hup' hdind).bind fun ind s₂ hp₂ => ?_
    split_ifs with hind
    · exact fun hn => absurd rfl hn
    obtain ⟨hd₂, hat₂⟩ := hp₂.deepened hd₁.grounded (up_ne_placeOf hup) hind
    subst hat₂
    have hd := hd₁.trans hd₂
    refine (fillEntry_provided (hd.quiet hq) hd.grounded hup hind).post fun n s' hp hn => ?_
    exact Provided.created hd hp hk h0 hn

end Linux011.Minix
