import Linux011.FsZones
import Linux011.EmptyDirs
import Linux011.SlotTables

set_option autoImplicit false

/-!
# A directory is a map

`find_entry` and `add_entry` (fs/namei.c) look at the entries of a directory in the same order, through
its blocks. The directory is taken as a table of slots here, 64 for a block.
-/
namespace Linux011.Minix
open Outcomes SlotTables

variable {s s' t : Fs} {i : Slot} {name q : Name}

/-! ### Entries -/

/-- The 16 bytes of `struct dir_entry`. -/
def entryBytes (b : Block) (j : ℕ) : ℕ → UInt8 := fun o => if o < 16 then b (16 * j + o) else 0

/-- An entry is live if it names an inode. -/
def dirEntries : Kind Name (ℕ → UInt8) where
  live e := decide (word e 0 ≠ 0)
  answers name e := decide (name.length ≤ NAME_LEN) &&
    (decide (name.length = NAME_LEN) || decide (e (2 + name.length) = 0)) &&
    (List.range name.length).all fun o => decide (name.getD o 0 = e (2 + o))

theorem entryBytes_inside (b : Block) (j : ℕ) {o : ℕ} (ho : o < 16) :
    entryBytes b j o = b (16 * j + o) := if_pos ho

theorem entryBytes_word (b : Block) (j : ℕ) : word (entryBytes b j) 0 = word b (16 * j) := by
  unfold word
  rw [entryBytes_inside b j (by omega), entryBytes_inside b j (by omega)]
  rfl

theorem live_entry (b : Block) (j : ℕ) :
    dirEntries.live (entryBytes b j) = decide (entryInode b j ≠ 0) := by
  unfold dirEntries entryInode
  dsimp only
  rw [entryBytes_word]
  apply decide_eq_decide.mpr
  exact not_congr ⟨fun h => by rw [h]; rfl, fun h => UInt16.toNat_inj.mp h⟩

theorem matchEntry_eq (name : Name) (b : Block) (j : ℕ) : matchEntry name b j =
    (dirEntries.live (entryBytes b j) && dirEntries.answers name (entryBytes b j)) := by
  unfold matchEntry
  rw [live_entry, Bool.and_assoc, Bool.and_assoc]
  congr 1
  unfold dirEntries
  dsimp only
  by_cases hlen : name.length ≤ NAME_LEN
  · unfold NAME_LEN at hlen
    have hall : ((List.range name.length).all fun o => decide (name.getD o 0 = b (16 * j + 2 + o))) =
        (List.range name.length).all fun o => decide (name.getD o 0 = entryBytes b j (2 + o)) := by
      rw [Bool.eq_iff_iff, List.all_eq_true, List.all_eq_true]
      apply forall₂_congr
      intro o ho
      have ho := List.mem_range.mp ho
      rw [entryBytes_inside b j (by omega), Nat.add_assoc]
    rw [hall, Bool.and_assoc]
    congr 2
    by_cases hfull : name.length = NAME_LEN
    · rw [decide_eq_true hfull, Bool.true_or, Bool.true_or]
    · unfold NAME_LEN at hfull
      rw [entryBytes_inside b j (by omega), Nat.add_assoc]
  · rw [decide_eq_false hlen, Bool.false_and, Bool.false_and, Bool.false_and]

/-- An entry with a number and a name behind it, filled up with zeros. -/
def entryOfName (name : Name) (ino : UInt16) : ℕ → UInt8 :=
  fun o => if o < 2 then byteOf ino.toNat o else if o < 16 then name.getD (o - 2) 0 else 0

theorem entryOfName_word (name : Name) (ino : UInt16) : word (entryOfName name ino) 0 = ino := by
  have h0 : entryOfName name ino 0 = byteOf ino.toNat 0 := rfl
  rw [word_eq h0 rfl, UInt16.ofNat_toNat]

theorem entryOfName_live (name : Name) (ino : UInt16) :
    dirEntries.live (entryOfName name ino) = decide (ino ≠ 0) := by
  change decide (word (entryOfName name ino) 0 ≠ 0) = _
  rw [entryOfName_word]

theorem getD_mem {l : Name} {o : ℕ} (h : o < l.length) : l.getD o 0 ∈ l := by
  rw [List.getD_eq_getElem?_getD, List.getElem?_eq_getElem h, Option.getD_some]
  exact List.getElem_mem h

/-- Names end at the first zero, and are compared up to there. -/
theorem entryOfName_answers {ino : UInt16} (hname : 0 ∉ name) (hq : 0 ∉ q)
    (hlen : name.length ≤ NAME_LEN) (hlen' : q.length ≤ NAME_LEN) :
    dirEntries.answers q (entryOfName name ino) = true ↔ q = name := by
  unfold NAME_LEN at hlen hlen'
  have hbyte : ∀ o, 2 + o < 16 → entryOfName name ino (2 + o) = name.getD o 0 := by
    intro o ho
    unfold entryOfName
    rw [if_neg (by omega), if_pos ho, Nat.add_sub_cancel_left]
  unfold dirEntries NAME_LEN
  simp only [Bool.and_eq_true, Bool.or_eq_true, decide_eq_true_eq, List.all_eq_true, List.mem_range]
  constructor
  · rintro ⟨⟨-, hend⟩, hall⟩
    have hall' : ∀ o < q.length, q.getD o 0 = name.getD o 0 := by
      intro o ho
      rw [hall o ho, hbyte o (by omega)]
    have hle : name.length ≤ q.length := by
      by_contra hlt
      have hz : name.getD q.length 0 = 0 := by
        rw [← hbyte q.length (by omega)]
        exact hend.resolve_left (by omega)
      exact hname (hz ▸ getD_mem (by omega))
    have hge : q.length ≤ name.length := by
      by_contra hlt
      have hz : q.getD name.length 0 = 0 := by
        rw [hall' _ (by omega)]
        exact List.getD_eq_default _ _ (le_refl _)
      exact hq (hz ▸ getD_mem (by omega))
    apply List.ext_getElem (by omega)
    intro o ho ho'
    have he := hall' o ho
    rw [List.getD_eq_getElem?_getD, List.getD_eq_getElem?_getD, List.getElem?_eq_getElem ho,
      List.getElem?_eq_getElem ho', Option.getD_some, Option.getD_some] at he
    exact he
  · rintro rfl
    refine ⟨⟨hlen, ?_⟩, fun o ho => (hbyte o (by omega)).symm⟩
    by_cases h14 : q.length = 14
    · exact .inl h14
    · refine .inr ?_
      rw [hbyte _ (by omega)]
      exact List.getD_eq_default _ _ (le_refl _)

/-! ### The table of a directory -/

/-- Entry `k` of a directory. -/
def Fs.slotAt (s : Fs) (i : Slot) (k : ℕ) : ℕ → UInt8 :=
  entryBytes (s.dirData i (k / DIR_ENTRIES_PER_BLOCK)) (k % DIR_ENTRIES_PER_BLOCK)

/-- Where that is. -/
def Fs.place (s : Fs) (i : Slot) (k : ℕ) : Buffer × ℕ :=
  (((s.inodes i).dev, s.blockOf i (k / DIR_ENTRIES_PER_BLOCK)), k % DIR_ENTRIES_PER_BLOCK)

/-- A directory of whole entries whose blocks are there and can be read. -/
structure MappedDir (s : Fs) (i : Slot) : Prop where
  quiet : Quiet s
  grounded : Grounded s i
  whole : (s.inodes i).size.toNat % 16 = 0
  mapped : ∀ k, DIR_ENTRIES_PER_BLOCK * k < s.entries i → s.Mapped i k

/-- What a search gives in a state: the entry, in a buffer that is held. -/
def Fs.found (s : Fs) (i : Slot) (k : Option ℕ) : Out (Option (Buffer × ℕ)) :=
  match k with
  | none => .ok none s
  | some k => .ok (some (s.place i k)) (s.hold (s.place i k).1)

/-- The entries of one block, and those behind it. -/
theorem range'_block {k n : ℕ} (hk : DIR_ENTRIES_PER_BLOCK * k ≤ n) :
    List.range' (DIR_ENTRIES_PER_BLOCK * k) (n - DIR_ENTRIES_PER_BLOCK * k) =
      (List.range (min DIR_ENTRIES_PER_BLOCK (n - DIR_ENTRIES_PER_BLOCK * k))).map
        (DIR_ENTRIES_PER_BLOCK * k + ·) ++
      List.range' (DIR_ENTRIES_PER_BLOCK * (k + 1)) (n - DIR_ENTRIES_PER_BLOCK * (k + 1)) := by
  unfold DIR_ENTRIES_PER_BLOCK at *
  rw [← List.range'_eq_map_range]
  by_cases hfull : 64 ≤ n - 64 * k
  · have hn : n - 64 * k = 64 + (n - 64 * (k + 1)) := by omega
    rw [Nat.min_eq_left hfull, hn, ← List.range'_append_1]
    rfl
  · have hz : n - 64 * (k + 1) = 0 := by omega
    rw [Nat.min_eq_right (by omega), hz, List.range'_zero, List.append_nil]

/-- The first entry from block `k` on that matches. -/
def Fs.searchFrom (s : Fs) (i : Slot) (name : Name) (n k : ℕ) : Option ℕ :=
  (List.range' (DIR_ENTRIES_PER_BLOCK * k) (n - DIR_ENTRIES_PER_BLOCK * k)).find? fun m =>
    dirEntries.live (s.slotAt i m) && dirEntries.answers name (s.slotAt i m)

theorem searchFrom_zero (s : Fs) (i : Slot) (name : Name) (n : ℕ) :
    s.searchFrom i name n 0 = dirEntries.find (s.slotAt i) n name := by
  unfold Fs.searchFrom Kind.find
  rw [List.range_eq_range']
  rfl

/-- One block is searched, and then those behind it. -/
theorem searchFrom_block {n k : ℕ} (hk : DIR_ENTRIES_PER_BLOCK * k ≤ n) :
    s.searchFrom i name n k = ((findIn name (s.dirData i k)
      (min DIR_ENTRIES_PER_BLOCK (n - DIR_ENTRIES_PER_BLOCK * k))).map
        (DIR_ENTRIES_PER_BLOCK * k + ·)).or (s.searchFrom i name n (k + 1)) := by
  unfold Fs.searchFrom
  rw [range'_block hk, List.find?_append, List.find?_map]
  congr 2
  unfold findIn
  apply List.find?_congr
  intro j hj
  have hj := List.mem_range.mp hj
  have hdiv : (DIR_ENTRIES_PER_BLOCK * k + j) / DIR_ENTRIES_PER_BLOCK = k := by
    unfold DIR_ENTRIES_PER_BLOCK at *
    omega
  have hmod : (DIR_ENTRIES_PER_BLOCK * k + j) % DIR_ENTRIES_PER_BLOCK = j := by
    unfold DIR_ENTRIES_PER_BLOCK at *
    omega
  unfold Fs.slotAt
  rw [Function.comp_apply, hdiv, hmod, matchEntry_eq]

theorem found_some {k j m : ℕ} (hj : j < DIR_ENTRIES_PER_BLOCK) (hm : m = DIR_ENTRIES_PER_BLOCK * k + j) :
    s.place i m = (((s.inodes i).dev, s.blockOf i k), j) := by
  unfold Fs.place
  have hdiv : m / DIR_ENTRIES_PER_BLOCK = k := by
    unfold DIR_ENTRIES_PER_BLOCK at *
    omega
  have hmod : m % DIR_ENTRIES_PER_BLOCK = j := by
    unfold DIR_ENTRIES_PER_BLOCK at *
    omega
  rw [hdiv, hmod]

theorem found_hit {n k j : ℕ} (h : findIn name (s.dirData i k)
    (min DIR_ENTRIES_PER_BLOCK (n - DIR_ENTRIES_PER_BLOCK * k)) = some j) {m : Option ℕ} :
    s.found i (((some j).map (DIR_ENTRIES_PER_BLOCK * k + ·)).or m) =
      .ok (some (((s.inodes i).dev, s.blockOf i k), j)) (s.hold ((s.inodes i).dev, s.blockOf i k)) := by
  have hj := (List.find?_range_eq_some.mp h).2.1
  have hplace : s.place i (DIR_ENTRIES_PER_BLOCK * k + j) = (((s.inodes i).dev, s.blockOf i k), j) :=
    found_some (lt_of_lt_of_le (List.mem_range.mp hj) (min_le_left _ _)) rfl
  change Outcome.ok (some (s.place i (DIR_ENTRIES_PER_BLOCK * k + j))) (s.hold _) = _
  rw [hplace]

/-- The loop of `find_entry`, from a block that is held. -/
theorem scanBlocks_found (hd : MappedDir s i) {left k : ℕ} (hk : DIR_ENTRIES_PER_BLOCK * k ≤ s.entries i)
    (hleft : left = (s.entries i + 63) / DIR_ENTRIES_PER_BLOCK - 1 - k) :
    scanBlocks i name (s.entries i) left k (some ((s.inodes i).dev, s.blockOf i k))
        (s.hold ((s.inodes i).dev, s.blockOf i k)) =
      s.found i (s.searchFrom i name (s.entries i) k) := by
  have hhere : findHere name (s.entries i) k (some ((s.inodes i).dev, s.blockOf i k))
      (s.hold ((s.inodes i).dev, s.blockOf i k)) = (findIn name (s.dirData i k)
        (min DIR_ENTRIES_PER_BLOCK (s.entries i - DIR_ENTRIES_PER_BLOCK * k))).map
          fun j => (((s.inodes i).dev, s.blockOf i k), j) := rfl
  have hend : s.entries i ≤ DIR_ENTRIES_PER_BLOCK * (k + 1) →
      s.searchFrom i name (s.entries i) (k + 1) = none := by
    intro hle
    unfold Fs.searchFrom
    rw [Nat.sub_eq_zero_of_le hle]
    rfl
  induction left generalizing k with
  | zero =>
    unfold scanBlocks
    rw [searchFrom_block hk, hhere]
    cases hf : findIn name (s.dirData i k)
        (min DIR_ENTRIES_PER_BLOCK (s.entries i - DIR_ENTRIES_PER_BLOCK * k)) with
    | some j =>
      exact (found_hit hf).symm
    | none =>
      rw [hend (by unfold DIR_ENTRIES_PER_BLOCK at *; omega)]
      dsimp only [Option.map_none]
      rw [brelse_hold, Outcome.bind_ok]
      rfl
  | succ left ih =>
    unfold scanBlocks
    rw [searchFrom_block hk, hhere]
    cases hf : findIn name (s.dirData i k)
        (min DIR_ENTRIES_PER_BLOCK (s.entries i - DIR_ENTRIES_PER_BLOCK * k)) with
    | some j =>
      exact (found_hit hf).symm
    | none =>
      have hlt : DIR_ENTRIES_PER_BLOCK * (k + 1) < s.entries i := by
        unfold DIR_ENTRIES_PER_BLOCK at *
        omega
      obtain ⟨hbig, hblock⟩ := hd.mapped (k + 1) hlt
      dsimp only [Option.map_none]
      unfold dirBlock
      rw [brelse_hold, Outcome.bind_ok, hd.quiet.bmap i hbig, Outcome.bind_ok, if_neg hblock,
        hd.quiet.bread, Outcome.bind_ok]
      refine ih (Nat.le_of_lt hlt) ?_ rfl ?_
      · unfold DIR_ENTRIES_PER_BLOCK at *
        omega
      · intro hle
        unfold Fs.searchFrom
        rw [Nat.sub_eq_zero_of_le hle]
        rfl

theorem MappedDir.scanDir (hd : MappedDir s i) (name : Name) : Minix.scanDir i name (s.entries i) s =
    s.found i (dirEntries.find (s.slotAt i) (s.entries i) name) := by
  rw [← searchFrom_zero]
  unfold Minix.scanDir
  by_cases hz : (s.inodes i).zone 0 = 0
  · have hempty : s.entries i = 0 := by
      by_contra h0
      obtain ⟨-, hblock⟩ := hd.mapped 0 (by omega)
      rw [blockOf_zero, hz] at hblock
      exact hblock rfl
    rw [if_pos hz, hempty]
    rfl
  · rw [if_neg hz, hd.quiet.bread, Outcome.bind_ok]
    exact scanBlocks_found hd (Nat.zero_le _) rfl

/-- A name that is looked for in the directory itself, and as it is. -/
theorem MappedDir.findEntry (hd : MappedDir s i) (hne : name.take NAME_LEN ≠ [])
    (hdots : name.take NAME_LEN ≠ [dot, dot]) : Minix.findEntry i name s =
      (s.found i (dirEntries.find (s.slotAt i) (s.entries i) (name.take NAME_LEN))).bind
        fun found s => .ok (i, found) s := by
  unfold Minix.findEntry
  dsimp only
  rw [if_neg hne, if_neg hdots, ← hd.scanDir]
  rfl

/-! ### Room for an entry -/

/-- The first entry that is free or behind the end, in a block that is there. -/
structure Room (s : Fs) (i : Slot) (m : ℕ) : Prop where
  le : m ≤ s.entries i
  free : m < s.entries i → dirEntries.live (s.slotAt i m) = false
  first : ∀ l < m, dirEntries.live (s.slotAt i l) = true
  mapped : s.Mapped i (m / DIR_ENTRIES_PER_BLOCK)

/-- The directory has been given a block, and is otherwise what it was. -/
structure Extends (s s' : Fs) (i : Slot) : Prop where
  mapped : MappedDir s' i
  inode : ∃ zone dirt, s'.inodes i = { s.inodes i with zone := zone, dirt := dirt }
  slots : ∀ l < s.entries i, s'.slotAt i l = s.slotAt i l
  places : ∀ l < s.entries i, s'.place i l = s.place i l
  supers : s'.supers = s.supers
  task : s'.task = s.task

theorem Extends.refl (hd : MappedDir s i) : Extends s s i :=
  ⟨hd, ⟨(s.inodes i).zone, (s.inodes i).dirt, rfl⟩, fun _ _ => rfl, fun _ _ => rfl, rfl, rfl⟩

theorem Extends.entries (h : Extends s s' i) : s'.entries i = s.entries i := by
  obtain ⟨zone, dirt, he⟩ := h.inode
  unfold Fs.entries
  rw [he]

theorem Extends.trans {s'' : Fs} (h : Extends s s' i) (h' : Extends s' s'' i) : Extends s s'' i := by
  obtain ⟨zone, dirt, he⟩ := h.inode
  obtain ⟨zone', dirt', he'⟩ := h'.inode
  refine ⟨h'.mapped, ⟨zone', dirt', ?_⟩, fun l hl => ?_, fun l hl => ?_,
    h'.supers.trans h.supers, h'.task.trans h.task⟩
  · rw [he', he]
  · exact (h'.slots l (by rw [h.entries]; exact hl)).trans (h.slots l hl)
  · exact (h'.places l (by rw [h.entries]; exact hl)).trans (h.places l hl)

/-- A block behind the last entry is created. -/
theorem Created.extends {k n : ℕ} (h : Created s s' i k n) (hd : MappedDir s i)
    (hk : k < 7 + 512 + 512 * 512) (hend : s.entries i ≤ DIR_ENTRIES_PER_BLOCK * k) (hn : n ≠ 0) :
    Extends s s' i ∧ s'.Mapped i k := by
  have hinode : ∃ zone dirt, s'.inodes i = { s.inodes i with zone := zone, dirt := dirt } := by
    obtain ⟨data, zone, dirt, rfl⟩ := h.same
    exact ⟨zone, dirt, Fs.setInode_self s i _⟩
  have hdev : (s'.inodes i).dev = (s.inodes i).dev := by
    obtain ⟨zone, dirt, he⟩ := hinode
    rw [he]
  have hsize : (s'.inodes i).size = (s.inodes i).size := by
    obtain ⟨zone, dirt, he⟩ := hinode
    rw [he]
  have hentries : s'.entries i = s.entries i := by
    unfold Fs.entries
    rw [hsize]
  have hblock : ∀ l, DIR_ENTRIES_PER_BLOCK * l < s.entries i → s'.blockOf i l = s.blockOf i l := by
    intro l hl
    apply h.blocks l (hd.mapped l hl).1
    rintro rfl
    omega
  have hrest : s'.reads = s.reads ∧ s'.bcount = s.bcount ∧ s'.supers = s.supers ∧ s'.task = s.task := by
    obtain ⟨data, zone, dirt, rfl⟩ := h.same
    exact ⟨rfl, rfl, rfl, rfl⟩
  have hin : ∀ l < s.entries i, DIR_ENTRIES_PER_BLOCK * (l / DIR_ENTRIES_PER_BLOCK) < s.entries i := by
    intro l hl
    unfold DIR_ENTRIES_PER_BLOCK
    omega
  refine ⟨⟨⟨hd.quiet.same hrest.1 hrest.2.1, h.grounded, ?_, ?_⟩, hinode, ?_, ?_, hrest.2.2.1,
    hrest.2.2.2⟩, hk, by rw [h.self]; exact hn⟩
  · rw [hsize]
    exact hd.whole
  · intro l hl
    rw [hentries] at hl
    obtain ⟨hbig, hne⟩ := hd.mapped l hl
    exact ⟨hbig, by rw [hblock l hl]; exact hne⟩
  · intro l hl
    unfold Fs.slotAt Fs.dirData
    rw [hdev, hblock _ (hin l hl), h.data _ (hd.mapped _ (hin l hl)).2]
  · intro l hl
    unfold Fs.place
    rw [hdev, hblock _ (hin l hl)]

/-- The test of `add_entry` in one block. -/
theorem findRoom_some {k j : ℕ} (hd : MappedDir s i)
    (hmapped : s.Mapped i k) (hk : DIR_ENTRIES_PER_BLOCK * k ≤ s.entries i)
    (hlive : ∀ l < DIR_ENTRIES_PER_BLOCK * k, dirEntries.live (s.slotAt i l) = true)
    (h : findRoom (s.dirData i k) (s.inodes i).size.toNat k = some j) :
    j < DIR_ENTRIES_PER_BLOCK ∧ Room s i (DIR_ENTRIES_PER_BLOCK * k + j) := by
  have hwhole := hd.whole
  have hslot : ∀ j < DIR_ENTRIES_PER_BLOCK,
      dirEntries.live (s.slotAt i (DIR_ENTRIES_PER_BLOCK * k + j)) =
        decide (entryInode (s.dirData i k) j ≠ 0) := by
    intro j hj
    have hdiv : (DIR_ENTRIES_PER_BLOCK * k + j) / DIR_ENTRIES_PER_BLOCK = k := by
      unfold DIR_ENTRIES_PER_BLOCK at *
      omega
    have hmod : (DIR_ENTRIES_PER_BLOCK * k + j) % DIR_ENTRIES_PER_BLOCK = j := by
      unfold DIR_ENTRIES_PER_BLOCK at *
      omega
    unfold Fs.slotAt
    rw [hdiv, hmod, live_entry]
  obtain ⟨htest, hj, hbefore⟩ := List.find?_range_eq_some.mp h
  have hj := List.mem_range.mp hj
  rw [Bool.or_eq_true, decide_eq_true_eq, decide_eq_true_eq] at htest
  have hno : ∀ j' < j, DIR_ENTRIES_PER_BLOCK * k + j' < s.entries i ∧
      entryInode (s.dirData i k) j' ≠ 0 := by
    intro j' hj'
    have ht := hbefore j' hj'
    rw [Bool.not_eq_true', Bool.or_eq_false_iff, decide_eq_false_iff_not,
      decide_eq_false_iff_not] at ht
    refine ⟨?_, ht.2⟩
    unfold Fs.entries
    omega
  refine ⟨hj, ⟨?_, ?_, ?_, ?_⟩⟩
  · cases j with
    | zero => exact hk
    | succ j => exact (hno j (Nat.lt_succ_self j)).1
  · intro hlt
    rw [hslot j hj]
    unfold Fs.entries at hlt
    have hz := htest.resolve_left (by omega)
    rw [hz]
    rfl
  · intro l hl
    by_cases hlk : l < DIR_ENTRIES_PER_BLOCK * k
    · exact hlive l hlk
    · have hsplit : l = DIR_ENTRIES_PER_BLOCK * k + (l - DIR_ENTRIES_PER_BLOCK * k) := by omega
      rw [hsplit, hslot _ (by omega)]
      exact decide_eq_true (hno _ (by omega)).2
  · have hdiv : (DIR_ENTRIES_PER_BLOCK * k + j) / DIR_ENTRIES_PER_BLOCK = k := by
      unfold DIR_ENTRIES_PER_BLOCK at *
      omega
    rw [hdiv]
    exact hmapped

theorem findRoom_none {k : ℕ} (hd : MappedDir s i)
    (hlive : ∀ l < DIR_ENTRIES_PER_BLOCK * k, dirEntries.live (s.slotAt i l) = true)
    (h : findRoom (s.dirData i k) (s.inodes i).size.toNat k = none) :
    DIR_ENTRIES_PER_BLOCK * (k + 1) ≤ s.entries i ∧
      ∀ l < DIR_ENTRIES_PER_BLOCK * (k + 1), dirEntries.live (s.slotAt i l) = true := by
  have hwhole := hd.whole
  have hno : ∀ j < DIR_ENTRIES_PER_BLOCK, (DIR_ENTRIES_PER_BLOCK * k + j) * 16 <
      (s.inodes i).size.toNat ∧ entryInode (s.dirData i k) j ≠ 0 := by
    intro j hj
    have ht := List.find?_eq_none.mp h j (List.mem_range.mpr hj)
    rw [Bool.not_eq_true, Bool.or_eq_false_iff, decide_eq_false_iff_not, decide_eq_false_iff_not] at ht
    exact ⟨Nat.not_le.mp ht.1, ht.2⟩
  constructor
  · have hlast := (hno 63 (by decide)).1
    unfold Fs.entries DIR_ENTRIES_PER_BLOCK at *
    omega
  · intro l hl
    by_cases hlk : l < DIR_ENTRIES_PER_BLOCK * k
    · exact hlive l hlk
    · have hdiv : l / DIR_ENTRIES_PER_BLOCK = k := by
        unfold DIR_ENTRIES_PER_BLOCK at *
        omega
      have hmod : l % DIR_ENTRIES_PER_BLOCK < DIR_ENTRIES_PER_BLOCK := Nat.mod_lt _ (by decide)
      unfold Fs.slotAt
      rw [hdiv, live_entry]
      exact decide_eq_true (hno _ hmod).2

/-- What `add_entry` has chosen when it comes back with an entry: room in the directory, to which a
    block may have been added. -/
def Chosen (s s' : Fs) (i : Slot) (name : Name) (r : Option (Buffer × ℕ)) : Prop :=
  ∀ b j, r = some (b, j) → ∃ s₁ m, Extends s s₁ i ∧ Room s₁ i m ∧ (b, j) = s₁.place i m ∧
    s' = takeRoom i name (m / DIR_ENTRIES_PER_BLOCK) b j (s₁.hold b)

theorem chosen_here {k j : ℕ} (hd : MappedDir s i) (hm : s.Mapped i k)
    (hk : DIR_ENTRIES_PER_BLOCK * k ≤ s.entries i)
    (hlive : ∀ l < DIR_ENTRIES_PER_BLOCK * k, dirEntries.live (s.slotAt i l) = true)
    (h : findRoom (s.dirData i k) (s.inodes i).size.toNat k = some j) :
    Chosen s (takeRoom i name k ((s.inodes i).dev, s.blockOf i k) j
      (s.hold ((s.inodes i).dev, s.blockOf i k))) i name
      (some (((s.inodes i).dev, s.blockOf i k), j)) := by
  intro b j' hr
  obtain ⟨rfl, rfl⟩ := Prod.mk.inj (Option.some.inj hr)
  obtain ⟨hj, hroom⟩ := findRoom_some hd hm hk hlive h
  refine ⟨s, DIR_ENTRIES_PER_BLOCK * k + j, .refl hd, hroom, (found_some hj rfl).symm, ?_⟩
  have hdiv : (DIR_ENTRIES_PER_BLOCK * k + j) / DIR_ENTRIES_PER_BLOCK = k := by
    unfold DIR_ENTRIES_PER_BLOCK at *
    omega
  rw [hdiv]

/-- The loop of `add_entry`, from a block that is held; the entries before it are live. -/
theorem addBlocks_chosen {left : ℕ} : ∀ {k : ℕ} {s : Fs}, MappedDir s i → s.Mapped i k →
    DIR_ENTRIES_PER_BLOCK * k ≤ s.entries i →
    (∀ l < DIR_ENTRIES_PER_BLOCK * k, dirEntries.live (s.slotAt i l) = true) →
    left + k + 1 = 7 + 512 + 512 * 512 →
    (addBlocks i name left k (some ((s.inodes i).dev, s.blockOf i k))
      (s.hold ((s.inodes i).dev, s.blockOf i k))).Sat (fun r s' => Chosen s s' i name r)
        fun _ => True := by
  induction left with
  | zero =>
    intro k s hd hm hk hlive hleft
    unfold addBlocks
    have hroom : roomHere ((s.hold ((s.inodes i).dev, s.blockOf i k)).inodes i).size.toNat k
        (some ((s.inodes i).dev, s.blockOf i k)) (s.hold ((s.inodes i).dev, s.blockOf i k)) =
        (findRoom (s.dirData i k) (s.inodes i).size.toNat k).map
          fun j => (((s.inodes i).dev, s.blockOf i k), j) := rfl
    rw [hroom]
    cases hf : findRoom (s.dirData i k) (s.inodes i).size.toNat k with
    | some j => exact chosen_here hd hm hk hlive hf
    | none =>
      dsimp only [Option.map_none]
      rw [brelse_hold, Outcome.bind_ok]
      trivial
  | succ left ih =>
    intro k s hd hm hk hlive hleft
    unfold addBlocks
    have hroom : roomHere ((s.hold ((s.inodes i).dev, s.blockOf i k)).inodes i).size.toNat k
        (some ((s.inodes i).dev, s.blockOf i k)) (s.hold ((s.inodes i).dev, s.blockOf i k)) =
        (findRoom (s.dirData i k) (s.inodes i).size.toNat k).map
          fun j => (((s.inodes i).dev, s.blockOf i k), j) := rfl
    rw [hroom]
    cases hf : findRoom (s.dirData i k) (s.inodes i).size.toNat k with
    | some j => exact chosen_here hd hm hk hlive hf
    | none =>
      obtain ⟨hk', hlive'⟩ := findRoom_none hd hlive hf
      dsimp only [Option.map_none]
      rw [brelse_hold, Outcome.bind_ok]
      have hbig : k + 1 < 7 + 512 + 512 * 512 := by omega
      by_cases hblock : s.blockOf i (k + 1) = 0
      · -- the directory is full, and grows by a block
        refine (createBlock_created hd.quiet hd.grounded hbig hblock).bind fun n s₁ hcreated => ?_
        split_ifs with hn
        · intro b j hr
          cases hr
        · have hend : s.entries i ≤ DIR_ENTRIES_PER_BLOCK * (k + 1) := by
            by_contra hlt
            exact (hd.mapped (k + 1) (Nat.not_le.mp hlt)).2 hblock
          obtain ⟨hext, hm₁⟩ := (hcreated hn).extends hd hbig hend hn
          have hself := (hcreated hn).self
          rw [hext.mapped.quiet.bread, Outcome.bind_ok, ← hself]
          refine (ih hext.mapped hm₁ ?_ ?_ (by omega)).post fun r s' hr b j hbj => ?_
          · rw [hext.entries]
            exact hk'
          · intro l hl
            rw [hext.slots l (by omega)]
            exact hlive' l hl
          · obtain ⟨s₂, m, hext₂, hrest⟩ := hr b j hbj
            exact ⟨s₂, m, hext.trans hext₂, hrest⟩
      · rw [createBlock_mapped hd.quiet hbig hblock, Outcome.bind_ok, if_neg hblock, hd.quiet.bread,
          Outcome.bind_ok]
        exact ih hd ⟨hbig, hblock⟩ hk' hlive' (by omega)

theorem addEntry_chosen (hd : MappedDir s i) :
    (addEntry i name s).Sat (fun r s' => Chosen s s' i (name.take NAME_LEN) r) fun _ => True := by
  unfold addEntry
  dsimp only
  split_ifs with hne hz
  · intro b j hr
    cases hr
  · intro b j hr
    cases hr
  · rw [hd.quiet.bread, Outcome.bind_ok]
    refine addBlocks_chosen hd ⟨by decide, ?_⟩ (Nat.zero_le _) ?_ rfl
    · rw [blockOf_zero]
      exact fun hc => hz (UInt16.toNat_inj.mp hc)
    · intro l hl
      exact absurd hl (Nat.not_lt_zero l)

/-! ### A new entry -/

/-- `add_entry`, and the number that its callers store in the entry. -/
def addName (dir : Slot) (name : Name) (ino : UInt16) (s : Fs) : Out (Option (Buffer × ℕ)) :=
  (addEntry dir name s).bind fun found s => match found with
    | none => .ok none s
    | some (b, j) =>
      (brelse (some b) (s.setData b (setWord (s.data b) (16 * j) ino))).bind fun _ s =>
      .ok (some (b, j)) s

/-- Only the entry `m` has been written, and data of the inode that say nothing of its blocks. -/
structure Written (s s' : Fs) (i : Slot) (m : ℕ) : Prop where
  rest : s'.supers = s.supers ∧ s'.task = s.task ∧ s'.reads = s.reads ∧ s'.bcount = s.bcount
  inode : ∃ size dirt mtime, s'.inodes i =
    { s.inodes i with size := size, dirt := dirt, mtime := mtime }
  data : ∀ b, b ≠ (s.place i m).1 → s'.data b = s.data b
  bytes : ∀ o, ¬(16 * (s.place i m).2 ≤ o ∧ o < 16 * (s.place i m).2 + 16) →
    s'.data (s.place i m).1 o = s.data (s.place i m).1 o

section
variable {m : ℕ}

theorem Written.device (h : Written s s' i m) : (s'.inodes i).dev = (s.inodes i).dev := by
  obtain ⟨size, dirt, mtime, he⟩ := h.inode
  rw [he]

/-- The blocks are where they were. -/
theorem Written.at (h : Written s s' i m) (hg : Grounded s i) (p : Place) : s'.at i p = s.at i p := by
  obtain ⟨size, dirt, mtime, he⟩ := h.inode
  induction p using Place.induction with
  | root p hp =>
    unfold Fs.at
    rw [blockAt_root hp, blockAt_root hp, he]
  | entry p q n hp ih =>
    unfold Fs.at at ih ⊢
    rw [blockAt_entry hp, blockAt_entry hp, ih]
    unfold entryOf
    split_ifs with h0
    · rfl
    · have hne : ((s'.inodes i).dev, s.at i q) ≠ (s.place i m).1 := by
        intro hc
        rw [h.device] at hc
        exact up_ne_placeOf hp _ (hg.distinct q _ h0 (Prod.mk.inj hc).2)
      have hsame : s'.blocks (s'.inodes i).dev (s.at i q) = s.blocks (s.inodes i).dev (s.at i q) := by
        have hd := h.data _ hne
        rw [h.device] at hd ⊢
        exact hd
      exact congrArg (fun b => (word b (2 * n)).toNat) hsame

theorem Written.grounded (h : Written s s' i m) (hg : Grounded s i)
    (hm : s.blockOf i (m / DIR_ENTRIES_PER_BLOCK) ≠ 0) : Grounded s' i := by
  have hsuper : ∀ dev, s'.getSuper dev = s.getSuper dev := Fs.getSuper_congr h.rest.1
  have hmap : ∀ b, s.ZoneMap (s.inodes i).dev b → s'.data b = s.data b := by
    intro b hb
    apply h.data
    rintro rfl
    exact hg.marked_ne (hg.marks _ hm) hb rfl
  refine { toZoned := ?_, marks := ?_, distinct := ?_ }
  · rw [h.device]
    refine ⟨?_, ?_, ?_, ?_⟩
    · intro k hk
      rw [hsuper] at hk
      rw [h.rest.1]
      exact hg.behind k hk
    · intro k n b hk hb
      rw [hsuper] at hk
      rw [h.rest.1] at hb ⊢
      exact hg.maps k n b hk hb
    · intro k b hk hb
      rw [hsuper] at hk
      rw [h.rest.1] at hb
      rw [hmap b ⟨k, 0, hk, hb⟩]
      exact hg.first k b hk hb
    · intro k hk
      rw [hsuper] at hk
      rw [h.rest.1]
      exact hg.short k hk
  · intro p hp
    rw [h.at hg] at hp ⊢
    obtain ⟨k, b, hk, hle, hb, hbit⟩ := hg.marks p hp
    rw [h.device]
    refine ⟨k, b, (hsuper _).trans hk, ?_, ?_, ?_⟩
    · rw [h.rest.1]
      exact hle
    · rw [h.rest.1]
      exact hb
    · rw [h.rest.1, hmap b ⟨k, _, hk, hb⟩]
      exact hbit
  · intro p q hp he
    rw [h.at hg] at hp he
    rw [h.at hg] at he
    exact hg.distinct p q hp he

theorem Written.block (h : Written s s' i m) (hg : Grounded s i) (k : ℕ) :
    s'.blockOf i k = s.blockOf i k :=
  h.at hg (placeOf k)

/-- The other entries are what they were. -/
theorem Written.other (h : Written s s' i m) (hg : Grounded s i)
    (hm : s.Mapped i (m / DIR_ENTRIES_PER_BLOCK)) {l : ℕ}
    (hl : s.Mapped i (l / DIR_ENTRIES_PER_BLOCK)) (hlm : l ≠ m) : s'.slotAt i l = s.slotAt i l := by
  unfold Fs.slotAt Fs.dirData
  rw [h.device, h.block hg]
  by_cases hblock : l / DIR_ENTRIES_PER_BLOCK = m / DIR_ENTRIES_PER_BLOCK
  · funext o
    unfold entryBytes
    split_ifs with ho
    · rw [hblock]
      apply h.bytes
      unfold Fs.place DIR_ENTRIES_PER_BLOCK at *
      dsimp only
      omega
    · rfl
  · rw [h.data]
    intro hc
    have he := hg.distinct _ _ hl.2 (Prod.mk.inj hc).2
    exact hblock (placeOf_inj hl.1 hm.1 he)

end

/-! ### What is written -/

theorem newEntry_inside (name : Name) (ino : UInt16) (x : Block) (j : ℕ) :
    entryBytes (setWord (setName name j x) (16 * j) ino) j = entryOfName name ino := by
  funext o
  unfold entryBytes entryOfName setWord setName
  by_cases h0 : o = 0
  · subst h0
    rw [if_pos (by omega), if_pos (Nat.add_zero _), if_pos (by omega)]
  · by_cases h1 : o = 1
    · subst h1
      rw [if_pos (by omega), if_neg (by omega), if_pos rfl, if_pos (by omega)]
    · by_cases ho : o < 16
      · rw [if_pos ho, if_neg (by omega), if_neg (by omega), if_pos (by omega), if_neg (by omega),
          if_pos ho]
        congr 1
        omega
      · rw [if_neg ho, if_neg (by omega), if_neg ho]

theorem newEntry_outside (name : Name) (ino : UInt16) (x : Block) {j o : ℕ}
    (ho : ¬(16 * j ≤ o ∧ o < 16 * j + 16)) :
    setWord (setName name j x) (16 * j) ino o = x o := by
  unfold setWord setName
  rw [if_neg (by omega), if_neg (by omega), if_neg (by omega)]

theorem setWord_outside (w : UInt16) (x : Block) {j o : ℕ} (ho : ¬(16 * j ≤ o ∧ o < 16 * j + 16)) :
    setWord x (16 * j) w o = x o := by
  unfold setWord
  rw [if_neg (by omega), if_neg (by omega)]

/-- The two ways to take an entry: behind the end, and among those there are. -/
theorem takeRoom_behind {dir : Slot} {k j : ℕ} (b : Buffer)
    (h : (s.inodes dir).size.toNat ≤ (DIR_ENTRIES_PER_BLOCK * k + j) * 16) :
    takeRoom dir name k b j s =
      ((s.setInode dir { s.inodes dir with
        size := UInt32.ofNat ((DIR_ENTRIES_PER_BLOCK * k + j + 1) * 16), dirt := true,
        mtime := s.time }).setData b (setName name j (setWord (s.data b) (16 * j) 0))) := by
  unfold takeRoom
  dsimp only
  rw [if_pos h]
  unfold Fs.setInode Fs.setData
  simp only [Function.update_self, Function.update_idem]

theorem takeRoom_inside {dir : Slot} {k j : ℕ} (b : Buffer)
    (h : ¬(s.inodes dir).size.toNat ≤ (DIR_ENTRIES_PER_BLOCK * k + j) * 16) :
    takeRoom dir name k b j s =
      (s.setInode dir { s.inodes dir with mtime := s.time }).setData b (setName name j (s.data b)) := by
  unfold takeRoom
  dsimp only
  rw [if_neg h]

theorem takeRoom_hold (dir : Slot) (name : Name) (k : ℕ) (b b' : Buffer) (j : ℕ) (s : Fs) :
    takeRoom dir name k b j (s.hold b') = (takeRoom dir name k b j s).hold b' := by
  by_cases h : (s.inodes dir).size.toNat ≤ (DIR_ENTRIES_PER_BLOCK * k + j) * 16
  · rw [takeRoom_behind b h, takeRoom_behind (s := s.hold b') b h]
    rfl
  · rw [takeRoom_inside b h, takeRoom_inside (s := s.hold b') b h]
    rfl

/-- What `add_entry` and its caller leave behind, when the buffer is released. -/
def Fs.named (s : Fs) (i : Slot) (name : Name) (ino : UInt16) (m : ℕ) : Fs :=
  let t := takeRoom i name (m / DIR_ENTRIES_PER_BLOCK) (s.place i m).1 (s.place i m).2 s
  t.setData (s.place i m).1 (setWord (t.data (s.place i m).1) (16 * (s.place i m).2) ino)

/-- In both cases an inode and one buffer have changed. -/
theorem named_eq (s : Fs) (i : Slot) (name : Name) (ino : UInt16) (m : ℕ) :
    ∃ size dirt x, s.named i name ino m =
      (s.setInode i { s.inodes i with size := size, dirt := dirt, mtime := s.time }).setData
        (s.place i m).1 (setWord (setName name (s.place i m).2 x) (16 * (s.place i m).2) ino) ∧
      (∀ o, ¬(16 * (s.place i m).2 ≤ o ∧ o < 16 * (s.place i m).2 + 16) →
        x o = s.data (s.place i m).1 o) ∧
      size = if (s.inodes i).size.toNat ≤ m * 16 then UInt32.ofNat ((m + 1) * 16)
        else (s.inodes i).size := by
  have hm : DIR_ENTRIES_PER_BLOCK * (m / DIR_ENTRIES_PER_BLOCK) + (s.place i m).2 = m :=
    Nat.div_add_mod m DIR_ENTRIES_PER_BLOCK
  unfold Fs.named
  dsimp only
  by_cases h : (s.inodes i).size.toNat ≤ m * 16
  · rw [takeRoom_behind _ (by rw [hm]; exact h), hm, if_pos h]
    refine ⟨_, true, _, ?_, fun o ho => setWord_outside 0 _ ho, rfl⟩
    unfold Fs.setData
    simp only [Function.update_self, Function.update_idem]
  · rw [takeRoom_inside _ (by rw [hm]; exact h), if_neg h]
    refine ⟨_, (s.inodes i).dirt, _, ?_, fun o _ => rfl, rfl⟩
    unfold Fs.setData
    simp only [Function.update_self, Function.update_idem]

theorem Room.written {m : ℕ} (hr : Room s i m) (hd : MappedDir s i) (name : Name) (ino : UInt16) :
    Written s (s.named i name ino m) i m ∧
    (s.named i name ino m).slotAt i m = entryOfName name ino ∧
    ((s.named i name ino m).inodes i).size.toNat = max (s.inodes i).size.toNat ((m + 1) * 16) := by
  obtain ⟨size, dirt, x, heq, hx, hsize⟩ := named_eq s i name ino m
  have hinode : (s.named i name ino m).inodes i =
      { s.inodes i with size := size, dirt := dirt, mtime := s.time } := by
    rw [heq]
    exact Fs.setInode_self s i _
  have hself : (s.named i name ino m).data (s.place i m).1 =
      setWord (setName name (s.place i m).2 x) (16 * (s.place i m).2) ino := by
    rw [heq]
    exact Function.update_self ..
  have hw : Written s (s.named i name ino m) i m := by
    refine ⟨?_, ⟨size, dirt, s.time, hinode⟩, fun b hb => ?_, fun o ho => ?_⟩
    · rw [heq]
      exact ⟨rfl, rfl, rfl, rfl⟩
    · rw [heq]
      exact Function.update_of_ne hb _ _
    · rw [hself, newEntry_outside _ _ _ ho]
      exact hx o ho
  refine ⟨hw, ?_, ?_⟩
  · unfold Fs.slotAt Fs.dirData
    rw [hw.device, hw.block hd.grounded]
    change entryBytes ((s.named i name ino m).data (s.place i m).1) (s.place i m).2 = _
    rw [hself]
    exact newEntry_inside name ino x _
  · have hbig := hr.mapped.1
    have hle := hr.le
    have hwhole := hd.whole
    rw [hinode]
    dsimp only
    rw [hsize]
    unfold Fs.entries DIR_ENTRIES_PER_BLOCK at *
    split_ifs with hend
    · rw [UInt32.toNat_ofNat', Nat.mod_eq_of_lt (by omega)]
      omega
    · omega

/-- The directory with one more name. -/
theorem Room.named {m : ℕ} (hr : Room s i m) (hd : MappedDir s i) (name : Name) (ino : UInt16) :
    MappedDir (s.named i name ino m) i ∧
    (s.named i name ino m).entries i = max (s.entries i) (m + 1) ∧
    dirEntries.Put (s.slotAt i) ((s.named i name ino m).slotAt i) (s.entries i) m
      (entryOfName name ino) ∧
    ∀ l, (s.named i name ino m).place i l = s.place i l := by
  obtain ⟨hw, hself, hsize⟩ := hr.written hd name ino
  have hle := hr.le
  have hwhole := hd.whole
  have hentries : (s.named i name ino m).entries i = max (s.entries i) (m + 1) := by
    unfold Fs.entries
    rw [hsize]
    omega
  have hin : ∀ l < s.entries i, s.Mapped i (l / DIR_ENTRIES_PER_BLOCK) := by
    intro l hl
    apply hd.mapped
    unfold DIR_ENTRIES_PER_BLOCK
    omega
  refine ⟨⟨hd.quiet.same hw.rest.2.2.1 hw.rest.2.2.2, hw.grounded hd.grounded hr.mapped.2, ?_, ?_⟩,
    hentries, ⟨hle, hr.free, hself, ?_⟩, ?_⟩
  · rw [hsize]
    unfold Fs.entries at hle
    omega
  · intro k hk
    rw [hentries] at hk
    have hmapped : s.Mapped i k := by
      by_cases hold : DIR_ENTRIES_PER_BLOCK * k < s.entries i
      · exact hd.mapped k hold
      · have hkm : k = m / DIR_ENTRIES_PER_BLOCK := by
          unfold DIR_ENTRIES_PER_BLOCK at *
          omega
        rw [hkm]
        exact hr.mapped
    exact ⟨hmapped.1, by rw [hw.block hd.grounded]; exact hmapped.2⟩
  · intro l hl hlm
    exact hw.other hd.grounded hr.mapped (hin l hl) hlm
  · intro l
    unfold Fs.place
    rw [hw.device, hw.block hd.grounded]

/-! ### The map -/

/-- The name that `find_entry` looks for in the directory it is given, if it looks there at all. -/
def Fs.asked (s : Fs) (dir : Slot) (name : Name) : Option Name :=
  let name := name.take NAME_LEN
  if name ≠ [dot, dot] then some name
  else if s.task.root = some dir then some [dot]
  else if (s.inodes dir).num = ROOT_INO ∧
      ((s.getSuper (s.inodes dir).dev).bind fun k => (s.supers k).imount) ≠ none then none
  else some name

def answer {α : Type} : Out α → Option α
  | .ok a _ => some a
  | .stop _ => none

/-- Since `s` an entry `m` was put into the directory. -/
structure Added (s t : Fs) (i : Slot) (name : Name) (ino : UInt16) (m : ℕ) : Prop where
  before : MappedDir s i
  after : MappedDir t i
  inode : ∃ size zone dirt mtime, t.inodes i =
    { s.inodes i with size := size, zone := zone, dirt := dirt, mtime := mtime }
  entries : t.entries i = max (s.entries i) (m + 1)
  put : dirEntries.Put (s.slotAt i) (t.slotAt i) (s.entries i) m (entryOfName name ino)
  places : ∀ l < s.entries i, t.place i l = s.place i l
  supers : t.supers = s.supers
  task : t.task = s.task

theorem addName_added (hd : MappedDir s i) {ino : UInt16} {b : Buffer} {j : ℕ}
    (h : addName i name ino s = .ok (some (b, j)) t) :
    ∃ m, Added s t i (name.take NAME_LEN) ino m ∧ (b, j) = t.place i m ∧
      ∀ l < m, dirEntries.live (s.slotAt i l) = true := by
  have hchosen : (addEntry i name s).Sat (fun r s' => Chosen s s' i (name.take NAME_LEN) r)
      fun _ => True := addEntry_chosen hd
  unfold addName at h
  cases hadd : addEntry i name s with
  | stop w =>
    rw [hadd] at h
    cases h
  | ok r s' =>
    rw [hadd, Outcome.bind_ok] at h
    rw [hadd] at hchosen
    cases r with
    | none => cases h
    | some p =>
      obtain ⟨b', j'⟩ := p
      obtain ⟨s₁, m, hext, hroom, hplace, rfl⟩ := hchosen b' j' rfl
      obtain ⟨hb, hj⟩ := Prod.mk.inj hplace
      dsimp only at h
      rw [takeRoom_hold, hb, hj] at h
      change ((brelse _ ((s₁.named i (name.take NAME_LEN) ino m).hold _)).bind fun _ s => _) = _ at h
      rw [brelse_hold, Outcome.bind_ok] at h
      obtain ⟨hbj, rfl⟩ := Outcome.ok.inj h
      obtain ⟨rfl, rfl⟩ := Prod.mk.inj (Option.some.inj hbj)
      obtain ⟨hmapped, hentries, hput, hplaces⟩ := hroom.named hext.mapped (name.take NAME_LEN) ino
      obtain ⟨hw, -, -⟩ := hroom.written hext.mapped (name.take NAME_LEN) ino
      rw [hext.entries] at hentries hput
      have hle := hput.le
      refine ⟨m, ⟨hd, hmapped, ?_, hentries, ⟨hle, ?_, hput.self, ?_⟩, ?_, ?_, ?_⟩, ?_, ?_⟩
      · obtain ⟨size, dirt, mtime, he⟩ := hw.inode
        obtain ⟨zone, dirt', he'⟩ := hext.inode
        refine ⟨size, zone, dirt, mtime, ?_⟩
        rw [he, he']
      · intro hlt
        rw [← hext.slots m hlt]
        exact hput.free hlt
      · intro l hl hlm
        rw [hput.others l hl hlm, hext.slots l hl]
      · intro l hl
        rw [hplaces, hext.places l hl]
      · exact hw.rest.1.trans hext.supers
      · exact hw.rest.2.1.trans hext.task
      · exact (hplaces m).symm
      · intro l hl
        rw [← hext.slots l (by omega)]
        exact hroom.first l hl

section
variable {ino : UInt16} {m : ℕ}

/-- An emptied slot. -/
theorem live_zero : dirEntries.live (fun _ => 0) = false := by decide

/-- Another name is found where it was. -/
theorem Added.find_other (h : Added s t i name ino m) (hname : 0 ∉ name) (hq : 0 ∉ q)
    (hlen : name.length ≤ NAME_LEN) (hlen' : q.length ≤ NAME_LEN) (hne : q ≠ name) :
    dirEntries.find (t.slotAt i) (t.entries i) q = dirEntries.find (s.slotAt i) (s.entries i) q := by
  have hno : dirEntries.answers q (entryOfName name ino) = false := by
    rw [← Bool.not_eq_true, entryOfName_answers hname hq hlen hlen']
    exact hne
  rw [Kind.find_eq_head, Kind.find_eq_head, h.entries, h.put.held_other dirEntries live_zero hno]

/-- The new name is found where it was put. -/
theorem Added.find_new (h : Added s t i name ino m) (hname : 0 ∉ name)
    (hlen : name.length ≤ NAME_LEN) (hino : ino ≠ 0)
    (hnone : dirEntries.find (s.slotAt i) (s.entries i) name = none) :
    dirEntries.find (t.slotAt i) (t.entries i) name = some m := by
  have hyes : dirEntries.answers name (entryOfName name ino) = true :=
    (entryOfName_answers hname hname hlen hlen).mpr rfl
  have hlive : dirEntries.live (entryOfName name ino) = true := by
    rw [entryOfName_live]
    exact decide_eq_true hino
  rw [Kind.find_eq_head, List.head?_eq_none_iff] at hnone
  rw [Kind.find_eq_head, h.entries, h.put.held_new dirEntries live_zero hnone hlive hyes]
  rfl

/-- What `find_entry` answers once it looks for `q` in the directory. -/
theorem Added.look_other (h : Added s t i name ino m) (hname : 0 ∉ name) (hq : 0 ∉ q)
    (hlen : name.length ≤ NAME_LEN) (hlen' : q.length ≤ NAME_LEN) (hne : q ≠ name) :
    answer ((Minix.scanDir i q (t.entries i) t).bind fun found s => .ok (i, found) s) =
      answer ((Minix.scanDir i q (s.entries i) s).bind fun found s => .ok (i, found) s) := by
  rw [h.after.scanDir, h.before.scanDir, h.find_other hname hq hlen hlen' hne]
  cases hf : dirEntries.find (s.slotAt i) (s.entries i) q with
  | none => rfl
  | some l =>
    change some (i, some (t.place i l)) = some (i, some (s.place i l))
    rw [h.places l (dirEntries.find_some hf).1]

theorem Added.answer_other (h : Added s t i name ino m) (hname : 0 ∉ name)
    (hlen : name.length ≤ NAME_LEN) {other : Name} (hq : 0 ∉ other)
    (hasked : s.asked i other ≠ none) (hne : s.asked i other ≠ some name) :
    answer (Minix.findEntry i other t) = answer (Minix.findEntry i other s) := by
  have htake : 0 ∉ other.take NAME_LEN := fun hc => hq (List.mem_of_mem_take hc)
  have htake' : (other.take NAME_LEN).length ≤ NAME_LEN := List.length_take_le _ _
  have hnum : (t.inodes i).num = (s.inodes i).num := by
    obtain ⟨size, zone, dirt, mtime, he⟩ := h.inode
    rw [he]
  have hdev : (t.inodes i).dev = (s.inodes i).dev := by
    obtain ⟨size, zone, dirt, mtime, he⟩ := h.inode
    rw [he]
  have hsuper : t.getSuper (s.inodes i).dev = s.getSuper (s.inodes i).dev :=
    Fs.getSuper_congr h.supers _
  unfold Fs.asked at hasked hne
  unfold Minix.findEntry
  dsimp only at hasked hne ⊢
  rw [h.task, hnum, hdev, hsuper, h.supers]
  by_cases hempty : other.take NAME_LEN = []
  · rw [if_pos hempty, if_pos hempty]
    rfl
  rw [if_neg hempty, if_neg hempty]
  by_cases hdots : other.take NAME_LEN = [dot, dot]
  · rw [if_neg (not_not_intro hdots)] at hasked hne
    rw [if_pos hdots, if_pos hdots]
    by_cases hroot : s.task.root = some i
    · rw [if_pos hroot] at hne
      rw [if_pos hroot, if_pos hroot]
      exact h.look_other hname (by decide) hlen (by decide) fun hc => hne (by rw [hc])
    · rw [if_neg hroot] at hasked hne
      rw [if_neg hroot, if_neg hroot]
      have hhere : ¬((s.inodes i).num = ROOT_INO ∧
          ((s.getSuper (s.inodes i).dev).bind fun k => (s.supers k).imount) ≠ none) := by
        intro hc
        rw [if_pos hc] at hasked
        exact hasked rfl
      rw [if_neg hhere] at hne
      have hkeep := h.look_other hname htake hlen htake' fun hc => hne (by rw [hc])
      by_cases hnum : (s.inodes i).num = ROOT_INO
      · rw [if_pos hnum, if_pos hnum]
        cases hk : s.getSuper (s.inodes i).dev with
        | none => rfl
        | some k =>
          cases hm : (s.supers k).imount with
          | none =>
            dsimp only
            rw [hm]
            exact hkeep
          | some m' =>
            rw [hk, Option.bind_some, hm] at hhere
            exact absurd ⟨hnum, Option.some_ne_none _⟩ hhere
      · rw [if_neg hnum, if_neg hnum]
        exact hkeep
  · rw [if_pos hdots] at hne
    rw [if_neg hdots, if_neg hdots]
    exact h.look_other hname htake hlen htake' fun hc => hne (by rw [hc])

end

/-- A name that is not there is added: it is then found where it was put, every other name where it was,
    in the first free entry, or behind the last one if none is free. -/
theorem add_name_is_map (hd : MappedDir s i) (hne : name ≠ []) (hz : 0 ∉ name)
    (hdots : name ≠ [dot, dot]) (hnone : answer (findEntry i name s) = some (i, none))
    {ino : UInt16} (hino : ino ≠ 0) {b : Buffer} {j : ℕ}
    (hadd : addName i name ino s = .ok (some (b, j)) t) :
    MappedDir t i ∧ findEntry i name t = .ok (i, some (b, j)) (t.hold b) ∧
    (∀ other, 0 ∉ other → s.asked i other ≠ none → s.asked i other ≠ some (name.take NAME_LEN) →
      answer (findEntry i other t) = answer (findEntry i other s)) ∧
    ∃ m, (b, j) = t.place i m ∧ m < t.entries i ∧ s.entries i ≤ t.entries i ∧
      ((dirEntries.firstFree (s.slotAt i) (s.entries i) = some m ∧ t.entries i = s.entries i) ∨
        (dirEntries.firstFree (s.slotAt i) (s.entries i) = none ∧ m = s.entries i ∧
          t.entries i = m + 1)) := by
  have htake : name.take NAME_LEN ≠ [] := by
    rw [Ne, List.take_eq_nil_iff]
    exact fun hc => hc.elim (by decide) hne
  have htake' : name.take NAME_LEN ≠ [dot, dot] := by
    intro hc
    have hlen := congrArg List.length hc
    rw [List.length_take] at hlen
    have hshort : name.length ≤ NAME_LEN := by
      unfold NAME_LEN at *
      simp only [List.length_cons, List.length_nil] at hlen
      omega
    rw [List.take_of_length_le hshort] at hc
    exact hdots hc
  have hzero : 0 ∉ name.take NAME_LEN := fun hc => hz (List.mem_of_mem_take hc)
  have hlen : (name.take NAME_LEN).length ≤ NAME_LEN := List.length_take_le _ _
  obtain ⟨m, h, hplace, hfirst⟩ := addName_added hd hadd
  have hnone' : dirEntries.find (s.slotAt i) (s.entries i) (name.take NAME_LEN) = none := by
    rw [hd.findEntry htake htake'] at hnone
    cases hf : dirEntries.find (s.slotAt i) (s.entries i) (name.take NAME_LEN) with
    | none => rfl
    | some l =>
      rw [hf] at hnone
      cases hnone
  have hentries := h.entries
  refine ⟨h.after, ?_, fun other hq => h.answer_other hzero hlen hq, m, hplace, by omega, by omega, ?_⟩
  · rw [h.after.findEntry htake htake', h.find_new hzero hlen hino hnone']
    change Outcome.ok (i, some (t.place i m)) (t.hold (t.place i m).1) = _
    rw [← hplace]
  · by_cases hlt : m < s.entries i
    · refine .inl ⟨?_, by omega⟩
      unfold Kind.firstFree
      rw [List.find?_range_eq_some]
      refine ⟨by rw [h.put.free hlt]; rfl, List.mem_range.mpr hlt, fun l hl => ?_⟩
      rw [hfirst l hl]
      rfl
    · have hle := h.put.le
      refine .inr ⟨?_, by omega, by omega⟩
      unfold Kind.firstFree
      rw [List.find?_eq_none]
      intro l hl
      rw [hfirst l (by have := List.mem_range.mp hl; omega)]
      exact Bool.false_ne_true

/-! ### A small directory -/

/-- Two zones are in use. -/
def zoneMap : Block := fun o => if o = 0 then 7 else 0

/-- The root directory of `disk`, of some size and with some entries. -/
def rooted (size : UInt32) (entries : Block) : Fs :=
  ((disk.setInode 0 { disk.inodes 0 with size := size }).setData (1, 3) zoneMap).setData (1, 5) entries

/-- A file of one block. -/
theorem blockAt_one {d : DInode} {data : ℕ → Block} {w : UInt16}
    (hz : ∀ z, d.zone z = if z = 0 then w else 0) {p : Place} :
    d.blockAt data p ≠ 0 → p = .direct 0 ∧ d.blockAt data p = w.toNat := by
  induction p using Place.induction with
  | root p hp =>
    rw [blockAt_root hp, hz]
    split_ifs with h0
    · exact fun _ => ⟨Place.zone_inj hp rfl h0, rfl⟩
    · exact fun hc => absurd rfl hc
  | entry p q n hp _ =>
    rw [blockAt_entry hp]
    have hq : d.blockAt data q = 0 := by
      cases p <;> cases hp
      · exact congrArg UInt16.toNat (hz 7)
      · exact congrArg UInt16.toNat (hz 8)
      · rw [blockAt_entry (p := .doubleEntry _) rfl]
        exact if_pos (congrArg UInt16.toNat (hz 8))
    rw [hq]
    exact fun hc => absurd rfl hc

theorem grounded_one {w : UInt16} (hz : ∀ z, (s.inodes i).zone z = if z = 0 then w else 0)
    (hzoned : Zoned s (s.inodes i).dev) (hm : s.Marked (s.inodes i).dev w.toNat) : Grounded s i := by
  have hat : ∀ p, s.at i p ≠ 0 → p = .direct 0 ∧ s.at i p = w.toNat := fun p => blockAt_one hz
  refine { toZoned := hzoned, marks := fun p hp => ?_, distinct := fun p q hp he => ?_ }
  · rw [(hat p hp).2]
    exact hm
  · rw [(hat p hp).1, (hat q (by rwa [← he])).1]

theorem rooted_supers (size : UInt32) (entries : Block) :
    (rooted size entries).supers = disk.supers := rfl

theorem rooted_map (size : UInt32) (entries : Block) :
    (rooted size entries).data (1, 3) = zoneMap := by
  have hne : ((1, 3) : Buffer) ≠ (1, 5) := by decide
  have h : (rooted size entries).data (1, 3) =
      ((disk.setInode 0 { disk.inodes 0 with size := size }).setData (1, 3) zoneMap).data (1, 3) :=
    Function.update_of_ne hne entries _
  rw [h]
  exact Function.update_self ((1, 3) : Buffer) zoneMap disk.data

theorem rooted_grounded (size : UInt32) (entries : Block) : Grounded (rooted size entries) 0 := by
  apply grounded_one (w := 5)
  · intro z
    rfl
  · refine ⟨?_, ?_, ?_, ?_⟩
    · intro k hk
      exact Nat.succ_pos 4
    · intro k m b hk hb _
      by_cases h0 : m = 0
      · subst h0
        cases hb
        exact Nat.lt_succ_of_lt (Nat.lt_succ_self 3)
      · rw [show ((rooted size entries).supers k).zmap m = none from if_neg h0] at hb
        cases hb
    · intro k b hk hb
      cases hb
      rw [rooted_map]
      decide
    · intro k hk
      exact (by decide : 64 ≤ 65535)
  · refine ⟨⟨0, by decide⟩, (1, 3), ?_, le_refl 5, ?_, ?_⟩
    · exact (by decide : disk.getSuper 1 = some (⟨0, Nat.succ_pos 7⟩ : Fin NR_SUPER))
    · rw [rooted_supers]
      decide
    · rw [rooted_map, rooted_supers]
      decide

theorem rooted_quiet (size : UInt32) (entries : Block) : Quiet (rooted size entries) :=
  ⟨rfl, disk_quiet.bcount⟩

theorem rooted_mapped (size : UInt32) (entries : Block) (k : ℕ)
    (hk : DIR_ENTRIES_PER_BLOCK * k < (rooted size entries).entries 0) (hsize : size.toNat ≤ 1024) :
    (rooted size entries).Mapped 0 k := by
  have he : (rooted size entries).entries 0 = size.toNat / 16 := rfl
  have h0 : k = 0 := by
    unfold DIR_ENTRIES_PER_BLOCK at hk
    omega
  subst h0
  exact ⟨by decide, (by decide : (5 : UInt16).toNat ≠ 0)⟩

/-- The file `a` is added to a root directory. -/
theorem add_name_is_map_root : ∃ t, addName 0 [97] 7 (rooted 32 rootEntries) = .ok (some ((1, 5), 2)) t ∧
    findEntry 0 [97] t = .ok (0, some ((1, 5), 2)) (t.hold (1, 5)) := by
  have hd : MappedDir (rooted 32 rootEntries) 0 :=
    ⟨rooted_quiet _ _, rooted_grounded _ _, by decide, fun k hk => rooted_mapped _ _ k hk (by decide)⟩
  have hadd : answer (addName 0 [97] 7 (rooted 32 rootEntries)) = some (some ((1, 5), 2)) := by
    decide +kernel
  cases h : addName 0 [97] 7 (rooted 32 rootEntries) with
  | stop w =>
    rw [h] at hadd
    cases hadd
  | ok r t =>
    rw [h] at hadd
    obtain rfl := Option.some.inj hadd
    have hnone : answer (findEntry 0 [97] (rooted 32 rootEntries)) = some (0, none) := by
      decide +kernel
    exact ⟨t, rfl, (add_name_is_map hd (by decide) (by decide) (by decide) hnone (by decide) h).2.1⟩

/-- As `rootEntries`, but that `.` was freed. -/
def withoutDot : Block := fun o => if o = 0 then 0 else rootEntries o

/-- The root of device 2, with one entry, mounted on directory 2 of device 1. -/
def mountedDisk : Fs :=
  { (((rooted 32 rootEntries).setData (2, 3) zoneMap).setData (2, 5) rootEntries).setData (1, 6)
      rootEntries with
    inodes := fun i =>
      if i = 1 then
        { toDInode := { rootDirectory with size := 16 }, dev := 2, num := ROOT_INO, count := 2,
          dirt := false, pipe := false, mount := false }
      else if i = 2 then
        { toDInode := { rootDirectory with zone := fun z => if z = 0 then 6 else 0 }, dev := 1, num := 2,
          count := 2, dirt := false, pipe := false, mount := true }
      else disk.inodes i
    supers := fun k =>
      if k.val = 1 then
        { disk.supers k with
          zmap := fun n => if n = 0 then some (2, 3) else none, dev := 2, isup := some 1,
          imount := some 2 }
      else disk.supers k }

theorem mounted_dir : MappedDir mountedDisk 1 where
  quiet := ⟨rfl, disk_quiet.bcount⟩
  grounded := by
    have hmap : mountedDisk.data (2, 3) = zoneMap := by rfl
    have hsuper : ∀ k, mountedDisk.getSuper (mountedDisk.inodes 1).dev = some k →
        k = ⟨1, by decide⟩ := by
      intro k hk
      have h1 : mountedDisk.getSuper (mountedDisk.inodes 1).dev = some ⟨1, by decide⟩ := by decide
      exact Option.some.inj (hk.symm.trans h1)
    apply grounded_one (w := 5)
    · intro z
      rfl
    · refine ⟨?_, ?_, ?_, ?_⟩
      · intro k hk
        rw [hsuper k hk]
        decide
      · intro k m b hk hb _
        rw [hsuper k hk] at hb ⊢
        by_cases h0 : m = 0
        · subst h0
          cases hb
          decide
        · rw [show (mountedDisk.supers ⟨1, by decide⟩).zmap m = none from if_neg h0] at hb
          cases hb
      · intro k b hk hb
        rw [hsuper k hk] at hb
        cases hb
        rw [hmap]
        decide
      · intro k hk
        rw [hsuper k hk]
        decide
    · refine ⟨⟨1, by decide⟩, (2, 3), by decide, by decide, by decide, ?_⟩
      rw [hmap]
      decide
  whole := by decide
  mapped k hk := by
    have he : mountedDisk.entries 1 = 1 := by decide
    have h0 : k = 0 := by
      unfold DIR_ENTRIES_PER_BLOCK at hk
      omega
    subst h0
    exact ⟨by decide, by decide⟩

/-- A block without a free entry: entry 2 is `b`, those behind it are `c`. -/
def packedEntries : Block := fun o =>
  if o < 32 then rootEntries o
  else if o % 16 = 0 then 9
  else if o % 16 = 2 then (if o / 16 = 2 then 98 else 99)
  else 0

/-- The zone map has the block of the directory as free. -/
def unmarked : Fs := (rooted 1024 packedEntries).setData (1, 3) fun o => if o = 0 then 1 else 0

/-- The first two blocks of the directory are the same. -/
def doubled : Fs :=
  (rooted 1056 packedEntries).setInode 0
    { (rooted 1056 packedEntries).inodes 0 with zone := fun z => if z.val < 2 then 5 else 0 }

theorem unmarked_mapped (k : ℕ) (hk : DIR_ENTRIES_PER_BLOCK * k < unmarked.entries 0) :
    unmarked.Mapped 0 k := by
  have he : unmarked.entries 0 = 64 := by decide
  have h0 : k = 0 := by
    unfold DIR_ENTRIES_PER_BLOCK at hk
    omega
  subst h0
  exact ⟨by decide, by decide⟩

theorem doubled_mapped (k : ℕ) (hk : DIR_ENTRIES_PER_BLOCK * k < doubled.entries 0) :
    doubled.Mapped 0 k := by
  have he : doubled.entries 0 = 66 := by decide
  have h01 : k = 0 ∨ k = 1 := by
    unfold DIR_ENTRIES_PER_BLOCK at hk
    omega
  obtain rfl | rfl := h01
  · exact ⟨by decide, by decide⟩
  · exact ⟨by decide, by decide⟩

/-- Five directories for which it fails: one whose size is not one of whole entries, where the new name
    is not found; the root of the task without `.`, where `..` is found when `.` is added; the root
    of a mounted device, whose number of entries says how far `..` is looked for in another
    directory; one whose block is given to it once more and cleared; and one whose new entry is an old
    one. -/
theorem add_name_misses :
    (answer (findEntry 0 [97] (rooted 40 rootEntries)) = some (0, none) ∧
      answer (addName 0 [97] 7 (rooted 40 rootEntries)) = some (some ((1, 5), 2)) ∧
      answer ((addName 0 [97] 7 (rooted 40 rootEntries)).bind fun _ t => findEntry 0 [97] t) =
        some (0, none) ∧ Quiet (rooted 40 rootEntries) ∧ Grounded (rooted 40 rootEntries) 0 ∧
      ∀ k, DIR_ENTRIES_PER_BLOCK * k < (rooted 40 rootEntries).entries 0 →
        (rooted 40 rootEntries).Mapped 0 k) ∧
    (MappedDir (rooted 32 withoutDot) 0 ∧
      answer (findEntry 0 [dot] (rooted 32 withoutDot)) = some (0, none) ∧
      answer (findEntry 0 [dot, dot] (rooted 32 withoutDot)) = some (0, none) ∧
      answer ((addName 0 [dot] 7 (rooted 32 withoutDot)).bind fun _ t =>
        findEntry 0 [dot, dot] t) = some (0, some ((1, 5), 0))) ∧
    MappedDir mountedDisk 1 ∧ answer (findEntry 1 [97] mountedDisk) = some (1, none) ∧
      answer (findEntry 1 [dot, dot] mountedDisk) = some (2, none) ∧
      answer ((addName 1 [97] 7 mountedDisk).bind fun _ t => findEntry 1 [dot, dot] t) =
        some (2, some ((1, 6), 1)) ∧
    (Quiet unmarked ∧ (unmarked.inodes 0).size.toNat % 16 = 0 ∧
      (∀ k, DIR_ENTRIES_PER_BLOCK * k < unmarked.entries 0 → unmarked.Mapped 0 k) ∧
      answer (findEntry 0 [97] unmarked) = some (0, none) ∧
      answer (findEntry 0 [98] unmarked) = some (0, some ((1, 5), 2)) ∧
      answer ((addName 0 [97] 7 unmarked).bind fun _ t => findEntry 0 [98] t) = some (0, none)) ∧
    Quiet doubled ∧ (doubled.inodes 0).size.toNat % 16 = 0 ∧
      (∀ k, DIR_ENTRIES_PER_BLOCK * k < doubled.entries 0 → doubled.Mapped 0 k) ∧
      answer (findEntry 0 [97] doubled) = some (0, none) ∧
      answer (findEntry 0 [98] doubled) = some (0, some ((1, 5), 2)) ∧
      answer ((addName 0 [97] 7 doubled).bind fun _ t => findEntry 0 [98] t) = some (0, none) := by
  refine ⟨⟨?_, ?_, ?_, rooted_quiet _ _, rooted_grounded _ _, fun k hk => ?_⟩, ⟨?_, ?_, ?_, ?_⟩, ?_,
    ?_, ?_, ?_, ⟨⟨rfl, disk_quiet.bcount⟩, by decide, unmarked_mapped, ?_, ?_, ?_⟩,
    ⟨rfl, disk_quiet.bcount⟩, by decide, doubled_mapped, ?_, ?_, ?_⟩
  · decide +kernel
  · decide +kernel
  · decide +kernel
  · exact rooted_mapped _ _ k hk (by decide)
  · exact ⟨rooted_quiet _ _, rooted_grounded _ _, by decide,
      fun k hk => rooted_mapped _ _ k hk (by decide)⟩
  · decide +kernel
  · decide +kernel
  · decide +kernel
  · exact mounted_dir
  · decide +kernel
  · decide +kernel
  · decide +kernel
  · decide +kernel
  · decide +kernel
  · decide +kernel
  · decide +kernel
  · decide +kernel
  · decide +kernel

end Linux011.Minix
