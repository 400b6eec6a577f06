import Linux011.ZoneRuns
import Linux011.FileOffsets
import Linux011.ByteFiles

set_option autoImplicit false

/-!
# Regular files are bytes

What `file_read` and `file_write` do to the blocks of a device is what is done to the bytes of each
file: holes read as zeros, and a write changes no file but its own.
-/
namespace Linux011.Minix
open Outcomes Allotments ByteFiles ByteFile

variable {s s' : Fs} {dev : ℕ} {k : Fin NR_SUPER} {i j : Slot} {I : Finset Slot} {R : Set ℕ}
  {F : Slot → ByteFile}

/-- The bytes of blocks; of a block that is not there they are zeros. -/
def bytesOf (f : Index → Option Block) (o : ℕ) : UInt8 :=
  if h : o / 1024 < 7 + 512 + 512 * 512 then (f ⟨o / 1024, h⟩).elim 0 fun b => b (o % 1024) else 0

/-- What the file in a slot is. -/
structure Stores (s : Fs) (I : Finset Slot) (i : Slot) (F : ByteFile) : Prop where
  size : (s.inodes i).size.toNat = F.size
  byte : ∀ o, bytesOf (s.contents I i) o = F.byte o

/-- The regular files `I` of a device, and what they are. -/
structure Holding (s : Fs) (dev : ℕ) (k : Fin NR_SUPER) (I : Finset Slot) (R : Set ℕ)
    (F : Slot → ByteFile) : Prop where
  accounted : Accounted s dev k I R
  regular : ∀ i ∈ I, isReg (s.inodes i).mode ∧ (s.inodes i).pipe = false
  stores : ∀ i ∈ I, Stores s I i (F i)
  small : ∀ i ∈ I, ((F i).size : ℤ) ≤ maxSize

theorem bytesOf_some {f : Index → Option Block} {l : Index} {b : Block} (hf : f l = some b) {o : ℕ}
    (ho : o / 1024 = l) : bytesOf f o = b (o % 1024) := by
  unfold bytesOf
  have hlt : o / 1024 < 7 + 512 + 512 * 512 := ho.trans_lt l.isLt
  have hl : (⟨o / 1024, hlt⟩ : Index) = l := Fin.ext ho
  rw [dif_pos hlt, hl, hf]
  rfl

theorem bytesOf_none {f : Index → Option Block} {l : Index} (hf : f l = none) {o : ℕ}
    (ho : o / 1024 = l) : bytesOf f o = 0 := by
  unfold bytesOf
  have hlt : o / 1024 < 7 + 512 + 512 * 512 := ho.trans_lt l.isLt
  have hl : (⟨o / 1024, hlt⟩ : Index) = l := Fin.ext ho
  rw [dif_pos hlt, hl, hf]
  rfl

theorem bytesOf_update (f : Index → Option Block) (l : Index) (b : Block) (o : ℕ) :
    bytesOf (Function.update f l (some b)) o =
      if o / 1024 = l then b (o % 1024) else bytesOf f o := by
  split_ifs with ho
  · exact bytesOf_some (Function.update_self _ _ _) ho
  · unfold bytesOf
    split_ifs with hlt
    · rw [Function.update_of_ne fun hc => ho (congrArg Fin.val hc)]
    · rfl

/-- A block that has been created is zeros, as it was. -/
theorem bytesOf_create (f : Slot → Index → Option Block) (i : Slot) (l : Index) (n : ℕ) (j : Slot) :
    bytesOf ((Access.create i l n).apply f j) = bytesOf (f j) := by
  simp only [Access.apply]
  split_ifs with hc
  · by_cases hj : j = i
    · subst hj
      rw [Function.update_self]
      funext o
      rw [bytesOf_update]
      split_ifs with ho
      · exact (bytesOf_none hc.2 ho).symm
      · rfl
    · rw [Function.update_of_ne hj]
  · rfl

/-! ### Inodes -/

section
variable {x : Inode}

theorem retouch_inode (hz : x.zone = (s.inodes i).zone) (hd : x.dev = (s.inodes i).dev)
    (hm : x.mode = (s.inodes i).mode) (j : Slot) :
    ((s.setInode i x).inodes j).zone = (s.inodes j).zone ∧
      ((s.setInode i x).inodes j).dev = (s.inodes j).dev ∧
      ((s.setInode i x).inodes j).mode = (s.inodes j).mode := by
  by_cases hj : j = i
  · subst hj
    rw [Fs.setInode_self]
    exact ⟨hz, hd, hm⟩
  · rw [Fs.setInode_ne s x hj]
    exact ⟨rfl, rfl, rfl⟩

theorem retouch_at (hz : x.zone = (s.inodes i).zone) (hd : x.dev = (s.inodes i).dev)
    (hm : x.mode = (s.inodes i).mode) (j : Slot) (p : Place) : (s.setInode i x).at j p = s.at j p := by
  obtain ⟨hz, hd, -⟩ := retouch_inode hz hd hm j
  unfold Fs.at
  rw [hd]
  exact blockAt_congr hz (fun _ _ => rfl) p

/-- Data of an inode that say nothing of its blocks. -/
theorem Accounted.retouch (h : Accounted s dev k I R) (hz : x.zone = (s.inodes i).zone)
    (hd : x.dev = (s.inodes i).dev) (hm : x.mode = (s.inodes i).mode) :
    Accounted (s.setInode i x) dev k I R ∧ (s.setInode i x).contents I = s.contents I := by
  have hinode := retouch_inode hz hd hm
  have hat := retouch_at hz hd hm
  obtain ⟨hv, hfree⟩ := h.volume.congr (rfl : (s.setInode i x).supers = s.supers) h.volume.unused
    fun _ _ _ => rfl
  have hsame : (s.setInode i x).allotment k I = s.allotment k I := by
    unfold Fs.allotment
    rw [hfree]
    congr 1
    funext y
    rw [hat]
  refine ⟨⟨hv, ⟨h.quiet.reads, h.quiet.bcount⟩, h.idle, fun j hj => ?_, ?_⟩, ?_⟩
  · obtain ⟨-, hd, hm⟩ := hinode j
    rw [hd, hm]
    exact h.files j hj
  · rw [hsame]
    exact h.exact
  · funext j l
    exact contents_congr (hinode j).2.1 (hat j (placeOf l)) fun _ => rfl

end

theorem SameFiles.regular (h : SameFiles false s s')
    (hr : isReg (s.inodes i).mode ∧ (s.inodes i).pipe = false) :
    isReg (s'.inodes i).mode ∧ (s'.inodes i).pipe = false := by
  obtain ⟨hm, hp, -⟩ := h i
  rw [hm, hp]
  exact hr

/-! ### A chunk of a write -/

theorem Holding.create (h : Holding s dev k I R F) (hi : i ∈ I) {l : Index} {n : ℕ}
    (heq : createBlock i l s = .ok n s') : Holding s' dev k I R F := by
  obtain ⟨hacc, hcon⟩ := (Accessed.create hi heq).sound h.accounted
  have hsame : SameFiles true s s' := (bmapWith_same true i l.isLt).of_ok heq
  refine ⟨hacc, fun j hj => hsame.weaken.regular (h.regular j hj), fun j hj => ?_, h.small⟩
  obtain ⟨-, -, hsize⟩ := hsame j
  refine ⟨by rw [hsize rfl, (h.stores j hj).size], fun o => ?_⟩
  rw [hcon, bytesOf_create]
  exact (h.stores j hj).byte o

theorem Holding.retouch (h : Holding s dev k I R F) {x : Inode} (hz : x.zone = (s.inodes i).zone)
    (hd : x.dev = (s.inodes i).dev) (hm : x.mode = (s.inodes i).mode)
    (hp : x.pipe = (s.inodes i).pipe) (hs : x.size = (s.inodes i).size) :
    Holding (s.setInode i x) dev k I R F := by
  obtain ⟨hacc, hcon⟩ := h.accounted.retouch hz hd hm
  have hsame : SameFiles true s (s.setInode i x) := sameFiles_setInode hm hp fun _ => hs
  refine ⟨hacc, fun j hj => hsame.weaken.regular (h.regular j hj), fun j hj => ?_, h.small⟩
  obtain ⟨-, -, hsize⟩ := hsame j
  refine ⟨by rw [hsize rfl, (h.stores j hj).size], fun o => ?_⟩
  rw [hcon]
  exact (h.stores j hj).byte o

/-- What a write does to the size. -/
def Fs.grow (s : Fs) (i : Slot) (size : ℕ) : Fs :=
  if size > (s.inodes i).size.toNat then
    s.setInode i { s.inodes i with size := UInt32.ofNat size, dirt := true }
  else s

theorem grow_same (s : Fs) (i : Slot) (size : ℕ) : SameFiles false s (s.grow i size) := by
  unfold Fs.grow
  split_ifs
  · exact sameFiles_setInode rfl rfl fun hc => nomatch hc
  · exact .refl false s

theorem grow_size {size : ℕ} (hsize : size < 2 ^ 32) (s : Fs) (i j : Slot) :
    ((s.grow i size).inodes j).size.toNat =
      if j = i then max (s.inodes i).size.toNat size else (s.inodes j).size.toNat := by
  unfold Fs.grow
  split_ifs with hgt hj hj
  · subst hj
    rw [Fs.setInode_self, UInt32.toNat_ofNat', max_eq_right (by omega)]
    exact Nat.mod_eq_of_lt hsize
  · rw [Fs.setInode_ne _ _ hj]
  · subst hj
    exact (max_eq_left (by omega)).symm
  · rfl

theorem grow_at (s : Fs) (i : Slot) (size : ℕ) (j : Slot) (p : Place) :
    (s.grow i size).at j p = s.at j p := by
  unfold Fs.grow
  split_ifs
  · apply retouch_at
    all_goals rfl
  · rfl

theorem Accounted.grow (h : Accounted s dev k I R) (i : Slot) (size : ℕ) :
    Accounted (s.grow i size) dev k I R ∧ (s.grow i size).contents I = s.contents I := by
  unfold Fs.grow
  split_ifs
  · apply h.retouch
    all_goals rfl
  · exact ⟨h, rfl⟩

/-- Bytes `c` from `start` on are those of `src`. -/
def Block.patch (b : Block) (start c : ℕ) (src : ℕ → UInt8) : Block := fun o =>
  if start ≤ o ∧ o < start + c then src (o - start) else b o

/-- The state after a chunk of a write. -/
def Fs.putChunk (s : Fs) (i : Slot) (b : Buffer) (pos c : ℕ) (src : ℕ → UInt8) : Fs :=
  (s.grow i (pos + c)).setData b (Block.patch (s.data b) (pos % 1024) c src)

theorem Holding.chunk (h : Holding s dev k I R F) (hi : i ∈ I) {pos c : ℕ} (hc : 0 < c)
    (hchunk : pos % 1024 + c ≤ 1024) {l : Index} (hl : pos / 1024 = l) (h0 : s.blockOf i l ≠ 0)
    (src : ℕ → UInt8) : Holding (s.putChunk i (dev, s.blockOf i l) pos c src) dev k I R
      (Function.update F i ((F i).write pos c src)) := by
  unfold Fs.putChunk
  have hlimit : pos + c ≤ (7 + 512 + 512 * 512) * 1024 := by
    have hlt := l.isLt
    omega
  obtain ⟨hacc, hcon⟩ := h.accounted.grow i (pos + c)
  have hsize := grow_size (by omega : pos + c < 2 ^ 32) s i
  have hsame := grow_same s i (pos + c)
  have hblock : (s.grow i (pos + c)).blockOf i l = s.blockOf i l := grow_at s i _ i (placeOf l)
  rw [← hblock] at h0 ⊢
  have hsome := h.accounted.contents_some hi (hblock ▸ h0)
  have hstore := hacc.store_contents (Block.patch (s.data (dev, (s.grow i (pos + c)).blockOf i l))
    (pos % 1024) c src) hi h0
  refine ⟨hacc.store _ hi h0, fun j hj => hsame.regular (h.regular j hj), fun j hj => ?_,
    fun j hj => ?_⟩
  · by_cases hji : j = i
    · subst hji
      rw [Function.update_self]
      refine ⟨?_, fun o => ?_⟩
      · refine (hsize j).trans ?_
        rw [if_pos rfl, (h.stores j hj).size, write_size, if_neg hc.ne']
      · rw [hstore]
        simp only [Access.apply]
        rw [Function.update_self, bytesOf_update, hcon, write_byte]
        unfold Block.patch
        have hold : o / 1024 = l → s.data (dev, (s.grow j (pos + c)).blockOf j l) (o % 1024) =
            (F j).byte o := fun ho => by
          rw [hblock, ← (h.stores j hj).byte o, bytesOf_some hsome ho]
        split_ifs with ho hin hin' hin'
        · exact congrArg src (by omega)
        · omega
        · omega
        · exact hold ho
        · omega
        · exact (h.stores j hj).byte o
    · rw [Function.update_of_ne hji]
      refine ⟨?_, fun o => ?_⟩
      · refine (hsize j).trans ?_
        rw [if_neg hji, (h.stores j hj).size]
      · rw [hstore]
        simp only [Access.apply]
        rw [Function.update_of_ne hji, hcon]
        exact (h.stores j hj).byte o
  · by_cases hji : j = i
    · subst hji
      have hsmall := h.small j hj
      unfold maxSize at hsmall ⊢
      rw [Function.update_self, write_size, if_neg hc.ne']
      omega
    · rw [Function.update_of_ne hji]
      exact h.small j hj

/-! ### `file_read` -/

section
variable {g g' : Files} {f : Fin NR_FILE}

theorem setPos_self (g : Files) (f : Fin NR_FILE) : g.setPos f (g.file f).pos = g := by
  unfold Files.setPos Files.setFile
  simp only [Function.update_eq_self]

theorem setPos_setPos (g : Files) (f : Fin NR_FILE) (pos pos' : ℤ) :
    (g.setPos f pos).setPos f pos' = g.setPos f pos' := by
  unfold Files.setPos Files.setFile
  simp only [Function.update_self, Function.update_idem]

theorem enterBmap_read (h : Quiet g.fs) (i : Slot) {pos : ℕ} (hpos : (pos : ℤ) < maxSize) :
    enterBmap false i (Int.tdiv pos BLOCK_SIZE) g = .ok (g.fs.blockOf i (pos / 1024)) g := by
  unfold maxSize at hpos
  have hdiv : Int.tdiv (pos : ℤ) BLOCK_SIZE = ((pos / 1024 : ℕ) : ℤ) := rfl
  have hmap := h.bmap i (k := pos / 1024) (by omega)
  unfold bmap at hmap
  unfold enterBmap onFs
  rw [hdiv, if_neg (by omega), Int.toNat_natCast, hmap]

theorem slice_map (b : Block) (nr c : ℕ) :
    slice b (nr : ℤ) c = (List.range c).map fun t => b (nr + t) := by
  unfold slice
  rw [bind_pure_comp, List.map_eq_map, List.map_map]
  refine List.map_congr_left fun t _ => ?_
  exact congrArg b (Int.toNat_natCast (nr + t))

/-- The bytes of one block of a file. -/
theorem Holding.block (h : Holding s dev k I R F) (hi : i ∈ I) {pos c : ℕ}
    (hchunk : pos % 1024 + c ≤ 1024) (hpos : (pos : ℤ) < maxSize) :
    (if s.blockOf i (pos / 1024) = 0 then List.replicate c 0
      else slice (s.data (dev, s.blockOf i (pos / 1024))) ((pos % 1024 : ℕ) : ℤ) c) =
    (F i).window pos c := by
  unfold maxSize at hpos
  have hlt : pos / 1024 < 7 + 512 + 512 * 512 := by omega
  have hdiv : ∀ t < c, (pos + t) / 1024 = (⟨pos / 1024, hlt⟩ : Index) := fun t ht => by
    change (pos + t) / 1024 = pos / 1024
    omega
  rw [slice_map]
  unfold window
  split_ifs with h0
  · rw [← List.length_range (n := c), ← List.map_const', List.length_range]
    refine List.map_congr_left fun t ht => ?_
    rw [← (h.stores i hi).byte]
    exact (bytesOf_none (contents_none _ h0) (hdiv t (List.mem_range.1 ht))).symm
  · refine List.map_congr_left fun t ht => ?_
    have hct := List.mem_range.1 ht
    rw [← (h.stores i hi).byte, bytesOf_some (h.accounted.contents_some hi h0) (hdiv t hct)]
    have hmod : (pos + t) % 1024 = pos % 1024 + t := by omega
    rw [hmod]

/-- A round of `file_read`. -/
theorem readBlocks_round (h : Holding g.fs dev k I R F) (hi : i ∈ I) {pos left c : ℕ}
    (hpos : (g.file f).pos = pos) (hend : ((pos + left : ℕ) : ℤ) ≤ maxSize) (h0 : left ≠ 0)
    (hc : c = min (1024 - pos % 1024) left) (n : ℕ) (got : List UInt8) :
    readBlocks i f (n + 1) left got g = readBlocks i f n ((left - c : ℕ) : ℤ)
      (got ++ (F i).window pos c) (g.setPos f ((pos + c : ℕ) : ℤ)) := by
  have hne : (left : ℤ) ≠ 0 := Nat.cast_ne_zero.2 h0
  have hlt : (pos : ℤ) < maxSize := by omega
  have hchunk : pos % 1024 + c ≤ 1024 := by omega
  have hwindow := h.block hi hchunk hlt
  have hmod : Int.tmod (pos : ℤ) BLOCK_SIZE = ((pos % 1024 : ℕ) : ℤ) := by
    rw [Int.tmod_eq_emod_of_nonneg (Int.natCast_nonneg pos)]
    exact (Int.natCast_mod pos 1024).symm
  have hchars : min (BLOCK_SIZE - ((pos % 1024 : ℕ) : ℤ)) (left : ℤ) = (c : ℤ) := by
    unfold BLOCK_SIZE
    omega
  have hleft : (left : ℤ) - c = ((left - c : ℕ) : ℤ) := by omega
  have hnext : int32 ((pos : ℤ) + c) = ((pos + c : ℕ) : ℤ) := by
    unfold maxSize at hend
    have hsum : int32 ((pos : ℤ) + c) = (pos : ℤ) + c := by
      apply int32_eq
      all_goals omega
    rw [hsum, Nat.cast_add]
  rw [readBlocks, if_neg hne, hpos, enterBmap_read h.accounted.quiet i hlt, Outcome.bind_ok]
  dsimp only
  rw [hpos, hmod, hchars, hleft, hnext, Int.toNat_natCast]
  obtain ⟨hdev, -⟩ := h.accounted.files i hi
  by_cases hb : g.fs.blockOf i (pos / 1024) = 0
  · rw [if_pos hb] at hwindow ⊢
    rw [hwindow]
  · have hbread : onFs (bread (g.fs.inodes i).dev (g.fs.blockOf i (pos / 1024))) g =
        .ok (some (dev, g.fs.blockOf i (pos / 1024)))
          { g with fs := g.fs.hold (dev, g.fs.blockOf i (pos / 1024)) } := by
      unfold onFs
      rw [h.accounted.quiet.bread, hdev]
    have hbrelse : onFs (brelse (some (dev, g.fs.blockOf i (pos / 1024))))
        (Files.setPos { g with fs := g.fs.hold (dev, g.fs.blockOf i (pos / 1024)) } f
          ((pos + c : ℕ) : ℤ)) = .ok () (g.setPos f ((pos + c : ℕ) : ℤ)) := by
      unfold onFs
      have hrel := brelse_hold g.fs (dev, g.fs.blockOf i (pos / 1024))
      dsimp only [Files.setPos, Files.setFile]
      rw [hrel]
    rw [if_neg hb] at hwindow ⊢
    rw [hbread, Outcome.bind_ok]
    dsimp only
    rw [hpos, hnext, hbrelse, Outcome.bind_ok]
    change readBlocks i f n _ (got ++ slice (g.fs.data _) _ c) _ = _
    rw [hwindow]

theorem readBlocks_bytes (hi : i ∈ I) (n : ℕ) : ∀ (left pos : ℕ) (got : List UInt8) (g : Files),
    Holding g.fs dev k I R F → (g.file f).pos = pos → ((pos + left : ℕ) : ℤ) ≤ maxSize → left ≤ n →
    readBlocks i f n left got g =
      .ok (0, got ++ (F i).window pos left) (g.setPos f ((pos + left : ℕ) : ℤ)) := by
  have hdone : ∀ (pos : ℕ) (got : List UInt8) (g : Files), (g.file f).pos = pos →
      (Outcome.ok (0, got) g : Call (ℤ × List UInt8)) =
        .ok (0, got ++ (F i).window pos 0) (g.setPos f ((pos + 0 : ℕ) : ℤ)) := by
    intro pos got g hpos
    rw [window_zero, List.append_nil, Nat.add_zero, ← hpos, setPos_self]
  induction n with
  | zero =>
    intro left pos got g _ hpos _ hn
    obtain rfl : left = 0 := Nat.le_zero.1 hn
    exact hdone pos got g hpos
  | succ n ih =>
    intro left pos got g h hpos hend hn
    by_cases h0 : left = 0
    · subst h0
      unfold readBlocks
      rw [if_pos Nat.cast_zero]
      exact hdone pos got g hpos
    obtain ⟨c, hc⟩ : ∃ c, c = min (1024 - pos % 1024) left := ⟨_, rfl⟩
    have hsum : pos + c + (left - c) = pos + left := by omega
    have hadd : c + (left - c) = left := by omega
    have hn' : left - c ≤ n := by omega
    have h' : Holding (g.setPos f ((pos + c : ℕ) : ℤ)).fs dev k I R F := h
    rw [readBlocks_round h hi hpos hend h0 hc,
      ih (left - c) (pos + c) _ _ h' (setPos_pos _ _ _) (by rw [hsum]; exact hend) hn',
      setPos_setPos, hsum, List.append_assoc, window_append, hadd]

/-- `file_read` gets the bytes of the file, and the position moves behind them. -/
theorem fileRead_bytes (h : Holding g.fs dev k I R F) (hi : i ∈ I) {count pos : ℕ}
    (hpos : (g.file f).pos = pos) (hend : ((pos + count : ℕ) : ℤ) ≤ maxSize) (h0 : count ≠ 0) :
    fileRead i f count g =
      .ok ((count : ℤ), (F i).window pos count) (g.setPos f ((pos + count : ℕ) : ℤ)) := by
  have hne : (count : ℤ) ≠ 0 := Nat.cast_ne_zero.2 h0
  have hpositive : ¬(count : ℤ) ≤ 0 := by omega
  unfold fileRead
  rw [if_neg hpositive, Int.toNat_natCast, readBlocks_bytes hi count count pos [] g h hpos hend le_rfl,
    Outcome.bind_ok, List.nil_append]
  dsimp only
  rw [sub_zero, if_pos hne]

/-! ### `file_write` -/

/-- What `create_block` gives for a block of a file. -/
theorem Holding.given (h : Holding s dev k I R F) (hi : i ∈ I) {l : Index} {n : ℕ}
    (heq : createBlock i l s = .ok n s') (hn : n ≠ 0) : s'.blockOf i l = n := by
  by_cases h0 : s.blockOf i l = 0
  · exact ((createBlock_created h.accounted.quiet (h.accounted.grounded hi) l.isLt h0).of_ok heq
      hn).self
  · rw [createBlock_mapped h.accounted.quiet l.isLt h0] at heq
    cases heq
    rfl

theorem patch_int (b : Block) (pos c done : ℕ) (buf : ℕ → UInt8) :
    (fun o : ℕ => if ((pos % 1024 : ℕ) : ℤ) ≤ o ∧ (o : ℤ) < ((pos % 1024 : ℕ) : ℤ) + c then
      buf ((done : ℤ) + (o - ((pos % 1024 : ℕ) : ℤ))).toNat else b o) =
    Block.patch b (pos % 1024) c fun t => buf (done + t) := by
  generalize pos % 1024 = start
  funext o
  unfold Block.patch
  have hiff : ((start : ℤ) ≤ o ∧ (o : ℤ) < (start : ℤ) + c) ↔ start ≤ o ∧ o < start + c := by omega
  by_cases ho : start ≤ o ∧ o < start + c
  · rw [if_pos (hiff.2 ho), if_pos ho]
    exact congrArg buf (by omega)
  · rw [if_neg (hiff.not.2 ho), if_neg ho]

theorem grow_int (s : Fs) (i : Slot) {size : ℕ} (hsize : size < 2 ^ 32) :
    (if ((size : ℕ) : ℤ) % 2 ^ 32 > (s.inodes i).size.toNat then
      s.setInode i { s.inodes i with
        size := UInt32.ofNat (((size : ℕ) : ℤ) % 2 ^ 32).toNat, dirt := true }
    else s) = s.grow i size := by
  have hmod : ((size : ℕ) : ℤ) % 2 ^ 32 = size := by omega
  unfold Fs.grow
  rw [hmod, Int.toNat_natCast]
  by_cases hgt : size > (s.inodes i).size.toNat
  · rw [if_pos hgt, if_pos (Int.ofNat_lt.2 hgt)]
  · rw [if_neg hgt, if_neg fun hc => hgt (Int.ofNat_lt.1 hc)]

theorem hold_grow (s : Fs) (b : Buffer) (i : Slot) (size : ℕ) :
    (s.hold b).grow i size = (s.grow i size).hold b := by
  unfold Fs.grow
  rw [hold_inodes]
  split_ifs
  · rfl
  · rfl

/-- A round of `file_write`, at a position that the file may have. -/
theorem writeBlocks_round (h : Holding g.fs dev k I R F) (hi : i ∈ I) {count done pos c : ℕ}
    (hlt : (pos : ℤ) < maxSize) (hmore : done < count)
    (hc : c = min (1024 - pos % 1024) (count - done)) (buf : ℕ → UInt8) (n : ℕ) :
    ∃ m s, Holding s dev k I R F ∧ (m = 0 → s.freeZones k = ∅) ∧
      (m ≠ 0 → s.blockOf i (pos / 1024) = m) ∧
      writeBlocks i buf count (n + 1) done pos g =
        if m = 0 then .ok ((done : ℤ), (pos : ℤ)) { g with fs := s }
        else writeBlocks i buf count n ((done + c : ℕ) : ℤ) ((pos + c : ℕ) : ℤ)
          { g with fs := s.putChunk i (dev, m) pos c fun t => buf (done + t) } := by
  have hlt' : pos / 1024 < 7 + 512 + 512 * 512 := by
    unfold maxSize at hlt
    omega
  have hsum : pos + c < 2 ^ 32 := by
    unfold maxSize at hlt
    omega
  have hnext : int32 ((pos : ℤ) + c) = ((pos + c : ℕ) : ℤ) := by
    unfold maxSize at hlt
    have hint : int32 ((pos : ℤ) + c) = (pos : ℤ) + c := by
      apply int32_eq
      all_goals omega
    rw [hint, Nat.cast_add]
  have hmod : Int.tmod (pos : ℤ) BLOCK_SIZE = ((pos % 1024 : ℕ) : ℤ) := by
    rw [Int.tmod_eq_emod_of_nonneg (Int.natCast_nonneg pos)]
    exact (Int.natCast_mod pos 1024).symm
  have hchars : min (BLOCK_SIZE - ((pos % 1024 : ℕ) : ℤ)) ((count : ℤ) - done) = (c : ℤ) := by
    unfold BLOCK_SIZE
    omega
  obtain ⟨m, s, heq, hfull, -⟩ := h.accounted.creates hi (⟨pos / 1024, hlt'⟩ : Index)
  have hs := h.create hi heq
  refine ⟨m, s, hs, hfull, h.given hi heq, ?_⟩
  obtain ⟨hdev, -⟩ := hs.accounted.files i hi
  have hcount : ¬(done : ℤ) ≥ count := by omega
  have hdiv : Int.tdiv (pos : ℤ) BLOCK_SIZE = ((pos / 1024 : ℕ) : ℤ) := rfl
  have hneg : ¬((pos / 1024 : ℕ) : ℤ) < 0 := by omega
  have henter : enterBmap true i (Int.tdiv pos BLOCK_SIZE) g = .ok m { g with fs := s } := by
    unfold enterBmap onFs
    rw [hdiv, if_neg hneg, Int.toNat_natCast]
    unfold createBlock at heq
    rw [heq]
  rw [writeBlocks, if_neg hcount, henter, Outcome.bind_ok]
  by_cases h0 : m = 0
  · rw [if_pos h0, if_pos h0]
  rw [if_neg h0, if_neg h0]
  have hbread : onFs (bread (s.inodes i).dev m) { g with fs := s } =
      .ok (some (dev, m)) { g with fs := s.hold (dev, m) } := by
    unfold onFs
    rw [hs.accounted.quiet.bread, hdev]
  dsimp only
  rw [hbread, Outcome.bind_ok]
  dsimp only
  rw [hmod, hchars, hnext, grow_int _ i hsum, hold_grow, patch_int, ← Nat.cast_add]
  have hrelease := brelse_hold (s.putChunk i (dev, m) pos c fun t => buf (done + t)) (dev, m)
  change (onFs (brelse (some (dev, m))) { g with
    fs := (s.putChunk i (dev, m) pos c fun t => buf (done + t)).hold (dev, m) }).bind _ = _
  unfold onFs
  rw [hrelease, Outcome.bind_ok]

/-- So many bytes are stored, all of them as long as there are free zones. -/
theorem writeBlocks_bytes (hi : i ∈ I) (count : ℕ) (buf : ℕ → UInt8) (n : ℕ) :
    ∀ (done pos : ℕ) (g : Files) (F : Slot → ByteFile), Holding g.fs dev k I R F → done ≤ count →
      count ≤ done + n → (writeBlocks i buf count n done pos g).Sat
        (fun r g' => ∃ m s, done + m ≤ count ∧ r = (((done + m : ℕ) : ℤ), ((pos + m : ℕ) : ℤ)) ∧
          g' = { g with fs := s } ∧ (done + m < count → s.freeZones k = ∅) ∧
          Holding s dev k I R (Function.update F i ((F i).write pos m fun t => buf (done + t))))
        fun w => w = .fs .blockTooBig ∧ maxSize < ((pos + (count - done) : ℕ) : ℤ) := by
  have hnone : ∀ (F : Slot → ByteFile) (pos : ℕ) (src : ℕ → UInt8),
      Function.update F i ((F i).write pos 0 src) = F := fun F pos src => by
    rw [write_zero, Function.update_eq_self]
  induction n with
  | zero =>
    intro done pos g F h hle hn
    refine ⟨0, g.fs, hle, rfl, rfl, fun hlt => ?_, ?_⟩
    · omega
    · rw [hnone]
      exact h
  | succ n ih =>
    intro done pos g F h hle hn
    by_cases hdone : count ≤ done
    · have hge : (done : ℤ) ≥ count := Int.ofNat_le.2 hdone
      rw [writeBlocks, if_pos hge]
      refine ⟨0, g.fs, hle, rfl, rfl, fun hlt => ?_, ?_⟩
      · omega
      · rw [hnone]
        exact h
    have hmore : done < count := Nat.not_le.1 hdone
    by_cases hbig : maxSize ≤ (pos : ℤ)
    · have hcount : ¬(done : ℤ) ≥ count := by omega
      rw [writeBlocks, if_neg hcount, enterBmap_big true i hbig, Outcome.bind_stop]
      refine ⟨rfl, hbig.trans_lt ?_⟩
      omega
    obtain ⟨c, hc⟩ : ∃ c, c = min (1024 - pos % 1024) (count - done) := ⟨_, rfl⟩
    have hpositive : 0 < c := by omega
    have hchunk : pos % 1024 + c ≤ 1024 := by omega
    have hlt : (pos : ℤ) < maxSize := Int.not_le.1 hbig
    obtain ⟨m, s, hs, hfull, hblock, heq⟩ := writeBlocks_round h hi hlt hmore hc buf n
    rw [heq]
    split_ifs with h0
    · refine ⟨0, s, hle, rfl, rfl, fun _ => hfull h0, ?_⟩
      rw [hnone]
      exact hs
    have hlt' : pos / 1024 < 7 + 512 + 512 * 512 := by
      unfold maxSize at hlt
      omega
    have hput := hs.chunk hi hpositive hchunk (l := ⟨pos / 1024, hlt'⟩) rfl
      (by rw [hblock h0]; exact h0) fun t => buf (done + t)
    rw [hblock h0] at hput
    have hend : pos + c + (count - (done + c)) = pos + (count - done) := by omega
    refine (ih (done + c) (pos + c) _ _ hput (by omega) (by omega)).mono ?_ fun w hw => ?_
    · rintro r g' ⟨m', s', hm', rfl, rfl, hshort, hold⟩
      rw [Nat.add_assoc done, Nat.add_assoc pos] at *
      refine ⟨c + m', s', hm', rfl, rfl, hshort, ?_⟩
      rw [Function.update_self, Function.update_idem] at hold
      have hsrc : (fun t => buf (done + c + t)) = fun t => buf (done + (c + t)) :=
        funext fun t => congrArg buf (Nat.add_assoc _ _ _)
      have hboth : ((F i).write pos c fun t => buf (done + t)).write (pos + c) m'
          (fun t => buf (done + (c + t))) = (F i).write pos (c + m') fun t => buf (done + t) :=
        write_write
      rw [hsrc, hboth] at hold
      exact hold
    · rw [hend] at hw
      exact hw

/-- Whether the file is written at its end. -/
def Files.appends (g : Files) (f : Fin NR_FILE) : Bool := (g.file f).flags.toNat &&& O_APPEND ≠ 0

/-- `file_write` stores the first `m` bytes of the buffer, and all of them as long as there are free
    zones. -/
theorem fileWrite_bytes (h : Holding g.fs dev k I R F) (hi : i ∈ I) {pos : ℕ}
    (hpos : (g.file f).pos = pos) (count : ℕ) (buf : ℕ → UInt8) :
    (fileWrite i f buf count g).Sat
      (fun r g' => ∃ m s, m ≤ count ∧ r = (if m = 0 then -1 else (m : ℤ)) ∧
        (m < count → s.freeZones k = ∅) ∧
        Holding s dev k I R
          (Function.update F i ((F i).write ((F i).start (g.appends f) pos) m buf)) ∧
        g' = if g.appends f then { g with fs := s }
          else Files.setPos { g with fs := s } f (((F i).start (g.appends f) pos + m : ℕ) : ℤ))
      fun w => w = .fs .blockTooBig ∧
        maxSize < (((F i).start (g.appends f) pos + count : ℕ) : ℤ) := by
  have happend : g.appends f = true ↔ (g.file f).flags.toNat &&& O_APPEND ≠ 0 := decide_eq_true_iff
  have hstart : (if (g.file f).flags.toNat &&& O_APPEND ≠ 0 then
      int32 (g.fs.inodes i).size.toNat else (g.file f).pos) =
      (((F i).start (g.appends f) pos : ℕ) : ℤ) := by
    unfold ByteFile.start
    by_cases ha : (g.file f).flags.toNat &&& O_APPEND ≠ 0
    · have hsmall := h.small i hi
      unfold maxSize at hsmall
      rw [if_pos ha, if_pos (happend.2 ha), (h.stores i hi).size]
      apply int32_eq
      all_goals omega
    · rw [if_neg ha, if_neg (happend.not.2 ha), hpos]
  generalize (F i).start (g.appends f) pos = start at hstart ⊢
  have hloop := writeBlocks_bytes hi count buf count 0 start g F h (Nat.zero_le _)
    (Nat.zero_add count).ge
  simp only [Nat.zero_add, Nat.sub_zero, Nat.cast_zero] at hloop
  unfold fileWrite
  dsimp only
  rw [hstart, Int.toNat_natCast]
  refine hloop.bind fun r g' hr => ?_
  obtain ⟨m, s, hm, rfl, rfl, hshort, hold⟩ := hr
  have htime : Holding (s.setInode i { s.inodes i with mtime := s.time }) dev k I R
      (Function.update F i ((F i).write start m buf)) := by
    apply hold.retouch
    all_goals rfl
  refine ⟨m, s.setInode i { s.inodes i with mtime := s.time }, hm, ?_, fun hlt => hshort hlt, htime,
    ?_⟩
  · dsimp only
    by_cases h0 : m = 0
    · subst h0
      rw [if_neg (not_not_intro Nat.cast_zero), if_pos rfl]
    · rw [if_pos (Nat.cast_ne_zero.2 h0), if_neg h0]
  · by_cases ha : (g.file f).flags.toNat &&& O_APPEND ≠ 0
    · rw [if_pos ha, if_pos (happend.2 ha)]
    · rw [if_neg ha, if_neg (happend.not.2 ha)]

end

end Linux011.Minix
