import Linux011.FsWalks

set_option autoImplicit false

/-!
# Looking up names

`find_entry` finds what is in the tree; if no read fails, it finds exactly that.
-/
namespace Linux011.Minix
open Outcomes

section
variable {live : ℕ → ℕ → Prop} {s₀ s s' : Fs} {held : List Slot} {bufs : List Buffer}

/-- Buffers have been read and released. -/
def OnlyReads (s s' : Fs) : Prop := ∃ reads bcount, s' = { s with reads := reads, bcount := bcount }

theorem OnlyReads.refl (s : Fs) : OnlyReads s s := ⟨s.reads, s.bcount, rfl⟩

theorem OnlyReads.trans {s'' : Fs} (h : OnlyReads s s') (h' : OnlyReads s' s'') :
    OnlyReads s s'' := by
  obtain ⟨reads, bcount, rfl⟩ := h
  obtain ⟨reads', bcount', rfl⟩ := h'
  exact ⟨reads', bcount', rfl⟩

theorem OnlyReads.same (h : OnlyReads s s') : s'.inodes = s.inodes ∧ s'.data = s.data ∧
    s'.supers = s.supers ∧ s'.task = s.task := by
  obtain ⟨reads, bcount, rfl⟩ := h
  exact ⟨rfl, rfl, rfl, rfl⟩

theorem OnlyReads.blocks (h : OnlyReads s s') (dev : ℕ) : s'.blocks dev = s.blocks dev := by
  unfold Fs.blocks
  rw [h.same.2.1]

/-! ### Blocks of a directory -/

/-- An entry of an indirect block, or 0 if the block cannot be read. -/
theorem fillEntry_walk (h₀ : Tree live s₀) (h : Walk live s₀ s held bufs) (hl : bufs.length ≤ 90)
    (dev block n : ℕ) : (fillEntry false dev block n s).Sat (fun m s' => OnlyReads s s' ∧
      Walk live s₀ s' held bufs ∧ (m = 0 ∨ m = (word (s.blocks dev block) (2 * n)).toNat) ∧
      (s₀.reads = [] → m = (word (s.blocks dev block) (2 * n)).toNat)) Gone := by
  unfold fillEntry
  refine (bread_walk h₀ h (by omega) dev block).bind
    fun bh s₁ ⟨⟨reads, bcount, hs₁⟩, hread, hbh, h₁⟩ => ?_
  cases bh with
  | none => exact ⟨⟨_, _, hs₁⟩, h₁, .inl rfl, fun hr => absurd rfl (hread hr)⟩
  | some b =>
    obtain rfl := hbh b rfl
    subst hs₁
    simp only [Bool.false_eq_true, false_and, if_false, Outcome.bind_ok]
    refine (brelse_walk h₁).bind fun _ s₂ ⟨⟨bcount', hs₂⟩, h₂⟩ => ?_
    subst hs₂
    exact ⟨⟨_, _, rfl⟩, h₂, .inr rfl, fun _ => rfl⟩

theorem bmap_walk (h₀ : Tree live s₀) (h : Walk live s₀ s held bufs) (hl : bufs.length ≤ 90)
    (i : Slot) (k : ℕ) : (bmap i k s).Sat (fun n s' => OnlyReads s s' ∧
      Walk live s₀ s' held bufs ∧
      (n = 0 ∨ n = (s.inodes i).block (s.blocks (s.inodes i).dev) k) ∧
      (s₀.reads = [] → n = (s.inodes i).block (s.blocks (s.inodes i).dev) k)) Gone := by
  have hzone : ∀ z s, fillZone false i z s = .ok ((s.inodes i).zone z).toNat s := fun z s => by
    unfold fillZone
    simp only [Bool.false_eq_true, false_and, if_false]
  unfold bmap bmapWith
  split_ifs with hbig h7 h512
  · trivial
  · rw [hzone]
    have hb : ((s.inodes i).zone (Fin.ofNat 9 k)).toNat =
        (s.inodes i).block (s.blocks (s.inodes i).dev) k := by
      unfold DInode.block placeOf
      rw [dif_pos h7]
      have hz : Fin.ofNat 9 k = (⟨k, h7⟩ : Fin 7).castLE (by decide) :=
        Fin.ext (Nat.mod_eq_of_lt (by omega))
      rw [hz]
      rfl
    exact ⟨.refl s, h, .inr hb, fun _ => hb⟩
  · rw [hzone, Outcome.bind_ok]
    have hb : (s.inodes i).block (s.blocks (s.inodes i).dev) k =
        entryOf (s.blocks (s.inodes i).dev) ((s.inodes i).zone 7).toNat (k - 7) := by
      unfold DInode.block placeOf
      rw [dif_neg h7, if_pos h512]
      simp only [DInode.blockAt, Fin.val_ofNat, Nat.mod_eq_of_lt h512]
    unfold entryOf at hb
    split_ifs with hz
    · rw [if_pos hz] at hb
      exact ⟨.refl s, h, .inl rfl, fun _ => hb.symm⟩
    · rw [if_neg hz] at hb
      rw [hb]
      exact fillEntry_walk h₀ h hl _ _ _
  · rw [hzone, Outcome.bind_ok]
    have hdiv : (k - 7 - 512) / 512 < 512 := by omega
    have hmod : (k - 7 - 512) % 512 < 512 := by omega
    have hb : (s.inodes i).block (s.blocks (s.inodes i).dev) k =
        entryOf (s.blocks (s.inodes i).dev) (entryOf (s.blocks (s.inodes i).dev)
          ((s.inodes i).zone 8).toNat ((k - 7 - 512) / 512)) ((k - 7 - 512) % 512) := by
      unfold DInode.block placeOf
      rw [dif_neg h7, if_neg h512]
      simp only [DInode.blockAt, Fin.val_ofNat, Nat.mod_eq_of_lt hdiv, Nat.mod_eq_of_lt hmod]
    unfold entryOf at hb
    split_ifs with hz
    · rw [if_pos hz, if_pos rfl] at hb
      exact ⟨.refl s, h, .inl rfl, fun _ => hb.symm⟩
    · rw [if_neg hz] at hb
      refine (fillEntry_walk h₀ h hl _ _ _).bind fun ind s₁ ⟨hr₁, h₁, hind, hexact⟩ => ?_
      have hi := hr₁.same.1
      split_ifs with hi0
      · refine ⟨hr₁, h₁, .inl rfl, fun hr => ?_⟩
        have hw := (hexact hr).symm.trans hi0
        rw [hb, if_pos]
        exact hw
      · have hw := hind.resolve_left hi0
        rw [hb, if_neg (fun hc => hi0 (hw.trans hc)), hi]
        refine (fillEntry_walk h₀ h₁ hl _ _ _).post fun m s₂ ⟨hr₂, h₂, hm, hexact₂⟩ => ?_
        rw [hr₁.blocks, hw] at hm hexact₂
        exact ⟨hr₁.trans hr₂, h₂, hm, hexact₂⟩

/-! ### Searching a directory -/

theorem findHere_some {name : Name} {entries k j : ℕ} {bh : Option Buffer} {b : Buffer}
    {D : DInode} {dev : ℕ} (hbh : ∀ b, bh = some b → b = (dev, D.block (s.blocks dev) k) ∧
      D.block (s.blocks dev) k ≠ 0) (h : findHere name entries k bh s = some (b, j)) :
    bh = some b ∧ b = (dev, D.block (s.blocks dev) k) ∧
      D.findAt (s.blocks dev) name entries k = some (k, j) := by
  unfold findHere at h
  cases bh with
  | none => cases h
  | some b' =>
    obtain ⟨hb, hne⟩ := hbh b' rfl
    rw [Option.bind_some, Option.map_eq_some_iff] at h
    obtain ⟨j', hj, he⟩ := h
    obtain ⟨rfl, rfl⟩ := Prod.mk.inj he
    refine ⟨rfl, hb, ?_⟩
    unfold DInode.findAt
    rw [if_neg hne]
    rw [hb] at hj
    change Option.map _ (findIn name (s.data (dev, D.block (s.blocks dev) k)) _) = _
    rw [hj]
    rfl

theorem findHere_none {name : Name} {entries k : ℕ} {bh : Option Buffer} {D : DInode} {dev : ℕ}
    (hbh : ∀ b, bh = some b → b = (dev, D.block (s.blocks dev) k) ∧ D.block (s.blocks dev) k ≠ 0)
    (h : findHere name entries k bh s = none) (hne : bh ≠ none ∨ D.block (s.blocks dev) k = 0) :
    D.findAt (s.blocks dev) name entries k = none := by
  unfold DInode.findAt
  split_ifs with hz
  · rfl
  · cases bh with
    | none => exact absurd rfl (hne.resolve_right hz)
    | some b =>
      obtain ⟨rfl, -⟩ := hbh b rfl
      unfold findHere at h
      rw [Option.bind_some, Option.map_eq_none_iff] at h
      change Option.map _ (findIn name (s.data (dev, D.block (s.blocks dev) k)) _) = _
      rw [h, Option.map_none]

/-- The next block of a directory. -/
theorem dirBlock_walk (h₀ : Tree live s₀) (h : Walk live s₀ s held bufs) (hl : bufs.length ≤ 90)
    (dir : Slot) (k : ℕ) : (dirBlock dir k s).Sat (fun bh s' => OnlyReads s s' ∧
      Walk live s₀ s' held (bh.toList ++ bufs) ∧
      (∀ b, bh = some b → b = ((s.inodes dir).dev,
          (s.inodes dir).block (s.blocks (s.inodes dir).dev) k) ∧
        (s.inodes dir).block (s.blocks (s.inodes dir).dev) k ≠ 0) ∧
      (s₀.reads = [] → bh = none → (s.inodes dir).block (s.blocks (s.inodes dir).dev) k = 0))
      Gone := by
  unfold dirBlock
  refine (bmap_walk h₀ h hl dir k).bind fun n s₁ ⟨hr₁, h₁, hn, hexact⟩ => ?_
  split_ifs with hz
  · exact ⟨hr₁, h₁, (fun b hb => nomatch hb), fun hr _ => (hexact hr).symm.trans hz⟩
  · rw [hr₁.same.1]
    refine (bread_walk h₀ h₁ (by omega) _ n).post
      fun bh s₂ ⟨⟨reads, bcount, hs₂⟩, hread, hbh, h₂⟩ => ?_
    have hn' := hn.resolve_left hz
    refine ⟨hr₁.trans ⟨_, _, hs₂⟩, h₂, fun b hb => ?_, fun hr hb => absurd hb (hread hr)⟩
    rw [← hn']
    exact ⟨hbh b hb, hz⟩

/-- What the loop of `find_entry` gives, from block `k` on. -/
def Scanned (D : DInode) (dev : ℕ) (data : ℕ → Block) (name : Name) (entries left k : ℕ)
    (exact : Prop) : Option (Buffer × ℕ) → Prop
  | none => exact → (List.range' k (left + 1)).findSome? (D.findAt data name entries) = none
  | some (b, j) => ∃ k', b = (dev, D.block data k') ∧
      D.findAt data name entries k' = some (k', j) ∧
      (exact → (List.range' k (left + 1)).findSome? (D.findAt data name entries) = some (k', j))

theorem scanBlocks_walk (h₀ : Tree live s₀) (hl : bufs.length ≤ 80) {dir : Slot} {D : DInode}
    {dev : ℕ} {data : ℕ → Block} {name : Name} {entries left k : ℕ} {bh : Option Buffer}
    (hD : (s.inodes dir).toDInode = D) (hdev : (s.inodes dir).dev = dev) (hdata : s.blocks dev = data)
    (hbh : ∀ b, bh = some b → b = (dev, D.block data k) ∧ D.block data k ≠ 0)
    (hread : s₀.reads = [] → bh = none → D.block data k = 0)
    (h : Walk live s₀ s held (bh.toList ++ bufs)) :
    (scanBlocks dir name entries left k bh s).Sat (fun found s' => OnlyReads s s' ∧
      Walk live s₀ s' held ((found.map Prod.fst).toList ++ bufs) ∧
      Scanned D dev data name entries left k (s₀.reads = []) found ∧
      (∀ j, bh ≠ none → D.findAt data name entries k = some (k, j) →
        found = some ((dev, D.block data k), j))) Gone := by
  induction left generalizing k bh s with
  | zero =>
    subst hdata
    unfold scanBlocks
    cases hf : findHere name entries k bh s with
    | some found =>
      obtain ⟨b, j⟩ := found
      obtain ⟨rfl, hb, hk⟩ := findHere_some hbh hf
      refine ⟨.refl s, h, ⟨k, hb, hk, fun _ => by simp [hk]⟩, fun j' _ hj' => ?_⟩
      rw [hk] at hj'
      rw [hb, (Prod.mk.inj (Option.some.inj hj')).2]
    | none =>
      have hk := fun hne => @findHere_none _ _ entries _ _ _ _ hbh hf hne
      refine (brelse_walk h).bind fun _ s₁ ⟨⟨bcount, hs₁⟩, h₁⟩ => ?_
      subst hs₁
      refine ⟨⟨_, _, rfl⟩, h₁, fun hr => ?_, fun j hne hj => ?_⟩
      · have hn : D.findAt (s.blocks dev) name entries k = none := by
          by_cases hb : bh = none
          · exact hk (.inr (hread hr hb))
          · exact hk (.inl hb)
        simp [hn]
      · rw [hk (.inl hne)] at hj
        cases hj
  | succ left ih =>
    unfold scanBlocks
    cases hf : findHere name entries k bh s with
    | some found =>
      subst hdata
      obtain ⟨b, j⟩ := found
      obtain ⟨rfl, hb, hk⟩ := findHere_some hbh hf
      refine ⟨.refl s, h, ⟨k, hb, hk, fun _ => by simp [List.range'_succ, hk]⟩, fun j' _ hj' => ?_⟩
      rw [hk] at hj'
      rw [hb, (Prod.mk.inj (Option.some.inj hj')).2]
    | none =>
      have hk := fun hne => @findHere_none _ _ entries _ _ _ _ (by rw [hdata]; exact hbh) hf hne
      rw [hdata] at hk
      refine (brelse_walk h).bind fun _ s₁ ⟨⟨bcount, hs₁⟩, h₁⟩ => ?_
      subst hs₁
      refine (dirBlock_walk h₀ h₁ (by omega) dir (k + 1)).bind fun bh' s₂ ⟨hr₂, h₂, hbh', hread'⟩ => ?_
      have hsame := hr₂.same
      have hblocks := hr₂.blocks dev
      change s₂.blocks dev = s.blocks dev at hblocks
      simp only [hdev, hD] at hbh' hread'
      change ∀ b, bh' = some b → b = (dev, D.block (s.blocks dev) (k + 1)) ∧
        D.block (s.blocks dev) (k + 1) ≠ 0 at hbh'
      change s₀.reads = [] → bh' = none → D.block (s.blocks dev) (k + 1) = 0 at hread'
      rw [hdata] at hbh' hread' hblocks
      refine (ih (by rw [hsame.1]; exact hD) (by rw [hsame.1]; exact hdev) hblocks hbh' hread'
        h₂).post fun found s₃ ⟨hr₃, h₃, hfound, _⟩ => ?_
      have hfirst : s₀.reads = [] → D.findAt data name entries k = none := fun hr => by
        by_cases hb : bh = none
        · exact hk (.inr (hread hr hb))
        · exact hk (.inl hb)
      refine ⟨(OnlyReads.trans ⟨_, _, rfl⟩ hr₂).trans hr₃, h₃, ?_, fun j hne hj => ?_⟩
      · cases found with
        | none =>
          intro hr
          rw [List.range'_succ, List.findSome?_cons, hfirst hr]
          exact hfound hr
        | some p =>
          obtain ⟨k', hb, hk', hexact⟩ := hfound
          refine ⟨k', hb, hk', fun hr => ?_⟩
          rw [List.range'_succ, List.findSome?_cons, hfirst hr]
          exact hexact hr
      · rw [hk (.inl hne)] at hj
        cases hj

/-! ### Directories of the trees -/

/-- An inode that is held is one of a tree. -/
theorem Walk.inTheTree {i : Slot} (h : Walk live s₀ s (i :: held) bufs) (hd : (s.inodes i).dev ≠ 0) :
    live (s.inodes i).dev (s.inodes i).num := by
  have hc := h.count i
  rw [List.count_cons_self] at hc
  exact h.inTree i hd (.inl (by omega))

theorem Walk.slot (h₀ : Tree live s₀) (h : Walk live s₀ s held bufs) {i : Slot}
    (hlive : live (s.inodes i).dev (s.inodes i).num) :
    (s.inodes i).core = s₀.inodeOf (s.inodes i).dev (s.inodes i).num := by
  rw [← h.inodeOf _ _ hlive]
  exact (h.inodeOf_slot (h₀.super hlive).1).symm

/-- A block of a directory or a file is where it was. -/
theorem Walk.blockAt (h₀ : Tree live s₀) (h : Walk live s₀ s held bufs) {dev nr : ℕ}
    (hlive : live dev nr)
    (hm : isReg (s₀.inodeOf dev nr).mode ∨ isDir (s₀.inodeOf dev nr).mode) (p : Place) :
    (s₀.inodeOf dev nr).blockAt (s.blocks dev) p = (s₀.inodeOf dev nr).blockAt (s₀.blocks dev) p := by
  have hkeep : ∀ p, (s₀.inodeOf dev nr).blockAt (s₀.blocks dev) p ≠ 0 →
      s.blocks dev ((s₀.inodeOf dev nr).blockAt (s₀.blocks dev) p) =
        s₀.blocks dev ((s₀.inodeOf dev nr).blockAt (s₀.blocks dev) p) := fun p hp =>
    h.data _ (h₀.not_inodeBlock hlive hm hp)
  have hentry : ∀ (p : Place) (n : ℕ),
      entryOf (s.blocks dev) ((s₀.inodeOf dev nr).blockAt (s₀.blocks dev) p) n =
        entryOf (s₀.blocks dev) ((s₀.inodeOf dev nr).blockAt (s₀.blocks dev) p) n := by
    intro p n
    unfold entryOf
    split_ifs with hz
    · rfl
    · rw [hkeep p hz]
  cases p with
  | direct z => rfl
  | single => rfl
  | double => rfl
  | singleEntry n => exact hentry .single n
  | doubleEntry n => exact hentry .double n
  | doubleEntryEntry n m =>
    change entryOf (s.blocks dev) (entryOf (s.blocks dev)
      ((s₀.inodeOf dev nr).blockAt (s₀.blocks dev) .double) n) m = _
    rw [hentry .double n]
    exact hentry (.doubleEntry n) m

theorem Walk.block (h₀ : Tree live s₀) (h : Walk live s₀ s held bufs) {dev nr : ℕ}
    (hlive : live dev nr) (hm : isDir (s₀.inodeOf dev nr).mode) (k : ℕ) :
    (s₀.inodeOf dev nr).block (s.blocks dev) k = (s₀.inodeOf dev nr).block (s₀.blocks dev) k ∧
      ((s₀.inodeOf dev nr).block (s₀.blocks dev) k ≠ 0 →
        s.blocks dev ((s₀.inodeOf dev nr).block (s₀.blocks dev) k) =
          s₀.blocks dev ((s₀.inodeOf dev nr).block (s₀.blocks dev) k)) :=
  ⟨h.blockAt h₀ hlive (.inr hm) _, fun hp => h.data _ (h₀.not_inodeBlock hlive (.inr hm) hp)⟩

theorem Walk.findAt (h₀ : Tree live s₀) (h : Walk live s₀ s held bufs) {dev nr : ℕ}
    (hlive : live dev nr) (hm : isDir (s₀.inodeOf dev nr).mode) (name : Name) (entries : ℕ) :
    (s₀.inodeOf dev nr).findAt (s.blocks dev) name entries =
      (s₀.inodeOf dev nr).findAt (s₀.blocks dev) name entries := by
  funext k
  obtain ⟨hb, hk⟩ := h.block h₀ hlive hm k
  unfold DInode.findAt
  rw [hb]
  split_ifs with hz
  · rfl
  · rw [hk hz]

theorem DInode.block_zero (d : DInode) (data : ℕ → Block) : d.block data 0 = (d.zone 0).toNat := rfl

/-- What `find_entry` gives for a directory, in terms of the tree. -/
def Found (s₀ s' : Fs) (dev nr : ℕ) (name : Name) (entries : ℕ) : Option (Buffer × ℕ) → Prop
  | none => s₀.reads = [] → (s₀.inodeOf dev nr).find (s₀.blocks dev) name entries = none
  | some (b, j) => ∃ k, entryInode (s'.data b) j = s₀.entryAt dev nr (k, j) ∧
      (s₀.inodeOf dev nr).findAt (s₀.blocks dev) name entries k = some (k, j) ∧
      (s₀.reads = [] → (s₀.inodeOf dev nr).find (s₀.blocks dev) name entries = some (k, j)) ∧
      ∀ j', (s₀.inodeOf dev nr).findAt (s₀.blocks dev) name entries 0 = some (0, j') →
        s₀.entryAt dev nr (k, j) = s₀.entryAt dev nr (0, j')

theorem scanDir_walk (h₀ : Tree live s₀) (h : Walk live s₀ s held bufs) (hl : bufs.length ≤ 70)
    {dir : Slot} (hlive : live (s.inodes dir).dev (s.inodes dir).num)
    (hm : isDir (s.inodes dir).mode) (name : Name) (entries : ℕ) :
    (scanDir dir name entries s).Sat (fun found s' => OnlyReads s s' ∧
      Walk live s₀ s' held ((found.map Prod.fst).toList ++ bufs) ∧
      Found s₀ s' (s.inodes dir).dev (s.inodes dir).num name entries found) Gone := by
  have hcore := h.slot h₀ hlive
  generalize hdev : (s.inodes dir).dev = dev at *
  generalize hnum : (s.inodes dir).num = nr at *
  have hmode : isDir (s₀.inodeOf dev nr).mode := by
    rw [← hcore]
    exact hm
  have hzone : (s₀.inodeOf dev nr).zone = (s.inodes dir).zone := by
    rw [← hcore]
    rfl
  have hfind := h.findAt h₀ hlive hmode name entries
  have hat : (s.inodes dir).findAt (s.blocks dev) name entries =
      (s₀.inodeOf dev nr).findAt (s₀.blocks dev) name entries := by
    rw [← hfind, ← hcore]
    rfl
  have hblock : ∀ k, (s.inodes dir).block (s.blocks dev) k =
      (s₀.inodeOf dev nr).block (s₀.blocks dev) k := by
    intro k
    rw [← (h.block h₀ hlive hmode k).1, ← hcore]
    rfl
  unfold scanDir
  split_ifs with hz
  · refine ⟨.refl s, h, fun _ => ?_⟩
    unfold DInode.find
    rw [hzone, if_pos hz]
  · rw [hdev]
    refine (bread_walk h₀ h (by omega) dev _).bind
      fun bh s₁ ⟨⟨reads, bcount, hs₁⟩, hread, hbh, h₁⟩ => ?_
    cases bh with
    | none => exact ⟨⟨_, _, hs₁⟩, h₁, fun hr => absurd rfl (hread hr)⟩
    | some b =>
      obtain rfl := hbh b rfl
      subst hs₁
      have hne : (s.inodes dir).block (s.blocks dev) 0 ≠ 0 := by
        rw [DInode.block_zero]
        exact fun hc => hz (UInt16.toNat_inj.mp hc)
      have hscan := @scanBlocks_walk _ _ { s with reads := reads, bcount := bcount } _ _ h₀
        (by omega) dir (s.inodes dir).toDInode dev (s.blocks dev) name entries
        ((entries + 63) / DIR_ENTRIES_PER_BLOCK - 1) 0
        (some (dev, ((s.inodes dir).zone 0).toNat)) rfl hdev rfl
        (fun b hb => ⟨(Option.some.inj hb).symm, hne⟩) (fun _ hb => by cases hb) h₁
      refine hscan.post fun found s₂ ⟨hr₂, h₂, hfound, hfirst⟩ => ?_
      refine ⟨OnlyReads.trans ⟨_, _, rfl⟩ hr₂, h₂, ?_⟩
      have hdata : s₂.data = s.data := hr₂.same.2.1
      cases found with
      | none =>
        intro hr
        unfold DInode.find
        rw [hzone, if_neg hz, ← hat]
        exact hfound hr
      | some p =>
        obtain ⟨b, j⟩ := p
        obtain ⟨k, rfl, hk, hexact⟩ := hfound
        have hkne : (s₀.inodeOf dev nr).block (s₀.blocks dev) k ≠ 0 := by
          rw [← hblock]
          intro hc
          unfold DInode.findAt at hk
          rw [if_pos hc] at hk
          cases hk
        refine ⟨k, ?_, by rw [← hat]; exact hk, fun hr => ?_, fun j' hj' => ?_⟩
        · unfold Fs.entryAt
          rw [hdata, hblock]
          change entryInode (s.blocks dev _) j = _
          rw [(h.block h₀ hlive hmode k).2 hkne]
        · unfold DInode.find
          rw [hzone, if_neg hz, ← hat]
          exact hexact hr
        · rw [← hat] at hj'
          have hp := hfirst j' (Option.some_ne_none _) hj'
          obtain ⟨hb, rfl⟩ := Prod.mk.inj (Option.some.inj hp)
          have hbk := (Prod.mk.inj hb).2
          rw [hblock, hblock] at hbk
          unfold Fs.entryAt
          simp only
          rw [hbk]

theorem findIn_some {name : Name} {b : Block} {n j : ℕ} (h : findIn name b n = some j) :
    j < n ∧ matchEntry name b j = true :=
  ⟨List.mem_range.mp (List.mem_of_find?_eq_some h), List.find?_some h⟩

theorem entryInode_of_match {name : Name} {b : Block} {j : ℕ} (h : matchEntry name b j = true) :
    entryInode b j ≠ 0 := by
  unfold matchEntry at h
  simp only [Bool.and_eq_true, decide_eq_true_eq] at h
  exact h.1.1.1

/-- The number of an entry that is found is that of an inode of the tree with links. -/
theorem Tree.found (h : Tree live s) {dev nr : ℕ} (hlive : live dev nr)
    (hm : isDir (s.inodeOf dev nr).mode) {name : Name} {entries k j : ℕ}
    (he : entries ≤ (s.inodeOf dev nr).size.toNat / 16)
    (hf : (s.inodeOf dev nr).findAt (s.blocks dev) name entries k = some (k, j)) :
    live dev (s.entryAt dev nr (k, j)) ∧
      (s.inodeOf dev (s.entryAt dev nr (k, j))).nlinks ≠ 0 := by
  unfold DInode.findAt at hf
  split_ifs at hf with hz
  rw [Option.map_eq_some_iff] at hf
  obtain ⟨j', hj, hp⟩ := hf
  obtain ⟨-, rfl⟩ := Prod.mk.inj hp
  obtain ⟨hlt, hmatch⟩ := findIn_some hj
  exact h.entries dev nr k j' hlive hm hz (lt_of_lt_of_le hlt (Nat.min_le_left _ _)) (by omega)
    (entryInode_of_match hmatch)

/-- A name that the second entry has is found in the first two, however many there are. -/
theorem findIn_second {name : Name} {b : Block} {n : ℕ} (h : matchEntry name b 1 = true)
    (hn : 2 ≤ n) : findIn name b n = some (if matchEntry name b 0 = true then 0 else 1) := by
  obtain ⟨m, rfl⟩ : ∃ m, n = m + 2 := ⟨n - 2, by omega⟩
  unfold findIn
  rw [List.range_succ_eq_map, List.range_succ_eq_map, List.map_cons]
  split_ifs with h0
  · rw [List.find?_cons_of_pos h0]
  · rw [List.find?_cons_of_neg h0, List.find?_cons_of_pos (by exact h)]

theorem Tree.dotdot (h : Tree live s) {dev nr : ℕ} (hlive : live dev nr)
    (hm : isDir (s.inodeOf dev nr).mode) : ∃ j, ∀ entries, 2 ≤ entries →
      (s.inodeOf dev nr).findAt (s.blocks dev) [dot, dot] entries 0 = some (0, j) ∧
      (s.inodeOf dev nr).find (s.blocks dev) [dot, dot] entries = some (0, j) := by
  obtain ⟨-, hz, -, -, hsecond⟩ := h.dots dev nr hlive hm
  refine ⟨if matchEntry [dot, dot] (s.blocks dev ((s.inodeOf dev nr).zone 0).toNat) 0 = true
    then 0 else 1, fun entries he => ?_⟩
  have hz' : ((s.inodeOf dev nr).zone 0).toNat ≠ 0 := fun hc => hz (UInt16.toNat_inj.mp hc)
  have hat : (s.inodeOf dev nr).findAt (s.blocks dev) [dot, dot] entries 0 =
      some (0, if matchEntry [dot, dot] (s.blocks dev ((s.inodeOf dev nr).zone 0).toNat) 0 = true
        then 0 else 1) := by
    unfold DInode.findAt
    rw [DInode.block_zero, if_neg hz',
      findIn_second hsecond (by unfold DIR_ENTRIES_PER_BLOCK; omega)]
    rfl
  refine ⟨hat, ?_⟩
  unfold DInode.find
  rw [if_neg hz, List.range'_succ, List.findSome?_cons, hat]

/-! ### `find_entry` -/

/-- What was found in a directory, the reference to which is held, in terms of the tree: an entry of
    an inode that has links. -/
def Led (live : ℕ → ℕ → Prop) (s₀ s' : Fs) (dir : Slot) (child : Option (ℕ × ℕ)) :
    Option (Buffer × ℕ) → Prop
  | none => s₀.reads = [] → child = none
  | some (b, j) => live (s'.inodes dir).dev (entryInode (s'.data b) j) ∧
      (s₀.inodeOf (s'.inodes dir).dev (entryInode (s'.data b) j)).nlinks ≠ 0 ∧
      (s₀.reads = [] → child = some ((s'.inodes dir).dev, entryInode (s'.data b) j))

/-- A name is looked up in all entries of a directory, or `..` in two of them at least. -/
theorem look_walk (h₀ : Tree live s₀) (h : Walk live s₀ s held bufs) (hl : bufs.length ≤ 70)
    {dir : Slot} {dev nr : ℕ} (hdev : (s.inodes dir).dev = dev) (hnum : (s.inodes dir).num = nr)
    (hlive : live dev nr) (hm : isDir (s.inodes dir).mode) {name : Name} {entries : ℕ}
    (he : entries = (s₀.inodeOf dev nr).size.toNat / 16 ∨ name = [dot, dot] ∧ 2 ≤ entries) :
    ((scanDir dir name entries s).bind fun found s =>
        (.ok (dir, found) s : Out (Slot × Option (Buffer × ℕ)))).Sat
      (fun r s' => r.1 = dir ∧ OnlyReads s s' ∧
        Walk live s₀ s' held ((r.2.map Prod.fst).toList ++ bufs) ∧
        Led live s₀ s' dir ((s₀.lookup dev nr name).map fun inr => (dev, inr)) r.2) Gone := by
  subst hdev hnum
  have hmode : isDir (s₀.inodeOf (s.inodes dir).dev (s.inodes dir).num).mode := by
    rw [← h.slot h₀ hlive]
    exact hm
  refine (scanDir_walk h₀ h hl hlive hm name entries).bind fun found s₁ ⟨hr₁, h₁, hfound⟩ => ?_
  refine ⟨rfl, hr₁, h₁, ?_⟩
  have hslot : s₁.inodes = s.inodes := hr₁.same.1
  simp only
  cases found with
  | none =>
    intro hr
    unfold Fs.lookup
    rcases he with rfl | ⟨rfl, he⟩
    · rw [hfound hr]
      rfl
    · obtain ⟨j, hj⟩ := h₀.dotdot hlive hmode
      have hnone := (hj entries he).2.symm.trans (hfound hr)
      cases hnone
  | some p =>
    obtain ⟨b, j⟩ := p
    obtain ⟨k, hentry, hat, hexact, hfirst⟩ := hfound
    unfold Led
    simp only
    rw [hslot, hentry]
    unfold Fs.lookup
    rcases he with rfl | ⟨rfl, he⟩
    · obtain ⟨hlive', hlinks⟩ := h₀.found hlive hmode le_rfl hat
      exact ⟨hlive', hlinks, fun hr => by rw [hexact hr]; rfl⟩
    · -- the first block has it in any case
      obtain ⟨j', hj⟩ := h₀.dotdot hlive hmode
      have hsize := (h₀.dots _ _ hlive hmode).1
      obtain ⟨hlive', hlinks⟩ := h₀.found hlive hmode hsize (hj 2 le_rfl).1
      rw [hfirst j' (hj entries he).1]
      exact ⟨hlive', hlinks, fun _ => by rw [(hj _ hsize).2]; rfl⟩

theorem Walk.root_iff (h₀ : Tree live s₀) (h : Walk live s₀ s held bufs) {dir : Slot}
    (hd : (s.inodes dir).dev ≠ 0) : s.task.root = some dir ↔
      s₀.task.root.map s₀.slotId = some ((s.inodes dir).dev, (s.inodes dir).num) := by
  rw [h.task]
  cases hr : s₀.task.root with
  | none => simp
  | some r =>
    obtain ⟨hdr, hcr⟩ := h₀.task r (.inl hr)
    obtain ⟨hdev, hnum, -⟩ := h.same r hcr
    rw [Option.map_some, Option.some_inj, Option.some_inj]
    unfold Fs.slotId
    rw [← hdev, ← hnum]
    constructor
    · rintro rfl
      rfl
    · intro he
      obtain ⟨hdd, hnn⟩ := Prod.mk.inj he
      exact h.once r dir (by rw [hdd]; exact hd) hdd hnn

theorem findEntry_walk (h₀ : Tree live s₀) {dir : Slot} (h : Walk live s₀ s (dir :: held) bufs)
    (hl : bufs.length ≤ 70) (hh : held.length ≤ 90) (hd : (s.inodes dir).dev ≠ 0)
    (hm : isDir (s.inodes dir).mode) (hlinks : (s.inodes dir).nlinks ≠ 0) (name : Name) :
    (findEntry dir name s).Sat (fun r s' =>
      Walk live s₀ s' (r.1 :: held) ((r.2.map Prod.fst).toList ++ bufs) ∧
      (s'.inodes r.1).dev ≠ 0 ∧ ((s'.inodes r.1).count = 1 → (s'.inodes r.1).nlinks ≠ 0) ∧
      Led live s₀ s' r.1 (s₀.childEntry (s.inodes dir).dev (s.inodes dir).num name) r.2) Gone := by
  have hlive := h.inTheTree hd
  have hcore := h.slot h₀ hlive
  have hroot := h.root_iff h₀ hd
  have hsuper := h.getSuper (s.inodes dir).dev
  have hsize : (s.inodes dir).size.toNat / 16 =
      (s₀.inodeOf (s.inodes dir).dev (s.inodes dir).num).size.toNat / 16 := by
    rw [← hcore]
    rfl
  unfold findEntry Fs.childEntry Fs.redirect
  simp only
  by_cases hempty : name.take NAME_LEN = []
  · rw [if_pos hempty, if_pos hempty]
    exact ⟨h, hd, fun _ => hlinks, fun _ => rfl⟩
  rw [if_neg hempty, if_neg hempty]
  -- the directory is kept
  have hkeep : ∀ name', ((scanDir dir name' ((s.inodes dir).size.toNat / 16) s).bind fun found s =>
      (.ok (dir, found) s : Out (Slot × Option (Buffer × ℕ)))).Sat (fun r s' =>
        Walk live s₀ s' (r.1 :: held) ((r.2.map Prod.fst).toList ++ bufs) ∧
        (s'.inodes r.1).dev ≠ 0 ∧ ((s'.inodes r.1).count = 1 → (s'.inodes r.1).nlinks ≠ 0) ∧
        Led live s₀ s' r.1 ((s₀.lookup (s.inodes dir).dev (s.inodes dir).num name').map fun inr =>
          ((s.inodes dir).dev, inr)) r.2) Gone := fun name' => by
    refine (look_walk h₀ h hl rfl rfl hlive hm (.inl hsize)).post fun r s₁ hs₁ => ?_
    obtain ⟨hr, hr₁, h₁, hled⟩ := hs₁
    obtain ⟨dir', found⟩ := r
    obtain rfl := hr
    exact ⟨h₁, by rw [hr₁.same.1]; exact hd, fun _ => by rw [hr₁.same.1]; exact hlinks, hled⟩
  by_cases hdots : name.take NAME_LEN = [dot, dot]
  · rw [if_pos hdots, if_neg (not_not_intro hdots), hdots]
    by_cases hr : s.task.root = some dir
    · rw [if_pos hr, if_pos (hroot.mp hr)]
      exact hkeep [dot]
    rw [if_neg hr, if_neg fun hc => hr (hroot.mpr hc)]
    by_cases hn : (s.inodes dir).num = ROOT_INO
    · rw [if_pos hn, if_neg (not_not_intro hn), hsuper]
      obtain ⟨-, k, hk, -⟩ := h₀.super hlive
      rw [hk, Option.bind_some]
      simp only
      rw [h.supers]
      cases hmount : (s₀.supers k).imount with
      | none => exact hkeep [dot, dot]
      | some m =>
        -- the directory is exchanged for the one that its device is mounted on
        obtain ⟨-, hdm, hcm, hmm⟩ := h₀.imount k m hmount
        have hput := iput_walk h₀ h (by omega) (fun h0 => absurd h0 hd) fun _ _ => hlinks
        refine hput.bind fun _ s₁ hs₁ => ?_
        have h₁ := hs₁.1
        have hlivem := h₀.inTree m hdm (.inl hcm)
        obtain ⟨hdev₁, hnum₁, -⟩ := h₁.same m hcm
        obtain ⟨h₂, hself⟩ := h₁.grab h₀ (by omega) fun _ => by rw [hdev₁, hnum₁]; exact hlivem
        obtain ⟨hdev, hnum, -⟩ := h₂.same m hcm
        have hdm₂ : ((s₁.grab m).inodes m).dev ≠ 0 := by
          rw [hdev]
          exact hdm
        have hcore₂ := h₂.slot h₀ (h₂.inTheTree hdm₂)
        rw [hdev, hnum, h₀.inodeOf_slot hdm] at hcore₂
        have hmm₂ : isDir ((s₁.grab m).inodes m).mode := by
          have hmode := congrArg DInode.mode hcore₂
          unfold DInode.core at hmode
          simp only at hmode
          rw [hmode]
          exact hmm
        have htwo : 2 ≤ (s.inodes dir).size.toNat / 16 := by
          rw [hsize]
          refine (h₀.dots _ _ hlive ?_).1
          rw [← hcore]
          exact hm
        refine (look_walk h₀ h₂ hl hdev hnum hlivem hmm₂ (.inr ⟨rfl, htwo⟩)).post
          fun r s₃ hs₃ => ?_
        obtain ⟨hr, hr₃, h₃, hled⟩ := hs₃
        obtain ⟨dir', found⟩ := r
        obtain rfl := hr
        refine ⟨h₃, by rw [hr₃.same.1]; exact hdm₂, fun hone => ?_, hled⟩
        have hcount := h₃.count dir'
        rw [List.count_cons_self] at hcount
        simp only at hone hcm
        omega
    · rw [if_neg hn, if_pos hn]
      exact hkeep [dot, dot]
  · rw [if_neg hdots, if_pos hdots]
    exact hkeep _

end

end Linux011.Minix
