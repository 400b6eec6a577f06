import Linux011.FsNamei

set_option autoImplicit false

/-!
# References while a file is made

Here the tree changes, and only the counts are followed; what makes the code stop is not.
-/
namespace Linux011.Minix
open Outcomes

/-- Since `s₀`, references to `held` and `bufs` have been taken, and entries of the inode table that
    were in use are those of the same inodes. -/
structure Refs (s₀ s : Fs) (held : List Slot) (bufs : List Buffer) : Prop where
  count : ∀ i, (s.inodes i).count = (s₀.inodes i).count + held.count i
  bcount : ∀ b, s.bcount b = s₀.bcount b + bufs.count b
  same : ∀ i, (s₀.inodes i).count ≠ 0 → s.slotId i = s₀.slotId i

/-- The inode has changed, but for who it is and who refers to it. -/
structure Altered (x y : Inode) : Prop where
  count : y.count = x.count
  nlinks : y.nlinks = x.nlinks
  dev : y.dev = x.dev
  num : y.num = x.num
  pipe : y.pipe = x.pipe

section
variable {live : ℕ → ℕ → Prop} {s₀ s s' s'' : Fs} {held : List Slot} {bufs : List Buffer}

theorem Walk.refs (h : Walk live s₀ s held bufs) : Refs s₀ s held bufs :=
  ⟨h.count, h.bcount, fun i hi => Prod.ext (h.same i hi).1 (h.same i hi).2.1⟩

theorem Refs.perm {held' : List Slot} (h : Refs s₀ s held bufs) (hp : held.Perm held') :
    Refs s₀ s held' bufs :=
  ⟨fun i => by rw [h.count i, hp.count_eq], h.bcount, h.same⟩

theorem Altered.refl (x : Inode) : Altered x x := ⟨rfl, rfl, rfl, rfl, rfl⟩

theorem Altered.trans {x y z : Inode} (h : Altered x y) (h' : Altered y z) : Altered x z :=
  ⟨h'.count.trans h.count, h'.nlinks.trans h.nlinks, h'.dev.trans h.dev, h'.num.trans h.num,
    h'.pipe.trans h.pipe⟩

theorem Settles.altered {x y : Inode} (h : Settles x y) : Altered x y := by
  obtain ⟨hcore, hdev, hnum, hcount, hpipe, -⟩ := h.same
  exact ⟨hcount, congrArg DInode.nlinks hcore, hdev, hnum, hpipe⟩

theorem Refs.altered (h : Refs s₀ s held bufs) (ha : ∀ j, Altered (s.inodes j) (s'.inodes j))
    (hb : s'.bcount = s.bcount) : Refs s₀ s' held bufs where
  count i := (ha i).count.trans (h.count i)
  bcount b := by rw [hb]; exact h.bcount b
  same i hi := by
    rw [← h.same i hi]
    exact Prod.ext (ha i).dev (ha i).num

/-- Only one entry of the table changes. -/
structure Touches (i : Slot) (s s' : Fs) : Prop where
  others : ∀ j, j ≠ i → s'.inodes j = s.inodes j
  self : Altered (s.inodes i) (s'.inodes i)

theorem Touches.refl (i : Slot) (s : Fs) : Touches i s s := ⟨fun _ _ => rfl, .refl _⟩

theorem Touches.trans {i : Slot} (h : Touches i s s') (h' : Touches i s' s'') : Touches i s s'' :=
  ⟨fun j hj => (h'.others j hj).trans (h.others j hj), h.self.trans h'.self⟩

theorem Touches.of_inodes (i : Slot) (h : s'.inodes = s.inodes) : Touches i s s' :=
  ⟨fun j _ => by rw [h], by rw [h]; exact .refl _⟩

theorem Touches.update {i : Slot} {x : Inode} (hi : s'.inodes = Function.update s.inodes i x)
    (h : Altered (s.inodes i) x) : Touches i s s' :=
  ⟨fun _ hj => by rw [hi, Function.update_of_ne hj], by rw [hi, Function.update_self]; exact h⟩

theorem Touches.setInode (s : Fs) {i : Slot} {x : Inode} (h : Altered (s.inodes i) x) :
    Touches i s (s.setInode i x) := .update rfl h

theorem Touches.setZone (s : Fs) (i : Slot) (z : Fin 9) (w : UInt16) :
    Touches i s (s.setZone i z w) := .setInode s ⟨rfl, rfl, rfl, rfl, rfl⟩

theorem Touches.altered {i : Slot} (h : Touches i s s') (j : Slot) :
    Altered (s.inodes j) (s'.inodes j) := by
  by_cases hj : j = i
  · subst hj
    exact h.self
  · rw [h.others j hj]
    exact .refl _

theorem Kept.altered {i : Slot} (hk : Kept s i) (h : Altered (s.inodes i) (s'.inodes i)) :
    Kept s' i := by
  constructor
  · rw [h.dev]
    exact hk.dev
  · rw [h.count, h.nlinks]
    exact hk.links

/-! ### Buffers -/

theorem bread_refs (h₀ : Tree live s₀) (h : Refs s₀ s held bufs) (hl : bufs.length ≤ 100)
    (dev block : ℕ) : (bread dev block s).Sat (fun bh s' => OnlyReads s s' ∧
      (∀ b, bh = some b → b = (dev, block)) ∧ Refs s₀ s' held (bh.toList ++ bufs))
      fun _ => True := by
  unfold bread
  split_ifs with hr
  · exact ⟨⟨_, _, rfl⟩, fun b hb => (nomatch hb), ⟨h.count, h.bcount, h.same⟩⟩
  · refine ⟨⟨_, _, rfl⟩, fun b hb => (Option.some.inj hb).symm, ⟨h.count, fun b => ?_, h.same⟩⟩
    have hb := h.bcount b
    have hm := h₀.fewMaps b
    have hle := List.count_le_length (a := b) (l := bufs)
    unfold MAX_MAPS at hm
    by_cases he : b = (dev, block)
    · subst he
      change Function.update s.bcount (dev, block) _ _ = _
      rw [Function.update_self, Option.toList_some, List.singleton_append, List.count_cons_self, hb,
        Nat.mod_eq_of_lt (by omega)]
      omega
    · change Function.update s.bcount (dev, block) _ _ = _
      rw [Function.update_of_ne he, Option.toList_some, List.singleton_append,
        List.count_cons_of_ne (Ne.symm he), hb]

theorem brelse_refs {bh : Option Buffer} (h : Refs s₀ s held (bh.toList ++ bufs)) :
    (brelse bh s).Sat (fun _ s' => OnlyReads s s' ∧ Refs s₀ s' held bufs) fun _ => True := by
  unfold brelse
  cases bh with
  | none => exact ⟨.refl s, h⟩
  | some b =>
    simp only
    split_ifs
    · trivial
    · refine ⟨⟨_, _, rfl⟩, ⟨h.count, fun b' => ?_, h.same⟩⟩
      have hb' := h.bcount b'
      rw [Option.toList_some, List.singleton_append] at hb'
      by_cases he : b' = b
      · subst he
        change Function.update s.bcount b' _ _ = _
        rw [Function.update_self, hb', List.count_cons_self]
        omega
      · change Function.update s.bcount b _ _ = _
        rw [Function.update_of_ne he, hb', List.count_cons_of_ne (Ne.symm he)]

/-! ### Writing and dropping inodes -/

theorem writeInode_refs (h₀ : Tree live s₀) (h : Refs s₀ s held bufs) (hl : bufs.length ≤ 100)
    (i : Slot) : (writeInode i s).Sat (fun _ s' => Refs s₀ s' held bufs ∧
      ∀ j, Settles (s.inodes j) (s'.inodes j)) fun _ => True := by
  unfold writeInode
  simp only
  split_ifs
  · exact ⟨h, fun j => .refl _⟩
  · cases s.getSuper (s.inodes i).dev with
    | none => trivial
    | some k =>
      simp only
      refine (bread_refs h₀ h hl _ _).bind fun bh s₁ ⟨⟨reads, bcount, hs₁⟩, _, h₁⟩ => ?_
      cases bh with
      | none => trivial
      | some b =>
        subst hs₁
        have hset : ∀ j, Settles (s.inodes j) ((Fs.setInode { s with reads, bcount } i
            { s.inodes i with dirt := false }).inodes j) := by
          intro j
          by_cases hj : j = i
          · subst hj
            exact .inr (Fs.setInode_self _ _ _)
          · exact .inl (Fs.setInode_ne _ _ hj)
        have h₂ : Refs s₀ ((Fs.setData { s with reads, bcount } b
          (encode (s.inodes i).toDInode (inodeOffset (s.inodes i).num) (s.data b))).setInode i
            { s.inodes i with dirt := false }) held ((some b).toList ++ bufs) :=
          h₁.altered (fun j => (hset j).altered) rfl
        refine (brelse_refs h₂).post fun _ s₃ ⟨hr₃, h₃⟩ => ⟨h₃, fun j => ?_⟩
        rw [hr₃.same.1]
        exact hset j

theorem syncInodes_refs (h₀ : Tree live s₀) (h : Refs s₀ s held bufs) (hl : bufs.length ≤ 100) :
    (syncInodes s).Sat (fun _ s' => Refs s₀ s' held bufs ∧
      ∀ j, Settles (s.inodes j) (s'.inodes j)) fun _ => True := by
  unfold syncInodes
  refine Outcome.each_sat ⟨h, fun j => .refl _⟩ fun i _ s₁ ⟨h₁, hset⟩ => ?_
  split_ifs
  · exact (writeInode_refs h₀ h₁ hl i).post fun _ s₂ ⟨h₂, hset₂⟩ =>
      ⟨h₂, fun j => (hset j).trans (hset₂ j)⟩
  · exact ⟨h₁, hset⟩

/-- The last reference is dropped, or another one. -/
theorem Refs.drop {i : Slot} (h : Refs s₀ s (i :: held) bufs) {x : Inode}
    (hx : x.count = (s.inodes i).count - 1) (hid : x.count ≠ 0 → (x.dev, x.num) = s.slotId i) :
    Refs s₀ (s.setInode i x) held bufs := by
  have hi := h.count i
  rw [List.count_cons_self] at hi
  refine ⟨fun j => ?_, h.bcount, fun j hj => ?_⟩
  · by_cases hj : j = i
    · subst hj
      rw [Fs.setInode_self, hx]
      omega
    · rw [Fs.setInode_ne s x hj, h.count j, List.count_cons_of_ne (Ne.symm hj)]
  · rw [← h.same j hj]
    unfold Fs.slotId
    by_cases hji : j = i
    · subst hji
      rw [Fs.setInode_self]
      exact hid (by omega)
    · rw [Fs.setInode_ne s x hji]

/-- A file without blocks is truncated. -/
theorem truncate_empty {i : Slot} (hz : (s.inodes i).zone = fun _ => 0) :
    (truncate i s).Sat (fun _ s' => s'.bcount = s.bcount ∧ Touches i s s') fun _ => True := by
  unfold truncate
  split_ifs
  · have hnone : ∀ z, (s.inodes i).zone z = 0 := fun z => by rw [hz]
    have hloop : Outcome.each (fun (z : Fin 9) s => if (s.inodes i).zone z ≠ 0 then
        (freeBlock (s.inodes i).dev ((s.inodes i).zone z).toNat s).bind fun _ s =>
          .ok () (s.setZone i z 0) else .ok () s) [0, 1, 2, 3, 4, 5, 6] s = (.ok () s : Out Unit) := by
      simp [Outcome.each, hnone]
    have hind : ∀ dev, freeInd dev ((s.inodes i).zone 7).toNat s = .ok () s := fun dev => by
      rw [hnone]
      rfl
    have hdind : ∀ dev, freeDind dev ((s.inodes i).zone 8).toNat s = .ok () s := fun dev => by
      rw [hnone]
      rfl
    rw [hloop, Outcome.bind_ok, hind, Outcome.bind_ok, hdind, Outcome.bind_ok]
    exact ⟨rfl, ((Touches.setZone s i 7 0).trans (.setZone _ i 8 0)).trans
      (.setInode _ ⟨rfl, rfl, rfl, rfl, rfl⟩)⟩
  · exact ⟨rfl, .refl i s⟩

/-- `iput` of an inode that is kept, or of one that has no blocks. -/
theorem iput_refs (h₀ : Tree live s₀) {i : Slot} (h : Refs s₀ s (i :: held) bufs)
    (hl : bufs.length ≤ 100)
    (hlinks : (s.inodes i).count = 1 → (s.inodes i).nlinks ≠ 0 ∨ (s.inodes i).zone = fun _ => 0) :
    (iput i s).Sat (fun _ s' => Refs s₀ s' held bufs ∧
      ∀ j, j ≠ i → Settles (s.inodes j) (s'.inodes j)) fun _ => True := by
  have hc := h.count i
  rw [List.count_cons_self] at hc
  have hrest : ∀ s₁, Refs s₀ s₁ (i :: held) bufs → (∀ j, Settles (s.inodes j) (s₁.inodes j)) →
      (if (s₁.inodes i).count > 1 then (.ok () (s₁.setCount i ((s₁.inodes i).count - 1)) : Out Unit)
        else if (s₁.inodes i).nlinks = 0 then (truncate i s₁).bind fun _ s => freeInode i s
        else (writeInode i s₁).bind fun _ s =>
          .ok () (s.setCount i ((s.inodes i).count - 1))).Sat (fun _ s' =>
        Refs s₀ s' held bufs ∧ ∀ j, j ≠ i → Settles (s.inodes j) (s'.inodes j)) fun _ => True := by
    intro s₁ h₁ hset
    obtain ⟨hcore, hdev, -, hcount, -⟩ := (hset i).same
    have hdrop : ∀ {s₂ : Fs}, Refs s₀ s₂ (i :: held) bufs →
        (∀ j, Settles (s₁.inodes j) (s₂.inodes j)) →
        Refs s₀ (s₂.setCount i ((s₂.inodes i).count - 1)) held bufs ∧ ∀ j, j ≠ i →
          Settles (s.inodes j) ((s₂.setCount i ((s₂.inodes i).count - 1)).inodes j) := by
      intro s₂ h₂ hset₂
      refine ⟨h₂.drop rfl fun _ => rfl, fun j hj => ((hset j).trans (hset₂ j)).trans (.inl ?_)⟩
      exact Fs.setInode_ne _ _ hj
    split_ifs with hone hz
    · exact hdrop h₁ fun j => .refl _
    · -- nothing is left of the file
      have hzone : (s₁.inodes i).zone = fun _ => 0 := by
        rw [hcore]
        refine (hlinks (by omega)).resolve_left fun hne => hne ?_
        rw [← hcore]
        exact hz
      refine (truncate_empty hzone).bind fun _ s₂ ⟨hb, ht⟩ => ?_
      have h₂ := h₁.altered ht.altered hb
      have hempty : ∀ {s₃ : Fs}, s₃.inodes = s₂.inodes → s₃.bcount = s₂.bcount →
          Refs s₀ (s₃.setInode i Inode.empty) held bufs ∧ ∀ j, j ≠ i →
            Settles (s.inodes j) ((s₃.setInode i Inode.empty).inodes j) := by
        intro s₃ hi hb₃
        have h₃ : Refs s₀ s₃ (i :: held) bufs := h₂.altered (fun j => by rw [hi]; exact .refl _) hb₃
        refine ⟨h₃.drop ?_ (fun hc => absurd rfl hc), fun j hj => (hset j).trans (.inl ?_)⟩
        · rw [hi, ht.self.count]
          have : Inode.empty.count = 0 := rfl
          omega
        · rw [Fs.setInode_ne _ _ hj, hi, ht.others j hj]
      unfold freeInode
      simp only
      split_ifs
      · exact hempty rfl rfl
      · trivial
      · trivial
      · cases s₂.getSuper (s₂.inodes i).dev with
        | none => trivial
        | some k =>
          simp only
          split_ifs
          · trivial
          · cases (s₂.supers k).imap ((s₂.inodes i).num / 8192) with
            | none => trivial
            | some b => exact hempty rfl rfl
    · exact (writeInode_refs h₀ h₁ hl i).bind fun _ s₂ ⟨h₂, hset₂⟩ => hdrop h₂ hset₂
  have hothers : ∀ x j, j ≠ i → Settles (s.inodes j) ((s.setInode i x).inodes j) := fun x j hj =>
    .inl (Fs.setInode_ne s x hj)
  unfold iput
  simp only
  split_ifs with h0 hpipe hlast hd hblk
  · trivial
  · exact ⟨h.drop rfl fun _ => rfl, hothers _⟩
  · refine ⟨h.drop ?_ (fun hc => absurd rfl hc), hothers _⟩
    simp only
    omega
  · exact ⟨h.drop rfl fun _ => rfl, hothers _⟩
  · exact (syncInodes_refs h₀ h hl).bind fun _ s₁ ⟨h₁, hset⟩ => hrest s₁ h₁ hset
  · exact hrest s h fun j => .refl _

/-! ### New blocks -/

theorem newBlock_refs (dev : ℕ) : (newBlock dev s).Sat
    (fun _ s' => s'.inodes = s.inodes ∧ s'.bcount = s.bcount) fun _ => True := by
  unfold newBlock
  cases s.getSuper dev with
  | none => trivial
  | some k =>
    simp only
    cases firstFree (s.supers k).zmap s with
    | none => exact ⟨rfl, rfl⟩
    | some p =>
      obtain ⟨i, b⟩ := p
      simp only
      split_ifs
      · trivial
      · exact ⟨rfl, rfl⟩
      · trivial
      · exact ⟨rfl, rfl⟩

/-- What a step does that works on the blocks of one inode. -/
def Works (i : Slot) (s₀ s s' : Fs) (held : List Slot) (bufs : List Buffer) : Prop :=
  Refs s₀ s' held bufs ∧ Touches i s s'

theorem Refs.works {i : Slot} (h : Refs s₀ s held bufs) (ht : Touches i s s')
    (hb : s'.bcount = s.bcount) : Works i s₀ s s' held bufs := ⟨h.altered ht.altered hb, ht⟩

theorem Works.trans {i : Slot} {held' : List Slot} {bufs' : List Buffer}
    (h : Works i s₀ s s' held bufs) (h' : Works i s₀ s' s'' held' bufs') :
    Works i s₀ s s'' held' bufs' := ⟨h'.1, h.2.trans h'.2⟩

theorem OnlyReads.touches (h : OnlyReads s s') (i : Slot) : Touches i s s' :=
  .of_inodes i h.same.1

theorem fillZone_refs (h : Refs s₀ s held bufs) (create : Bool) (i : Slot) (z : Fin 9) :
    (fillZone create i z s).Sat (fun _ s' => Works i s₀ s s' held bufs) fun _ => True := by
  unfold fillZone
  split_ifs
  · refine (newBlock_refs _).bind fun n s₁ ⟨hi, hb⟩ => ?_
    split_ifs
    · refine h.works ((Touches.of_inodes i hi).trans ?_) hb
      exact (Touches.setZone s₁ i z _).trans (.setInode _ ⟨rfl, rfl, rfl, rfl, rfl⟩)
    · exact h.works (.of_inodes i hi) hb
  · exact ⟨h, .refl i s⟩

theorem fillEntry_refs (h₀ : Tree live s₀) (h : Refs s₀ s held bufs) (hl : bufs.length ≤ 100)
    (create : Bool) (i : Slot) (dev block n : ℕ) : (fillEntry create dev block n s).Sat
      (fun _ s' => Works i s₀ s s' held bufs) fun _ => True := by
  unfold fillEntry
  refine (bread_refs h₀ h hl dev block).bind fun bh s₁ ⟨hr₁, hbh, h₁⟩ => ?_
  have ht₁ := hr₁.touches i
  cases bh with
  | none => exact ⟨h₁, ht₁⟩
  | some b =>
    -- the entry, and the buffer is released
    have hend : ∀ {j : ℕ} {s₂ : Fs}, s₂.inodes = s₁.inodes → s₂.bcount = s₁.bcount →
        ((brelse (some b) s₂).bind fun _ s => (.ok j s : Out ℕ)).Sat
          (fun _ s' => Works i s₀ s s' held bufs) fun _ => True := by
      intro j s₂ hi hb
      have h₂ : Refs s₀ s₂ held ((some b).toList ++ bufs) :=
        h₁.altered (fun j => by rw [hi]; exact .refl _) hb
      refine (brelse_refs h₂).bind fun _ s₃ ⟨hr₃, h₃⟩ => ?_
      exact ⟨h₃, (ht₁.trans (.of_inodes i hi)).trans (hr₃.touches i)⟩
    simp only
    split_ifs
    · refine Outcome.Sat.bind (Q := fun _ s₂ => s₂.inodes = s₁.inodes ∧ s₂.bcount = s₁.bcount) ?_
        fun j s₂ h₂ => hend h₂.1 h₂.2
      refine (newBlock_refs dev).bind fun j s₂ ⟨hi, hb⟩ => ?_
      split_ifs
      · exact ⟨hi, hb⟩
      · exact ⟨hi, hb⟩
    · exact hend rfl rfl

theorem createBlock_refs (h₀ : Tree live s₀) (h : Refs s₀ s held bufs) (hl : bufs.length ≤ 100)
    (i : Slot) (block : ℕ) : (createBlock i block s).Sat
      (fun _ s' => Works i s₀ s s' held bufs) fun _ => True := by
  unfold createBlock bmapWith
  split_ifs
  · trivial
  · exact fillZone_refs h true i _
  · refine (fillZone_refs h true i 7).bind fun ind s₁ h₁ => ?_
    split_ifs
    · exact h₁
    · exact (fillEntry_refs h₀ h₁.1 hl true i _ _ _).post fun _ s₂ h₂ => h₁.trans h₂
  · refine (fillZone_refs h true i 8).bind fun dind s₁ h₁ => ?_
    split_ifs
    · exact h₁
    · refine (fillEntry_refs h₀ h₁.1 hl true i _ _ _).bind fun ind s₂ h₂ => ?_
      split_ifs
      · exact h₁.trans h₂
      · exact (fillEntry_refs h₀ h₂.1 hl true i _ _ _).post fun _ s₃ h₃ => (h₁.trans h₂).trans h₃

/-! ### New entries -/

theorem takeRoom_touches (dir : Slot) (name : Name) (k : ℕ) (b : Buffer) (j : ℕ) (s : Fs) :
    Touches dir s (takeRoom dir name k b j s) ∧ (takeRoom dir name k b j s).bcount = s.bcount := by
  unfold takeRoom
  simp only
  split_ifs
  · have hgrow : Touches dir s ((s.setData b (setWord (s.data b) (16 * j) 0)).setInode dir
        { s.inodes dir with
          size := UInt32.ofNat ((DIR_ENTRIES_PER_BLOCK * k + j + 1) * 16), dirt := true }) :=
      .update rfl ⟨rfl, rfl, rfl, rfl, rfl⟩
    exact ⟨hgrow.trans (.update rfl ⟨rfl, rfl, rfl, rfl, rfl⟩), rfl⟩
  · exact ⟨.update rfl ⟨rfl, rfl, rfl, rfl, rfl⟩, rfl⟩

theorem roomHere_some {size k : ℕ} {bh : Option Buffer} {b : Buffer} {j : ℕ}
    (h : roomHere size k bh s = some (b, j)) : bh = some b := by
  unfold roomHere at h
  cases bh with
  | none => cases h
  | some b' =>
    rw [Option.bind_some, Option.map_eq_some_iff] at h
    obtain ⟨j', -, he⟩ := h
    rw [(Prod.mk.inj he).1]

theorem addBlocks_refs (h₀ : Tree live s₀) (hl : bufs.length ≤ 90) {dir : Slot} {name : Name}
    {left k : ℕ} {bh : Option Buffer} (h : Refs s₀ s held (bh.toList ++ bufs)) :
    (addBlocks dir name left k bh s).Sat (fun r s' =>
      Works dir s₀ s s' held ((r.map Prod.fst).toList ++ bufs)) fun _ => True := by
  induction left generalizing k bh s with
  | zero =>
    unfold addBlocks
    cases hroom : roomHere (s.inodes dir).size.toNat k bh s with
    | some found =>
      obtain ⟨b, j⟩ := found
      obtain rfl := roomHere_some hroom
      obtain ⟨ht, hbc⟩ := takeRoom_touches dir name k b j s
      exact h.works ht hbc
    | none => exact (brelse_refs h).bind fun _ s₁ _ => trivial
  | succ left ih =>
    unfold addBlocks
    cases hroom : roomHere (s.inodes dir).size.toNat k bh s with
    | some found =>
      obtain ⟨b, j⟩ := found
      obtain rfl := roomHere_some hroom
      obtain ⟨ht, hbc⟩ := takeRoom_touches dir name k b j s
      exact h.works ht hbc
    | none =>
      refine (brelse_refs h).bind fun _ s₁ ⟨hr₁, h₁⟩ => ?_
      simp only
      refine (createBlock_refs h₀ h₁ (by omega) dir (k + 1)).bind fun block s₂ h₂ => ?_
      have h₂' := Works.trans ⟨h₁, hr₁.touches dir⟩ h₂
      split_ifs
      · exact h₂'
      · refine (bread_refs h₀ h₂.1 (by omega) _ block).bind fun bh' s₃ ⟨hr₃, _, h₃⟩ => ?_
        refine (ih h₃).post fun r s₄ h₄ => ?_
        exact (h₂'.trans ⟨h₃, hr₃.touches dir⟩).trans h₄

theorem addEntry_refs (h₀ : Tree live s₀) (h : Refs s₀ s held bufs) (hl : bufs.length ≤ 90)
    (dir : Slot) (name : Name) : (addEntry dir name s).Sat (fun r s' =>
      Works dir s₀ s s' held ((r.map Prod.fst).toList ++ bufs)) fun _ => True := by
  unfold addEntry
  simp only
  split_ifs
  · exact ⟨h, .refl dir s⟩
  · exact ⟨h, .refl dir s⟩
  · refine (bread_refs h₀ h (by omega) _ _).bind fun bh s₁ ⟨hr₁, _, h₁⟩ => ?_
    cases bh with
    | none => exact ⟨h₁, hr₁.touches dir⟩
    | some b =>
      refine (addBlocks_refs h₀ hl h₁).post fun r s₂ h₂ => ?_
      exact Works.trans ⟨h₁, hr₁.touches dir⟩ h₂

/-! ### New inodes -/

/-- Entries of the table in use stay, or become clean. -/
def UsedSettle (s s' : Fs) : Prop :=
  ∀ j, (s.inodes j).count ≠ 0 → Settles (s.inodes j) (s'.inodes j)

theorem getEmptyInode_refs (h₀ : Tree live s₀) (h : Refs s₀ s held bufs) (hl : bufs.length ≤ 100) :
    (getEmptyInode s).Sat (fun i s' => Refs s₀ s' (i :: held) bufs ∧ (s.inodes i).count = 0 ∧
      s'.inodes i = { Inode.empty with count := 1 } ∧ UsedSettle s s') fun _ => True := by
  unfold getEmptyInode
  cases hf : (findEmpty s 32 s.last none).2 with
  | none => trivial
  | some i =>
    have hi := findEmpty_idle 32 s.last none (fun j hj => nomatch hj) hf
    have hc := h.count i
    simp only
    refine Outcome.Sat.bind (Q := fun _ s₁ => Refs s₀ s₁ held bufs ∧
      ∀ j, Settles (s.inodes j) (s₁.inodes j)) ?_ fun _ s₁ ⟨h₁, hset⟩ => ?_
    · split_ifs
      · trivial
      · refine writeInode_refs (s := { s with last := (findEmpty s 32 s.last none).1 }) h₀ ?_ hl i
        exact ⟨h.count, h.bcount, h.same⟩
    · refine ⟨⟨fun j => ?_, h₁.bcount, fun j hj => ?_⟩, hi, Fs.setInode_self _ _ _, fun j hj => ?_⟩
      · by_cases hji : j = i
        · subst hji
          rw [Fs.setInode_self, List.count_cons_self]
          simp only
          omega
        · rw [Fs.setInode_ne _ _ hji, h₁.count j, List.count_cons_of_ne (Ne.symm hji)]
      · rw [← h₁.same j hj]
        have hji : j ≠ i := fun hc' => by subst hc'; omega
        unfold Fs.slotId
        rw [Fs.setInode_ne _ _ hji]
      · have hji : j ≠ i := fun hc' => hj (by rw [hc']; exact hi)
        rw [Fs.setInode_ne _ _ hji]
        exact hset j

/-- A new inode, which has no blocks yet. -/
def Made (s₀ s s' : Fs) (held : List Slot) (bufs : List Buffer) : Option Slot → Prop
  | none => Refs s₀ s' held bufs ∧ UsedSettle s s'
  | some i => Refs s₀ s' (i :: held) bufs ∧ UsedSettle s s' ∧ (s.inodes i).count = 0 ∧
      (s'.inodes i).nlinks = 1 ∧ (s'.inodes i).zone = fun _ => 0

theorem newInode_refs (h₀ : Tree live s₀) (h : Refs s₀ s held bufs) (hl : bufs.length ≤ 100)
    (dev : ℕ) : (newInode dev s).Sat (fun r s' => Made s₀ s s' held bufs r) fun _ => True := by
  unfold newInode
  refine (getEmptyInode_refs h₀ h hl).bind fun i s₁ ⟨h₁, hi, hself, hset⟩ => ?_
  -- there is no inode left on the device
  have hnone : ((iput i s₁).bind fun _ s => (.ok none s : Out (Option Slot))).Sat
      (fun r s' => Made s₀ s s' held bufs r) fun _ => True := by
    refine (iput_refs h₀ h₁ hl fun _ => .inr (by rw [hself]; rfl)).bind fun _ s₂ ⟨h₂, hset₂⟩ => ?_
    refine ⟨h₂, fun j hj => (hset j hj).trans (hset₂ j ?_)⟩
    exact fun hji => hj (by rw [hji]; exact hi)
  cases s₁.getSuper dev with
  | none => trivial
  | some k =>
    simp only
    cases firstFree (s₁.supers k).imap s₁ with
    | none => exact hnone
    | some p =>
      obtain ⟨n, b⟩ := p
      simp only
      split_ifs
      · exact hnone
      · trivial
      · refine ⟨⟨fun j => ?_, h₁.bcount, fun j hj => ?_⟩, fun j hj => ?_, hi, ?_, ?_⟩
        · have hj := h₁.count j
          by_cases hji : j = i
          · subst hji
            rw [hself] at hj
            rw [Fs.setInode_self]
            exact hj
          · rw [Fs.setInode_ne _ _ hji]
            exact hj
        · have hc := h.count i
          have hji : j ≠ i := fun hc' => by subst hc'; omega
          rw [← h₁.same j hj]
          unfold Fs.slotId
          rw [Fs.setInode_ne _ _ hji]
          rfl
        · have hji : j ≠ i := fun hc' => hj (by rw [hc']; exact hi)
          rw [Fs.setInode_ne _ _ hji]
          exact hset j hj
        · rw [Fs.setInode_self]
        · rw [Fs.setInode_self]
          change (s₁.inodes i).zone = _
          rw [hself]
          rfl

/-- What `open_namei` gives: a reference to an inode, or an error and none. -/
def Opened (s₀ s' : Fs) (held : List Slot) (bufs : List Buffer) : Except Errno Slot → Prop
  | .error _ => Refs s₀ s' held bufs
  | .ok i => Refs s₀ s' (i :: held) bufs

theorem createFile_refs (h₀ : Tree live s₀) {dir : Slot} (h : Refs s₀ s (dir :: held) bufs)
    (hl : bufs.length ≤ 90) (hk : Kept s dir) (name : Name) (mode : UInt16) :
    (createFile dir name mode s).Sat (fun r s' => Opened s₀ s' held bufs r) fun _ => True := by
  have hdir := h.count dir
  rw [List.count_cons_self] at hdir
  unfold createFile
  split_ifs
  · exact (iput_refs h₀ h (by omega) fun hc => .inl (hk.links hc)).bind fun _ s₁ h₁ => h₁.1
  refine (newInode_refs h₀ h (by omega) _).bind fun r s₁ hmade => ?_
  cases r with
  | none =>
    obtain ⟨h₁, hset⟩ := hmade
    have hk₁ : Kept s₁ dir := hk.altered (hset dir (by omega)).altered
    exact (iput_refs h₀ h₁ (by omega) fun hc => .inl (hk₁.links hc)).bind fun _ s₂ h₂ => h₂.1
  | some i =>
    obtain ⟨h₁, hset, hi, hlinks, hzone⟩ := hmade
    have hne : i ≠ dir := fun hc => by
      subst hc
      omega
    simp only
    -- the owner and the mode are stored
    generalize hs₂ : s₁.setInode i { s₁.inodes i with
      uid := UInt16.ofNat s₁.task.euid, mode := mode, dirt := true } = s₂
    have ht₂ : Touches i s₁ s₂ := by
      rw [← hs₂]
      exact .setInode s₁ ⟨rfl, rfl, rfl, rfl, rfl⟩
    have h₂ : Refs s₀ s₂ (i :: dir :: held) bufs := h₁.altered ht₂.altered (by rw [← hs₂]; rfl)
    have hzone₂ : (s₂.inodes i).zone = fun _ => 0 := by
      rw [← hs₂, Fs.setInode_self]
      exact hzone
    have hk₂ : Kept s₂ dir :=
      (hk.altered (hset dir (by omega)).altered).altered (ht₂.altered dir)
    refine (addEntry_refs h₀ h₂ hl dir name).bind fun found s₃ ⟨h₃, ht₃⟩ => ?_
    have hk₃ : Kept s₃ dir := hk₂.altered ht₃.self
    have hi₃ : s₃.inodes i = s₂.inodes i := ht₃.others i hne
    cases found with
    | none =>
      -- the new inode is thrown away
      have h₃ : Refs s₀ s₃ (i :: dir :: held) bufs := h₃
      simp only
      generalize hs₄ : s₃.setInode i { s₃.inodes i with nlinks := (s₃.inodes i).nlinks - 1 } = s₄
      have h₄ : Refs s₀ s₄ (i :: dir :: held) bufs := by
        refine ⟨fun j => ?_, by rw [← hs₄]; exact h₃.bcount, fun j hj => ?_⟩
        · rw [← h₃.count j, ← hs₄]
          by_cases hji : j = i
          · subst hji
            rw [Fs.setInode_self]
          · rw [Fs.setInode_ne _ _ hji]
        · rw [← h₃.same j hj, ← hs₄]
          unfold Fs.slotId
          by_cases hji : j = i
          · subst hji
            rw [Fs.setInode_self]
          · rw [Fs.setInode_ne _ _ hji]
      have hzone₄ : (s₄.inodes i).zone = fun _ => 0 := by
        rw [← hs₄, Fs.setInode_self]
        change (s₃.inodes i).zone = _
        rw [hi₃]
        exact hzone₂
      have hdir₄ : s₄.inodes dir = s₃.inodes dir := by
        rw [← hs₄, Fs.setInode_ne _ _ hne.symm]
      refine (iput_refs h₀ h₄ (by omega) fun _ => .inr hzone₄).bind fun _ s₅ ⟨h₅, hset₅⟩ => ?_
      have hk₅ : Kept s₅ dir := by
        have hs := (hset₅ dir hne.symm).altered
        rw [hdir₄] at hs
        exact hk₃.altered hs
      exact (iput_refs h₀ h₅ (by omega) fun hc => .inl (hk₅.links hc)).bind fun _ s₆ h₆ => h₆.1
    | some p =>
      obtain ⟨b, j⟩ := p
      simp only
      have h₄ : Refs s₀ (s₃.setData b (setWord (s₃.data b) (16 * j)
          (UInt16.ofNat (s₃.inodes i).num))) (i :: dir :: held) ((some b).toList ++ bufs) :=
        ⟨h₃.count, h₃.bcount, h₃.same⟩
      refine (brelse_refs h₄).bind fun _ s₅ ⟨hr₅, h₅⟩ => ?_
      have hk₅ : Kept s₅ dir := by
        constructor
        · rw [hr₅.same.1]
          exact hk₃.dev
        · rw [hr₅.same.1]
          exact hk₃.links
      refine (iput_refs h₀ (h₅.perm (List.Perm.swap dir i held)) (by omega)
        fun hc => .inl (hk₅.links hc)).bind fun _ s₆ h₆ => h₆.1

end

end Linux011.Minix
