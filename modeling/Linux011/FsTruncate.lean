import Linux011.FsRefs

set_option autoImplicit false

/-!
# Truncating a file

The blocks of a file are freed one by one. No buffer keeps a reference if the blocks are the file's own.
-/
namespace Linux011.Minix
open Outcomes

/-- The blocks of a file are its own: it has each in one place, and no other buffers are in use than
    those of the maps. -/
structure Owned (live : ℕ → ℕ → Prop) (s : Fs) : Prop where
  distinct : ∀ dev nr p p', live dev nr →
    isReg (s.inodeOf dev nr).mode ∨ isDir (s.inodeOf dev nr).mode →
    (s.inodeOf dev nr).blockAt (s.blocks dev) p ≠ 0 →
    (s.inodeOf dev nr).blockAt (s.blocks dev) p = (s.inodeOf dev nr).blockAt (s.blocks dev) p' →
    p = p'
  unused : ∀ dev nr p, live dev nr →
    isReg (s.inodeOf dev nr).mode ∨ isDir (s.inodeOf dev nr).mode →
    (s.inodeOf dev nr).blockAt (s.blocks dev) p ≠ 0 →
    s.bcount (dev, (s.inodeOf dev nr).blockAt (s.blocks dev) p) = 0
  maps : ∀ k n b, (s.supers k).zmap n = some b → s.bcount b ≠ 0

/-- A buffer of a map of zones. -/
def Fs.IsMap (s : Fs) (b : Buffer) : Prop := ∃ k n, (s.supers k).zmap n = some b

/-- Blocks of a device have been freed; what they held, and the maps, has changed. -/
structure Freed (dev : ℕ) (X : ℕ → Prop) (s s' : Fs) : Prop where
  inodes : s'.inodes = s.inodes
  supers : s'.supers = s.supers
  bcount : s'.bcount = s.bcount
  data : ∀ n, ¬ X n → ¬ s.IsMap (dev, n) → s'.data (dev, n) = s.data (dev, n)

section
variable {dev : ℕ} {X Y : ℕ → Prop} {s s' s'' : Fs}

theorem Freed.refl (dev : ℕ) (X : ℕ → Prop) (s : Fs) : Freed dev X s s :=
  ⟨rfl, rfl, rfl, fun _ _ _ => rfl⟩

theorem Freed.isMap (h : Freed dev X s s') (b : Buffer) : s'.IsMap b ↔ s.IsMap b := by
  unfold Fs.IsMap
  rw [h.supers]

theorem Freed.trans (h : Freed dev X s s') (h' : Freed dev Y s' s'') :
    Freed dev (fun n => X n ∨ Y n) s s'' where
  inodes := h'.inodes.trans h.inodes
  supers := h'.supers.trans h.supers
  bcount := h'.bcount.trans h.bcount
  data n hn hm := by
    rw [h'.data n (fun hc => hn (.inr hc)) fun hc => hm ((h.isMap _).mp hc),
      h.data n (fun hc => hn (.inl hc)) hm]

theorem Freed.mono (h : Freed dev X s s') (hXY : ∀ n, X n → Y n) : Freed dev Y s s' :=
  ⟨h.inodes, h.supers, h.bcount, fun n hn => h.data n fun hc => hn (hXY n hc)⟩

theorem freeBlock_freed {block : ℕ} (hb : s.bcount (dev, block) = 0) :
    (freeBlock dev block s).Sat (fun _ s' => Freed dev (· = block) s s') fun _ => True := by
  unfold freeBlock
  cases s.getSuper dev with
  | none => trivial
  | some k =>
    simp only
    split_ifs with hzone hcount hmap
    · trivial
    · exact absurd hb hcount
    · cases hz : (s.supers k).zmap ((block + 1 - (s.supers k).firstdatazone) / 8192) with
      | none => trivial
      | some b =>
        simp only
        split_ifs
        · trivial
        · refine ⟨rfl, rfl, rfl, fun n hn hm => ?_⟩
          have hnb : (dev, n) ≠ b := fun hc => hm ⟨k, _, by rw [hz, hc]⟩
          have hne : (dev, n) ≠ (dev, block) := fun hc => hn (Prod.mk.inj hc).2
          change Function.update (Function.update s.data _ _) _ _ _ = _
          rw [Function.update_of_ne hnb, Function.update_of_ne hne]
    · trivial

/-! ### Indirect blocks -/

/-- Blocks of a file that are not freed yet, with what they held at first. -/
def Ready (dev : ℕ) (content : ℕ → Block) (X : ℕ → Prop) (s : Fs) : Prop :=
  ∀ n, X n → s.bcount (dev, n) = 0 ∧ ¬ s.IsMap (dev, n) ∧ s.data (dev, n) = content n

theorem Ready.mono {content : ℕ → Block} (h : Ready dev content Y s) (hXY : ∀ n, X n → Y n) :
    Ready dev content X s := fun n hn => h n (hXY n hn)

theorem Ready.freed {content : ℕ → Block} (h : Ready dev content X s) (hf : Freed dev Y s s')
    (hXY : ∀ n, X n → ¬ Y n) : Ready dev content X s' := by
  intro n hn
  obtain ⟨hb, hm, hd⟩ := h n hn
  exact ⟨by rw [hf.bcount]; exact hb, fun hc => hm ((hf.isMap _).mp hc),
    (hf.data n (hXY n hn) hm).trans hd⟩

/-- The entries of an indirect block in what it held. -/
def EntryIn (block : Block) (e : ℕ) : Prop :=
  ∃ i < 512, word block (2 * i) ≠ 0 ∧ e = (word block (2 * i)).toNat

/-- An indirect block, with what is freed for each of its entries. -/
def Below (content : ℕ → Block) (X : ℕ → ℕ → Prop) (b n : ℕ) : Prop :=
  n = b ∨ ∃ e, EntryIn (content b) e ∧ X e n

/-- What is freed for the entries of a block is not the block, nor the same for two of them. -/
structure Apart (content : ℕ → Block) (X : ℕ → ℕ → Prop) (b : ℕ) : Prop where
  own : ∀ e, EntryIn (content b) e → ¬ X e b
  others : ∀ e e' n, EntryIn (content b) e → EntryIn (content b) e' → e ≠ e' → X e n → ¬ X e' n
  entries : ∀ i j, i < 512 → j < 512 → word (content b) (2 * i) ≠ 0 →
    word (content b) (2 * i) = word (content b) (2 * j) → i = j

/-- The entries of an indirect block that `l` has. -/
theorem freeEntries_freed {free : ℕ → Fs → Out Unit} {content : ℕ → Block} {X : ℕ → ℕ → Prop}
    {b : ℕ} (hdata : s.data (dev, b) = content b) (hmap : ¬ s.IsMap (dev, b))
    (hfree : ∀ e s, EntryIn (content b) e → Ready dev content (X e) s →
      (free e s).Sat (fun _ s' => Freed dev (X e) s s') fun _ => True)
    (hapart : Apart content X b) {l : List ℕ} (hnodup : l.Nodup) (hlt : ∀ i ∈ l, i < 512)
    (hready : ∀ i ∈ l, word (content b) (2 * i) ≠ 0 →
      Ready dev content (X (word (content b) (2 * i)).toNat) s) :
    (Outcome.each (fun i (s : Fs) => if word (s.data (dev, b)) (2 * i) ≠ 0 then
        free (word (s.data (dev, b)) (2 * i)).toNat s else .ok () s) l s).Sat
      (fun _ s' => Freed dev (fun n => ∃ e, EntryIn (content b) e ∧ X e n) s s')
      fun _ => True := by
  induction l generalizing s with
  | nil => exact .refl dev _ s
  | cons i l ih =>
    obtain ⟨hi, hl⟩ := List.nodup_cons.mp hnodup
    have hi512 := hlt i List.mem_cons_self
    have hrest : ∀ j ∈ l, j < 512 := fun j hj => hlt j (List.mem_cons_of_mem i hj)
    unfold Outcome.each
    rw [hdata]
    split_ifs with hz
    · have hentry : EntryIn (content b) (word (content b) (2 * i)).toNat := ⟨i, hi512, hz, rfl⟩
      refine (hfree _ s hentry (hready i List.mem_cons_self hz)).bind fun _ s₁ h₁ => ?_
      have hdata₁ : s₁.data (dev, b) = content b :=
        (h₁.data b (hapart.own _ hentry) hmap).trans hdata
      refine (ih hdata₁ (fun hc => hmap ((h₁.isMap _).mp hc)) hl hrest fun j hj hzj => ?_).post
        fun _ s₂ h₂ => (h₁.trans h₂).mono fun n hn => ?_
      · refine (hready j (List.mem_cons_of_mem i hj) hzj).freed h₁ fun n =>
          hapart.others _ _ n ⟨j, hrest j hj, hzj, rfl⟩ hentry fun hc => hi ?_
        rw [hapart.entries i j hi512 (hrest j hj) hz (UInt16.toNat_inj.mp hc.symm)]
        exact hj
      · rcases hn with hn | hn
        · exact ⟨_, hentry, hn⟩
        · exact hn
    · exact ih hdata hmap hl hrest fun j hj => hready j (List.mem_cons_of_mem i hj)

/-- `free_ind` and `free_dind`, from what frees an entry. -/
theorem freeWith_freed {free : ℕ → Fs → Out Unit} {content : ℕ → Block} {X : ℕ → ℕ → Prop} {b : ℕ}
    (hfree : ∀ e s, EntryIn (content b) e → Ready dev content (X e) s →
      (free e s).Sat (fun _ s' => Freed dev (X e) s s') fun _ => True)
    (hapart : Apart content X b) (hready : b ≠ 0 → Ready dev content (Below content X b) s) :
    (freeWith free dev b s).Sat (fun _ s' => Freed dev (fun n => b ≠ 0 ∧ Below content X b n) s s')
      fun _ => True := by
  unfold freeWith
  split_ifs with hb0
  · exact .refl dev _ s
  have hready := hready hb0
  obtain ⟨hcount, hmap, hdata⟩ := hready b (.inl rfl)
  have hblock : ∀ s₁, Freed dev (fun n => ∃ e, EntryIn (content b) e ∧ X e n) s s₁ →
      (freeBlock dev b s₁).Sat
        (fun _ s' => Freed dev (fun n => b ≠ 0 ∧ Below content X b n) s s') fun _ => True := by
    intro s₁ h₁
    refine (freeBlock_freed (by rw [h₁.bcount]; exact hcount)).post fun _ s₂ h₂ => ?_
    refine (h₁.trans h₂).mono fun n hn => ⟨hb0, ?_⟩
    rcases hn with hn | hn
    · exact .inr hn
    · exact .inl hn
  unfold bread
  split_ifs with hr
  · -- the entries stay as they are
    exact hblock _ ⟨rfl, rfl, rfl, fun _ _ _ => rfl⟩
  · rw [Outcome.bind_ok]
    simp only
    generalize hs₁ : Fs.setBcount { s with reads := s.reads.tail } (dev, b)
      ((s.bcount (dev, b) + 1) % 256) = s₁
    have hread : ∀ e, EntryIn (content b) e → Ready dev content (X e) s₁ := by
      intro e he n hn
      subst hs₁
      obtain ⟨hbn, hmn, hdn⟩ := hready n (.inr ⟨e, he, hn⟩)
      refine ⟨?_, hmn, hdn⟩
      have hne : (dev, n) ≠ (dev, b) := fun hc => by
        rw [(Prod.mk.inj hc).2] at hn
        exact hapart.own e he hn
      exact (Function.update_of_ne hne _ _).trans hbn
    rw [Outcome.bind_assoc]
    have hdata₁ : s₁.data (dev, b) = content b := by subst hs₁; exact hdata
    have hmap₁ : ¬ s₁.IsMap (dev, b) := by subst hs₁; exact hmap
    have hall : ∀ i ∈ List.range 512, i < 512 := fun i hi => List.mem_range.mp hi
    have hnodup : (List.range 512).Nodup := List.nodup_range
    unfold freeEntries
    generalize List.range 512 = l at hall hnodup ⊢
    refine (freeEntries_freed hdata₁ hmap₁ hfree hapart hnodup hall fun i hi hz =>
      hread _ ⟨i, hall i hi, hz, rfl⟩).bind fun _ s₂ h₂ => ?_
    subst hs₁
    unfold brelse
    simp only
    split_ifs
    · trivial
    · refine hblock _ ⟨h₂.inodes, h₂.supers, ?_, h₂.data⟩
      -- the reference that was taken is dropped
      change Function.update s₂.bcount (dev, b) (s₂.bcount (dev, b) - 1) = s.bcount
      rw [h₂.bcount]
      change Function.update (Function.update s.bcount (dev, b) _) (dev, b) _ = s.bcount
      rw [Function.update_idem, Function.update_eq_self_iff]
      change Function.update s.bcount (dev, b) _ (dev, b) - 1 = _
      rw [Function.update_self, hcount]

/-! ### The places of a file -/

/-- The blocks of a file are in one place each, and not freed yet but for some. -/
structure Intact (d : DInode) (dev : ℕ) (content : ℕ → Block) (left : Place → Prop) (s : Fs) :
    Prop where
  distinct : ∀ p p', d.blockAt content p ≠ 0 → d.blockAt content p = d.blockAt content p' → p = p'
  ready : Ready dev content (fun n => n ≠ 0 ∧ ∃ p, left p ∧ n = d.blockAt content p) s

variable {d : DInode} {content : ℕ → Block} {left : Place → Prop}

theorem Intact.freed {left' : Place → Prop} (h : Intact d dev content left s)
    (hf : Freed dev X s s') (hleft : ∀ p, left' p → left p)
    (hX : ∀ p, left' p → d.blockAt content p ≠ 0 → ¬ X (d.blockAt content p)) :
    Intact d dev content left' s' := by
  refine ⟨h.distinct, ?_⟩
  refine (h.ready.mono fun n ⟨hn, p, hp, he⟩ => ⟨hn, p, hleft p hp, he⟩).freed hf ?_
  rintro n ⟨hn, p, hp, rfl⟩
  exact hX p hp hn

/-- What an indirect block at `P` has in it are the blocks at the places `E`. -/
structure Indirect (d : DInode) (content : ℕ → Block) (P : Place) (E : Fin 512 → Place) : Prop where
  entry : ∀ i, d.blockAt content (E i) = entryOf content (d.blockAt content P) i
  ne : ∀ i, E i ≠ P
  inj : ∀ i j, E i = E j → i = j

theorem Indirect.entryIn {P : Place} {E : Fin 512 → Place} (h : Indirect d content P E)
    (hb : d.blockAt content P ≠ 0) {e : ℕ} (he : EntryIn (content (d.blockAt content P)) e) :
    ∃ i, e = d.blockAt content (E i) ∧ e ≠ 0 := by
  obtain ⟨i, hi, hz, rfl⟩ := he
  refine ⟨⟨i, hi⟩, ?_, fun hc => hz (UInt16.toNat_inj.mp hc)⟩
  rw [h.entry, entryOf, if_neg hb]

/-- The entries of an indirect block, and what is freed for each: the blocks at `T`. -/
theorem Indirect.apart {P : Place} {E : Fin 512 → Place} (h : Indirect d content P E)
    (hd : ∀ p p', d.blockAt content p ≠ 0 → d.blockAt content p = d.blockAt content p' → p = p')
    (hb : d.blockAt content P ≠ 0) {X : ℕ → ℕ → Prop} {T : Fin 512 → Place → Prop}
    (hX : ∀ i n, d.blockAt content (E i) ≠ 0 → X (d.blockAt content (E i)) n →
      n ≠ 0 ∧ ∃ p, T i p ∧ n = d.blockAt content p)
    (hP : ∀ i, ¬ T i P) (hT : ∀ i j p, T i p → T j p → i = j) :
    Apart content X (d.blockAt content P) := by
  refine ⟨fun e he hx => ?_, fun e e' n he he' hne hx hx' => ?_, fun i j hi hj hz hij => ?_⟩
  · obtain ⟨i, rfl, h0⟩ := h.entryIn hb he
    obtain ⟨-, p, hp, hpe⟩ := hX i _ h0 hx
    rw [← hd P p hb hpe] at hp
    exact hP i hp
  · obtain ⟨i, rfl, h0⟩ := h.entryIn hb he
    obtain ⟨j, rfl, h0'⟩ := h.entryIn hb he'
    obtain ⟨hn, p, hp, rfl⟩ := hX i n h0 hx
    obtain ⟨-, p', hp', hpe⟩ := hX j _ h0' hx'
    rw [← hd p p' hn hpe] at hp'
    exact hne (by rw [hT i j p hp hp'])
  · have hat : ∀ k (hk : k < 512), (word (content (d.blockAt content P)) (2 * k)).toNat =
        d.blockAt content (E ⟨k, hk⟩) := fun k hk => by rw [h.entry, entryOf, if_neg hb]
    have hne : d.blockAt content (E ⟨i, hi⟩) ≠ 0 := by
      rw [← hat i hi]
      exact fun hc => hz (UInt16.toNat_inj.mp hc)
    have heq : d.blockAt content (E ⟨i, hi⟩) = d.blockAt content (E ⟨j, hj⟩) := by
      rw [← hat i hi, ← hat j hj, hij]
    exact congrArg Fin.val (h.inj _ _ (hd _ _ hne heq))

theorem single_indirect (d : DInode) (content : ℕ → Block) :
    Indirect d content .single .singleEntry :=
  ⟨fun _ => rfl, fun _ hc => (nomatch hc), fun _ _ hc => Place.singleEntry.inj hc⟩

theorem double_indirect (d : DInode) (content : ℕ → Block) :
    Indirect d content .double .doubleEntry :=
  ⟨fun _ => rfl, fun _ hc => (nomatch hc), fun _ _ hc => Place.doubleEntry.inj hc⟩

theorem doubleEntry_indirect (d : DInode) (content : ℕ → Block) (n : Fin 512) :
    Indirect d content (.doubleEntry n) (.doubleEntryEntry n) :=
  ⟨fun _ => rfl, fun _ hc => (nomatch hc), fun _ _ hc => (Place.doubleEntryEntry.inj hc).2⟩

/-- An indirect block whose entries are blocks of the file. -/
theorem Indirect.freeInd {P : Place} {E : Fin 512 → Place} (h : Indirect d content P E)
    (hd : ∀ p p', d.blockAt content p ≠ 0 → d.blockAt content p = d.blockAt content p' → p = p')
    (hready : d.blockAt content P ≠ 0 →
      Ready dev content (Below content (fun e n => n = e) (d.blockAt content P)) s) :
    (freeInd dev (d.blockAt content P) s).Sat (fun _ s' => Freed dev (fun n =>
      d.blockAt content P ≠ 0 ∧ Below content (fun e n => n = e) (d.blockAt content P) n) s s')
      fun _ => True := by
  by_cases hb : d.blockAt content P = 0
  · unfold Minix.freeInd freeWith
    rw [if_pos hb]
    exact .refl dev _ s
  refine freeWith_freed (fun e s _ hr => freeBlock_freed (hr e rfl).1) ?_ hready
  refine h.apart hd hb (T := fun i p => p = E i) (fun i n hn hx => ⟨?_, E i, rfl, hx⟩)
    (fun i hc => h.ne i hc.symm) fun i j p hp hp' => h.inj i j (hp.symm.trans hp')
  rw [hx]
  exact hn

theorem Indirect.below {P : Place} {E : Fin 512 → Place} (h : Indirect d content P E)
    (hb : d.blockAt content P ≠ 0) {n : ℕ}
    (hn : Below content (fun e n => n = e) (d.blockAt content P) n) :
    n ≠ 0 ∧ ∃ p, (p = P ∨ ∃ i, p = E i) ∧ n = d.blockAt content p := by
  rcases hn with rfl | ⟨e, he, rfl⟩
  · exact ⟨hb, P, .inl rfl, rfl⟩
  · obtain ⟨i, hi, h0⟩ := h.entryIn hb he
    exact ⟨h0, E i, .inr ⟨i, rfl⟩, hi⟩

/-- The places that the double indirect block leads to. -/
def Place.ofDouble : Place → Prop
  | .double | .doubleEntry _ | .doubleEntryEntry _ _ => True
  | _ => False

/-- What is freed for the double indirect block. -/
def DoubleBelow (content : ℕ → Block) : ℕ → ℕ → Prop :=
  Below content (Below content fun e n => n = e)

theorem doubleBelow_at (hb : d.blockAt content .double ≠ 0) {n : ℕ}
    (hn : DoubleBelow content (d.blockAt content .double) n) :
    n ≠ 0 ∧ ∃ p, p.ofDouble ∧ n = d.blockAt content p := by
  rcases hn with rfl | ⟨e, he, hn⟩
  · exact ⟨hb, .double, trivial, rfl⟩
  · obtain ⟨i, rfl, h0⟩ := (double_indirect d content).entryIn hb he
    obtain ⟨hn0, p, hp, rfl⟩ := (doubleEntry_indirect d content i).below h0 hn
    refine ⟨hn0, p, ?_, rfl⟩
    rcases hp with rfl | ⟨m, rfl⟩
    · trivial
    · trivial

theorem freeDind_freed
    (hd : ∀ p p', d.blockAt content p ≠ 0 → d.blockAt content p = d.blockAt content p' → p = p')
    (hready : d.blockAt content .double ≠ 0 →
      Ready dev content (DoubleBelow content (d.blockAt content .double)) s) :
    (freeDind dev (d.blockAt content .double) s).Sat (fun _ s' => Freed dev (fun n =>
      d.blockAt content .double ≠ 0 ∧ DoubleBelow content (d.blockAt content .double) n) s s')
      fun _ => True := by
  by_cases hb : d.blockAt content .double = 0
  · unfold freeDind freeWith
    rw [if_pos hb]
    exact .refl dev _ s
  refine freeWith_freed (fun e s he hr => ?_) ?_ hready
  · obtain ⟨i, rfl, -⟩ := (double_indirect d content).entryIn hb he
    exact ((doubleEntry_indirect d content i).freeInd hd fun _ => hr).post fun _ s' h =>
      h.mono fun n hn => hn.2
  · refine (double_indirect d content).apart hd hb
      (T := fun i p => p = .doubleEntry i ∨ ∃ m, p = .doubleEntryEntry i m)
      (fun i n h0 hx => (doubleEntry_indirect d content i).below h0 hx) ?_ ?_
    · rintro i (hc | ⟨m, hc⟩)
      · cases hc
      · cases hc
    · rintro i j p (rfl | ⟨m, rfl⟩) (hc | ⟨m', hc⟩)
      · exact Place.doubleEntry.inj hc
      · cases hc
      · cases hc
      · exact (Place.doubleEntryEntry.inj hc).1

/-! ### `truncate` -/

/-- The places that are left when the direct ones not in `l` are freed. -/
def Behind (l : List (Fin 7)) : Place → Prop
  | .direct z => z ∈ l
  | _ => True

/-- A state on the way through the direct blocks. -/
structure OnTheWay (i : Slot) (s₀ s : Fs) (l : List (Fin 7)) : Prop where
  touches : Touches i s₀ s
  bcount : s.bcount = s₀.bcount
  zone : ∀ z : Fin 9, (∃ z' ∈ l, z = z'.castLE (by decide)) ∨ z = 7 ∨ z = 8 →
    (s.inodes i).zone z = (s₀.inodes i).zone z
  intact : Intact (s₀.inodes i).toDInode (s₀.inodes i).dev (s₀.blocks (s₀.inodes i).dev) (Behind l) s

theorem freeDirect_way {i : Slot} {s₀ : Fs} {l : List (Fin 7)} (hnodup : l.Nodup)
    (h : OnTheWay i s₀ s l) :
    (Outcome.each (fun (z : Fin 9) s =>
      if (s.inodes i).zone z ≠ 0 then
        (freeBlock (s.inodes i).dev ((s.inodes i).zone z).toNat s).bind fun _ s =>
          .ok () (s.setZone i z 0)
      else .ok () s) (l.map (Fin.castLE (by decide))) s).Sat
      (fun _ s' => OnTheWay i s₀ s' []) fun _ => True := by
  induction l generalizing s with
  | nil => exact h
  | cons z l ih =>
    obtain ⟨hz, hl⟩ := List.nodup_cons.mp hnodup
    have hzone := h.zone (z.castLE (by decide)) (.inl ⟨z, List.mem_cons_self, rfl⟩)
    have hdev := h.touches.self.dev
    have hbehind : ∀ p, Behind l p → Behind (z :: l) p := by
      intro p hp
      cases p with
      | direct z' => exact List.mem_cons_of_mem z hp
      | _ => trivial
    have hkeep : ∀ z' : Fin 9, (∃ z₁ ∈ l, z' = z₁.castLE (by decide)) ∨ z' = 7 ∨ z' = 8 →
        (s.inodes i).zone z' = (s₀.inodes i).zone z' := by
      rintro z' (⟨z₁, hz₁, rfl⟩ | hz')
      · exact h.zone _ (.inl ⟨z₁, List.mem_cons_of_mem z hz₁, rfl⟩)
      · exact h.zone _ (.inr hz')
    rw [List.map_cons]
    unfold Outcome.each
    split_ifs with h0
    · rw [Outcome.bind_assoc, hzone, hdev]
      rw [hzone] at h0
      have hblock : (s₀.inodes i).blockAt (s₀.blocks (s₀.inodes i).dev) (.direct z) =
          ((s₀.inodes i).zone (z.castLE (by decide))).toNat := rfl
      have hne : (s₀.inodes i).blockAt (s₀.blocks (s₀.inodes i).dev) (.direct z) ≠ 0 := by
        rw [hblock]
        exact fun hc => h0 (UInt16.toNat_inj.mp hc)
      have hcount := (h.intact.ready _ ⟨hne, .direct z, List.mem_cons_self, rfl⟩).1
      rw [hblock] at hcount
      refine (freeBlock_freed hcount).bind fun _ s₁ h₁ => ?_
      rw [Outcome.bind_ok]
      have ht := (h.touches.trans (.of_inodes i h₁.inodes)).trans
        (.setZone s₁ i (z.castLE (by decide)) 0)
      have hintact : Intact (s₀.inodes i).toDInode (s₀.inodes i).dev
          (s₀.blocks (s₀.inodes i).dev) (Behind l) s₁ := by
        refine h.intact.freed h₁ hbehind fun p hp hn hc => hz ?_
        have hpz := h.intact.distinct p (.direct z) hn (hc.trans hblock.symm)
        rw [hpz] at hp
        exact hp
      refine ih hl ⟨ht, h₁.bcount.trans h.bcount, fun z' hz' => ?_, ⟨hintact.1, hintact.2⟩⟩
      rw [← hkeep z' hz']
      unfold Fs.setZone
      rw [Fs.setInode_self, h₁.inodes]
      refine Function.update_of_ne ?_ _ _
      rintro rfl
      rcases hz' with ⟨z₁, hz₁, he⟩ | he | he
      · rw [Fin.castLE_injective _ he] at hz
        exact hz hz₁
      · have hv := congrArg Fin.val he
        simp at hv
        omega
      · have hv := congrArg Fin.val he
        simp at hv
        omega
    · refine ih hl ⟨h.touches, h.bcount, hkeep, ⟨h.intact.distinct, h.intact.ready.mono ?_⟩⟩
      rintro n ⟨hn, p, hp, he⟩
      exact ⟨hn, p, hbehind p hp, he⟩

theorem truncate_way {i : Slot} (h : OnTheWay i s s (List.finRange 7)) :
    (truncate i s).Sat (fun _ s' => s'.bcount = s.bcount ∧ Touches i s s') fun _ => True := by
  unfold truncate
  split_ifs
  · have hlist : ([0, 1, 2, 3, 4, 5, 6] : List (Fin 9)) =
        (List.finRange 7).map (Fin.castLE (by decide)) := by decide
    rw [hlist]
    refine (freeDirect_way (List.nodup_finRange 7) h).bind fun _ s₁ h₁ => ?_
    have hd := h₁.intact.distinct
    have h7 : ((s₁.inodes i).zone 7).toNat =
        (s.inodes i).blockAt (s.blocks (s.inodes i).dev) .single := by
      rw [h₁.zone 7 (.inr (.inl rfl))]
      rfl
    rw [h7, h₁.touches.self.dev]
    have hsingle := single_indirect (s.inodes i).toDInode (s.blocks (s.inodes i).dev)
    refine (hsingle.freeInd hd fun hb => ?_).bind fun _ s₂ h₂ => ?_
    · refine h₁.intact.ready.mono fun n hn => ?_
      obtain ⟨hn0, p, hp, rfl⟩ := hsingle.below hb hn
      refine ⟨hn0, p, ?_, rfl⟩
      rcases hp with rfl | ⟨m, rfl⟩
      · trivial
      · trivial
    have hintact : Intact (s.inodes i).toDInode (s.inodes i).dev (s.blocks (s.inodes i).dev)
        Place.ofDouble s₂ := by
      refine h₁.intact.freed h₂ (fun p hp => ?_) fun p hp hn hc => ?_
      · cases p with
        | direct z => exact hp.elim
        | _ => trivial
      · obtain ⟨-, p', hp', he⟩ := hsingle.below hc.1 hc.2
        rw [hd p p' hn he] at hp
        rcases hp' with rfl | ⟨m, rfl⟩
        · exact hp
        · exact hp
    have h8 : ((s₂.inodes i).zone 8).toNat =
        (s.inodes i).blockAt (s.blocks (s.inodes i).dev) .double := by
      rw [h₂.inodes, h₁.zone 8 (.inr (.inr rfl))]
      rfl
    rw [h8, h₂.inodes, h₁.touches.self.dev]
    refine (freeDind_freed hd fun hb => ?_).bind fun _ s₃ h₃ => ?_
    · refine hintact.ready.mono fun n hn => ?_
      obtain ⟨hn0, p, hp, rfl⟩ := doubleBelow_at hb hn
      exact ⟨hn0, p, hp, rfl⟩
    have ht : Touches i s s₃ :=
      (h₁.touches.trans (.of_inodes i h₂.inodes)).trans (.of_inodes i h₃.inodes)
    refine ⟨(h₃.bcount.trans h₂.bcount).trans h₁.bcount, ht.trans ?_⟩
    exact ((Touches.setZone s₃ i 7 0).trans (.setZone _ i 8 0)).trans
      (.setInode _ ⟨rfl, rfl, rfl, rfl, rfl⟩)
  · exact ⟨rfl, .refl i s⟩

end

end Linux011.Minix
