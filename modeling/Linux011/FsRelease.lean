import Linux011.FsOwnership
import Linux011.MakeDirs

set_option autoImplicit false

/-!
# Taking back the zones of a file

`truncate` clears the bits of all blocks of its file, the indirect ones included, and of no others.
-/
namespace Linux011.Minix
open Outcomes Allotments

variable {s s' s'' : Fs} {dev : ℕ} {k : Fin NR_SUPER} {X Y : ℕ → Prop} {content : ℕ → Block}

/-- The zones `X` of a device, which were in use, have become free; what they hold may differ. -/
structure Released (dev : ℕ) (k : Fin NR_SUPER) (X : ℕ → Prop) (s s' : Fs) : Prop where
  inodes : s'.inodes = s.inodes
  supers : s'.supers = s.supers
  bcount : s'.bcount = s.bcount
  reads : s'.reads = s.reads
  volume : Volume s' dev k
  free : ∀ n, n ∈ s'.freeZones k ↔ n ∈ s.freeZones k ∨ X n
  data : ∀ b : Buffer, (b.1 = dev → ¬ X b.2) → ¬ s.ZoneMap dev b → s'.data b = s.data b

/-- Zones in use that no one holds, with what they held at first. -/
structure Standing (dev : ℕ) (k : Fin NR_SUPER) (content : ℕ → Block) (X : ℕ → Prop) (s : Fs) :
    Prop where
  bcount : ∀ n, X n → s.bcount (dev, n) = 0
  zone : ∀ n, X n → (s.supers k).firstdatazone ≤ n ∧ n < (s.supers k).nzones
  used : ∀ n, X n → n ∉ s.freeZones k
  data : ∀ n, X n → s.data (dev, n) = content n

theorem Released.refl (v : Volume s dev k) (hX : ∀ n, ¬ X n) : Released dev k X s s :=
  ⟨rfl, rfl, rfl, rfl, v, fun n => (or_iff_left (hX n)).symm, fun _ _ _ => rfl⟩

theorem Fs.zoneMap_congr (h : s'.supers = s.supers) (b : Buffer) :
    s'.ZoneMap dev b ↔ s.ZoneMap dev b := by
  unfold Fs.ZoneMap Fs.getSuper
  rw [h]

theorem Released.trans (h : Released dev k X s s') (h' : Released dev k Y s' s'') :
    Released dev k (fun n => X n ∨ Y n) s s'' where
  inodes := h'.inodes.trans h.inodes
  supers := h'.supers.trans h.supers
  bcount := h'.bcount.trans h.bcount
  reads := h'.reads.trans h.reads
  volume := h'.volume
  free n := by rw [h'.free, h.free, or_assoc]
  data b hb hm := by
    rw [h'.data b (fun hd hc => hb hd (.inr hc)) fun hc => hm ((Fs.zoneMap_congr h.supers b).1 hc),
      h.data b (fun hd hc => hb hd (.inl hc)) hm]

theorem Released.congr (h : Released dev k X s s') (hXY : ∀ n, X n ↔ Y n) :
    Released dev k Y s s' :=
  ⟨h.inodes, h.supers, h.bcount, h.reads, h.volume, fun n => by rw [h.free, hXY],
    fun b hb => h.data b fun hd hc => hb hd ((hXY _).1 hc)⟩

theorem Standing.mono (h : Standing dev k content Y s) (hXY : ∀ n, X n → Y n) :
    Standing dev k content X s :=
  ⟨fun n hn => h.bcount n (hXY n hn), fun n hn => h.zone n (hXY n hn),
    fun n hn => h.used n (hXY n hn), fun n hn => h.data n (hXY n hn)⟩

theorem Standing.not_map (h : Standing dev k content X s) (v : Volume s dev k) {n : ℕ} (hn : X n) :
    ¬ s.ZoneMap dev (dev, n) := by
  rintro ⟨k', m, hk', hb⟩
  obtain rfl : k = k' := Option.some.inj (v.super.symm.trans hk')
  exact absurd (v.maps k m _ hk' hb rfl) (Nat.not_lt.mpr (h.zone n hn).1)

theorem Standing.released (h : Standing dev k content X s) (v : Volume s dev k)
    (hr : Released dev k Y s s') (hXY : ∀ n, X n → ¬ Y n) : Standing dev k content X s' where
  bcount n hn := by
    rw [hr.bcount]
    exact h.bcount n hn
  zone n hn := by
    rw [hr.supers]
    exact h.zone n hn
  used n hn := by
    rw [hr.free, not_or]
    exact ⟨h.used n hn, hXY n hn⟩
  data n hn := (hr.data (dev, n) (fun _ => hXY n hn) (h.not_map v hn)).trans (h.data n hn)

/-- The bit of zone `n`, which is in buffer `b`, is cleared. -/
def Fs.dropZone (s : Fs) (dev : ℕ) (k : Fin NR_SUPER) (b : Buffer) (n : ℕ) : Fs :=
  { s.setData (dev, n) (s.stale 0) with stale := fun n => s.stale (n + 1) }.setData b
    (clearBit (s.data b) ((n + 1 - (s.supers k).firstdatazone) % 8192))

theorem Volume.dropZone_data (v : Volume s dev k) {n m : ℕ} {b b' : Buffer}
    (hle : (s.supers k).firstdatazone ≤ n) (hb' : (s.supers k).zmap m = some b') :
    (s.dropZone dev k b n).data b' =
      if b' = b then clearBit (s.data b) ((n + 1 - (s.supers k).firstdatazone) % 8192)
      else s.data b' := by
  have hne : b' ≠ (dev, n) := by
    rintro rfl
    exact absurd (v.maps k m _ v.super hb' rfl) (Nat.not_lt.mpr hle)
  change Function.update (Function.update s.data (dev, n) _) b _ b' = _
  split_ifs with h
  · rw [h, Function.update_self]
  · rw [Function.update_of_ne h, Function.update_of_ne hne]

theorem Volume.dropZone_keeps (v : Volume s dev k) {n m bit : ℕ} {b b' : Buffer}
    (hle : (s.supers k).firstdatazone ≤ n)
    (hb : (s.supers k).zmap ((n + 1 - (s.supers k).firstdatazone) / 8192) = some b)
    (hb' : (s.supers k).zmap m = some b')
    (hne : m = (n + 1 - (s.supers k).firstdatazone) / 8192 →
      bit ≠ (n + 1 - (s.supers k).firstdatazone) % 8192) :
    testBit ((s.dropZone dev k b n).data b') bit = testBit (s.data b') bit := by
  rw [v.dropZone_data hle hb']
  split_ifs with h
  · subst h
    have hbit := hne (v.apart _ _ b' hb' hb)
    rw [testBit_clearBit, decide_eq_true hbit.symm, Bool.and_true]
  · rfl

theorem Volume.dropZone (v : Volume s dev k) {n : ℕ} {b : Buffer}
    (hle : (s.supers k).firstdatazone ≤ n) (hlt : n < (s.supers k).nzones)
    (hb : (s.supers k).zmap ((n + 1 - (s.supers k).firstdatazone) / 8192) = some b)
    (hcount : s.bcount (dev, n) = 0) :
    Volume (s.dropZone dev k b n) dev k ∧
      ∀ l, l ∈ (s.dropZone dev k b n).freeZones k ↔ l ∈ s.freeZones k ∨ l = n := by
  have hzone : ∀ l, (s.supers k).firstdatazone ≤ l → l < (s.supers k).nzones →
      (s.dropZone dev k b n).zoneBit k l = (s.zoneBit k l && decide (l ≠ n)) := fun l hl hl' => by
    obtain ⟨b', hb'⟩ := v.covered l hl hl'
    rw [zoneBit_some hb', zoneBit_some (s := s.dropZone dev k b n) hb']
    change testBit _ ((l + 1 - (s.supers k).firstdatazone) % 8192) = _
    by_cases hln : l = n
    · subst hln
      obtain rfl : b = b' := Option.some.inj (hb.symm.trans hb')
      rw [v.dropZone_data hle hb, if_pos rfl, testBit_clearBit]
      simp
    · rw [v.dropZone_keeps hle hb hb' (by omega), decide_eq_true hln, Bool.and_true]
  have hfree : ∀ l, l ∈ (s.dropZone dev k b n).freeZones k ↔ l ∈ s.freeZones k ∨ l = n := fun l => by
    rw [mem_freeZones, mem_freeZones]
    change ((s.supers k).firstdatazone ≤ l ∧ l < (s.supers k).nzones ∧ _) ↔ _
    constructor
    · rintro ⟨hl, hl', hbit⟩
      rw [hzone l hl hl', Bool.and_eq_false_iff, decide_eq_false_iff_not, not_not] at hbit
      exact hbit.imp_left fun h => ⟨hl, hl', h⟩
    · rintro (⟨hl, hl', hbit⟩ | rfl)
      · exact ⟨hl, hl', by rw [hzone l hl hl', hbit, Bool.false_and]⟩
      · exact ⟨hle, hlt, by rw [hzone l hle hlt]; simp⟩
  refine ⟨⟨⟨v.behind, v.maps, fun k' b' hk' hb' => ?_, v.short⟩, v.super, v.covered, v.apart,
    fun m b' bit hb' hlt' hge => ?_, fun l hl => ?_⟩, hfree⟩
  · obtain rfl : k = k' := Option.some.inj (v.super.symm.trans hk')
    rw [v.dropZone_keeps hle hb hb' (by omega)]
    exact v.first k b' v.super hb'
  · change (s.supers k).nzones ≤ bit + m * 8192 + (s.supers k).firstdatazone - 1 at hge
    rw [v.dropZone_keeps hle hb hb' (by omega)]
    exact v.beyond m b' bit hb' hlt' hge
  · rcases (hfree l).1 hl with hl | rfl
    · exact v.unused l hl
    · exact hcount

theorem freeBlock_released (v : Volume s dev k) {n : ℕ} (h : Standing dev k content (· = n) s) :
    (freeBlock dev n s).Sat (fun _ s' => Released dev k (· = n) s s') fun _ => False := by
  obtain ⟨hle, hlt⟩ := h.zone n rfl
  obtain ⟨b, hb⟩ := v.covered n hle hlt
  have hbit : testBit (s.data b) ((n + 1 - (s.supers k).firstdatazone) % 8192) = true := by
    by_contra hc
    refine h.used n rfl (mem_freeZones.2 ⟨hle, hlt, ?_⟩)
    rw [zoneBit_some hb]
    simpa using hc
  have hne : b ≠ (dev, n) := by
    rintro rfl
    exact absurd (v.maps k _ _ v.super hb rfl) (Nat.not_lt.mpr hle)
  unfold freeBlock
  rw [v.super]
  dsimp only
  rw [if_neg (by omega), if_neg (not_not_intro (h.bcount n rfl)), if_pos (v.slot_lt hlt), hb]
  dsimp only
  have hdata : Function.update s.data (dev, n) (s.stale 0) b = s.data b :=
    Function.update_of_ne hne _ _
  change (if testBit (Function.update s.data (dev, n) (s.stale 0) b) _ = false then _ else
    Outcome.ok () (Fs.setData _ b (clearBit (Function.update s.data (dev, n) (s.stale 0) b) _))).Sat
      _ _
  rw [hdata, if_neg (by rw [hbit]; exact Bool.false_ne_true.symm)]
  obtain ⟨v', hfree⟩ := v.dropZone hle hlt hb (h.bcount n rfl)
  refine ⟨rfl, rfl, rfl, rfl, v', hfree, fun b' hb' hmap => ?_⟩
  refine (Function.update_of_ne ?_ _ _).trans (Function.update_of_ne ?_ _ _)
  · rintro rfl
    exact hmap ⟨k, _, v.super, hb⟩
  · rintro rfl
    exact hb' rfl rfl

/-! ### Indirect blocks -/

/-- The entries of an indirect block that `l` has. -/
theorem freeEntries_released {free : ℕ → Fs → Out Unit} {X : ℕ → ℕ → Prop} {b : ℕ}
    (v : Volume s dev k) (hdata : s.data (dev, b) = content b) (hmap : ¬ s.ZoneMap dev (dev, b))
    (hreads : s.reads = [])
    (hfree : ∀ e s, Volume s dev k → s.reads = [] → EntryIn (content b) e →
      Standing dev k content (X e) s →
      (free e s).Sat (fun _ s' => Released dev k (X e) s s') fun _ => False)
    (hapart : Apart content X b) {l : List ℕ} (hnodup : l.Nodup) (hlt : ∀ i ∈ l, i < 512)
    (hready : ∀ i ∈ l, word (content b) (2 * i) ≠ 0 →
      Standing dev k content (X (word (content b) (2 * i)).toNat) s) :
    (Outcome.each (fun i (s : Fs) => if word (s.data (dev, b)) (2 * i) ≠ 0 then
        free (word (s.data (dev, b)) (2 * i)).toNat s else .ok () s) l s).Sat
      (fun _ s' => Released dev k (fun n => ∃ i ∈ l, word (content b) (2 * i) ≠ 0 ∧
        X (word (content b) (2 * i)).toNat n) s s') fun _ => False := by
  induction l generalizing s with
  | nil =>
    refine .refl v ?_
    rintro n ⟨i, hi, -⟩
    exact absurd hi List.not_mem_nil
  | cons i l ih =>
    obtain ⟨hi, hl⟩ := List.nodup_cons.mp hnodup
    have hi512 := hlt i List.mem_cons_self
    have hrest : ∀ j ∈ l, j < 512 := fun j hj => hlt j (List.mem_cons_of_mem i hj)
    unfold Outcome.each
    rw [hdata]
    split_ifs with hz
    · have hentry : EntryIn (content b) (word (content b) (2 * i)).toNat := ⟨i, hi512, hz, rfl⟩
      refine (hfree _ s v hreads hentry (hready i List.mem_cons_self hz)).bind fun _ s₁ h₁ => ?_
      have hdata₁ : s₁.data (dev, b) = content b :=
        (h₁.data _ (fun _ => hapart.own _ hentry) hmap).trans hdata
      refine (ih h₁.volume hdata₁ (fun hc => hmap ((Fs.zoneMap_congr h₁.supers _).mp hc))
        (h₁.reads.trans hreads) hl hrest fun j hj hzj => ?_).post fun _ s₂ h₂ =>
          (h₁.trans h₂).congr fun n => ?_
      · refine (hready j (List.mem_cons_of_mem i hj) hzj).released v h₁ fun n =>
          hapart.others _ _ n ⟨j, hrest j hj, hzj, rfl⟩ hentry fun hc => hi ?_
        rw [hapart.entries i j hi512 (hrest j hj) hz (UInt16.toNat_inj.mp hc.symm)]
        exact hj
      · simp only [List.mem_cons, exists_eq_or_imp]
        exact or_congr_left (and_iff_right hz).symm
    · refine (ih v hdata hmap hreads hl hrest fun j hj => hready j (List.mem_cons_of_mem i hj)).post
        fun _ s₂ h₂ => h₂.congr fun n => ?_
      simp only [List.mem_cons, exists_eq_or_imp]
      exact (or_iff_right fun hc => hz hc.1).symm

theorem bread_clean {b : ℕ} (hreads : s.reads = []) (hcount : s.bcount (dev, b) = 0) :
    bread dev b s = .ok (some (dev, b)) (s.hold (dev, b)) := by
  have hsame : { s with reads := s.reads.tail } = s := by
    rw [hreads, List.tail_nil, ← hreads]
  unfold Minix.bread
  rw [if_neg (by rw [hreads]; exact fun hc => nomatch hc), hsame, hcount]
  unfold Fs.hold
  rw [hcount]

theorem Volume.hold (v : Volume s dev k) {b : ℕ} (hb : b ∉ s.freeZones k) :
    Volume (s.hold (dev, b)) dev k ∧ (s.hold (dev, b)).freeZones k = s.freeZones k := by
  refine v.congr rfl (fun n hn => ?_) fun _ _ _ => rfl
  have hne : (dev, n) ≠ (dev, b) := fun hc => hb ((Prod.mk.inj hc).2 ▸ hn)
  exact (Function.update_of_ne hne _ _).trans (v.unused n hn)

/-- `free_ind` and `free_dind`, from what frees an entry. -/
theorem freeWith_released {free : ℕ → Fs → Out Unit} {X : ℕ → ℕ → Prop} {b : ℕ}
    (v : Volume s dev k) (hreads : s.reads = [])
    (hfree : ∀ e s, Volume s dev k → s.reads = [] → EntryIn (content b) e →
      Standing dev k content (X e) s →
      (free e s).Sat (fun _ s' => Released dev k (X e) s s') fun _ => False)
    (hapart : Apart content X b) (hready : b ≠ 0 → Standing dev k content (Below content X b) s) :
    (freeWith free dev b s).Sat
      (fun _ s' => Released dev k (fun n => b ≠ 0 ∧ Below content X b n) s s') fun _ => False := by
  unfold freeWith
  split_ifs with hb0
  · exact .refl v fun n hc => hc.1 hb0
  have hready := hready hb0
  have hcount := hready.bcount b (.inl rfl)
  have hused := hready.used b (.inl rfl)
  have hmap := hready.not_map v (.inl rfl)
  obtain ⟨vh, hfreeh⟩ := v.hold hused
  have hentries : ∀ e, EntryIn (content b) e → Standing dev k content (X e) (s.hold (dev, b)) :=
    fun e he => by
      have hs := hready.mono (X := X e) fun n hn => .inr ⟨e, he, hn⟩
      refine ⟨fun n hn => ?_, hs.zone, fun n hn => ?_, hs.data⟩
      · have hne : (dev, n) ≠ (dev, b) := fun hc => by
          rw [(Prod.mk.inj hc).2] at hn
          exact hapart.own e he hn
        exact (Function.update_of_ne hne _ _).trans (hs.bcount n hn)
      · rw [hfreeh]
        exact hs.used n hn
  have hmem : ∀ i, i ∈ List.range 512 ↔ i < 512 := fun i => List.mem_range
  have hnodup : (List.range 512).Nodup := List.nodup_range
  rw [bread_clean hreads hcount, Outcome.bind_ok]
  dsimp only
  rw [Outcome.bind_assoc]
  unfold freeEntries
  generalize List.range 512 = l at hmem hnodup ⊢
  refine (freeEntries_released vh (hready.data b (.inl rfl)) hmap hreads hfree hapart
    hnodup (fun i hi => (hmem i).1 hi) fun i hi hz =>
      hentries _ ⟨i, (hmem i).1 hi, hz, rfl⟩).bind fun _ s₂ h₂ => ?_
  -- the reference that was taken is dropped
  have hheld : s₂.bcount (dev, b) = 1 := by
    rw [h₂.bcount]
    change Function.update s.bcount (dev, b) (s.bcount (dev, b) + 1) (dev, b) = 1
    rw [Function.update_self, hcount]
  have hback : Function.update s₂.bcount (dev, b) (s₂.bcount (dev, b) - 1) = s.bcount := by
    rw [hheld, h₂.bcount]
    change Function.update (Function.update s.bcount (dev, b) _) (dev, b) _ = s.bcount
    rw [Function.update_idem, Function.update_eq_self_iff, hcount]
  unfold brelse
  dsimp only
  rw [if_neg (by rw [hheld]; exact Nat.one_ne_zero), Outcome.bind_ok]
  have hX : ∀ n, (∃ i ∈ l, word (content b) (2 * i) ≠ 0 ∧
      X (word (content b) (2 * i)).toNat n) ↔ ∃ e, EntryIn (content b) e ∧ X e n := by
    intro n
    constructor
    · rintro ⟨i, hi, hz, hn⟩
      exact ⟨_, ⟨i, (hmem i).1 hi, hz, rfl⟩, hn⟩
    · rintro ⟨e, ⟨i, hi, hz, rfl⟩, hn⟩
      exact ⟨i, (hmem i).2 hi, hz, hn⟩
  have h₂ := h₂.congr hX
  have h₃ : Released dev k (fun n => ∃ e, EntryIn (content b) e ∧ X e n) s
      (s₂.setBcount (dev, b) (s₂.bcount (dev, b) - 1)) := by
    obtain ⟨v₃, hfree₃⟩ := h₂.volume.congr
      (rfl : (s₂.setBcount (dev, b) (s₂.bcount (dev, b) - 1)).supers = s₂.supers) (fun n hn => by
        change Function.update s₂.bcount (dev, b) (s₂.bcount (dev, b) - 1) (dev, n) = 0
        rw [hback]
        rcases (h₂.free n).1 hn with hn | hn
        · rw [hfreeh] at hn
          exact v.unused n hn
        · exact hready.bcount n (.inr hn)) fun _ _ _ => rfl
    refine ⟨h₂.inodes, h₂.supers, hback, h₂.reads, v₃, fun n => ?_, h₂.data⟩
    rw [hfree₃, h₂.free, hfreeh]
  have hown : Standing dev k content (· = b) (s₂.setBcount (dev, b) (s₂.bcount (dev, b) - 1)) := by
    refine (hready.mono (X := (· = b)) fun n hn => .inl hn).released v h₃ ?_
    rintro n rfl ⟨e, he, hn⟩
    exact hapart.own e he hn
  refine (freeBlock_released h₃.volume hown).post fun _ s₄ h₄ => (h₃.trans h₄).congr fun n => ?_
  rw [or_comm]
  exact (and_iff_right hb0).symm

/-! ### The places of a file -/

/-- The blocks of a file are in one place each, and not freed yet but for some. -/
structure Left (d : DInode) (dev : ℕ) (k : Fin NR_SUPER) (content : ℕ → Block)
    (left : Place → Prop) (s : Fs) : Prop where
  distinct : ∀ p p', d.blockAt content p ≠ 0 → d.blockAt content p = d.blockAt content p' → p = p'
  ready : Standing dev k content (fun n => n ≠ 0 ∧ ∃ p, left p ∧ n = d.blockAt content p) s

variable {d : DInode} {left left' : Place → Prop}

theorem Left.released (h : Left d dev k content left s) (v : Volume s dev k)
    (hr : Released dev k X s s') (hleft : ∀ p, left' p → left p)
    (hX : ∀ p, left' p → d.blockAt content p ≠ 0 → ¬ X (d.blockAt content p)) :
    Left d dev k content left' s' := by
  refine ⟨h.distinct, ?_⟩
  refine (h.ready.mono fun n ⟨hn, p, hp, he⟩ => ⟨hn, p, hleft p hp, he⟩).released v hr ?_
  rintro n ⟨hn, p, hp, rfl⟩
  exact hX p hp hn

/-- An indirect block whose entries are blocks of the file. -/
theorem Indirect.freeInd_released {P : Place} {E : Fin 512 → Place} (h : Indirect d content P E)
    (v : Volume s dev k) (hreads : s.reads = [])
    (hd : ∀ p p', d.blockAt content p ≠ 0 → d.blockAt content p = d.blockAt content p' → p = p')
    (hready : d.blockAt content P ≠ 0 →
      Standing dev k content (Below content (fun e n => n = e) (d.blockAt content P)) s) :
    (Minix.freeInd dev (d.blockAt content P) s).Sat (fun _ s' => Released dev k (fun n =>
      d.blockAt content P ≠ 0 ∧ Below content (fun e n => n = e) (d.blockAt content P) n) s s')
      fun _ => False := by
  by_cases hb : d.blockAt content P = 0
  · unfold Minix.freeInd freeWith
    rw [if_pos hb]
    exact .refl v fun n hc => hc.1 hb
  refine freeWith_released v hreads (fun e s v _ _ hr => freeBlock_released v hr) ?_ hready
  refine h.apart hd hb (T := fun i p => p = E i) (fun i n hn hx => ⟨?_, E i, rfl, hx⟩)
    (fun i hc => h.ne i hc.symm) fun i j p hp hp' => h.inj i j (hp.symm.trans hp')
  rw [hx]
  exact hn

theorem freeDind_released (v : Volume s dev k) (hreads : s.reads = [])
    (hd : ∀ p p', d.blockAt content p ≠ 0 → d.blockAt content p = d.blockAt content p' → p = p')
    (hready : d.blockAt content .double ≠ 0 →
      Standing dev k content (DoubleBelow content (d.blockAt content .double)) s) :
    (freeDind dev (d.blockAt content .double) s).Sat (fun _ s' => Released dev k (fun n =>
      d.blockAt content .double ≠ 0 ∧ DoubleBelow content (d.blockAt content .double) n) s s')
      fun _ => False := by
  by_cases hb : d.blockAt content .double = 0
  · unfold freeDind freeWith
    rw [if_pos hb]
    exact .refl v fun n hc => hc.1 hb
  refine freeWith_released v hreads (fun e s v hr he hs => ?_) ?_ hready
  · obtain ⟨i, rfl, h0⟩ := (double_indirect d content).entryIn hb he
    exact ((doubleEntry_indirect d content i).freeInd_released v hr hd fun _ => hs).post
      fun _ s' h => h.congr fun n => and_iff_right h0
  · refine (double_indirect d content).apart hd hb
      (T := fun i p => p = .doubleEntry i ∨ ∃ m, p = .doubleEntryEntry i m)
      (fun i n h0 hx => (doubleEntry_indirect d content i).below h0 hx) ?_ ?_
    · rintro i (hc | ⟨m, hc⟩)
      · cases hc
      · cases hc
    · rintro i j p (rfl | ⟨m, rfl⟩) (hc | ⟨m', hc⟩)
      · exact Place.doubleEntry.inj hc
      · cases hc
      · cases hc
      · exact (Place.doubleEntryEntry.inj hc).1

/-- The block at a place that an indirect block leads to is below it. -/
theorem Indirect.above {P : Place} {E : Fin 512 → Place} (h : Indirect d content P E) (i : Fin 512)
    (h0 : d.blockAt content (E i) ≠ 0) : d.blockAt content P ≠ 0 ∧
      EntryIn (content (d.blockAt content P)) (d.blockAt content (E i)) := by
  rw [h.entry, entryOf] at h0 ⊢
  split_ifs at h0 ⊢ with hP
  · exact absurd rfl h0
  · exact ⟨hP, i, i.isLt, fun hc => h0 (by rw [hc]; rfl), rfl⟩

theorem doubleBelow_of {p : Place} (hp : p.ofDouble) (h0 : d.blockAt content p ≠ 0) :
    d.blockAt content .double ≠ 0 ∧
      DoubleBelow content (d.blockAt content .double) (d.blockAt content p) := by
  cases p with
  | double => exact ⟨h0, .inl rfl⟩
  | doubleEntry i =>
    obtain ⟨hb, he⟩ := (double_indirect d content).above i h0
    exact ⟨hb, .inr ⟨_, he, .inl rfl⟩⟩
  | doubleEntryEntry i m =>
    obtain ⟨hi, hm⟩ := (doubleEntry_indirect d content i).above m h0
    obtain ⟨hb, he⟩ := (double_indirect d content).above i hi
    exact ⟨hb, .inr ⟨_, he, .inr ⟨_, hm, rfl⟩⟩⟩
  | direct z => exact hp.elim
  | single => exact hp.elim
  | singleEntry n => exact hp.elim

/-! ### `truncate` -/

/-- The state with the inodes of another. -/
def Fs.withInodes (s : Fs) (f : Slot → Inode) : Fs := { s with inodes := f }

theorem Volume.withInodes (v : Volume s dev k) (f : Slot → Inode) :
    Volume (s.withInodes f) dev k :=
  (v.congr (rfl : (s.withInodes f).supers = s.supers) v.unused fun _ _ _ => rfl).1

theorem Released.withInodes (h : Released dev k X s s') (f : Slot → Inode) :
    Released dev k X (s.withInodes f) (s'.withInodes f) :=
  ⟨rfl, h.supers, h.bcount, h.reads, h.volume.withInodes f, h.free, h.data⟩

/-- Whatever has changed of the inodes, the zones `X` have been released. -/
def Lost (dev : ℕ) (k : Fin NR_SUPER) (X : ℕ → Prop) (s s' : Fs) : Prop :=
  Released dev k X s (s'.withInodes s.inodes)

theorem Lost.volume (h : Lost dev k X s s') : Volume s' dev k :=
  Released.volume h |>.withInodes s'.inodes

theorem Lost.trans (h : Lost dev k X s s') (h' : Released dev k Y s' s'') :
    Lost dev k (fun n => X n ∨ Y n) s s'' := Released.trans h (h'.withInodes s.inodes)

/-- A state on the way through the direct blocks of `i`, with those in `l` to come. -/
structure Passing (i : Slot) (k : Fin NR_SUPER) (s₀ s : Fs) (l : List (Fin 7)) : Prop where
  inodes : ∃ zone, s.inodes = Function.update s₀.inodes i { s₀.inodes i with zone := zone } ∧
    (∀ z ∉ l, zone (z.castLE (by decide)) = 0) ∧
    ∀ z : Fin 9, (∃ z' ∈ l, z = z'.castLE (by decide)) ∨ z = 7 ∨ z = 8 →
      zone z = (s₀.inodes i).zone z
  lost : Lost (s₀.inodes i).dev k (fun n => n ≠ 0 ∧ ∃ z ∉ l, s₀.at i (.direct z) = n) s₀ s
  left : Left (s₀.inodes i).toDInode (s₀.inodes i).dev k (s₀.blocks (s₀.inodes i).dev) (Behind l) s

variable {i : Slot} {s₀ : Fs}

theorem freeDirect_passing {l : List (Fin 7)} (hnodup : l.Nodup) (h : Passing i k s₀ s l) :
    (Outcome.each (fun (z : Fin 9) s =>
      if (s.inodes i).zone z ≠ 0 then
        (freeBlock (s.inodes i).dev ((s.inodes i).zone z).toNat s).bind fun _ s =>
          .ok () (s.setZone i z 0)
      else .ok () s) (l.map (Fin.castLE (by decide))) s).Sat
      (fun _ s' => Passing i k s₀ s' []) fun _ => False := by
  induction l generalizing s with
  | nil => exact h
  | cons z l ih =>
    obtain ⟨hz, hl⟩ := List.nodup_cons.mp hnodup
    obtain ⟨zone, hinodes, hzero, hkeep⟩ := h.inodes
    have hself : s.inodes i = { s₀.inodes i with zone := zone } := by
      rw [hinodes, Function.update_self]
    have hbehind : ∀ p, Behind l p → Behind (z :: l) p := by
      intro p hp
      cases p with
      | direct z' => exact List.mem_cons_of_mem z hp
      | _ => trivial
    have hzone := hkeep (z.castLE (by decide)) (.inl ⟨z, List.mem_cons_self, rfl⟩)
    have hat : s₀.at i (.direct z) = ((s₀.inodes i).zone (z.castLE (by decide))).toNat := rfl
    have hkeep' : ∀ z' : Fin 9, (∃ z₁ ∈ l, z' = z₁.castLE (by decide)) ∨ z' = 7 ∨ z' = 8 →
        zone z' = (s₀.inodes i).zone z' := by
      rintro z' (⟨z₁, hz₁, rfl⟩ | hz')
      · exact hkeep _ (.inl ⟨z₁, List.mem_cons_of_mem z hz₁, rfl⟩)
      · exact hkeep _ (.inr hz')
    rw [List.map_cons]
    unfold Outcome.each
    have hzone' : (s.inodes i).zone (z.castLE (by decide)) =
        (s₀.inodes i).zone (z.castLE (by decide)) := by
      rw [hself]
      exact hzone
    have hdev : (s.inodes i).dev = (s₀.inodes i).dev := by rw [hself]
    split_ifs with h0
    · rw [Outcome.bind_assoc, hzone', hdev]
      rw [hzone'] at h0
      have hne : s₀.at i (.direct z) ≠ 0 := by
        rw [hat]
        exact fun hc => h0 (UInt16.toNat_inj.mp hc)
      have hready := h.left.ready.mono (X := (· = s₀.at i (.direct z))) fun n hn =>
        ⟨hn ▸ hne, .direct z, List.mem_cons_self, hn⟩
      rw [← hat]
      refine (freeBlock_released h.lost.volume hready).bind fun _ s₁ h₁ => ?_
      rw [Outcome.bind_ok]
      have hinodes₁ : (s₁.setZone i (z.castLE (by decide)) 0).inodes =
          Function.update s₀.inodes i { s₀.inodes i with
            zone := Function.update zone (z.castLE (by decide)) 0 } := by
        unfold Fs.setZone Fs.setInode
        dsimp only
        rw [h₁.inodes, hself, hinodes, Function.update_idem]
      have hleft : Left (s₀.inodes i).toDInode (s₀.inodes i).dev k (s₀.blocks (s₀.inodes i).dev)
          (Behind l) s₁ := by
        refine h.left.released h.lost.volume h₁ hbehind fun p hp hn hc => hz ?_
        have hpz := h.left.distinct p (.direct z) hn hc
        rw [hpz] at hp
        exact hp
      refine ih hl ⟨⟨_, hinodes₁, fun z' hz' => ?_, fun z' hz' => ?_⟩, ?_, ⟨hleft.1, ?_⟩⟩
      · rw [Function.update_apply]
        split_ifs with heq
        · rfl
        · refine hzero z' ?_
          rintro hmem
          rcases List.mem_cons.1 hmem with rfl | hmem
          · exact heq rfl
          · exact hz' hmem
      · rw [Function.update_of_ne, hkeep' z' hz']
        rintro rfl
        rcases hz' with ⟨z₁, hz₁, he⟩ | he | he
        · rw [Fin.castLE_injective _ he] at hz
          exact hz hz₁
        · have hv := congrArg Fin.val he
          simp at hv
          omega
        · have hv := congrArg Fin.val he
          simp at hv
          omega
      · refine (Released.congr (h.lost.trans h₁) fun n => ?_ :)
        constructor
        · rintro (⟨hn, z', hz', rfl⟩ | rfl)
          · exact ⟨hn, z', fun hc => hz' (List.mem_cons_of_mem z hc), rfl⟩
          · exact ⟨hne, z, hz, rfl⟩
        · rintro ⟨hn, z', hz', rfl⟩
          by_cases hzz : z' = z
          · exact .inr (by rw [hzz])
          · refine .inl ⟨hn, z', ?_, rfl⟩
            simp only [List.mem_cons, not_or]
            exact ⟨hzz, hz'⟩
      · exact ⟨hleft.ready.bcount, hleft.ready.zone, hleft.ready.used, hleft.ready.data⟩
    · have hzz : s₀.at i (.direct z) = 0 := by
        rw [hat, ← hzone', not_not.1 h0]
        rfl
      refine ih hl ⟨⟨zone, hinodes, fun z' hz' => ?_, hkeep'⟩, ?_, ⟨h.left.distinct,
        h.left.ready.mono ?_⟩⟩
      · by_cases hzz' : z' = z
        · rw [hzz', hzone, ← hzone', not_not.1 h0]
        · refine hzero z' ?_
          simp only [List.mem_cons, not_or]
          exact ⟨hzz', hz'⟩
      · refine (Released.congr h.lost fun n => ?_ :)
        constructor
        · rintro ⟨hn, z', hz', rfl⟩
          exact ⟨hn, z', fun hc => hz' (List.mem_cons_of_mem z hc), rfl⟩
        · rintro ⟨hn, z', hz', rfl⟩
          refine ⟨hn, z', ?_, rfl⟩
          simp only [List.mem_cons, not_or]
          refine ⟨?_, hz'⟩
          rintro rfl
          exact hn hzz
      · rintro n ⟨hn, p, hp, he⟩
        exact ⟨hn, p, hbehind p hp, he⟩

/-- What `truncate` does: the inode has no zones, and the zones it had are free. -/
structure Truncated (s s' : Fs) (i : Slot) (k : Fin NR_SUPER) : Prop where
  inodes : ∃ time, s'.inodes = Function.update s.inodes i { s.inodes i with
    zone := fun _ => 0, size := 0, dirt := true, mtime := time }
  lost : Lost (s.inodes i).dev k (fun n => n ≠ 0 ∧ ∃ p, s.at i p = n) s s'

/-- The blocks below the single indirect block, and below the double one, are those there are besides
    the direct ones. -/
theorem lost_iff (n : ℕ) : ((n ≠ 0 ∧ ∃ z, s.at i (.direct z) = n) ∨
      (s.at i .single ≠ 0 ∧ Below (s.blocks (s.inodes i).dev) (fun e n => n = e) (s.at i .single) n) ∨
      s.at i .double ≠ 0 ∧ DoubleBelow (s.blocks (s.inodes i).dev) (s.at i .double) n) ↔
    n ≠ 0 ∧ ∃ p, s.at i p = n := by
  have hsingle := single_indirect (s.inodes i).toDInode (s.blocks (s.inodes i).dev)
  constructor
  · rintro (⟨hn, z, hz⟩ | ⟨hs, hb⟩ | ⟨hd, hb⟩)
    · exact ⟨hn, _, hz⟩
    · obtain ⟨hn, p, -, he⟩ := hsingle.below hs hb
      exact ⟨hn, p, he.symm⟩
    · obtain ⟨hn, p, -, he⟩ := doubleBelow_at hd hb
      exact ⟨hn, p, he.symm⟩
  · rintro ⟨hn, p, rfl⟩
    have hdouble : p.ofDouble → _ := fun hp => doubleBelow_of hp hn
    cases p with
    | direct z => exact .inl ⟨hn, z, rfl⟩
    | single => exact .inr (.inl ⟨hn, .inl rfl⟩)
    | singleEntry m =>
      obtain ⟨hs, he⟩ := hsingle.above m hn
      exact .inr (.inl ⟨hs, .inr ⟨_, he, rfl⟩⟩)
    | double => exact .inr (.inr (hdouble trivial))
    | doubleEntry m => exact .inr (.inr (hdouble trivial))
    | doubleEntryEntry m l => exact .inr (.inr (hdouble trivial))

theorem truncate_truncated (v : Volume s (s.inodes i).dev k) (hreads : s.reads = [])
    (hmode : isReg (s.inodes i).mode ∨ isDir (s.inodes i).mode)
    (hleft : Left (s.inodes i).toDInode (s.inodes i).dev k (s.blocks (s.inodes i).dev)
      (fun _ => True) s) :
    (truncate i s).Sat (fun _ s' => Truncated s s' i k) fun _ => False := by
  unfold truncate
  rw [if_neg (not_not_intro hmode)]
  have hlist : ([0, 1, 2, 3, 4, 5, 6] : List (Fin 9)) =
      (List.finRange 7).map (Fin.castLE (by decide)) := by decide
  rw [hlist]
  have hstart : Passing i k s s (List.finRange 7) := by
    refine ⟨⟨(s.inodes i).zone, (Function.update_eq_self _ _).symm,
      fun z hz => absurd (List.mem_finRange z) hz, fun _ _ => rfl⟩, ?_, ⟨hleft.distinct,
      hleft.ready.mono fun n ⟨hn, p, _, he⟩ => ⟨hn, p, trivial, he⟩⟩⟩
    exact Released.refl v fun n hc => hc.2.elim fun z hz => hz.1 (List.mem_finRange z)
  refine (freeDirect_passing (List.nodup_finRange 7) hstart).bind fun _ s₁ h₁ => ?_
  have hd := h₁.left.distinct
  obtain ⟨zone, hinodes₁, hzero, hkeep⟩ := h₁.inodes
  have hself : s₁.inodes i = { s.inodes i with zone := zone } := by
    rw [hinodes₁, Function.update_self]
  have hdev : (s₁.inodes i).dev = (s.inodes i).dev := by rw [hself]
  have h7 : ((s₁.inodes i).zone 7).toNat = s.at i .single := by
    rw [hself]
    exact congrArg UInt16.toNat (hkeep 7 (.inr (.inl rfl)))
  have h8 : ((s₁.inodes i).zone 8).toNat = s.at i .double := by
    rw [hself]
    exact congrArg UInt16.toNat (hkeep 8 (.inr (.inr rfl)))
  have hreads₁ : s₁.reads = [] := (Released.reads h₁.lost).trans hreads
  have hsingle := single_indirect (s.inodes i).toDInode (s.blocks (s.inodes i).dev)
  rw [h7, hdev]
  refine (hsingle.freeInd_released h₁.lost.volume hreads₁ hd fun hb =>
    h₁.left.ready.mono fun n hn => ?_).bind fun _ s₂ h₂ => ?_
  · obtain ⟨hn0, p, hp, rfl⟩ := hsingle.below hb hn
    refine ⟨hn0, p, ?_, rfl⟩
    rcases hp with rfl | ⟨m, rfl⟩
    · trivial
    · trivial
  have hleft₂ : Left (s.inodes i).toDInode (s.inodes i).dev k (s.blocks (s.inodes i).dev)
      Place.ofDouble s₂ := by
    refine h₁.left.released h₁.lost.volume h₂ (fun p hp => ?_) fun p hp hn hc => ?_
    · cases p with
      | direct z => exact hp.elim
      | _ => trivial
    · obtain ⟨-, p', hp', he⟩ := hsingle.below hc.1 hc.2
      rw [hd p p' hn he] at hp
      rcases hp' with rfl | ⟨m, rfl⟩
      · exact hp
      · exact hp
  rw [h₂.inodes, h8, hdev]
  refine (freeDind_released h₂.volume (h₂.reads.trans hreads₁) hd fun hb =>
    hleft₂.ready.mono fun n hn => ?_).bind fun _ s₃ h₃ => ?_
  · obtain ⟨hn0, p, hp, rfl⟩ := doubleBelow_at hb hn
    exact ⟨hn0, p, hp, rfl⟩
  have hinodes₃ : s₃.inodes = Function.update s.inodes i { s.inodes i with zone := zone } :=
    h₃.inodes.trans (h₂.inodes.trans hinodes₁)
  have hall : ∀ n, (((n ≠ 0 ∧ ∃ z ∉ ([] : List (Fin 7)), s.at i (.direct z) = n) ∨ _) ∨ _) ↔ _ :=
    fun n => (or_assoc.trans (or_congr_left (by simp))).trans (lost_iff (s := s) (i := i) n)
  have hlost : Lost (s.inodes i).dev k (fun n => n ≠ 0 ∧ ∃ p, s.at i p = n) s s₃ :=
    Released.congr ((h₁.lost.trans h₂).trans h₃) hall
  have hcleared : Function.update (Function.update zone 7 0) 8 0 = fun _ => 0 := by
    funext z
    rw [Function.update_apply, Function.update_apply]
    split_ifs with hz8 hz7
    · rfl
    · rfl
    · have hlt : z.val < 7 := by
        have h7 : z.val ≠ 7 := fun hc => hz7 (Fin.ext hc)
        have h8 : z.val ≠ 8 := fun hc => hz8 (Fin.ext hc)
        omega
      exact hzero ⟨z.val, hlt⟩ List.not_mem_nil
  refine ⟨⟨s₃.time, ?_⟩, hlost⟩
  unfold Fs.setZone Fs.setInode
  simp only [Function.update_self, Function.update_idem, hinodes₃, hcleared]

end Linux011.Minix
