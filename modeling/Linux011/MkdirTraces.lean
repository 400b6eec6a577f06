import Linux011.MakeDirs
import Linux011.FsOpens

set_option autoImplicit false

/-!
# What a failed `mkdir` leaves behind

In a consistent state of the file system nothing, unless the last step fails: when the parent directory has no
room, the block of the new directory is freed by hand, and again when the new inode is put.
-/
namespace Linux011.Minix
open Outcomes SlotTables

variable {live : ℕ → ℕ → Prop} {s t u : Fs} {dir : Slot} {k : Fin NR_SUPER} {name : Name}
  {held : List Slot} {readable : Bool} {mode : ℕ} {path : List UInt8}

/-- A state without any call under way, in which all blocks can be read: the maps of each device are
    before its inodes, and the blocks of directories are marked in them, each of one place. -/
structure Consistent (live : ℕ → ℕ → Prop) (s : Fs) : Prop extends Tree live s where
  allRead : s.reads = []
  hasRoot : s.task.root ≠ none
  hasPwd : s.task.pwd ≠ none
  -- the maps
  volumes : ∀ dev k, s.getSuper dev = some k → Volume s dev k
  imaps : ∀ k m b, (s.supers k).dev ≠ 0 → (s.supers k).imap m = some b →
    b.1 = (s.supers k).dev ∧ b.2 < 2 + (s.supers k).imapBlocks
  zmaps : ∀ k m b, (s.supers k).dev ≠ 0 → (s.supers k).zmap m = some b →
    b.1 = (s.supers k).dev ∧ 2 + (s.supers k).imapBlocks ≤ b.2 ∧
      b.2 < 2 + (s.supers k).imapBlocks + (s.supers k).zmapBlocks
  noInode : ∀ k b, (s.supers k).dev ≠ 0 → (s.supers k).imap 0 = some b → testBit (s.data b) 0 = true
  -- the directories
  wholes : ∀ dev nr, live dev nr → isDir (s.inodeOf dev nr).mode →
    (s.inodeOf dev nr).size.toNat % 16 = 0
  filled : ∀ dev nr l, live dev nr → isDir (s.inodeOf dev nr).mode →
    DIR_ENTRIES_PER_BLOCK * l < (s.inodeOf dev nr).size.toNat / 16 →
    l < 7 + 512 + 512 * 512 ∧ (s.inodeOf dev nr).block (s.blocks dev) l ≠ 0
  marked : ∀ dev nr p, live dev nr → isDir (s.inodeOf dev nr).mode →
    (s.inodeOf dev nr).blockAt (s.blocks dev) p ≠ 0 →
    s.Marked dev ((s.inodeOf dev nr).blockAt (s.blocks dev) p)
  separate : ∀ dev nr p q, live dev nr → isDir (s.inodeOf dev nr).mode →
    (s.inodeOf dev nr).blockAt (s.blocks dev) p ≠ 0 →
    (s.inodeOf dev nr).blockAt (s.blocks dev) p = (s.inodeOf dev nr).blockAt (s.blocks dev) q → p = q

theorem Consistent.mapBuffer (h : Consistent live s) {b : Buffer} (hb : s.MapBuffer b) :
    ∃ k, (s.supers k).dev = b.1 ∧ b.1 ≠ 0 ∧
      b.2 < 2 + (s.supers k).imapBlocks + (s.supers k).zmapBlocks := by
  obtain ⟨k, m, hd, hmap⟩ := hb
  rcases hmap with hmap | hmap
  · obtain ⟨hdev, hlt⟩ := h.imaps k m b hd hmap
    exact ⟨k, hdev.symm, by rw [hdev]; exact hd, by omega⟩
  · obtain ⟨hdev, -, hlt⟩ := h.zmaps k m b hd hmap
    exact ⟨k, hdev.symm, by rw [hdev]; exact hd, hlt⟩

theorem Consistent.not_inodes (h : Consistent live s) {b : Buffer} (hb : s.MapBuffer b) :
    ¬s.InodeBlock b := by
  obtain ⟨k, hk, hd, hlt⟩ := h.mapBuffer hb
  rintro ⟨k', nr, hk', -, -, -, he⟩
  obtain rfl : k = k' := h.supers k k' (by rw [hk]; exact hd) (hk.trans hk'.symm)
  rw [he] at hlt
  unfold Super.inodeBlock INODES_PER_BLOCK at hlt
  omega

/-- The maps lie before the zones. -/
theorem Consistent.map_lt (h : Consistent live s) {b : Buffer} (hb : s.MapBuffer b) (hk : (s.supers k).dev = b.1) :
    b.2 < (s.supers k).firstdatazone := by
  obtain ⟨k', hk', hd, hlt⟩ := h.mapBuffer hb
  obtain rfl : k' = k := h.supers k' k (by rw [hk']; exact hd) (hk'.trans hk.symm)
  have hlayout := h.layout k' 0 (by rw [hk']; exact hd) (Nat.zero_le _)
  unfold Super.inodeBlock INODES_PER_BLOCK at hlayout
  omega

theorem Consistent.data (h₀ : Consistent live s) (h : Walk live s t held []) {b : Buffer} (hb : s.MapBuffer b) :
    t.data b = s.data b := h.data b (h₀.not_inodes hb)

theorem Consistent.quiet (h₀ : Consistent live s) (h : Walk live s t held []) : Quiet t := by
  refine ⟨h.reads h₀.allRead, fun b => ?_⟩
  have hb := h.bcount b
  have hm := h₀.fewMaps b
  unfold MAX_MAPS at hm
  rw [List.count_nil] at hb
  omega

theorem zmap_buffer {dev m : ℕ} {b : Buffer} (hk : s.getSuper dev = some k)
    (hb : (s.supers k).zmap m = some b) : s.MapBuffer b := by
  obtain ⟨hd, h0⟩ := getSuper_some hk
  exact ⟨k, m, by rw [hd]; exact h0, .inr hb⟩

theorem Consistent.volume (h₀ : Consistent live s) (h : Walk live s t held []) {dev : ℕ} (hk : s.getSuper dev = some k) :
    Volume t dev k ∧ t.freeZones k = s.freeZones k := by
  have v := h₀.volumes dev k hk
  apply v.congr h.supers
  · intro n hn
    rw [h.bcount, v.unused n hn]
    rfl
  · intro m b hb
    exact h₀.data h (zmap_buffer hk hb)

/-- The blocks of a directory that is held. -/
theorem Consistent.blocks (h₀ : Consistent live s) (h : Walk live s t (dir :: held) [])
    (hd : (t.inodes dir).dev ≠ 0) (hm : isDir (t.inodes dir).mode) :
    isDir (s.inodeOf (t.inodes dir).dev (t.inodes dir).num).mode ∧
    (∀ p, t.at dir p = (s.inodeOf (t.inodes dir).dev (t.inodes dir).num).blockAt
      (s.blocks (t.inodes dir).dev) p) ∧
    ∀ p, t.at dir p ≠ 0 → t.data ((t.inodes dir).dev, t.at dir p) =
      s.data ((t.inodes dir).dev, t.at dir p) := by
  have hlive := h.inTheTree hd
  have hcore := h.slot h₀.toTree hlive
  have hm₀ : isDir (s.inodeOf (t.inodes dir).dev (t.inodes dir).num).mode := by
    rw [← hcore]
    exact hm
  have hat : ∀ p, t.at dir p = (s.inodeOf (t.inodes dir).dev (t.inodes dir).num).blockAt
      (s.blocks (t.inodes dir).dev) p := by
    intro p
    rw [← h.blockAt h₀.toTree hlive (.inr hm₀) p, ← hcore, core_blockAt]
    rfl
  refine ⟨hm₀, hat, fun p hp => ?_⟩
  rw [hat] at hp ⊢
  exact h.data _ (h₀.toTree.not_inodeBlock hlive (.inr hm₀) hp)

/-- The parent, as `dir_namei` and `find_entry` have left it. -/
theorem Consistent.parent (h₀ : Consistent live s) (h : Walk live s t [dir] []) (hd : (t.inodes dir).dev ≠ 0)
    (hm : isDir (t.inodes dir).mode) (hlinks : (t.inodes dir).nlinks ≠ 0)
    (hk : s.getSuper (t.inodes dir).dev = some k) : Parent t dir k := by
  have hlive := h.inTheTree hd
  have hcore := h.slot h₀.toTree hlive
  obtain ⟨hm₀, hat, -⟩ := h₀.blocks h hd hm
  obtain ⟨v, -⟩ := h₀.volume h hk
  have hsize : (t.inodes dir).size = (s.inodeOf (t.inodes dir).dev (t.inodes dir).num).size :=
    (congrArg DInode.size hcore :)
  have hzone : (t.inodes dir).zone = (s.inodeOf (t.inodes dir).dev (t.inodes dir).num).zone :=
    (congrArg DInode.zone hcore :)
  have hmap : ∀ b, t.MapBuffer b → s.MapBuffer b := by
    intro b hb
    unfold Fs.MapBuffer at hb
    rw [h.supers] at hb
    exact hb
  obtain ⟨hdk, -⟩ := getSuper_some hk
  have hcount := h.count dir
  rw [List.count_cons_self] at hcount
  refine {
    mapped := ⟨h₀.quiet h, { toZoned := v.toZoned, marks := fun p hp => ?_, distinct := fun p q hp he => ?_ },
      ?_, fun l hl => ?_⟩
    volume := v, count := by omega, pipe := h.noPipe dir hd, mode := hm, links := hlinks, zone := ?_,
    idle := h.idle, inodeBlock := fun hb => ?_, behind := fun b hb hdev => ?_,
    imaps := fun m b hb => ?_, first := fun b hb => ?_ }
  · rw [hat] at hp ⊢
    obtain ⟨k', b, hk', hle, hb, hbit⟩ := h₀.marked _ _ p hlive hm₀ hp
    refine ⟨k', b, (h.getSuper _).trans hk', by rw [h.supers]; exact hle, by rw [h.supers]; exact hb, ?_⟩
    rw [h.supers, h₀.data h (zmap_buffer hk' hb)]
    exact hbit
  · rw [hat] at hp he
    rw [hat] at he
    exact h₀.separate _ _ p q hlive hm₀ hp he
  · rw [hsize]
    exact h₀.wholes _ _ hlive hm₀
  · unfold Fs.entries at hl
    rw [hsize] at hl
    obtain ⟨hbig, hne⟩ := h₀.filled _ _ l hlive hm₀ hl
    refine ⟨hbig, ?_⟩
    change t.at dir (placeOf l) ≠ 0
    rw [hat]
    exact hne
  · rw [hzone]
    exact (h₀.dots _ _ hlive hm₀).2.1
  · rw [h.supers] at hb
    exact h₀.not_inodes (hmap _ hb) (h₀.toTree.inodeBlock hlive hk)
  · rw [h.supers]
    exact h₀.map_lt (hmap b hb) (by rw [hdk, hdev])
  · rw [h.supers] at hb
    rintro ⟨k', m', hk', hb'⟩
    obtain rfl : k = k' := Option.some.inj (hk.symm.trans ((h.getSuper _).symm.trans hk'))
    rw [h.supers] at hb'
    have hlt := (h₀.imaps k m b (by rw [hdk]; exact hd) hb).2
    have hge := (h₀.zmaps k m' b (by rw [hdk]; exact hd) hb').2.1
    omega
  · rw [h.supers] at hb
    have hdev : (s.supers k).dev ≠ 0 := by rwa [hdk]
    rw [h₀.data h ⟨k, 0, hdev, .inl hb⟩]
    exact h₀.noInode k b hdev hb

/-! ### The condition -/

/-- An entry of the inode table is left when a directory is in it. -/
def Fs.SpareFor (s : Fs) (n : ℕ × ℕ) : Prop :=
  (∃ d j, s.slotId d = n ∧ (s.inodes d).count ≠ 0 ∧ (s.inodes j).count = 0) ∨
  ∃ j j', j ≠ j' ∧ (s.inodes j).count = 0 ∧ (s.inodes j').count = 0

theorem Walk.spareFor (h : Walk live s t [dir] []) (hd : (t.inodes dir).dev ≠ 0) :
    (∃ j, (t.inodes j).count = 0) ↔ s.SpareFor (t.slotId dir) := by
  have hcount := h.count
  have hself := hcount dir
  rw [List.count_cons_self] at hself
  constructor
  · rintro ⟨j, hj⟩
    have hjd : j ≠ dir := by
      rintro rfl
      omega
    have hj₀ : (s.inodes j).count = 0 := by
      rw [hcount j] at hj
      omega
    by_cases hused : (s.inodes dir).count = 0
    · exact .inr ⟨j, dir, hjd, hj₀, hused⟩
    · obtain ⟨hdev, hnum, -⟩ := h.same dir hused
      exact .inl ⟨dir, j, Prod.ext hdev.symm hnum.symm, hused, hj₀⟩
  · have hother : ∀ j, j ≠ dir → (s.inodes j).count = 0 → (t.inodes j).count = 0 := by
      intro j hj h0
      rw [hcount j, h0, List.count_cons_of_ne (Ne.symm hj)]
      rfl
    rintro (⟨d, j, hid, hused, hj⟩ | ⟨j, j', hne, hj, hj'⟩)
    · -- the directory is where it was
      obtain ⟨hdev, hnum, -⟩ := h.same d hused
      obtain ⟨hdev', hnum'⟩ := Prod.mk.inj hid
      have hdd : d = dir := by
        apply h.once d dir
        · rw [hdev, hdev']
          exact hd
        · rw [hdev, hdev']
        · rw [hnum, hnum']
      refine ⟨j, hother j ?_ hj⟩
      rintro rfl
      rw [hdd] at hused
      exact hused hj
    · by_cases hjd : j = dir
      · exact ⟨j', hother j' (fun hc => hne (hjd.trans hc.symm)) hj'⟩
      · exact ⟨j, hother j hjd hj⟩

/-- A directory can be made in directory `n`: if an inode, a zone and the block of it are had, there is
    room in the parent for the entry, with one zone less. -/
def Fs.Fits (readable : Bool) (s : Fs) (n : ℕ × ℕ) : Prop :=
  s.SpareFor n ∧ ∀ k, s.getSuper n.1 = some k → s.inodeFree k → readable = true → s.freeZones k ≠ ∅ →
    (s.inodeOf n.1 n.2).HasRoom (s.blocks n.1) ((s.freeZones k).card - 1)

variable (readable) in
theorem Consistent.canMake (h₀ : Consistent live s) (h : Walk live s t [dir] []) (hd : (t.inodes dir).dev ≠ 0)
    (hm : isDir (t.inodes dir).mode) (hk : s.getSuper (t.inodes dir).dev = some k) :
    t.CanMake readable dir k ↔ s.Fits readable (t.slotId dir) := by
  have hlive := h.inTheTree hd
  have hcore := h.slot h₀.toTree hlive
  obtain ⟨hm₀, hat, hdata⟩ := h₀.blocks h hd hm
  obtain ⟨-, hfree⟩ := h₀.volume h hk
  obtain ⟨hdk, -⟩ := getSuper_some hk
  have hinodes : t.inodeFree k ↔ s.inodeFree k := by
    unfold Fs.inodeFree
    rw [h.supers]
    constructor
    · rintro ⟨m, b, bit, hm, hb, hlt, hclear, hle⟩
      rw [h₀.data h ⟨k, m, by rwa [hdk], .inl hb⟩] at hclear
      exact ⟨m, b, bit, hm, hb, hlt, hclear, hle⟩
    · rintro ⟨m, b, bit, hm, hb, hlt, hclear, hle⟩
      rw [← h₀.data h ⟨k, m, by rwa [hdk], .inl hb⟩] at hclear
      exact ⟨m, b, bit, hm, hb, hlt, hclear, hle⟩
  have hroom : ∀ zones, (t.inodes dir).HasRoom (t.blocks (t.inodes dir).dev) zones ↔
      (s.inodeOf (t.inodes dir).dev (t.inodes dir).num).HasRoom (s.blocks (t.inodes dir).dev) zones := by
    intro zones
    refine @hasRoom_congr (s.inodeOf (t.inodes dir).dev (t.inodes dir).num) (t.inodes dir).toDInode
      (s.blocks (t.inodes dir).dev) (t.blocks (t.inodes dir).dev) (congrArg DInode.size hcore :)
      (congrArg DInode.zone hcore :) (fun p hp => ?_) (fun m hm' => ?_) zones
    · have hp' := hdata p
      rw [hat] at hp'
      exact hp' hp
    · refine (h₀.filled _ _ _ hlive hm₀ ?_).2
      unfold DIR_ENTRIES_PER_BLOCK
      omega
  unfold Fs.CanMake Fs.Fits
  rw [h.spareFor hd, hinodes, hfree]
  apply and_congr_right
  intro _
  constructor
  · intro hc k' hk' hi hr hz
    obtain rfl : k = k' := Option.some.inj (hk.symm.trans hk')
    exact (hroom _).mp (hc hi hr hz)
  · intro hc hi hr hz
    exact (hroom _).mpr (hc k hk hi hr hz)

/-! ### The calls before `new_inode` -/

/-- What `mkdir` looks up before it makes anything. -/
def mkdirLookup (path : List UInt8) (s : Fs) : Out Unit :=
  (dirNamei path s).bind fun r s => match r with
    | none => .ok () s
    | some (dir, name) =>
      if name = [] ∨ permission (s.inodes dir) MAY_WRITE s.task = false then .ok () s
      else (findEntry dir name s).bind fun _ s => .ok () s

/-- Nothing is left of a call, but for blocks that its directory may have got. -/
structure Restored (parent : Option (ℕ × ℕ)) (s s' : Fs) : Prop where
  counts : ∀ i, (s'.inodes i).count = (s.inodes i).count
  bcounts : s'.bcount = s.bcount
  imaps : ∀ k m b bit, (s.supers k).dev ≠ 0 → (s.supers k).imap m = some b →
    testBit (s'.data b) bit = testBit (s.data b) bit
  zmaps : ∀ k m b bit, (s.supers k).dev ≠ 0 → (s.supers k).zmap m = some b →
    testBit (s'.data b) bit = testBit (s.data b) bit ∨
      ∃ nr p, parent = some ((s.supers k).dev, nr) ∧
        (s'.inodeOf (s.supers k).dev nr).blockAt (s'.blocks (s.supers k).dev) p =
          bit + m * 8192 + (s.supers k).firstdatazone - 1

theorem restored_of {parent : Option (ℕ × ℕ)} {s' : Fs}
    (hc : ∀ i, (s'.inodes i).count = (s.inodes i).count) (hb : s'.bcount = s.bcount)
    (hm : ∀ b, s.MapBuffer b → ∀ bit, testBit (s'.data b) bit = testBit (s.data b) bit) :
    Restored parent s s' :=
  ⟨hc, hb, fun k m b bit hd hk => hm b ⟨k, m, hd, .inl hk⟩ bit,
    fun k m b bit hd hk => .inl (hm b ⟨k, m, hd, .inr hk⟩ bit)⟩

theorem Consistent.restored (h₀ : Consistent live s) (h : Walk live s t [] []) (parent : Option (ℕ × ℕ)) :
    Restored parent s t := by
  apply restored_of
  · exact fun i => h.count i
  · exact funext fun b => h.bcount b
  · intro b hb bit
    rw [h₀.data h hb]

theorem Consistent.dropped (h₀ : Consistent live s) (h : Walk live s t [dir] []) {s' : Fs}
    (hdrop : Dropped t s' dir) (parent : Option (ℕ × ℕ)) : Restored parent s s' := by
  apply restored_of
  · intro i
    have hi := hdrop.counts i
    have hci := h.count i
    by_cases hid : i = dir
    · subst hid
      rw [List.count_cons_self, List.count_nil] at hci
      rw [if_pos rfl] at hi
      omega
    · rw [List.count_cons_of_ne (Ne.symm hid), List.count_nil] at hci
      rw [if_neg hid] at hi
      omega
  · exact hdrop.bcounts.trans (funext fun b => h.bcount b)
  · intro b hb bit
    have hb' : t.MapBuffer b := by
      unfold Fs.MapBuffer
      rw [h.supers]
      exact hb
    rw [hdrop.maps b hb' bit, h₀.data h hb]

theorem look_fst {α : Type} (r : Out α) (dir : Slot) :
    (r.bind fun a s => (.ok (dir, a) s : Out (Slot × α))).Sat (fun p _ => p.1 = dir) fun _ => True := by
  cases r with
  | ok a s => exact rfl
  | stop why => trivial

/-- The directory that `find_entry` exchanges: for `..` in the root of a mounted device. -/
def Exchanged (s : Fs) (dir m : Slot) (name : Name) : Prop :=
  name.take NAME_LEN = [dot, dot] ∧ s.task.root ≠ some dir ∧ (s.inodes dir).num = ROOT_INO ∧
    ∃ k, s.getSuper (s.inodes dir).dev = some k ∧ (s.supers k).imount = some m

theorem findEntry_dir (h₀ : Tree live s) (h : Walk live s t (dir :: held) []) (hd : (t.inodes dir).dev ≠ 0)
    (hm : isDir (t.inodes dir).mode) (name : Name) : (findEntry dir name t).Sat
      (fun r t' => (r.1 = dir ∧ OnlyReads t t') ∨ Exchanged t dir r.1 name) fun _ => True := by
  have hlive := h.inTheTree hd
  have hcore := h.slot h₀ hlive
  have hsize : (t.inodes dir).size.toNat / 16 =
      (s.inodeOf (t.inodes dir).dev (t.inodes dir).num).size.toNat / 16 := by
    rw [← hcore]
    rfl
  have hlook : ∀ name', ((scanDir dir name' ((t.inodes dir).size.toNat / 16) t).bind fun found s =>
      (.ok (dir, found) s : Out (Slot × Option (Buffer × ℕ)))).Sat
        (fun r t' => (r.1 = dir ∧ OnlyReads t t') ∨ Exchanged t dir r.1 name) fun _ => True := by
    intro name'
    refine (look_walk h₀ h (by decide) rfl rfl hlive hm (.inl hsize)).mono (fun r t' hr => ?_)
      fun _ _ => trivial
    exact .inl ⟨hr.1, hr.2.1⟩
  unfold findEntry
  dsimp only
  split_ifs with hempty hdots hroot hnum
  · exact .inl ⟨rfl, .refl t⟩
  · exact hlook _
  · cases hk : t.getSuper (t.inodes dir).dev with
    | none => trivial
    | some k =>
      dsimp only
      cases hmount : (t.supers k).imount with
      | none => exact hlook _
      | some m =>
        dsimp only
        cases Minix.iput dir t with
        | stop why => trivial
        | ok a t₁ =>
          refine (look_fst (scanDir m _ _ (t₁.grab m)) m).post fun r t' hr => .inr ?_
          rw [hr]
          exact ⟨hdots, hroot, hnum, k, hk, hmount⟩
  · exact hlook _
  · exact hlook _

/-- Then `..` is found. -/
theorem Exchanged.found {m : Slot} (h₀ : Tree live s) (h : Walk live s t (dir :: held) [])
    (hd : (t.inodes dir).dev ≠ 0) (hx : Exchanged t dir m name) :
    s.childEntry (t.inodes dir).dev (t.inodes dir).num name ≠ none ∧
      (s.inodes m).dev ≠ 0 ∧ (s.inodes m).count ≠ 0 ∧ isDir (s.inodes m).mode := by
  obtain ⟨hdots, hroot, hnum, k, hk, hm⟩ := hx
  rw [h.getSuper] at hk
  rw [h.supers] at hm
  rw [Ne, h.root_iff h₀ hd] at hroot
  obtain ⟨-, hdm, hcm, hmode⟩ := h₀.imount k m hm
  have hlive := h₀.inTree m hdm (.inl hcm)
  have hmode₀ : isDir (s.inodeOf (s.inodes m).dev (s.inodes m).num).mode := by
    rw [h₀.inodeOf_slot hdm]
    exact hmode
  refine ⟨?_, hdm, hcm, hmode⟩
  obtain ⟨j, hj⟩ := h₀.dotdot hlive hmode₀
  have hfind := (hj _ (h₀.dots _ _ hlive hmode₀).1).2
  unfold Fs.childEntry Fs.redirect
  rw [hdots, if_neg (by decide), if_neg (not_not_intro rfl), if_neg hroot, if_neg (not_not_intro hnum), hk,
    Option.bind_some, hm]
  dsimp only
  unfold Fs.lookup Fs.slotId
  rw [hfind]
  exact Option.some_ne_none _

/-! ### The whole call -/

/-- What a call of `mkdir` meets that leaves no trace when it fails: the lookups come back, and if the
    name is not there in a directory that may be written, another directory fits in. -/
def Fs.MkdirFits (readable : Bool) (path : List UInt8) (s : Fs) : Prop :=
  suser s.task → (∀ why, mkdirLookup path s ≠ .stop why) ∧
    ∀ n, s.dirOf path = some n → basename path ≠ [] →
      permission (s.nodeInode n) MAY_WRITE s.task = true →
      s.childEntry n.1 n.2 (basename path) = none → s.Fits readable n

/-- When `mkdir` returns an error, nothing is left of it; and no step that may fail stops. -/
def MkdirTraceless (readable : Bool) (path : List UInt8) (mode : ℕ) (s : Fs) : Prop :=
  (∀ e t, sysMkdir readable path mode s = .ok e t → e ≠ 0 → Restored (s.dirOf path) s t) ∧
  ∀ why, mkdirAttempt readable path mode s ≠ .stop why

/-- The same of the steps that may fail. -/
def AttemptTraceless (parent : Option (ℕ × ℕ)) (s : Fs) (r : Attempt) : Prop :=
  r.Sat (fun r t => ∀ e, r = .error e → Restored parent s t) fun _ => False

theorem mkdirFinish_zero (d : NewDir) (s : Fs) :
    (mkdirFinish d s).Sat (fun e _ => e = 0) fun _ => True := by
  obtain ⟨inode, dir, b, j⟩ := d
  have hbind : ∀ {α : Type} (r : Out α) (f : α → Fs → Out ℤ),
      (∀ a s, (f a s).Sat (fun e _ => e = 0) fun _ => True) →
      (r.bind f).Sat (fun e _ => e = 0) fun _ => True := by
    intro α r f hf
    cases r with
    | ok a s => exact hf a s
    | stop why => trivial
  unfold mkdirFinish
  exact hbind _ _ fun _ _ => hbind _ _ fun _ _ => hbind _ _ fun _ _ => rfl

theorem traceless_of (h : AttemptTraceless (s.dirOf path) s (mkdirAttempt readable path mode s)) :
    MkdirTraceless readable path mode s := by
  unfold AttemptTraceless at h
  constructor
  · intro e t he hne
    unfold sysMkdir at he
    cases hr : mkdirAttempt readable path mode s with
    | stop why =>
      rw [hr] at he
      cases he
    | ok r s₁ =>
      rw [hr] at h he
      rw [Outcome.bind_ok] at he
      cases r with
      | error e' =>
        obtain ⟨rfl, rfl⟩ := Outcome.ok.inj he
        exact h e' rfl
      | ok d => exact absurd ((mkdirFinish_zero d s₁).of_ok he) hne
  · intro why hr
    rw [hr] at h
    exact h

/-- `iput` behind a lookup. -/
theorem Consistent.iput (h₀ : Consistent live s) (h : Walk live s t [dir] []) (hd : (t.inodes dir).dev ≠ 0)
    (hm : isDir (t.inodes dir).mode) (hlinks : (t.inodes dir).count = 1 → (t.inodes dir).nlinks ≠ 0)
    (parent : Option (ℕ × ℕ)) : ∃ u, Minix.iput dir t = .ok () u ∧ Restored parent s u := by
  have hcount := h.count dir
  rw [List.count_cons_self] at hcount
  obtain ⟨-, k, hk, -⟩ := h₀.super (h.inTheTree hd)
  have hblk : ¬isBlk (t.inodes dir).mode := by
    intro hblk
    unfold isDir at hm
    unfold isBlk at hblk
    rw [hm] at hblk
    exact absurd hblk (by decide)
  obtain ⟨u, he, -⟩ := (h₀.quiet h).iput ((h.getSuper _).trans hk) (by omega) (h.noPipe dir hd) hblk hlinks
  refine ⟨u, he, ?_⟩
  have hput := iput_walk h₀.toTree h (by decide) (fun h0 => absurd h0 hd) fun _ => hlinks
  rw [he] at hput
  exact h₀.restored hput.1 parent

/-- The inode that a reference is held to, in terms of the tree. -/
theorem Walk.nodeInode (h₀ : Tree live s) (h : Walk live s t (dir :: held) []) (hd : (t.inodes dir).dev ≠ 0) :
    ((t.inodes dir).mode = (s.nodeInode (t.slotId dir)).mode) ∧
      permission (t.inodes dir) MAY_WRITE t.task = permission (s.nodeInode (t.slotId dir)) MAY_WRITE s.task := by
  have hcore := h.slot h₀ (h.inTheTree hd)
  have hsame : (t.inodes dir).core = (s.nodeInode (t.slotId dir)).core := by
    change (t.inodes dir).core = (s.inodeOf (t.inodes dir).dev (t.inodes dir).num).core
    rw [← hcore, DInode.core_core]
  refine ⟨(congrArg DInode.mode hcore :), ?_⟩
  rw [h.task]
  exact permission_congr hsame rfl _ _

variable (readable mode) in
/-- The name is not there, and a directory is made. -/
theorem Consistent.made (h₀ : Consistent live s) {n : ℕ × ℕ} (h : Walk live s t [dir] [])
    (hd : (t.inodes dir).dev ≠ 0) (hm : isDir (t.inodes dir).mode) (hlinks : (t.inodes dir).nlinks ≠ 0)
    (hn : t.slotId dir = n) (hname : name ≠ []) (parent : Option (ℕ × ℕ)) :
    (s.Fits readable n → AttemptTraceless parent s (mkdirNew readable dir name mode t)) ∧
    (¬s.Fits readable n → ∃ why, mkdirNew readable dir name mode t = .stop why) := by
  obtain ⟨-, k, hk, -⟩ := h₀.super (h.inTheTree hd)
  have hparent := h₀.parent h hd hm hlinks hk
  have htake : name.take NAME_LEN ≠ [] := by
    rw [Ne, List.take_eq_nil_iff]
    exact fun hc => hc.elim (by decide) hname
  have hcan := h₀.canMake readable h hd hm hk
  rw [hn] at hcan
  obtain ⟨hyes, hno⟩ := hparent.traceless readable mode htake
  constructor
  · intro hfits
    refine (hyes (hcan.mpr hfits)).mono (fun r s' hr e he => ?_) fun _ hw => hw
    exact h₀.dropped h (hr e he) parent
  · exact fun hfits => hno fun hc => hfits (hcan.mp hc)

variable (readable mode) in
/-- The name is looked up in a directory that may be written. -/
theorem Consistent.lookedUp (h₀ : Consistent live s) {n : ℕ × ℕ} (h : Walk live s t [dir] [])
    (hd : (t.inodes dir).dev ≠ 0) (henter : mayEnter t dir) (hn : t.slotId dir = n) (hname : name ≠ [])
    (parent : Option (ℕ × ℕ)) :
    ((∀ why, findEntry dir name t ≠ .stop why) ∧
        (s.childEntry n.1 n.2 name = none → s.Fits readable n) →
      AttemptTraceless parent s (mkdirSearch readable dir name mode t)) ∧
    (¬((∀ why, findEntry dir name t ≠ .stop why) ∧
        (s.childEntry n.1 n.2 name = none → s.Fits readable n)) →
      ∃ why, mkdirSearch readable dir name mode t = .stop why) := by
  subst hn
  unfold mkdirSearch
  have hlinks := mayEnter_links hd henter
  have hfound := findEntry_walk h₀.toTree h (by decide) (by decide) hd henter.1 hlinks name
  have hwhich := findEntry_dir h₀.toTree h hd henter.1 name
  have hlive := h.inTheTree hd
  cases he : findEntry dir name t with
  | stop why =>
    exact ⟨fun hc => absurd rfl (hc.1 why), fun _ => ⟨why, rfl⟩⟩
  | ok r t₂ =>
    rw [he] at hfound hwhich
    obtain ⟨dir', found⟩ := r
    obtain ⟨h₂, hd₂, hlinks₂, hled⟩ := hfound
    have hdir₂ : (dir' = dir ∧ OnlyReads t t₂) ∨ Exchanged t dir dir' name := hwhich
    have hno : ∀ why, (.ok (dir', found) t₂ : Out (Slot × Option (Buffer × ℕ))) ≠ .stop why :=
      fun why hc => nomatch hc
    rw [Outcome.bind_ok]
    -- the directory is one in any case
    have hmode₂ : isDir (t₂.inodes dir').mode := by
      rcases hdir₂ with ⟨rfl, hr₂⟩ | hx
      · rw [hr₂.same.1]
        exact henter.1
      · have hcore₂ := h₂.slot h₀.toTree (h₂.inTheTree hd₂)
        obtain ⟨-, hdm, hcm, hm⟩ := hx.found h₀.toTree h hd
        obtain ⟨hdev, hnum, -⟩ := h₂.same dir' hcm
        rw [hdev, hnum, h₀.inodeOf_slot hdm] at hcore₂
        have hmode : (t₂.inodes dir').mode = (s.inodes dir').mode := (congrArg DInode.mode hcore₂ :)
        rw [hmode]
        exact hm
    cases found with
    | some p =>
      obtain ⟨b, j⟩ := p
      have h₂ : Walk live s t₂ [dir'] ((some b).toList ++ []) := h₂
      have hcount := h₂.bcount b
      rw [Option.toList_some, List.append_nil, List.count_singleton_self] at hcount
      have hrel := brelse_walk h₂
      have hput : brelse (some b) t₂ = .ok () (t₂.setBcount b (t₂.bcount b - 1)) :=
        if_neg (by omega)
      dsimp only
      rw [hput] at hrel ⊢
      rw [Outcome.bind_ok]
      obtain ⟨u, he', hrestored⟩ := h₀.iput hrel.2 hd₂ hmode₂ hlinks₂ parent
      rw [he', Outcome.bind_ok]
      refine ⟨fun _ e _ => hrestored, fun hc => absurd ⟨hno, fun hc => ?_⟩ hc⟩
      have hchild := hled.2.2 h₀.allRead
      have hc : s.childEntry (t.inodes dir).dev (t.inodes dir).num name = none := hc
      rw [hc] at hchild
      cases hchild
    | none =>
      have h₂ : Walk live s t₂ [dir'] [] := h₂
      have hnone := hled h₀.allRead
      obtain ⟨rfl, hr₂⟩ : dir' = dir ∧ OnlyReads t t₂ := by
        rcases hdir₂ with hsame | hx
        · exact hsame
        · exact absurd hnone (hx.found h₀.toTree h hd).1
      have hn : t₂.slotId dir' = t.slotId dir' := by
        unfold Fs.slotId
        rw [hr₂.same.1]
      have hlinks' : (t₂.inodes dir').nlinks ≠ 0 := by
        rw [hr₂.same.1]
        exact hlinks
      obtain ⟨hyes, hstop⟩ := h₀.made readable mode h₂ hd₂ hmode₂ hlinks' hn hname parent
      by_cases hfits : s.Fits readable (t.slotId dir')
      · exact ⟨fun _ => hyes hfits, fun hc => absurd ⟨hno, fun _ => hfits⟩ hc⟩
      · obtain ⟨why, he'⟩ := hstop hfits
        dsimp only
        rw [he']
        exact ⟨fun hc => absurd (hc.2 hnone) hfits, fun _ => ⟨why, rfl⟩⟩

theorem Consistent.attempt (h₀ : Consistent live s) (readable : Bool) (path : List UInt8) (mode : ℕ) :
    (s.MkdirFits readable path →
      AttemptTraceless (s.dirOf path) s (mkdirAttempt readable path mode s)) ∧
    (¬s.MkdirFits readable path → ∃ why, mkdirAttempt readable path mode s = .stop why) := by
  unfold Fs.MkdirFits mkdirAttempt
  by_cases hsu : suser s.task
  swap
  · rw [if_pos hsu]
    exact ⟨fun _ e _ => h₀.restored h₀.toTree.walk _, fun hc => absurd (fun h => absurd h hsu) hc⟩
  rw [if_neg (not_not_intro hsu)]
  obtain ⟨root, hroot⟩ := Option.ne_none_iff_exists'.mp h₀.hasRoot
  obtain ⟨pwd, hpwd⟩ := Option.ne_none_iff_exists'.mp h₀.hasPwd
  have hwalk := dirNamei_walk h₀.toTree h₀.toTree.walk (by decide) (by decide) hroot hpwd path
  unfold mkdirLookup
  cases he : dirNamei path s with
  | stop why => exact ⟨fun hc => absurd rfl ((hc hsu).1 why), fun _ => ⟨why, rfl⟩⟩
  | ok r t =>
    rw [he] at hwalk
    rw [Outcome.bind_ok, Outcome.bind_ok]
    obtain ⟨harr, hmay⟩ := hwalk
    cases r with
    | none =>
      obtain ⟨h, hdir⟩ := harr
      refine ⟨fun _ e _ => h₀.restored h _, fun hc => absurd (fun _ => ⟨?_, fun n hn => ?_⟩) hc⟩
      · exact fun why hc => nomatch hc
      · rw [hdir h₀.allRead] at hn
        cases hn
    | some p =>
      obtain ⟨dir, name⟩ := p
      obtain ⟨rfl, henter⟩ := hmay dir name rfl
      obtain ⟨h, hk, hdir⟩ := harr
      have hdir := hdir h₀.allRead
      have hlinks := mayEnter_links hk.dev henter
      obtain ⟨-, hperm⟩ := h.nodeInode h₀.toTree hk.dev
      obtain ⟨u, hput, hrestored⟩ := h₀.iput h hk.dev henter.1 (fun _ => hlinks) (s.dirOf path)
      have hback : ∀ why, (.ok () t : Out Unit) ≠ .stop why := fun why hc => nomatch hc
      dsimp only
      by_cases hempty : basename path = []
      · rw [if_pos hempty, if_pos (.inl hempty), hput]
        exact ⟨fun _ e _ => hrestored,
          fun hc => absurd (fun _ => ⟨hback, fun n _ hne => absurd hempty hne⟩) hc⟩
      rw [if_neg hempty]
      by_cases hwrite : permission (t.inodes dir) MAY_WRITE t.task = false
      · rw [if_pos hwrite, if_pos (.inr hwrite), hput]
        refine ⟨fun _ e _ => hrestored,
          fun hc => absurd (fun _ => ⟨hback, fun n hn _ hp => ?_⟩) hc⟩
        obtain rfl := Option.some.inj (hn.symm.trans hdir)
        rw [← hperm, hwrite] at hp
        cases hp
      rw [if_neg hwrite, if_neg (not_or_intro hempty hwrite)]
      obtain ⟨hyes, hno⟩ := h₀.lookedUp readable mode h hk.dev henter rfl hempty (s.dirOf path)
      have hcond : ((∀ why, findEntry dir (basename path) t ≠ .stop why) ∧
          (s.childEntry (t.slotId dir).1 (t.slotId dir).2 (basename path) = none →
            s.Fits readable (t.slotId dir))) ↔
          (suser s.task → (∀ why, ((findEntry dir (basename path) t).bind fun _ s => .ok () s : Out Unit) ≠
            .stop why) ∧ ∀ n, s.dirOf path = some n → basename path ≠ [] →
              permission (s.nodeInode n) MAY_WRITE s.task = true →
              s.childEntry n.1 n.2 (basename path) = none → s.Fits readable n) := by
        have hfind : (∀ why, findEntry dir (basename path) t ≠ .stop why) ↔ ∀ why,
            ((findEntry dir (basename path) t).bind fun _ s => .ok () s : Out Unit) ≠ .stop why := by
          cases findEntry dir (basename path) t with
          | ok r s => exact iff_of_true (fun why hc => nomatch hc) fun why hc => nomatch hc
          | stop why => exact iff_of_false (fun hc => hc why rfl) fun hc => hc why rfl
        rw [hfind]
        constructor
        · rintro ⟨hback, hfits⟩ -
          refine ⟨hback, fun n hn _ _ hchild => ?_⟩
          obtain rfl := Option.some.inj (hn.symm.trans hdir)
          exact hfits hchild
        · intro hc
          refine ⟨(hc hsu).1, fun hchild => (hc hsu).2 _ hdir hempty ?_ hchild⟩
          rw [← hperm]
          simpa using hwrite
      exact ⟨fun hc => hyes (hcond.mpr hc), fun hc => hno fun hc' => hc (hcond.mp hc')⟩

/-- A failed `mkdir` leaves no trace if and only if another directory fits into the parent. -/
theorem mkdir_leaves_no_trace (h : Consistent live s) (readable : Bool) (path : List UInt8) (mode : ℕ) :
    MkdirTraceless readable path mode s ↔ s.MkdirFits readable path := by
  obtain ⟨hyes, hno⟩ := h.attempt readable path mode
  constructor
  · intro htraceless
    by_contra hfits
    obtain ⟨why, he⟩ := hno hfits
    exact htraceless.2 why he
  · exact fun hfits => traceless_of (hyes hfits)

/-! ### A full directory -/

/-- The numbers 0 and 1 are in use. -/
def inodeMap : Block := fun o => if o = 0 then 3 else 0

/-- All zones but 6 are in use. -/
def fullMap : Block := fun o => if o = 0 then 251 else 255

/-- As `rootEntries`, and 62 more names of the same directory. -/
def fullEntries : Block := fun o =>
  if o % 16 = 0 then 1 else if o = 2 ∨ o = 18 ∨ o = 19 then dot
  else if 32 ≤ o ∧ o % 16 = 2 then 98 else 0

/-- The root directory of `disk`, of one block full of entries, in the table. -/
def crowdedTable : Fs :=
  (disk.setInode 0 { disk.inodes 0 with size := 1024, dirt := true }).setData (1, 2) inodeMap

def crowded : Fs := (crowdedTable.setData (1, 3) fullMap).setData (1, 5) fullEntries

theorem crowded_other {i : Slot} (h : i ≠ 0) : crowded.inodes i = Inode.empty :=
  (Function.update_of_ne h _ _).trans (disk_other h)

theorem crowded_slot {i : Slot} (h : (crowded.inodes i).dev ≠ 0) : i = 0 := by
  by_contra hi
  rw [crowded_other hi] at h
  exact h rfl

theorem crowded_super {k : Fin NR_SUPER} (h : (crowded.supers k).dev ≠ 0) : k.val = 0 := disk_super h

theorem crowded_getSuper {dev : ℕ} (h : crowded.getSuper dev = some k) : dev = 1 ∧ k.val = 0 := by
  obtain ⟨hk, hd⟩ := getSuper_some h
  rw [← hk] at hd
  have h0 := crowded_super hd
  refine ⟨?_, h0⟩
  rw [← hk]
  exact if_pos h0

theorem crowded_entries : crowded.blocks 1 5 = fullEntries := by
  have h : Function.update (crowdedTable.setData (1, 3) fullMap).data ((1, 5) : Buffer) fullEntries
      (1, 5) = fullEntries := Function.update_self _ _ _
  exact h

theorem crowded_zones : crowded.data (1, 3) = fullMap := by
  have hne : ((1, 3) : Buffer) ≠ (1, 5) := by decide
  have h : crowded.data (1, 3) = (crowdedTable.setData (1, 3) fullMap).data (1, 3) :=
    Function.update_of_ne hne fullEntries _
  rw [h]
  exact Function.update_self ((1, 3) : Buffer) fullMap crowdedTable.data

theorem crowded_inodes : crowded.data (1, 2) = inodeMap := by rfl

theorem crowded_blockAt {p : Place} (h : (crowded.inodeOf 1 1).blockAt (crowded.blocks 1) p ≠ 0) :
    p = .direct 0 ∧ (crowded.inodeOf 1 1).blockAt (crowded.blocks 1) p = 5 :=
  blockAt_one (w := 5) (fun _ => rfl) h

theorem crowded_block {l : ℕ} (h : (crowded.inodeOf 1 1).block (crowded.blocks 1) l ≠ 0) :
    l = 0 ∧ (crowded.inodeOf 1 1).block (crowded.blocks 1) l = 5 := by
  obtain ⟨hp, hb⟩ := crowded_blockAt h
  refine ⟨?_, hb⟩
  unfold placeOf at hp
  split_ifs at hp with h7
  exact congrArg Fin.val (Place.direct.inj hp)

theorem crowded_tree : Tree onlyRoot crowded where
  once i j hi hd _ := by
    have hj : (crowded.inodes j).dev ≠ 0 := by rwa [← hd]
    rw [crowded_slot hi, crowded_slot hj]
  clean i hl hdirt := by
    obtain rfl := crowded_slot (i := i) (by rw [hl.1]; decide)
    cases hdirt
  idle i hc := by
    have hi : i ≠ 0 := by
      rintro rfl
      exact absurd hc (by decide)
    rw [crowded_other hi]
    rfl
  inTree i hd _ := by
    rw [crowded_slot hd]
    exact ⟨rfl, rfl⟩
  noPipe i hd := by
    rw [crowded_slot hd]
    rfl
  fewRefs i := by
    by_cases hi : i = 0
    · rw [hi]
      decide
    · rw [crowded_other hi]
      decide
  fewMaps := disk_tree.fewMaps
  supers := disk_tree.supers
  layout := disk_tree.layout
  imount k m hm := by
    obtain ⟨hk, hd, -⟩ := disk_tree.imount k m hm
    obtain rfl := disk_slot hd
    exact ⟨hk, by decide, by decide, by decide⟩
  mounted i hi := by
    by_cases h0 : i = 0
    · rw [h0] at hi
      cases hi
    · rw [crowded_other h0] at hi
      cases hi
  device := disk_tree.device
  root k hk := by
    obtain rfl : k = ⟨0, by decide⟩ := Fin.ext (crowded_super hk)
    exact ⟨⟨rfl, rfl⟩, by decide⟩
  task i hi := by
    have h0 : i = 0 := by
      rcases hi with hi | hi
      · exact (Option.some.inj hi).symm
      · exact (Option.some.inj hi).symm
    rw [h0]
    decide
  zones dev nr k p hl hk _ hb := by
    obtain ⟨rfl, rfl⟩ := hl
    rw [(crowded_blockAt hb).2]
    exact le_rfl
  entries dev nr l j hl _ hb hj _ _ := by
    obtain ⟨rfl, rfl⟩ := hl
    have hall : ∀ j < 64, entryInode fullEntries j = 1 := by decide +kernel
    rw [(crowded_block hb).2, crowded_entries, hall j hj]
    exact ⟨⟨rfl, rfl⟩, by decide⟩
  dots dev nr hl _ := by
    obtain ⟨rfl, rfl⟩ := hl
    have hz : (crowded.inodeOf 1 1).zone 0 = 5 := rfl
    rw [hz]
    change _ ∧ _ ∧ matchEntry _ (crowded.blocks 1 5) 0 = true ∧
      entryInode (crowded.blocks 1 5) 0 = 1 ∧ matchEntry _ (crowded.blocks 1 5) 1 = true
    rw [crowded_entries]
    decide +kernel

theorem crowded_volume : Volume crowded 1 ⟨0, by decide⟩ where
  behind k _ := Nat.succ_pos 4
  maps k m b _ hb _ := by
    by_cases h0 : m = 0
    · subst h0
      cases hb
      exact Nat.lt_succ_of_lt (Nat.lt_succ_self 3)
    · rw [show (crowded.supers k).zmap m = none from if_neg h0] at hb
      cases hb
  first k b _ hb := by
    cases hb
    rw [crowded_zones]
    decide
  short k _ := (by decide : 64 ≤ 65535)
  super := by decide
  covered n hle hlt := by
    have hlt : n < 64 := hlt
    have h0 : (n + 1 - 5) / 8192 = 0 := by omega
    refine ⟨(1, 3), ?_⟩
    change (if (n + 1 - 5) / 8192 = 0 then some ((1, 3) : Buffer) else none) = _
    rw [if_pos h0]
  apart m m' b hm hm' := by
    have hzero : ∀ {m : ℕ}, (crowded.supers ⟨0, by decide⟩).zmap m = some b → m = 0 := by
      intro m hm
      by_contra h0
      rw [show (crowded.supers ⟨0, by decide⟩).zmap m = none from if_neg h0] at hm
      cases hm
    rw [hzero hm, hzero hm']
  beyond m b bit hm hbit hge := by
    by_cases h0 : m = 0
    · subst h0
      cases hm
      have hge : 64 ≤ bit + 0 * 8192 + 5 - 1 := hge
      have hbyte : bit / 8 ≠ 0 := by omega
      have hall : ∀ r < 8, (255 : UInt8).toNat.testBit r = true := by decide
      rw [crowded_zones]
      unfold testBit fullMap
      rw [if_neg hbyte]
      exact hall _ (Nat.mod_lt bit (by decide))
    · rw [show (crowded.supers ⟨0, by decide⟩).zmap m = none from if_neg h0] at hm
      cases hm
  unused n hn := by
    have hle : 5 ≤ n := (mem_freeZones.mp hn).1
    have h2 : ((1, n) : Buffer) ≠ (1, 2) := fun hc => by
      have := (Prod.mk.inj hc).2
      omega
    have h3 : ((1, n) : Buffer) ≠ (1, 3) := fun hc => by
      have := (Prod.mk.inj hc).2
      omega
    exact if_neg (not_or_intro h2 h3)

theorem crowded_consistent : Consistent onlyRoot crowded where
  toTree := crowded_tree
  allRead := rfl
  hasRoot := Option.some_ne_none _
  hasPwd := Option.some_ne_none _
  volumes dev k hk := by
    obtain ⟨rfl, h0⟩ := crowded_getSuper hk
    obtain rfl : k = ⟨0, by decide⟩ := Fin.ext h0
    exact crowded_volume
  imaps k m b hd hb := by
    by_cases h0 : m = 0
    · subst h0
      cases hb
      exact ⟨(if_pos (crowded_super hd)).symm, (by decide : 2 < 2 + 1)⟩
    · rw [show (crowded.supers k).imap m = none from if_neg h0] at hb
      cases hb
  zmaps k m b hd hb := by
    by_cases h0 : m = 0
    · subst h0
      cases hb
      exact ⟨(if_pos (crowded_super hd)).symm, (by decide : 2 + 1 ≤ 3), (by decide : 3 < 2 + 1 + 1)⟩
    · rw [show (crowded.supers k).zmap m = none from if_neg h0] at hb
      cases hb
  noInode k b _ hb := by
    cases hb
    rw [crowded_inodes]
    decide
  wholes dev nr hl _ := by
    obtain ⟨rfl, rfl⟩ := hl
    decide
  filled dev nr l hl _ hlt := by
    obtain ⟨rfl, rfl⟩ := hl
    have hlt : 64 * l < 64 := hlt
    obtain rfl : l = 0 := by omega
    exact ⟨by decide, (by decide : (5 : UInt16).toNat ≠ 0)⟩
  marked dev nr p hl _ hp := by
    obtain ⟨rfl, rfl⟩ := hl
    rw [(crowded_blockAt hp).2]
    refine ⟨⟨0, by decide⟩, (1, 3), crowded_volume.super, le_refl 5, rfl, ?_⟩
    rw [crowded_zones]
    decide
  separate dev nr p q hl _ hp he := by
    obtain ⟨rfl, rfl⟩ := hl
    have hq : (crowded.inodeOf 1 1).blockAt (crowded.blocks 1) q ≠ 0 := by rwa [← he]
    rw [(crowded_blockAt hp).1, (crowded_blockAt hq).1]

/-- Why a call has stopped. -/
def stopped {α : Type} : Out α → Option Panic
  | .ok _ _ => none
  | .stop why => some why

/-- If the block of the new directory cannot be read, all is given back. -/
theorem mkdir_leaves_no_trace_unread : MkdirTraceless false [97] 0o777 crowded := by
  apply (mkdir_leaves_no_trace crowded_consistent false [97] 0o777).mpr
  intro _
  constructor
  · intro why hc
    have hno : stopped (mkdirLookup [97] crowded) = none := by decide +kernel
    rw [hc] at hno
    cases hno
  · intro n _ _ _ _
    exact ⟨.inr ⟨1, 2, by decide, by decide, by decide⟩, fun k _ _ hr => nomatch hr⟩

/-- The directory is full, and the last zone is taken for the new one: there is a panic, not an error. -/
theorem mkdir_stops : Consistent onlyRoot crowded ∧
    stopped (sysMkdir true [97] 0o777 crowded) = some .freeBlockAlreadyCleared ∧
    ¬MkdirTraceless true [97] 0o777 crowded := by
  have hstop : stopped (mkdirAttempt true [97] 0o777 crowded) = some .freeBlockAlreadyCleared := by
    decide +kernel
  refine ⟨crowded_consistent, by decide +kernel, fun h => ?_⟩
  cases he : mkdirAttempt true [97] 0o777 crowded with
  | ok r t =>
    rw [he] at hstop
    cases hstop
  | stop why => exact h.2 why he

end Linux011.Minix
