import Linux011.FsVolumes
import Linux011.FsFiles

set_option autoImplicit false

/-!
# Making directories (fs/namei.c)

`sys_mkdir` up to the entry of the new directory is `mkdirAttempt`: each step of it may fail, and then
what was done before is undone by hand. Behind that nothing fails.
-/
namespace Linux011.Minix
open Outcomes SlotTables

/-- The numbers of include/errno.h. -/
def Errno.number : Errno → ℤ
  | .EPERM => 1
  | .ENOENT => 2
  | .EACCES => 13
  | .ENOTBLK => 15
  | .EBUSY => 16
  | .EEXIST => 17
  | .EISDIR => 21
  | .ENOSPC => 28

def suser (task : Task) : Prop := task.euid = 0

instance (task : Task) : Decidable (suser task) := inferInstanceAs (Decidable (_ = _))

/-- `strcpy` to byte `o` of a block. -/
def setString (str : List UInt8) (o : ℕ) (b : Block) : Block := fun i =>
  if o ≤ i ∧ i ≤ o + str.length then str.getD (i - o) 0 else b i

def setDots (num parent : UInt16) (b : Block) : Block :=
  setString [dot, dot] 18 (setWord (setString [dot] 2 (setWord b 0 num)) 16 parent)

/-- The directory that is made, its parent, and the entry in that. -/
abbrev NewDir := Slot × Slot × Buffer × ℕ

abbrev Attempt := Out (Except ℤ NewDir)

def mkdirEntry (dir inode : Slot) (name : Name) (s : Fs) : Attempt :=
  (addEntry dir name s).bind fun found s => match found with
    | some (b, j) => .ok (.ok (inode, dir, b, j)) s
    | none =>
      (iput dir s).bind fun _ s =>
      (freeBlock (s.inodes inode).dev ((s.inodes inode).zone 0).toNat s).bind fun _ s =>
      (iput inode (s.setInode inode { s.inodes inode with nlinks := 0 })).bind fun _ s =>
      .ok (.error (-Errno.ENOSPC.number)) s

/-- From the read of the new block on, which succeeds or not. -/
def mkdirBlock (readable : Bool) (dir inode : Slot) (name : Name) (mode : ℕ) (s : Fs) : Attempt :=
  (bread (s.inodes inode).dev ((s.inodes inode).zone 0).toNat
    { s with reads := if readable then s.reads else false :: s.reads }).bind fun bh s => match bh with
    | none =>
      (iput dir s).bind fun _ s =>
      (freeBlock (s.inodes inode).dev ((s.inodes inode).zone 0).toNat s).bind fun _ s =>
      (iput inode (s.setInode inode
        { s.inodes inode with nlinks := (s.inodes inode).nlinks - 1 })).bind fun _ s =>
      .ok (.error (-ERROR)) s
    | some b =>
      let s := s.setData b (setDots (UInt16.ofNat (s.inodes inode).num)
        (UInt16.ofNat (s.inodes dir).num) (s.data b))
      let s := s.setInode inode { s.inodes inode with nlinks := 2 }
      (brelse bh s).bind fun _ s =>
      mkdirEntry dir inode name (s.setInode inode
        { s.inodes inode with
          mode := 0o040000 ||| (UInt16.ofNat mode &&& 0o777 &&& ~~~ UInt16.ofNat s.task.umask)
          dirt := true })

def mkdirZone (readable : Bool) (dir inode : Slot) (name : Name) (mode : ℕ) (s : Fs) : Attempt :=
  (newBlock (s.inodes inode).dev s).bind fun n s =>
  let s := s.setZone inode 0 (UInt16.ofNat n)
  if (s.inodes inode).zone 0 = 0 then
    (iput dir s).bind fun _ s =>
    (iput inode (s.setInode inode
      { s.inodes inode with nlinks := (s.inodes inode).nlinks - 1 })).bind fun _ s =>
    .ok (.error (-Errno.ENOSPC.number)) s
  else mkdirBlock readable dir inode name mode s

def mkdirNew (readable : Bool) (dir : Slot) (name : Name) (mode : ℕ) (s : Fs) : Attempt :=
  (newInode (s.inodes dir).dev s).bind fun inode s => match inode with
    | none => (iput dir s).bind fun _ s => .ok (.error (-Errno.ENOSPC.number)) s
    | some i => mkdirZone readable dir i name mode
      (s.setInode i { s.inodes i with size := 32, dirt := true, mtime := s.time })

def mkdirSearch (readable : Bool) (dir : Slot) (name : Name) (mode : ℕ) (s : Fs) : Attempt :=
  (findEntry dir name s).bind fun r s => match r.2 with
    | some (b, _) =>
      (brelse (some b) s).bind fun _ s =>
      (iput r.1 s).bind fun _ s => .ok (.error (-Errno.EEXIST.number)) s
    | none => mkdirNew readable r.1 name mode s

/-- `sys_mkdir`, as far as it may fail. -/
def mkdirAttempt (readable : Bool) (path : List UInt8) (mode : ℕ) (s : Fs) : Attempt :=
  if ¬suser s.task then .ok (.error (-Errno.EPERM.number)) s
  else (dirNamei path s).bind fun r s => match r with
    | none => .ok (.error (-Errno.ENOENT.number)) s
    | some (dir, name) =>
      if name = [] then (iput dir s).bind fun _ s => .ok (.error (-Errno.ENOENT.number)) s
      else if permission (s.inodes dir) MAY_WRITE s.task = false then
        (iput dir s).bind fun _ s => .ok (.error (-Errno.EPERM.number)) s
      else mkdirSearch readable dir name mode s

def mkdirFinish (d : NewDir) (s : Fs) : Out ℤ :=
  let (inode, dir, b, j) := d
  let s := s.setData b (setWord (s.data b) (16 * j) (UInt16.ofNat (s.inodes inode).num))
  let s := s.setInode dir { s.inodes dir with nlinks := (s.inodes dir).nlinks + 1, dirt := true }
  (iput dir s).bind fun _ s =>
  (iput inode s).bind fun _ s =>
  (brelse (some b) s).bind fun _ s => .ok 0 s

/-- Whether the block of the new directory can be read is a parameter. -/
def sysMkdir (readable : Bool) (path : List UInt8) (mode : ℕ) (s : Fs) : Out ℤ :=
  (mkdirAttempt readable path mode s).bind fun r s => match r with
    | .error e => .ok e s
    | .ok d => mkdirFinish d s

variable {s s' t u : Fs} {dir i : Slot} {k : Fin NR_SUPER} {name : Name} {n : ℕ}

/-! ### Bits -/

theorem testBit_clearBit (b : Block) (m n : ℕ) :
    testBit (clearBit b m) n = (testBit b n && decide (m ≠ n)) := by
  unfold testBit clearBit
  have hpow : 2 ^ (m % 8) < 2 ^ 8 :=
    Nat.pow_lt_pow_right (by decide) (Nat.mod_lt m (by decide))
  by_cases hbyte : n / 8 = m / 8
  · have hsub : 255 - 2 ^ (m % 8) = 2 ^ 8 - (2 ^ (m % 8) + 1) := by omega
    have hlt : 255 - 2 ^ (m % 8) < 2 ^ 8 := lt_of_le_of_lt (Nat.sub_le _ _) (by decide)
    rw [hbyte, Function.update_self, UInt8.toNat_and, UInt8.toNat_ofNat',
      Nat.mod_eq_of_lt hlt, Nat.testBit_and, hsub, Nat.testBit_two_pow_sub_succ hpow,
      Nat.testBit_two_pow]
    congr 1
    have hn : n % 8 < 8 := Nat.mod_lt n (by decide)
    rw [decide_eq_true hn, Bool.true_and, ← decide_not]
    apply decide_eq_decide.mpr
    apply not_congr
    omega
  · rw [Function.update_of_ne hbyte]
    have hne : m ≠ n := fun hc => hbyte (by rw [hc])
    rw [decide_eq_true hne, Bool.and_true]

theorem testBit_undone {b : Block} {m : ℕ} (h : testBit b m = false) (n : ℕ) :
    testBit (clearBit (setBit b m) m) n = testBit b n := by
  rw [testBit_clearBit, testBit_setBit]
  by_cases hmn : m = n
  · subst hmn
    simp [h]
  · simp [hmn]

/-! ### `new_inode` -/

theorem findEmpty_none {last : Slot} {m : ℕ} {inode : Option Slot}
    (h : (findEmpty s m last inode).2 = none) :
    inode = none ∧ ∀ l < m, (s.inodes (last + Fin.ofNat 32 (l + 1))).count ≠ 0 := by
  induction m generalizing last inode with
  | zero => exact ⟨h, fun l hl => absurd hl (Nat.not_lt_zero l)⟩
  | succ m ih =>
    have hnext : ∀ l, last + Fin.ofNat 32 (l + 1 + 1) = last + 1 + Fin.ofNat 32 (l + 1) := by
      intro l
      apply Fin.ext
      simp only [Fin.val_add, Fin.val_ofNat, Fin.val_one]
      omega
    unfold findEmpty at h
    split_ifs at h with hc hd
    · exact absurd (ih h).1 (Option.some_ne_none _)
    · obtain ⟨hnone, hrest⟩ := ih h
      refine ⟨hnone, fun l hl => ?_⟩
      cases l with
      | zero => exact hc
      | succ l =>
        rw [hnext]
        exact hrest l (Nat.lt_of_succ_lt_succ hl)

theorem findEmpty_some (last : Slot) {j : Slot} (h : (s.inodes j).count = 0) :
    ∃ i, (findEmpty s 32 last none).2 = some i ∧ (s.inodes i).count = 0 := by
  cases hf : (findEmpty s 32 last none).2 with
  | none =>
    have hall := (findEmpty_none hf).2
    have hj : j = last + Fin.ofNat 32 ((j - last - 1).val + 1) := by
      apply Fin.ext
      have hj' := j.isLt
      have hl' := last.isLt
      simp only [Fin.val_add, Fin.val_sub, Fin.val_ofNat, Fin.val_one]
      omega
    rw [hj] at h
    exact absurd h (hall _ (j - last - 1).isLt)
  | some i => exact ⟨i, rfl, findEmpty_idle 32 last none (fun j hj => nomatch hj) hf⟩

def Fs.fresh (s : Fs) (i : Slot) : Fs :=
  { s with last := (findEmpty s 32 s.last none).1 }.setInode i { Inode.empty with count := 1 }

theorem getEmptyInode_some (hidle : ∀ j, (s.inodes j).count = 0 → (s.inodes j).dirt = false) {j : Slot}
    (h : (s.inodes j).count = 0) :
    ∃ i, (s.inodes i).count = 0 ∧ getEmptyInode s = .ok i (s.fresh i) := by
  obtain ⟨i, hf, hi⟩ := findEmpty_some s.last h
  refine ⟨i, hi, ?_⟩
  unfold getEmptyInode
  rw [hf]
  dsimp only
  rw [if_neg (by simp [hidle i hi])]
  unfold writeInode
  dsimp only
  rw [if_pos (.inl (hidle i hi)), Outcome.bind_ok]
  rfl

theorem getEmptyInode_none (h : ∀ j, (s.inodes j).count ≠ 0) :
    getEmptyInode s = .stop .noFreeInodes := by
  unfold getEmptyInode
  cases hf : (findEmpty s 32 s.last none).2 with
  | none => rfl
  | some i => exact absurd (findEmpty_idle 32 s.last none (fun j hj => nomatch hj) hf) (h i)

def Fs.inodeFree (s : Fs) (k : Fin NR_SUPER) : Prop :=
  ∃ m b bit, m < MAP_SLOTS ∧ (s.supers k).imap m = some b ∧ bit < 8192 ∧
    testBit (s.data b) bit = false ∧ bit + m * 8192 ≤ (s.supers k).ninodes

theorem findFirstZero_le {b : Block} {bit : ℕ} (hlt : bit < 8192) (h : testBit b bit = false) :
    findFirstZero b ≤ bit := by
  unfold findFirstZero
  cases hf : (List.range 8192).find? fun n => !testBit b n with
  | none =>
    have hn := List.find?_eq_none.mp hf bit (List.mem_range.mpr hlt)
    simp [h] at hn
  | some n =>
    rw [Option.getD_some]
    by_contra hlt'
    have hfirst := (List.find?_range_eq_some.mp hf).2.2 bit (Nat.not_le.mp hlt')
    simp [h] at hfirst

theorem firstFree_le {map : ℕ → Option Buffer} {m bit : ℕ} {b : Buffer} (hm : m < MAP_SLOTS)
    (hb : map m = some b) (hlt : bit < 8192) (h : testBit (s.data b) bit = false) :
    ∃ m' b', firstFree map s = some (m', b') ∧
      findFirstZero (s.data b') + m' * 8192 ≤ bit + m * 8192 := by
  cases hf : firstFree map s with
  | none =>
    rw [firstFree_none hf hm hb hlt] at h
    cases h
  | some p =>
    obtain ⟨m', b'⟩ := p
    refine ⟨m', b', rfl, ?_⟩
    have hfound := hf
    obtain ⟨-, hb', hzero⟩ := firstFree_some hf
    unfold firstFree at hfound
    obtain ⟨l₁, a, l₂, hrange, ha, hbefore⟩ := List.findSome?_eq_some_iff.mp hfound
    have hle : m' ≤ m := by
      by_contra hgt
      rw [Option.bind_eq_some_iff] at ha
      obtain ⟨b'', hb'', ha⟩ := ha
      split_ifs at ha
      obtain ⟨rfl, rfl⟩ := Prod.mk.inj (Option.some.inj ha)
      -- the slot `m` was looked at before
      have hlen : l₁.length = a := by
        have hget : (List.range MAP_SLOTS)[l₁.length]? = some a := by
          rw [hrange, List.getElem?_append_right (le_refl _), Nat.sub_self]
          rfl
        obtain ⟨hlt', he⟩ := List.getElem?_eq_some_iff.mp hget
        rw [List.getElem_range] at he
        exact he
      have hin : m ∈ l₁ := by
        have hget : l₁[m]? = some m := by
          have hat : (List.range MAP_SLOTS)[m]? = l₁[m]? := by
            rw [hrange, List.getElem?_append_left (by omega)]
          rw [← hat]
          exact List.getElem?_range hm
        exact List.mem_of_getElem? hget
      have hnone := hbefore m hin
      rw [hb, Option.bind_some, if_pos (lt_of_le_of_lt (findFirstZero_le hlt h) hlt)] at hnone
      cases hnone
    rcases Nat.lt_or_eq_of_le hle with hlt' | rfl
    · omega
    · obtain rfl := Option.some.inj (hb.symm.trans hb')
      have := findFirstZero_le hlt h
      omega

/-! ### Giving references back -/

def Fs.MapBuffer (s : Fs) (b : Buffer) : Prop :=
  ∃ k m, (s.supers k).dev ≠ 0 ∧ ((s.supers k).imap m = some b ∨ (s.supers k).zmap m = some b)

structure Parted (s s' : Fs) (k : Fin NR_SUPER) (i : Slot) : Prop where
  others : ∀ j, j ≠ i → s'.inodes j = s.inodes j
  count : (s'.inodes i).count + 1 = (s.inodes i).count
  rest : s'.supers = s.supers ∧ s'.reads = s.reads ∧ s'.bcount = s.bcount ∧ s'.task = s.task
  data : ∀ b, b ≠ ((s.inodes i).dev, (s.supers k).inodeBlock (s.inodes i).num) → s'.data b = s.data b

theorem Quiet.writeInode (hq : Quiet s) (hk : s.getSuper (s.inodes i).dev = some k) :
    ∃ s', Minix.writeInode i s = .ok () s' ∧ (∀ j, j ≠ i → s'.inodes j = s.inodes j) ∧
      (s'.inodes i).count = (s.inodes i).count ∧
      (s'.supers = s.supers ∧ s'.reads = s.reads ∧ s'.bcount = s.bcount ∧ s'.task = s.task) ∧
      ∀ b, b ≠ ((s.inodes i).dev, (s.supers k).inodeBlock (s.inodes i).num) → s'.data b = s.data b := by
  unfold Minix.writeInode
  dsimp only
  by_cases hd : (s.inodes i).dirt = false ∨ (s.inodes i).dev = 0
  · rw [if_pos hd]
    exact ⟨s, rfl, fun _ _ => rfl, rfl, ⟨rfl, rfl, rfl, rfl⟩, fun _ _ => rfl⟩
  · rw [if_neg hd, hk]
    dsimp only
    rw [hq.bread, Outcome.bind_ok]
    change ∃ s', brelse _ (((s.setData _ _).setInode i _).hold _) = _ ∧ _
    rw [brelse_hold]
    refine ⟨_, rfl, fun j hj => Fs.setInode_ne _ _ hj, ?_, ⟨rfl, rfl, rfl, rfl⟩, fun b hb => ?_⟩
    · exact (congrArg Inode.count (Fs.setInode_self _ i _)).trans rfl
    · exact Function.update_of_ne hb _ _

theorem Quiet.iput (hq : Quiet s) (hk : s.getSuper (s.inodes i).dev = some k)
    (hc : (s.inodes i).count ≠ 0) (hpipe : (s.inodes i).pipe = false) (hblk : ¬isBlk (s.inodes i).mode)
    (hlinks : (s.inodes i).count = 1 → (s.inodes i).nlinks ≠ 0) : ∃ s', Minix.iput i s = .ok () s' ∧ Parted s s' k i := by
  have hdev := (getSuper_some hk).2
  unfold Minix.iput
  dsimp only
  rw [if_neg hc, if_neg (by simp [hpipe]), if_neg hdev, if_neg hblk, Outcome.bind_ok]
  by_cases hone : (s.inodes i).count > 1
  · rw [if_pos hone]
    refine ⟨_, rfl, fun j hj => Fs.setInode_ne _ _ hj, ?_, ⟨rfl, rfl, rfl, rfl⟩, fun _ _ => rfl⟩
    rw [Fs.setCount, Fs.setInode_self]
    dsimp only
    omega
  · obtain ⟨s', he, hothers, hcount, hrest, hdata⟩ := hq.writeInode hk
    rw [if_neg hone, if_neg (hlinks (by omega)), he, Outcome.bind_ok]
    refine ⟨_, rfl, fun j hj => (Fs.setInode_ne _ _ hj).trans (hothers j hj), ?_, hrest, hdata⟩
    rw [Fs.setCount, Fs.setInode_self]
    dsimp only
    omega

theorem iput_new {b : Buffer} (hk : s.getSuper (s.inodes i).dev = some k)
    (hc : (s.inodes i).count = 1) (hpipe : (s.inodes i).pipe = false) (hmode : (s.inodes i).mode = 0)
    (hlinks : (s.inodes i).nlinks = 0) (hpos : 1 ≤ (s.inodes i).num)
    (hle : (s.inodes i).num ≤ (s.supers k).ninodes)
    (hb : (s.supers k).imap ((s.inodes i).num / 8192) = some b) :
    iput i s = .ok () ((s.setData b (clearBit (s.data b) ((s.inodes i).num % 8192))).setInode i
      Inode.empty) := by
  have hdev := (getSuper_some hk).2
  have hfile : ¬(isReg (s.inodes i).mode ∨ isDir (s.inodes i).mode) := by
    rw [hmode]
    decide
  have hblk : ¬isBlk (s.inodes i).mode := by
    rw [hmode]
    decide
  unfold iput
  dsimp only
  rw [if_neg (by omega), if_neg (by simp [hpipe]), if_neg hdev, if_neg hblk, Outcome.bind_ok,
    if_neg (by omega), if_pos hlinks]
  unfold truncate
  rw [if_pos hfile, Outcome.bind_ok]
  unfold freeInode
  dsimp only
  rw [if_neg hdev, if_neg (by omega), if_neg (not_not_intro hlinks), hk]
  dsimp only
  rw [if_neg (by omega), hb]

structure Parent (t : Fs) (dir : Slot) (k : Fin NR_SUPER) : Prop where
  mapped : MappedDir t dir
  volume : Volume t (t.inodes dir).dev k
  count : (t.inodes dir).count ≠ 0
  pipe : (t.inodes dir).pipe = false
  mode : isDir (t.inodes dir).mode
  links : (t.inodes dir).nlinks ≠ 0
  zone : (t.inodes dir).zone 0 ≠ 0
  idle : ∀ j, (t.inodes j).count = 0 → (t.inodes j).dirt = false
  inodeBlock : ¬t.MapBuffer ((t.inodes dir).dev, (t.supers k).inodeBlock (t.inodes dir).num)
  behind : ∀ b, t.MapBuffer b → b.1 = (t.inodes dir).dev → b.2 < (t.supers k).firstdatazone
  imaps : ∀ m b, (t.supers k).imap m = some b → ¬t.ZoneMap (t.inodes dir).dev b
  first : ∀ b, (t.supers k).imap 0 = some b → testBit (t.data b) 0 = true

/-- All is as before, but that the reference to the directory has been given back. -/
structure Dropped (t s' : Fs) (dir : Slot) : Prop where
  counts : ∀ j, (s'.inodes j).count + (if j = dir then 1 else 0) = (t.inodes j).count
  bcounts : s'.bcount = t.bcount
  maps : ∀ b, t.MapBuffer b → ∀ bit, testBit (s'.data b) bit = testBit (t.data b) bit

theorem Parent.not_blk (h : Parent t dir k) : ¬isBlk (t.inodes dir).mode := by
  intro hblk
  have hdir := h.mode
  unfold isDir at hdir
  unfold isBlk at hblk
  rw [hdir] at hblk
  exact absurd hblk (by decide)

theorem Parent.put (h : Parent t dir k) (hdir : u.inodes dir = t.inodes dir)
    (hs : u.supers = t.supers) (hr : u.reads = t.reads) (hb : u.bcount = t.bcount) :
    ∃ u', iput dir u = .ok () u' ∧ Parted u u' k dir := by
  have hq : Quiet u := h.mapped.quiet.same hr hb
  apply hq.iput
  · rw [hdir, Fs.getSuper_congr hs]
    exact h.volume.super
  · rw [hdir]
    exact h.count
  · rw [hdir]
    exact h.pipe
  · rw [hdir]
    exact h.not_blk
  · rw [hdir]
    exact fun _ => h.links

theorem Parent.put_data (h : Parent t dir k) {u' : Fs} (hdir : u.inodes dir = t.inodes dir)
    (hs : u.supers = t.supers) (hp : Parted u u' k dir) {b : Buffer} (hb : t.MapBuffer b) :
    u'.data b = u.data b := by
  apply hp.data
  rintro rfl
  rw [hdir, hs] at hb
  exact h.inodeBlock hb

structure Beside (t u : Fs) (i : Slot) : Prop where
  idle : (t.inodes i).count = 0
  others : ∀ j, j ≠ i → u.inodes j = t.inodes j
  rest : u.supers = t.supers ∧ u.reads = t.reads ∧ u.bcount = t.bcount ∧ u.task = t.task

theorem Beside.ne (h : Beside t u i) (hp : Parent t dir k) : dir ≠ i := by
  rintro rfl
  exact hp.count h.idle

theorem Beside.dropped (h : Beside t u i) (hp : Parent t dir k) (hi : (u.inodes i).count = 0)
    (hmaps : ∀ b, t.MapBuffer b → ∀ bit, testBit (u.data b) bit = testBit (t.data b) bit) :
    ∃ u', iput dir u = .ok () u' ∧ Dropped t u' dir := by
  have hne := h.ne hp
  obtain ⟨u', he, hput⟩ := hp.put (h.others dir hne) h.rest.1 h.rest.2.1 h.rest.2.2.1
  refine ⟨u', he, fun j => ?_, hput.rest.2.2.1.trans h.rest.2.2.1, fun b hb bit => ?_⟩
  · by_cases hj : j = dir
    · subst hj
      rw [if_pos rfl, hput.count, h.others j hne]
    · rw [if_neg hj, hput.others j hj, Nat.add_zero]
      by_cases hji : j = i
      · subst hji
        rw [hi, h.idle]
      · rw [h.others j hji]
  · rw [hp.put_data (h.others dir hne) h.rest.1 hput hb]
    exact hmaps b hb bit

/-- An inode that was made for the directory: `nr` is its number, and the bit of it is in buffer `b`. -/
structure Newborn (t u : Fs) (dir i : Slot) (k : Fin NR_SUPER) (nr : ℕ) (b : Buffer) : Prop where
  beside : Beside t u i
  count : (u.inodes i).count = 1
  pipe : (u.inodes i).pipe = false
  dev : (u.inodes i).dev = (t.inodes dir).dev
  num : (u.inodes i).num = nr
  pos : 1 ≤ nr
  le : nr ≤ (t.supers k).ninodes
  imap : (t.supers k).imap (nr / 8192) = some b
  clear : testBit (t.data b) (nr % 8192) = false
  set : ∀ bit, testBit (u.data b) bit = testBit (setBit (t.data b) (nr % 8192)) bit

theorem Newborn.dropped {nr : ℕ} {b : Buffer} {v : Fs} (h : Newborn t u dir i k nr b)
    (v' : Fs) (hp : Parent t dir k) (hput : Parted u v k dir) (hi : v'.inodes = v.inodes)
    (hrest : v'.supers = v.supers ∧ v'.bcount = v.bcount) (hmode : (u.inodes i).mode = 0)
    (hlinks : (u.inodes i).nlinks = 1)
    (hself : ∀ bit, testBit (v'.data b) bit = testBit (v.data b) bit)
    (hmaps : ∀ c, t.MapBuffer c → c ≠ b → ∀ bit, testBit (v'.data c) bit = testBit (t.data c) bit) :
    ∃ s', iput i (v'.setInode i { v'.inodes i with nlinks := (v'.inodes i).nlinks - 1 }) = .ok () s' ∧
      Dropped t s' dir := by
  have hne := h.beside.ne hp
  have hslot : v'.inodes i = u.inodes i := by
    rw [hi]
    exact hput.others i hne.symm
  have hsupers : v'.supers = t.supers := hrest.1.trans (hput.rest.1.trans h.beside.rest.1)
  have hsuper : t.getSuper (t.inodes dir).dev = some k := hp.volume.super
  have hmap : t.MapBuffer b := by
    obtain ⟨hk, hd⟩ := getSuper_some hsuper
    exact ⟨k, _, by rw [hk]; exact hd, .inl h.imap⟩
  generalize hs₁ : v'.setInode i { v'.inodes i with nlinks := (v'.inodes i).nlinks - 1 } = s₁
  have hx : s₁.inodes i = { u.inodes i with nlinks := (u.inodes i).nlinks - 1 } := by
    rw [← hs₁, Fs.setInode_self, hslot]
  have hsupers₁ : s₁.supers = t.supers := by
    rw [← hs₁]
    exact hsupers
  have hdata₁ : s₁.data = v'.data := by
    rw [← hs₁]
    rfl
  have hput₁ : iput i s₁ = .ok () ((s₁.setData b (clearBit (s₁.data b) (nr % 8192))).setInode i
      Inode.empty) := by
    have he := iput_new (s := s₁) (i := i) (k := k) (b := b)
    rw [hx, hsupers₁] at he
    dsimp only at he
    rw [h.num, h.dev, Fs.getSuper_congr hsupers₁] at he
    exact he hsuper h.count h.pipe hmode (by rw [hlinks]; rfl) h.pos h.le h.imap
  refine ⟨_, hput₁, fun j => ?_, ?_, fun c hc bit => ?_⟩
  · by_cases hji : j = i
    · subst hji
      rw [Fs.setInode_self, if_neg hne.symm, h.beside.idle]
      rfl
    · have hother : s₁.inodes j = v.inodes j := by
        rw [← hs₁, Fs.setInode_ne _ _ hji, hi]
      rw [Fs.setInode_ne _ _ hji]
      change (s₁.inodes j).count + _ = _
      rw [hother]
      by_cases hj : j = dir
      · subst hj
        rw [if_pos rfl, hput.count, h.beside.others j hne]
      · rw [if_neg hj, hput.others j hj, Nat.add_zero, h.beside.others j hji]
  · change s₁.bcount = _
    rw [← hs₁]
    exact hrest.2.trans (hput.rest.2.2.1.trans h.beside.rest.2.2.1)
  · change testBit (Function.update s₁.data b _ c) bit = _
    by_cases hcb : c = b
    · subst hcb
      have hv : v.data c = u.data c := hp.put_data (h.beside.others dir hne) h.beside.rest.1 hput hmap
      rw [Function.update_self, testBit_clearBit, hdata₁, hself, hv, h.set, ← testBit_clearBit,
        testBit_undone h.clear]
    · rw [Function.update_of_ne hcb, hdata₁]
      exact hmaps c hc hcb bit

theorem Newborn.setSelf {nr : ℕ} {b : Buffer} (h : Newborn t u dir i k nr b) {x : Inode}
    (hc : x.count = (u.inodes i).count) (hpipe : x.pipe = (u.inodes i).pipe)
    (hd : x.dev = (u.inodes i).dev) (hn : x.num = (u.inodes i).num) :
    Newborn t (u.setInode i x) dir i k nr b where
  beside := ⟨h.beside.idle, fun j hj => (Fs.setInode_ne u x hj).trans (h.beside.others j hj),
    h.beside.rest⟩
  count := by rw [Fs.setInode_self, hc, h.count]
  pipe := by rw [Fs.setInode_self, hpipe, h.pipe]
  dev := by rw [Fs.setInode_self, hd, h.dev]
  num := by rw [Fs.setInode_self, hn, h.num]
  pos := h.pos
  le := h.le
  imap := h.imap
  clear := h.clear
  set := h.set

structure Bare (t u : Fs) (dir i : Slot) (k : Fin NR_SUPER) (nr : ℕ) (b : Buffer) : Prop
    extends Newborn t u dir i k nr b where
  mode : (u.inodes i).mode = 0
  nlinks : (u.inodes i).nlinks = 1
  data : ∀ c, c ≠ b → u.data c = t.data c

/-- What `new_inode` does when an entry of the table is not in use. -/
theorem Parent.newInode (h : Parent t dir k) {j : Slot} (hj : (t.inodes j).count = 0) :
    (¬t.inodeFree k ∧ ∃ i u, Minix.newInode (t.inodes dir).dev t = .ok none u ∧ Beside t u i ∧
      (u.inodes i).count = 0 ∧ u.data = t.data) ∨
    t.inodeFree k ∧ ∃ i u nr b, Minix.newInode (t.inodes dir).dev t = .ok (some i) u ∧
      Bare t u dir i k nr b := by
  obtain ⟨i, hi, hget⟩ := getEmptyInode_some h.idle hj
  have hself : (t.fresh i).inodes i = { Inode.empty with count := 1 } := Fs.setInode_self _ i _
  have hothers : ∀ j, j ≠ i → (t.fresh i).inodes j = t.inodes j := fun j hj =>
    Fs.setInode_ne _ _ hj
  -- without a number the entry is put
  have hnone : ∃ u, iput i (t.fresh i) = .ok () u ∧ Beside t u i ∧ (u.inodes i).count = 0 ∧
      u.data = t.data := by
    refine ⟨(t.fresh i).setCount i 0, ?_, ⟨hi, fun j hj => ?_, rfl, rfl, rfl, rfl⟩, ?_, rfl⟩
    · unfold iput
      rw [hself]
      rfl
    · exact (Fs.setInode_ne _ _ hj).trans (hothers j hj)
    · exact congrArg Inode.count (Fs.setInode_self _ i _)
  have hsuper : (t.fresh i).getSuper (t.inodes dir).dev = some k := h.volume.super
  have hfirst : firstFree ((t.fresh i).supers k).imap (t.fresh i) = firstFree (t.supers k).imap t := rfl
  unfold Minix.newInode
  rw [hget, Outcome.bind_ok, hsuper]
  dsimp only
  rw [hfirst]
  cases hf : firstFree (t.supers k).imap t with
  | none =>
    obtain ⟨u, he, hu⟩ := hnone
    refine .inl ⟨?_, i, u, ?_, hu⟩
    · rintro ⟨m, b, bit, hm, hb, hlt, hclear, -⟩
      rw [firstFree_none hf hm hb hlt] at hclear
      cases hclear
    · dsimp only
      rw [he, Outcome.bind_ok]
  | some p =>
    obtain ⟨m, b⟩ := p
    obtain ⟨hm, hmap, hlt⟩ := firstFree_some hf
    have hclear : testBit ((t.fresh i).data b) (findFirstZero ((t.fresh i).data b)) = false :=
      findFirstZero_clear hlt
    have hlt : findFirstZero ((t.fresh i).data b) < 8192 := hlt
    have hmin : ∀ m' b' bit, m' < MAP_SLOTS → (t.supers k).imap m' = some b' → bit < 8192 →
        testBit (t.data b') bit = false →
        findFirstZero ((t.fresh i).data b) + m * 8192 ≤ bit + m' * 8192 := by
      intro m' b' bit hm' hb' hbit hc
      obtain ⟨m'', b'', hf', hle⟩ := firstFree_le hm' hb' hbit hc
      obtain ⟨rfl, rfl⟩ := Prod.mk.inj (Option.some.inj (hf.symm.trans hf'))
      exact hle
    dsimp only
    generalize findFirstZero ((t.fresh i).data b) = bit at hclear hlt hmin
    by_cases hbig : bit + m * 8192 > ((t.fresh i).supers k).ninodes
    · obtain ⟨u, he, hu⟩ := hnone
      refine .inl ⟨?_, i, u, ?_, hu⟩
      · rintro ⟨m', b', bit', hm', hb', hlt', hc', hle⟩
        have hge := hmin m' b' bit' hm' hb' hlt' hc'
        have hbig : bit + m * 8192 > (t.supers k).ninodes := hbig
        omega
      · rw [if_pos hbig, he, Outcome.bind_ok]
    · have hle : bit + m * 8192 ≤ (t.supers k).ninodes := Nat.not_lt.mp hbig
      rw [if_neg hbig, if_neg (by rw [hclear]; exact Bool.false_ne_true)]
      refine .inr ⟨⟨m, b, bit, hm, hmap, hlt, hclear, hle⟩, i, _, bit + m * 8192, b, rfl, ?_⟩
      have hdiv : (bit + m * 8192) / 8192 = m := by omega
      have hmod : (bit + m * 8192) % 8192 = bit := by omega
      have hpos : 1 ≤ bit + m * 8192 := by
        by_contra h0
        have hb0 : bit = 0 := by omega
        have hm0 : m = 0 := by omega
        subst hb0 hm0
        have hset := h.first b hmap
        have hclear : testBit (t.data b) 0 = false := hclear
        rw [hset] at hclear
        cases hclear
      refine ⟨⟨⟨hi, fun j hj => ?_, rfl, rfl, rfl, rfl⟩, ?_, ?_, ?_, ?_, hpos, hle, ?_, ?_, ?_⟩, ?_,
        ?_, fun c hc => ?_⟩
      · exact (Fs.setInode_ne _ _ hj).trans (hothers j hj)
      · exact congrArg Inode.count (Fs.setInode_self _ i _)
      · rw [Fs.setInode_self]
        change ((t.fresh i).inodes i).pipe = false
        rw [hself]
        rfl
      · rw [Fs.setInode_self]
      · rw [Fs.setInode_self]
      · rw [hdiv]
        exact hmap
      · rw [hmod]
        exact hclear
      · intro bit'
        rw [hmod]
        change testBit (Function.update t.data b _ b) bit' = _
        rw [Function.update_self]
        rfl
      · rw [Fs.setInode_self]
        change ((t.fresh i).inodes i).mode = 0
        rw [hself]
        rfl
      · rw [Fs.setInode_self]
      · exact Function.update_of_ne hc _ _

/-! ### The exits behind `new_inode` -/

section
variable {nr z : ℕ} {b c : Buffer} {readable : Bool} {mode : ℕ}

theorem Parent.mapBuffer_zmap (h : Parent t dir k) {m : ℕ} (hc : (t.supers k).zmap m = some c) :
    t.MapBuffer c := by
  obtain ⟨hk, hd⟩ := getSuper_some h.volume.super
  exact ⟨k, m, by rw [hk]; exact hd, .inr hc⟩

theorem Parent.mapBuffer_imap (h : Parent t dir k) {m : ℕ} (hb : (t.supers k).imap m = some b) :
    t.MapBuffer b := by
  obtain ⟨hk, hd⟩ := getSuper_some h.volume.super
  exact ⟨k, m, by rw [hk]; exact hd, .inl hb⟩

theorem Parent.imap_ne (h : Parent t dir k) {m m' : ℕ} (hb : (t.supers k).imap m = some b)
    (hc : (t.supers k).zmap m' = some c) : c ≠ b := by
  rintro rfl
  exact h.imaps m c hb ⟨k, m', h.volume.super, hc⟩

/-- A buffer of a map is not a zone of the device. -/
theorem Parent.map_ne (h : Parent t dir k) (hc : t.MapBuffer c) (hz : (t.supers k).firstdatazone ≤ z) :
    c ≠ ((t.inodes dir).dev, z) := by
  rintro rfl
  exact absurd (h.behind _ hc rfl) (Nat.not_lt.mpr hz)

theorem Bare.volume (h : Bare t u dir i k nr b) (hp : Parent t dir k) :
    Volume u (t.inodes dir).dev k ∧ u.freeZones k = t.freeZones k := by
  apply hp.volume.congr h.beside.rest.1
  · intro n hn
    rw [h.beside.rest.2.2.1]
    exact hp.volume.unused n hn
  · intro m c hc
    exact h.data c (hp.imap_ne h.imap hc)

theorem Bare.sized (h : Bare t u dir i k nr b) : Bare t (u.setInode i
    { u.inodes i with size := 32, dirt := true, mtime := u.time }) dir i k nr b where
  toNewborn := h.toNewborn.setSelf rfl rfl rfl rfl
  mode := by
    rw [Fs.setInode_self]
    exact h.mode
  nlinks := by
    rw [Fs.setInode_self]
    exact h.nlinks
  data := h.data

variable (readable name mode) in
/-- There is no block. -/
theorem Bare.noZone (h : Bare t u dir i k nr b) (hp : Parent t dir k) (hempty : t.freeZones k = ∅) :
    ∃ s', mkdirZone readable dir i name mode u = .ok (.error (-Errno.ENOSPC.number)) s' ∧
      Dropped t s' dir := by
  obtain ⟨v, hfree⟩ := h.volume hp
  have hnew : newBlock (u.inodes i).dev u = .ok 0 u := by
    rw [h.dev]
    rcases v.newBlock_eq with ⟨-, hnew⟩ | ⟨n, b', hn, -, -⟩
    · exact hnew
    · rw [hfree, hempty] at hn
      cases hn
  generalize hu₂ : u.setZone i 0 (UInt16.ofNat 0) = u₂
  have hself : u₂.inodes i = { u.inodes i with zone := Function.update (u.inodes i).zone 0 0 } := by
    rw [← hu₂]
    exact Fs.setInode_self _ i _
  have hnewborn : Newborn t u₂ dir i k nr b := by
    rw [← hu₂]
    exact h.toNewborn.setSelf rfl rfl rfl rfl
  have hdata : u₂.data = u.data := by
    rw [← hu₂]
    rfl
  obtain ⟨w, he, hput⟩ := hp.put (hnewborn.beside.others dir (hnewborn.beside.ne hp))
    hnewborn.beside.rest.1 hnewborn.beside.rest.2.1 hnewborn.beside.rest.2.2.1
  obtain ⟨s', he', hdropped⟩ := hnewborn.dropped w hp hput rfl ⟨rfl, rfl⟩
    (by rw [hself]; exact h.mode) (by rw [hself]; exact h.nlinks) (fun _ => rfl) fun c hc hcb bit => by
      rw [hp.put_data (hnewborn.beside.others dir (hnewborn.beside.ne hp)) hnewborn.beside.rest.1 hput hc,
        hdata, h.data c hcb]
  refine ⟨s', ?_, hdropped⟩
  unfold mkdirZone
  rw [hnew, Outcome.bind_ok]
  dsimp only
  rw [hu₂, if_pos, he, Outcome.bind_ok, he', Outcome.bind_ok]
  rw [hself]
  dsimp only
  rw [Function.update_self]

/-- `free_block` of a zone that had been free, and is not in use. -/
theorem Volume.freeBlock {dev : ℕ} (v : Volume t dev k) (hz : z ∈ t.freeZones k)
    (hc : (t.supers k).zmap ((z + 1 - (t.supers k).firstdatazone) / 8192) = some c)
    (hs : u.supers = t.supers) (hb : u.bcount (dev, z) = 0) :
    Minix.freeBlock dev z u =
      if testBit (u.data c) ((z + 1 - (t.supers k).firstdatazone) % 8192) = false then
        .stop .freeBlockAlreadyCleared
      else .ok () ({ u.setData (dev, z) (u.stale 0) with stale := fun n => u.stale (n + 1) }.setData c
        (clearBit (u.data c) ((z + 1 - (t.supers k).firstdatazone) % 8192))) := by
  obtain ⟨hle, hlt, -⟩ := mem_freeZones.mp hz
  have hne : c ≠ (dev, z) := by
    rintro rfl
    exact absurd (v.maps k _ _ v.super hc rfl) (Nat.not_lt.mpr hle)
  have hdata : Function.update u.data (dev, z) (u.stale 0) c = u.data c :=
    Function.update_of_ne hne _ _
  unfold Minix.freeBlock
  rw [Fs.getSuper_congr hs, v.super]
  dsimp only
  rw [hs, if_neg (by omega), if_neg (not_not_intro hb), if_pos (v.slot_lt hlt), hc]
  dsimp only
  change (if testBit (Function.update u.data (dev, z) (u.stale 0) c) _ = false then _ else
    Outcome.ok () (Fs.setData _ c (clearBit (Function.update u.data (dev, z) (u.stale 0) c) _))) = _
  rw [hdata]

/-- The state in which the new inode has a block. -/
structure Housed (t u : Fs) (dir i : Slot) (k : Fin NR_SUPER) (nr : ℕ) (b c : Buffer) (z : ℕ) : Prop
    extends Newborn t u dir i k nr b where
  free : z ∈ t.freeZones k
  zmap : (t.supers k).zmap ((z + 1 - (t.supers k).firstdatazone) / 8192) = some c
  zone : (u.inodes i).zone 0 = UInt16.ofNat z
  bit : testBit (t.data c) ((z + 1 - (t.supers k).firstdatazone) % 8192) = false
  map : u.data c = setBit (t.data c) ((z + 1 - (t.supers k).firstdatazone) % 8192)
  data : ∀ d, d ≠ b → d ≠ c → d ≠ ((t.inodes dir).dev, z) → u.data d = t.data d

/-- A zone is a short, and not 0. -/
theorem Volume.zone_short {dev : ℕ} (v : Volume t dev k) (hz : z ∈ t.freeZones k) :
    (UInt16.ofNat z).toNat = z ∧ UInt16.ofNat z ≠ 0 := by
  have hshort := v.short k v.super
  obtain ⟨-, hlt, -⟩ := mem_freeZones.mp hz
  have hval : (UInt16.ofNat z).toNat = z := by
    rw [UInt16.toNat_ofNat', Nat.mod_eq_of_lt (by omega)]
  refine ⟨hval, fun h0 => v.newBlock_pos hz ?_⟩
  rw [← hval, h0]
  rfl

variable (readable name mode) in
/-- A block is there. -/
theorem Bare.zone (h : Bare t u dir i k nr b) (hp : Parent t dir k) (hne : t.freeZones k ≠ ∅) :
    ∃ z c u₂, mkdirZone readable dir i name mode u = mkdirBlock readable dir i name mode u₂ ∧
      Housed t u₂ dir i k nr b c z ∧ (u₂.inodes i).mode = 0 ∧ (u₂.inodes i).nlinks = 1 := by
  obtain ⟨v, hfree⟩ := h.volume hp
  rcases v.newBlock_eq with ⟨hempty, -⟩ | ⟨z, c, hz, hc, hnew⟩
  · rw [hfree] at hempty
    exact absurd hempty hne
  have hz' : z ∈ t.freeZones k := by rwa [← hfree]
  have hc' : (t.supers k).zmap ((z + 1 - (t.supers k).firstdatazone) / 8192) = some c := by
    rw [← h.beside.rest.1]
    exact hc
  have hle := (mem_freeZones.mp hz').1
  have hbne : b ≠ ((t.inodes dir).dev, z) := by
    apply hp.map_ne _ hle
    obtain ⟨hk, hd⟩ := getSuper_some hp.volume.super
    exact ⟨k, _, by rw [hk]; exact hd, .inl h.imap⟩
  have hcne : c ≠ ((t.inodes dir).dev, z) := hp.map_ne (hp.mapBuffer_zmap hc') hle
  have hcb := hp.imap_ne h.imap hc'
  have hcdata : u.data c = t.data c := h.data c hcb
  have htaken : ∀ d, d ≠ c → d ≠ ((t.inodes dir).dev, z) →
      (u.takeZone (t.inodes dir).dev k c z).data d = u.data d := by
    intro d hdc hdz
    exact (Function.update_of_ne hdz _ _).trans (Function.update_of_ne hdc _ _)
  generalize hu₁ : u.takeZone (t.inodes dir).dev k c z = u₁ at hnew htaken
  generalize hu₂ : u₁.setZone i 0 (UInt16.ofNat z) = u₂
  have hself : u₂.inodes i =
      { u.inodes i with zone := Function.update (u.inodes i).zone 0 (UInt16.ofNat z) } := by
    rw [← hu₂, ← hu₁]
    exact Fs.setInode_self _ i _
  have hdata : u₂.data = u₁.data := by
    rw [← hu₂]
    rfl
  refine ⟨z, c, u₂, ?_, ?_, by rw [hself]; exact h.mode, by rw [hself]; exact h.nlinks⟩
  · unfold mkdirZone
    rw [h.dev, hnew, Outcome.bind_ok]
    dsimp only
    rw [hu₂, if_neg]
    rw [hself]
    dsimp only
    rw [Function.update_self]
    exact (hp.volume.zone_short hz').2
  · have hnewborn : Newborn t u₁ dir i k nr b := by
      refine ⟨⟨h.beside.idle, ?_, ?_⟩, ?_, ?_, ?_, ?_, h.pos, h.le, h.imap, h.clear, fun bit => ?_⟩
      · rw [← hu₁]
        exact h.beside.others
      · rw [← hu₁]
        exact h.beside.rest
      · rw [← hu₁]
        exact h.count
      · rw [← hu₁]
        exact h.pipe
      · rw [← hu₁]
        exact h.dev
      · rw [← hu₁]
        exact h.num
      · rw [htaken b hcb.symm hbne]
        exact h.set bit
    refine ⟨?_, hz', hc', ?_, ?_, ?_, fun d hdb hdc hdz => ?_⟩
    · rw [← hu₂]
      exact hnewborn.setSelf rfl rfl rfl rfl
    · rw [hself]
      dsimp only
      rw [Function.update_self]
    · rw [← zoneBit_some hc']
      exact (mem_freeZones.mp hz').2.2
    · rw [hdata, ← hu₁, v.takeZone_data hz hc, if_pos rfl, hcdata, h.beside.rest.1]
    · rw [hdata, htaken d hdc hdz]
      exact h.data d hdb

variable (name mode) in
/-- The block cannot be read. -/
theorem Housed.unreadable (h : Housed t u dir i k nr b c z) (hp : Parent t dir k)
    (hmode : (u.inodes i).mode = 0) (hlinks : (u.inodes i).nlinks = 1) :
    ∃ s', mkdirBlock false dir i name mode u = .ok (.error (-ERROR)) s' ∧ Dropped t s' dir := by
  have hne := h.beside.ne hp
  obtain ⟨w, he, hput⟩ := hp.put (h.beside.others dir hne) h.beside.rest.1 h.beside.rest.2.1
    h.beside.rest.2.2.1
  have hread : ∀ blk, bread (u.inodes i).dev blk { u with reads := false :: u.reads } = .ok none u :=
    fun blk => if_pos rfl
  have hslot : w.inodes i = u.inodes i := hput.others i hne.symm
  have hcb := hp.imap_ne h.imap h.zmap
  have hmap := hp.mapBuffer_zmap h.zmap
  have hwc : w.data c = setBit (t.data c) ((z + 1 - (t.supers k).firstdatazone) % 8192) :=
    (hp.put_data (h.beside.others dir hne) h.beside.rest.1 hput hmap).trans h.map
  have hcount : w.bcount ((t.inodes dir).dev, z) = 0 := by
    rw [hput.rest.2.2.1, h.beside.rest.2.2.1]
    exact hp.volume.unused z h.free
  have hfree := hp.volume.freeBlock h.free h.zmap (hput.rest.1.trans h.beside.rest.1) hcount
  rw [hwc, setBit_self, if_neg (fun hc => nomatch hc)] at hfree
  generalize hw' : ({ w.setData ((t.inodes dir).dev, z) (w.stale 0) with
    stale := fun n => w.stale (n + 1) }.setData c (clearBit (setBit (t.data c)
      ((z + 1 - (t.supers k).firstdatazone) % 8192))
      ((z + 1 - (t.supers k).firstdatazone) % 8192)) : Fs) = w' at hfree
  have hdata : ∀ d, t.MapBuffer d → d ≠ c → w'.data d = w.data d := by
    intro d hd hdc
    rw [← hw']
    have hdz := hp.map_ne hd (mem_freeZones.mp h.free).1
    exact (Function.update_of_ne hdc _ _).trans (Function.update_of_ne hdz _ _)
  have hbmap := hp.mapBuffer_imap h.imap
  obtain ⟨s', he', hdropped⟩ := h.toNewborn.dropped w' hp hput (by rw [← hw']; rfl)
    ⟨by rw [← hw']; rfl, by rw [← hw']; rfl⟩ hmode hlinks
    (fun bit => by rw [hdata b hbmap hcb.symm]) fun d hd hdb bit => by
      by_cases hdc : d = c
      · subst hdc
        have hself : w'.data d = clearBit (setBit (t.data d)
            ((z + 1 - (t.supers k).firstdatazone) % 8192))
            ((z + 1 - (t.supers k).firstdatazone) % 8192) := by
          rw [← hw']
          exact Function.update_self d _ _
        rw [hself, testBit_undone h.bit]
      · have hdz := hp.map_ne hd (mem_freeZones.mp h.free).1
        rw [hdata d hd hdc,
          hp.put_data (h.beside.others dir hne) h.beside.rest.1 hput hd, h.data d hdb hdc hdz]
  refine ⟨s', ?_, hdropped⟩
  unfold mkdirBlock
  rw [if_neg (fun hc => nomatch hc), hread, Outcome.bind_ok]
  dsimp only
  rw [he, Outcome.bind_ok, hslot, h.dev, h.zone, (hp.volume.zone_short h.free).1, hfree,
    Outcome.bind_ok, he', Outcome.bind_ok]

/-- The mode is that of a directory. -/
theorem isDir_made (x y : UInt16) : isDir (0o040000 ||| (x &&& 0o777 &&& y)) := by
  have hzero : x.toNat &&& 0o777 &&& y.toNat &&& 0o170000 = 0 := by
    rw [Nat.and_right_comm, Nat.and_assoc x.toNat]
    exact (congrArg (fun n => n &&& y.toNat) (Nat.and_zero x.toNat)).trans (Nat.zero_and y.toNat)
  unfold isDir
  apply UInt16.toNat_inj.mp
  rw [UInt16.toNat_and, UInt16.toNat_or, UInt16.toNat_and, UInt16.toNat_and,
    Nat.and_or_distrib_right]
  exact congrArg (fun n => 0o040000 &&& 0o170000 ||| n) hzero

/-- One zone is taken, and that is all the map of zones knows. -/
theorem Housed.volume (h : Housed t u dir i k nr b c z) (hp : Parent t dir k) {w : Fs}
    (hs : w.supers = t.supers) (hb : w.bcount = t.bcount)
    (hd : ∀ m d, (t.supers k).zmap m = some d → w.data d = u.data d) :
    Volume w (t.inodes dir).dev k ∧ w.freeZones k = (t.freeZones k).erase z := by
  obtain ⟨v, hfree⟩ := hp.volume.takeZone h.free h.zmap
  rw [← hfree]
  refine v.congr hs (fun n hn => ?_) fun m d hm => ?_
  · rw [hfree] at hn
    rw [hb]
    exact hp.volume.unused n (Finset.mem_of_mem_erase hn)
  · have hm : (t.supers k).zmap m = some d := hm
    rw [hd m d hm, hp.volume.takeZone_data h.free hm]
    split_ifs with hdc
    · rw [hdc, h.map]
    · exact h.data d (hp.imap_ne h.imap hm) hdc
        (hp.map_ne (hp.mapBuffer_zmap hm) (mem_freeZones.mp h.free).1)

/-- What is the same for the parent, when `add_entry` is called. -/
theorem Housed.parent (h : Housed t u dir i k nr b c z) (hp : Parent t dir k) {w : Fs}
    (hw : Beside t w i) (hd : ∀ d, d ≠ ((t.inodes dir).dev, z) → w.data d = u.data d) :
    MappedDir w dir ∧ Volume w (w.inodes dir).dev k ∧ (w.freeZones k = (t.freeZones k).erase z) ∧
      (w.roomIn dir k ↔
        (t.inodes dir).HasRoom (t.blocks (t.inodes dir).dev) ((t.freeZones k).card - 1)) := by
  have hdir : w.inodes dir = t.inodes dir := hw.others dir (hw.ne hp)
  have hle := (mem_freeZones.mp h.free).1
  have hzdata : ∀ m d, (t.supers k).zmap m = some d → w.data d = u.data d := fun m d hm =>
    hd d (hp.map_ne (hp.mapBuffer_zmap hm) hle)
  obtain ⟨v, hfree⟩ := h.volume hp hw.rest.1 hw.rest.2.2.1 hzdata
  have hbmap := hp.mapBuffer_imap h.imap
  -- the blocks of the parent are zones that are marked
  have hblocks : ∀ p, t.at dir p ≠ 0 →
      w.data ((t.inodes dir).dev, t.at dir p) = t.data ((t.inodes dir).dev, t.at dir p) := by
    intro p hat
    have hmark := hp.mapped.grounded.marks p hat
    obtain ⟨k', b', hk', hge, -, -⟩ := id hmark
    obtain rfl : k = k' := Option.some.inj (hp.volume.super.symm.trans hk')
    have hz : ((t.inodes dir).dev, t.at dir p) ≠ ((t.inodes dir).dev, z) := by
      intro hc
      rw [(Prod.mk.inj hc).2] at hmark
      exact hp.volume.marked_not_free hmark h.free
    rw [hd _ hz]
    apply h.data _ (hp.map_ne hbmap hge).symm (hp.map_ne (hp.mapBuffer_zmap h.zmap) hge).symm hz
  have hmarks : ∀ n, t.Marked (t.inodes dir).dev n → w.Marked (t.inodes dir).dev n := by
    rintro n ⟨k', b', hk', hge, hb', hbit⟩
    obtain rfl : k = k' := Option.some.inj (hp.volume.super.symm.trans hk')
    refine ⟨k, b', v.super, by rw [hw.rest.1]; exact hge, by rw [hw.rest.1]; exact hb', ?_⟩
    rw [hw.rest.1, hzdata _ b' hb']
    by_cases hbc : b' = c
    · rw [hbc, h.map, ← hbc]
      exact setBit_keeps _ hbit
    · rw [h.data b' (hp.imap_ne h.imap hb') hbc (hp.map_ne (hp.mapBuffer_zmap hb') hle)]
      exact hbit
  refine ⟨hp.mapped.congr (hp.mapped.quiet.same hw.rest.2.1 hw.rest.2.2.1) hdir hblocks v.toZoned hmarks,
    by rw [hdir]; exact v, hfree, ?_⟩
  unfold Fs.roomIn
  rw [hdir, hfree, Finset.card_erase_of_mem h.free]
  refine @hasRoom_congr (t.inodes dir).toDInode _ _ (w.blocks (t.inodes dir).dev) rfl rfl hblocks
    (fun m hm => ?_) _
  refine (hp.mapped.mapped (m / DIR_ENTRIES_PER_BLOCK) ?_).2
  unfold DIR_ENTRIES_PER_BLOCK Fs.entries
  omega

/-- `add_entry` has found no room: the block of the new directory is freed twice. -/
theorem Housed.twice (h : Housed t u dir i k nr b c z) (hp : Parent t dir k) {w : Fs}
    (hw : Newborn t w dir i k nr b) (hzone : (w.inodes i).zone 0 = UInt16.ofNat z)
    (hmode : isDir (w.inodes i).mode) (hfull : Deepened w s dir) :
    ∃ why, (iput dir s).bind (fun _ s =>
      (freeBlock (s.inodes i).dev ((s.inodes i).zone 0).toNat s).bind fun _ s =>
      (iput i (s.setInode i { s.inodes i with nlinks := 0 })).bind fun _ s =>
      (.ok (.error (-Errno.ENOSPC.number)) s : Attempt)) = .stop why := by
  have hne := hw.beside.ne hp
  obtain ⟨hval, hne0⟩ := hp.volume.zone_short h.free
  obtain ⟨data, zone, dirt, hsame⟩ := hfull.same
  have hdir : s.inodes dir = { t.inodes dir with zone := zone, dirt := dirt } := by
    rw [hsame]
    change ((w.setInode dir _).inodes dir) = _
    rw [Fs.setInode_self, hw.beside.others dir hne]
  have hslot : s.inodes i = w.inodes i := by
    rw [hsame]
    exact Fs.setInode_ne w _ hne.symm
  have hrest : s.supers = t.supers ∧ s.reads = t.reads ∧ s.bcount = t.bcount := by
    rw [hsame]
    exact ⟨hw.beside.rest.1, hw.beside.rest.2.1, hw.beside.rest.2.2.1⟩
  obtain ⟨v, he, hput⟩ : ∃ v, iput dir s = .ok () v ∧ Parted s v k dir := by
    apply (hp.mapped.quiet.same hrest.2.1 hrest.2.2).iput
    · rw [hdir, Fs.getSuper_congr hrest.1]
      exact hp.volume.super
    · rw [hdir]
      exact hp.count
    · rw [hdir]
      exact hp.pipe
    · rw [hdir]
      exact hp.not_blk
    · rw [hdir]
      exact fun _ => hp.links
  have hvi : v.inodes i = w.inodes i := (hput.others i hne.symm).trans hslot
  have hcount : ∀ {x : Fs}, x.bcount = v.bcount → x.bcount ((t.inodes dir).dev, z) = 0 := by
    intro x hx
    rw [hx, hput.rest.2.2.1, hrest.2.2]
    exact hp.volume.unused z h.free
  have hvs : v.supers = t.supers := hput.rest.1.trans hrest.1
  have hfree := hp.volume.freeBlock h.free h.zmap hvs (hcount rfl)
  rw [he, Outcome.bind_ok, hvi, hw.dev, hzone, hval, hfree]
  split_ifs with hbit
  · exact ⟨_, rfl⟩
  rw [Outcome.bind_ok]
  -- the bit is clear now
  generalize hv' : ({ v.setData ((t.inodes dir).dev, z) (v.stale 0) with
    stale := fun n => v.stale (n + 1) }.setData c (clearBit (v.data c)
      ((z + 1 - (t.supers k).firstdatazone) % 8192)) : Fs) = v'
  have hi' : v'.inodes i = w.inodes i := by
    rw [← hv']
    exact hvi
  rw [hi']
  generalize hx : v'.setInode i { w.inodes i with nlinks := 0 } = x
  have hself : x.inodes i = { w.inodes i with nlinks := 0 } := by
    rw [← hx]
    exact Fs.setInode_self _ i _
  have hdatac : x.data c = clearBit (v.data c) ((z + 1 - (t.supers k).firstdatazone) % 8192) := by
    rw [← hx, ← hv']
    exact Function.update_self c _ _
  have hxs : x.supers = t.supers := by
    rw [← hx, ← hv']
    exact hvs
  have hxb : x.bcount = v.bcount := by
    rw [← hx, ← hv']
    rfl
  have hagain := hp.volume.freeBlock h.free h.zmap hxs (hcount hxb)
  rw [hdatac, testBit_clearBit, if_pos (by simp)] at hagain
  have hblk : ¬isBlk (w.inodes i).mode := by
    intro hc
    unfold isDir at hmode
    unfold isBlk at hc
    rw [hmode] at hc
    exact absurd hc (by decide)
  have hdev := (getSuper_some hp.volume.super).2
  have htrunc : truncate i x = .stop .freeBlockAlreadyCleared := by
    unfold truncate
    rw [hself]
    dsimp only
    rw [if_neg (not_not_intro (.inr hmode))]
    unfold Outcome.each
    rw [hself]
    dsimp only
    rw [hzone, if_pos hne0, hw.dev, hval, hagain]
    rfl
  refine ⟨.freeBlockAlreadyCleared, ?_⟩
  unfold iput
  rw [hself]
  dsimp only
  rw [hw.count, hw.dev, if_neg (by decide), if_neg (by simp [hw.pipe]), if_neg hdev, if_neg hblk,
    Outcome.bind_ok, hself]
  dsimp only
  rw [hw.count, if_neg (by decide), if_pos rfl, htrunc]
  rfl

variable (mode) in
/-- The block of the new directory can be read: the directory is entered if there is room. -/
theorem Housed.entered (h : Housed t u dir i k nr b c z) (hp : Parent t dir k)
    (hname : name.take NAME_LEN ≠ []) :
    ((t.inodes dir).HasRoom (t.blocks (t.inodes dir).dev) ((t.freeZones k).card - 1) →
      ∃ d s', mkdirBlock true dir i name mode u = .ok (.ok d) s') ∧
    (¬(t.inodes dir).HasRoom (t.blocks (t.inodes dir).dev) ((t.freeZones k).card - 1) →
      ∃ why, mkdirBlock true dir i name mode u = .stop why) := by
  have hq : Quiet u := hp.mapped.quiet.same h.beside.rest.2.1 h.beside.rest.2.2.1
  obtain ⟨hval, -⟩ := hp.volume.zone_short h.free
  generalize hw : (u.setData ((t.inodes dir).dev, z) (setDots (UInt16.ofNat (u.inodes i).num)
    (UInt16.ofNat (u.inodes dir).num) (u.data ((t.inodes dir).dev, z)))).setInode i
      { u.inodes i with
        nlinks := 2
        mode := 0o040000 ||| (UInt16.ofNat mode &&& 0o777 &&& ~~~ UInt16.ofNat u.task.umask)
        dirt := true } = w
  have hblock : mkdirBlock true dir i name mode u = mkdirEntry dir i name w := by
    unfold mkdirBlock
    rw [if_pos rfl, h.zone, hval, h.dev, hq.bread, Outcome.bind_ok]
    change (brelse _ (((u.setData ((t.inodes dir).dev, z) (setDots (UInt16.ofNat (u.inodes i).num)
      (UInt16.ofNat (u.inodes dir).num) (u.data ((t.inodes dir).dev, z)))).setInode i
        { u.inodes i with nlinks := 2 }).hold _)).bind _ = _
    rw [brelse_hold, Outcome.bind_ok, ← hw, Fs.setInode_self, Fs.setInode_setInode]
    rfl
  have hself : w.inodes i = { u.inodes i with
      nlinks := 2
      mode := 0o040000 ||| (UInt16.ofNat mode &&& 0o777 &&& ~~~ UInt16.ofNat u.task.umask)
      dirt := true } := by
    rw [← hw]
    exact Fs.setInode_self _ i _
  have hbmap := hp.mapBuffer_imap h.imap
  have hdata : ∀ d, d ≠ ((t.inodes dir).dev, z) → w.data d = u.data d := by
    intro d hd
    rw [← hw]
    exact Function.update_of_ne hd _ _
  have hbeside : Beside t w i := by
    rw [← hw]
    exact ⟨h.beside.idle, fun j hj => (Fs.setInode_ne _ _ hj).trans (h.beside.others j hj), h.beside.rest⟩
  have hnewborn : Newborn t w dir i k nr b := by
    refine ⟨hbeside, ?_, ?_, ?_, ?_, h.pos, h.le, h.imap, h.clear, fun bit => ?_⟩
    · rw [hself]
      exact h.count
    · rw [hself]
      exact h.pipe
    · rw [hself]
      exact h.dev
    · rw [hself]
      exact h.num
    · rw [hdata b (hp.map_ne hbmap (mem_freeZones.mp h.free).1)]
      exact h.set bit
  obtain ⟨hmapped, v, -, hroom⟩ := h.parent hp hbeside hdata
  have hzone0 : (w.inodes dir).zone 0 ≠ 0 := by
    rw [hbeside.others dir (hbeside.ne hp)]
    exact hp.zone
  have hadd := addEntry_room hmapped v hname hzone0
  rw [hblock, ← hroom]
  unfold mkdirEntry
  cases he : addEntry dir name w with
  | stop why =>
    rw [he] at hadd
    exact ⟨fun hc => absurd hc hadd, fun _ => ⟨why, rfl⟩⟩
  | ok r s =>
    rw [he] at hadd
    rw [Outcome.bind_ok]
    cases r with
    | some p =>
      exact ⟨fun _ => ⟨_, s, rfl⟩, fun hc => absurd (hadd.1 (Option.some_ne_none _)) hc⟩
    | none =>
      have hrefused := hadd.2 rfl
      refine ⟨fun hc => absurd hc hrefused.full, fun _ => ?_⟩
      apply h.twice hp hnewborn _ _ hrefused.deepened
      · rw [hself]
        exact h.zone
      · rw [hself]
        exact isDir_made _ _

/-- No step of `mkdir` from `new_inode` on fails with anything left behind, or stops. -/
def NewTraceless (readable : Bool) (dir : Slot) (name : Name) (mode : ℕ) (t : Fs) : Prop :=
  (mkdirNew readable dir name mode t).Sat (fun r s' => ∀ e, r = .error e → Dropped t s' dir)
    fun _ => False

/-- There is an entry of the inode table, and if all else is there too, room in the parent. -/
def Fs.CanMake (readable : Bool) (t : Fs) (dir : Slot) (k : Fin NR_SUPER) : Prop :=
  (∃ j, (t.inodes j).count = 0) ∧ (t.inodeFree k → readable = true → t.freeZones k ≠ ∅ →
    (t.inodes dir).HasRoom (t.blocks (t.inodes dir).dev) ((t.freeZones k).card - 1))

variable (readable mode) in
/-- Otherwise it stops. -/
theorem Parent.traceless (hp : Parent t dir k) (hname : name.take NAME_LEN ≠ []) :
    (t.CanMake readable dir k → NewTraceless readable dir name mode t) ∧
    (¬t.CanMake readable dir k → ∃ why, mkdirNew readable dir name mode t = .stop why) := by
  unfold NewTraceless Fs.CanMake mkdirNew
  by_cases hj : ∃ j, (t.inodes j).count = 0
  · obtain ⟨j, hidle⟩ := id hj
    rcases hp.newInode hidle with ⟨hno, i, u, he, hbeside, hi, hdata⟩ | ⟨hfree, i, u, nr, b, he, hbare⟩
    · obtain ⟨u', he', hdropped⟩ := hbeside.dropped hp hi fun c _ bit => by rw [hdata]
      rw [he, Outcome.bind_ok]
      dsimp only
      rw [he', Outcome.bind_ok]
      exact ⟨fun _ e _ => hdropped, fun hc => absurd ⟨hj, fun hc => absurd hc hno⟩ hc⟩
    · rw [he, Outcome.bind_ok]
      dsimp only
      have hsized := hbare.sized
      by_cases hempty : t.freeZones k = ∅
      · obtain ⟨s', he', hdropped⟩ := hsized.noZone name readable mode hp hempty
        rw [he']
        exact ⟨fun _ e _ => hdropped, fun hc => absurd ⟨hj, fun _ _ hc => absurd hempty hc⟩ hc⟩
      · obtain ⟨z, c, u₂, he', hhoused, hmode, hlinks⟩ := hsized.zone name readable mode hp
          hempty
        rw [he']
        cases readable with
        | false =>
          obtain ⟨s', he'', hdropped⟩ := hhoused.unreadable name mode hp hmode hlinks
          rw [he'']
          exact ⟨fun _ e _ => hdropped, fun hc => absurd ⟨hj, fun _ hc => nomatch hc⟩ hc⟩
        | true =>
          obtain ⟨hyes, hno⟩ := hhoused.entered mode hp hname
          by_cases hroom : (t.inodes dir).HasRoom (t.blocks (t.inodes dir).dev)
              ((t.freeZones k).card - 1)
          · obtain ⟨d, s', he''⟩ := hyes hroom
            rw [he'']
            exact ⟨fun _ e hc => (nomatch hc), fun hc => absurd ⟨hj, fun _ _ _ => hroom⟩ hc⟩
          · obtain ⟨why, he''⟩ := hno hroom
            rw [he'']
            exact ⟨fun hc => absurd (hc.2 hfree rfl hempty) hroom, fun _ => ⟨why, rfl⟩⟩
  · have hall : ∀ j, (t.inodes j).count ≠ 0 := fun j hc => hj ⟨j, hc⟩
    unfold Minix.newInode
    rw [getEmptyInode_none hall]
    exact ⟨fun hc => absurd hc.1 hj, fun _ => ⟨_, rfl⟩⟩

end

end Linux011.Minix
