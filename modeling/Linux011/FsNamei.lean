import Linux011.FsLookups

set_option autoImplicit false

/-!
# Walking along paths

`namei` and `dir_namei` keep all references but one, to the inode that the path leads to in the tree.
-/
namespace Linux011.Minix
open Outcomes

/-! ### Paths in the tree -/

/-- What a name of a directory leads to, mounts crossed. -/
def Fs.child (s : Fs) (n : ℕ × ℕ) (name : Name) : Option (ℕ × ℕ) :=
  (s.childEntry n.1 n.2 name).map fun q => s.cross q.1 q.2

/-- The inode of a number, as `permission` looks at it. -/
def Fs.nodeInode (s : Fs) (n : ℕ × ℕ) : Inode :=
  { Inode.empty with toDInode := s.inodeOf n.1 n.2, dev := n.1 }

/-- A directory that the task may search. -/
def Fs.enterable (s : Fs) (n : ℕ × ℕ) : Prop :=
  isDir (s.nodeInode n).mode ∧ permission (s.nodeInode n) MAY_EXEC s.task = true

instance (s : Fs) (n : ℕ × ℕ) : Decidable (s.enterable n) := inferInstanceAs (Decidable (_ ∧ _))

/-- A name that a slash ends leads to a directory that may be searched. -/
def Fs.descend (s : Fs) (n : ℕ × ℕ) (name : Name) : Option (ℕ × ℕ) :=
  (s.child n name).filter fun n => s.enterable n

/-- The directory that a path leads to from a directory, in the middle of a name. -/
def Fs.dirFrom (s : Fs) : List UInt8 → Name → ℕ × ℕ → Option (ℕ × ℕ)
  | [], _, n => some n
  | c :: path, name, n =>
    if c ≠ slash then s.dirFrom path (name ++ [c]) n
    else (s.descend n name).bind (s.dirFrom path [])

/-- Where the path starts, and the rest of it. -/
def Fs.start (s : Fs) : List UInt8 → Option (Slot × List UInt8)
  | [] => none
  | c :: rest =>
    if c = slash then s.task.root.map fun i => (i, rest) else s.task.pwd.map fun i => (i, c :: rest)

/-- The directory of a path. -/
def Fs.dirOf (s : Fs) (path : List UInt8) : Option (ℕ × ℕ) :=
  (s.start path).bind fun p =>
    if s.enterable (s.slotId p.1) then s.dirFrom p.2 [] (s.slotId p.1) else none

/-- What a path leads to. -/
def Fs.resolve (s : Fs) (path : List UInt8) : Option (ℕ × ℕ) :=
  (s.dirOf path).bind fun n => if basename path = [] then some n else s.child n (basename path)

section
variable {live : ℕ → ℕ → Prop} {s₀ s s' : Fs} {held : List Slot} {bufs : List Buffer}

/-! ### One step -/

theorem permission_congr {x y : Inode} (h : x.core = y.core) (hd : x.dev = y.dev) (mask : ℕ)
    (task : Task) : permission x mask task = permission y mask task := by
  have hmode : x.mode = y.mode := (congrArg DInode.mode h :)
  have hlinks : x.nlinks = y.nlinks := (congrArg DInode.nlinks h :)
  have huid : x.uid = y.uid := (congrArg DInode.uid h :)
  have hgid : x.gid = y.gid := (congrArg DInode.gid h :)
  unfold permission
  rw [hmode, hlinks, huid, hgid, hd]

theorem DInode.core_core (d : DInode) : d.core.core = d.core := rfl

theorem Walk.mayEnter_iff (h₀ : Tree live s₀) {i : Slot} (h : Walk live s₀ s (i :: held) bufs)
    (hd : (s.inodes i).dev ≠ 0) : mayEnter s i ↔ s₀.enterable (s.slotId i) := by
  have hcore := h.slot h₀ (h.inTheTree hd)
  have hmode : (s.inodes i).mode = (s₀.nodeInode (s.slotId i)).mode := (congrArg DInode.mode hcore :)
  unfold mayEnter Fs.enterable
  have hsame : (s.inodes i).core = (s₀.nodeInode (s.slotId i)).core := by
    change (s.inodes i).core = (s₀.inodeOf (s.inodes i).dev (s.inodes i).num).core
    rw [← hcore, DInode.core_core]
  rw [hmode, h.task, permission_congr hsame rfl]

theorem mayEnter_links {i : Slot} (hd : (s.inodes i).dev ≠ 0) (h : mayEnter s i) :
    (s.inodes i).nlinks ≠ 0 := by
  intro hz
  have hp := h.2
  unfold permission at hp
  rw [if_pos ⟨hd, hz⟩] at hp
  cases hp

/-- An inode that is held, which `iput` does not throw away. -/
structure Kept (s : Fs) (i : Slot) : Prop where
  dev : (s.inodes i).dev ≠ 0
  links : (s.inodes i).count = 1 → (s.inodes i).nlinks ≠ 0

theorem Kept.put {i : Slot} (hk : Kept s i) (h₀ : Tree live s₀)
    (h : Walk live s₀ s (i :: held) bufs) (hl : bufs.length ≤ 100) :
    (iput i s).Sat (fun _ s' => Walk live s₀ s' held bufs) Gone :=
  (iput_walk h₀ h hl (fun hd => absurd hd hk.dev) fun _ => hk.links).post fun _ _ h => h.1

/-- The inode that an entry leads to. -/
theorem getEntry_walk (h₀ : Tree live s₀) {dir : Slot} {b : Buffer} {j : ℕ}
    (h : Walk live s₀ s (dir :: held) (b :: bufs)) (hl : bufs.length ≤ 90) (hh : held.length ≤ 80)
    (hk : Kept s dir) {child : Option (ℕ × ℕ)} (hled : Led live s₀ s dir child (some (b, j))) :
    (getEntry dir (b, j) s).Sat (fun i s' => Walk live s₀ s' (i :: held) bufs ∧
      (s'.inodes i).dev ≠ 0 ∧ (s'.inodes i).nlinks ≠ 0 ∧
      (s₀.reads = [] → child.map (fun q => s₀.cross q.1 q.2) = some (s'.slotId i))) Gone := by
  obtain ⟨hlive, hlinks, hchild⟩ := hled
  unfold getEntry
  simp only
  have h : Walk live s₀ s (dir :: held) ((some b).toList ++ bufs) := h
  refine (brelse_walk h).bind fun _ s₁ ⟨⟨bcount, hs₁⟩, h₁⟩ => ?_
  have hk₁ : Kept s₁ dir := by
    subst hs₁
    exact ⟨hk.dev, hk.links⟩
  refine (hk₁.put h₀ h₁ (by omega)).bind fun _ s₂ h₂ => ?_
  refine (iget_walk h₀ h₂ (by omega) (by omega) hlive hlinks).post fun i s₃ ⟨h₃, hid⟩ => ?_
  obtain ⟨hlive₃, hlinks₃, -⟩ := h₀.cross hlive hlinks
  rw [← hid] at hlive₃ hlinks₃
  simp only at hlive₃ hlinks₃
  have hd := (h₀.super hlive₃).1
  refine ⟨h₃, hd, ?_, fun hr => ?_⟩
  · rw [← h₃.slot h₀ hlive₃] at hlinks₃
    exact hlinks₃
  · rw [hchild hr, Option.map_some, ← hid]
    rfl

/-! ### The loop of `get_dir` -/

/-- What a call gives that takes one reference, or none if it fails. -/
def Arrived (live : ℕ → ℕ → Prop) (s₀ s' : Fs) (held : List Slot) (bufs : List Buffer)
    (dest : Option (ℕ × ℕ)) : Option Slot → Prop
  | none => Walk live s₀ s' held bufs ∧ (s₀.reads = [] → dest = none)
  | some i => Walk live s₀ s' (i :: held) bufs ∧ Kept s' i ∧
      (s₀.reads = [] → dest = some (s'.slotId i))

theorem walkDir_walk (h₀ : Tree live s₀) (hl : bufs.length ≤ 60) (hh : held.length ≤ 80)
    {path : List UInt8} {name : Name} {inode : Slot} (h : Walk live s₀ s (inode :: held) bufs)
    (hd : (s.inodes inode).dev ≠ 0) (henter : mayEnter s inode) :
    (walkDir path name inode s).Sat (fun r s' =>
      Arrived live s₀ s' held bufs (s₀.dirFrom path name (s.slotId inode)) r ∧
      ∀ i, r = some i → mayEnter s' i) Gone := by
  induction path generalizing name inode s with
  | nil =>
    refine ⟨⟨h, ⟨hd, fun _ => mayEnter_links hd henter⟩, fun _ => rfl⟩, fun i hi => ?_⟩
    rw [← Option.some.inj hi]
    exact henter
  | cons c path ih =>
    unfold walkDir Fs.dirFrom
    split_ifs with hc
    · exact ih h hd henter
    refine (findEntry_walk h₀ h (by omega) (by omega) hd henter.1 (mayEnter_links hd henter)
      name).bind fun r s₁ ⟨h₁, hd₁, hlinks₁, hled⟩ => ?_
    obtain ⟨dir, found⟩ := r
    have hkept : Kept s₁ dir := ⟨hd₁, hlinks₁⟩
    cases found with
    | none =>
      have h₁ : Walk live s₀ s₁ (dir :: held) bufs := h₁
      refine (hkept.put h₀ h₁ (by omega)).bind fun _ s₂ h₂ => ?_
      refine ⟨⟨h₂, fun hr => ?_⟩, fun i hi => nomatch hi⟩
      have hnone : s₀.childEntry (s.inodes inode).dev (s.inodes inode).num name = none := hled hr
      unfold Fs.descend Fs.child Fs.slotId
      rw [hnone]
      rfl
    | some p =>
      obtain ⟨b, j⟩ := p
      have h₁ : Walk live s₀ s₁ (dir :: held) (b :: bufs) := h₁
      refine (getEntry_walk h₀ h₁ (by omega) hh hkept hled).bind
        fun i s₂ ⟨h₂, hd₂, hlinks₂, hid⟩ => ?_
      have hiff := h₂.mayEnter_iff h₀ hd₂
      have hdescend : s₀.reads = [] → s₀.descend (s.slotId inode) name =
          if s₀.enterable (s₂.slotId i) then some (s₂.slotId i) else none := by
        intro hr
        have hchild : s₀.child (s.slotId inode) name = some (s₂.slotId i) := hid hr
        unfold Fs.descend
        rw [hchild, Option.filter_some]
        simp only [decide_eq_true_eq]
      split_ifs with henter₂
      · refine (ih h₂ hd₂ henter₂).post fun r s₃ ⟨harr, hmay⟩ => ⟨?_, hmay⟩
        rw [if_pos (hiff.mp henter₂)] at hdescend
        cases r with
        | none => exact ⟨harr.1, fun hr => by rw [hdescend hr]; exact harr.2 hr⟩
        | some i' => exact ⟨harr.1, harr.2.1, fun hr => by rw [hdescend hr]; exact harr.2.2 hr⟩
      · have hkept₂ : Kept s₂ i := ⟨hd₂, fun _ => hlinks₂⟩
        refine (hkept₂.put h₀ h₂ (by omega)).bind fun _ s₃ h₃ => ?_
        rw [if_neg fun hc => henter₂ (hiff.mpr hc)] at hdescend
        exact ⟨⟨h₃, fun hr => by rw [hdescend hr]; rfl⟩, fun i hi => nomatch hi⟩

theorem walkFrom_walk (h₀ : Tree live s₀) (h : Walk live s₀ s held bufs) (hl : bufs.length ≤ 60)
    (hh : held.length ≤ 80) {i : Slot} (hc : (s₀.inodes i).count ≠ 0) (hd : (s₀.inodes i).dev ≠ 0)
    (path : List UInt8) :
    (walkFrom i path s).Sat (fun r s' => Arrived live s₀ s' held bufs
      (if s₀.enterable (s₀.slotId i) then s₀.dirFrom path [] (s₀.slotId i) else none) r ∧
      ∀ i, r = some i → mayEnter s' i) Gone := by
  obtain ⟨hdev₀, hnum₀, -⟩ := h.same i hc
  obtain ⟨h₁, -⟩ := h.grab h₀ (by omega) fun _ => by
    rw [hdev₀, hnum₀]
    exact h₀.inTree i hd (.inl hc)
  obtain ⟨hdev, hnum, -⟩ := h₁.same i hc
  have hd₁ : ((s.grab i).inodes i).dev ≠ 0 := by
    rw [hdev]
    exact hd
  have hid : (s.grab i).slotId i = s₀.slotId i := Prod.ext hdev hnum
  have hiff := h₁.mayEnter_iff h₀ hd₁
  rw [hid] at hiff
  unfold walkFrom
  simp only
  split_ifs with henter' henter henter
  · rw [← hid]
    exact walkDir_walk h₀ hl hh h₁ hd₁ henter
  · exact absurd (hiff.mpr henter') henter
  · exact absurd (hiff.mp henter) henter'
  · have hkept : Kept (s.grab i) i := by
      refine ⟨hd₁, fun hone => ?_⟩
      have hcount := h₁.count i
      rw [List.count_cons_self] at hcount
      omega
    refine (hkept.put h₀ h₁ (by omega)).bind fun _ s₂ h₂ => ?_
    exact ⟨⟨h₂, fun _ => rfl⟩, fun i hi => nomatch hi⟩

/-- The task has a root and a directory it is in. -/
theorem getDir_walk (h₀ : Tree live s₀) (h : Walk live s₀ s held bufs) (hl : bufs.length ≤ 60)
    (hh : held.length ≤ 80) {root pwd : Slot} (hroot : s₀.task.root = some root)
    (hpwd : s₀.task.pwd = some pwd) (path : List UInt8) :
    (getDir path s).Sat (fun r s' => Arrived live s₀ s' held bufs (s₀.dirOf path) r ∧
      ∀ i, r = some i → mayEnter s' i) Gone := by
  obtain ⟨hdr, hcr⟩ := h₀.task root (.inl hroot)
  obtain ⟨hdp, hcp⟩ := h₀.task pwd (.inr hpwd)
  have htake : ∀ (i : Slot) why, (s₀.inodes i).count ≠ 0 → taskInode (some i) why s = .ok i s := by
    intro i why hc
    have hcount := h.count i
    unfold taskInode
    simp only
    rw [if_neg (by omega)]
  unfold getDir Fs.dirOf Fs.start
  rw [h.task, hroot, htake _ _ hcr, Outcome.bind_ok, h.task, hpwd, htake _ _ hcp, Outcome.bind_ok]
  cases path with
  | nil => exact ⟨⟨h, fun _ => rfl⟩, fun i hi => nomatch hi⟩
  | cons c rest =>
    simp only
    split_ifs with hc
    · exact walkFrom_walk h₀ h hl hh hcr hdr rest
    · exact walkFrom_walk h₀ h hl hh hcp hdp (c :: rest)

/-! ### `dir_namei` and `namei` -/

theorem dirNamei_walk (h₀ : Tree live s₀) (h : Walk live s₀ s held bufs) (hl : bufs.length ≤ 60)
    (hh : held.length ≤ 80) {root pwd : Slot} (hroot : s₀.task.root = some root)
    (hpwd : s₀.task.pwd = some pwd) (path : List UInt8) :
    (dirNamei path s).Sat (fun r s' => Arrived live s₀ s' held bufs (s₀.dirOf path)
      (r.map Prod.fst) ∧ ∀ i name, r = some (i, name) → name = basename path ∧ mayEnter s' i)
      Gone := by
  unfold dirNamei
  refine (getDir_walk h₀ h hl hh hroot hpwd path).bind fun r s₁ ⟨harr, hmay⟩ => ?_
  cases r with
  | none => exact ⟨harr, fun i name hr => nomatch hr⟩
  | some i =>
    refine ⟨harr, fun i' name hr => ?_⟩
    obtain ⟨rfl, rfl⟩ := Prod.mk.inj (Option.some.inj hr)
    exact ⟨rfl, hmay i rfl⟩

theorem Kept.mark {i : Slot} (hk : Kept s i) :
    Kept (s.setInode i { s.inodes i with dirt := true }) i := by
  constructor
  · rw [Fs.setInode_self]
    exact hk.dev
  · rw [Fs.setInode_self]
    exact hk.links

theorem namei_walk (h₀ : Tree live s₀) (h : Walk live s₀ s held bufs) (hl : bufs.length ≤ 60)
    (hh : held.length ≤ 80) {root pwd : Slot} (hroot : s₀.task.root = some root)
    (hpwd : s₀.task.pwd = some pwd) (path : List UInt8) :
    (namei path s).Sat (fun r s' => Arrived live s₀ s' held bufs (s₀.resolve path) r) Gone := by
  unfold namei Fs.resolve
  refine (dirNamei_walk h₀ h hl hh hroot hpwd path).bind fun r s₁ ⟨harr, hmay⟩ => ?_
  cases r with
  | none => exact ⟨harr.1, fun hr => by rw [harr.2 hr]; rfl⟩
  | some p =>
    obtain ⟨dir, name⟩ := p
    obtain ⟨rfl, henter⟩ := hmay dir name rfl
    obtain ⟨h₁, hk₁, hdir⟩ := harr
    simp only
    split_ifs with hempty
    · exact ⟨h₁, hk₁, fun hr => by rw [hdir hr]; rfl⟩
    refine (findEntry_walk h₀ h₁ (by omega) (by omega) hk₁.dev henter.1
      (mayEnter_links hk₁.dev henter) (basename path)).bind fun r s₂ ⟨h₂, hd₂, hlinks₂, hled⟩ => ?_
    obtain ⟨dir', found⟩ := r
    have hk₂ : Kept s₂ dir' := ⟨hd₂, hlinks₂⟩
    cases found with
    | none =>
      have h₂ : Walk live s₀ s₂ (dir' :: held) bufs := h₂
      refine (hk₂.put h₀ h₂ (by omega)).bind fun _ s₃ h₃ => ⟨h₃, fun hr => ?_⟩
      have hnone : s₀.childEntry (s₁.inodes dir).dev (s₁.inodes dir).num (basename path) = none :=
        hled hr
      rw [hdir hr, Option.bind_some]
      unfold Fs.child Fs.slotId
      rw [hnone]
      rfl
    | some p =>
      obtain ⟨b, j⟩ := p
      have h₂ : Walk live s₀ s₂ (dir' :: held) (b :: bufs) := h₂
      refine (getEntry_walk h₀ h₂ (by omega) hh hk₂ hled).bind
        fun i s₃ ⟨h₃, hd₃, hlinks₃, hid⟩ => ?_
      have hk₃ : Kept s₃ i := ⟨hd₃, fun _ => hlinks₃⟩
      have hc := h₃.count i
      rw [List.count_cons_self] at hc
      refine ⟨h₃.mark i (by omega), hk₃.mark, fun hr => ?_⟩
      have hsame : (s₃.setInode i { s₃.inodes i with dirt := true }).slotId i = s₃.slotId i := by
        unfold Fs.slotId
        rw [Fs.setInode_self]
      rw [hsame, ← hid hr, hdir hr]
      rfl

end

end Linux011.Minix
