import Linux011.FsFiles

set_option autoImplicit false

/-!
# The file table of all tasks (fs/open.c, fs/fcntl.c, fs/pipe.c, fs/exec.c, kernel/fork.c, kernel/exit.c)

A call runs until it sleeps, in `namei`, `open_namei`, `get_pipe_inode`, `bread` or `iput`, and other
tasks run before it goes on. Of inodes there is the number of references to each that `namei`,
`open_namei`, `get_pipe_inode` and `fork` have given and `iput` has not taken back.
-/
namespace Linux011.FileTables
open Minix (File NR_OPEN NR_FILE Slot isChr isBlk O_APPEND EINVAL EBADF EMFILE)

def NR_TASKS : ℕ := 64

abbrev Task := Fin NR_TASKS
abbrev Fd := Fin NR_OPEN
abbrev FileNr := Fin NR_FILE

def EPERM : ℤ := 1
def ENOENT : ℤ := 2
def ENOEXEC : ℤ := 8
def ENOTDIR : ℤ := 20
def O_NONBLOCK : UInt16 := 0o4000

/-- The three inodes of a task. -/
inductive Link where
  | pwd | root | executable
  deriving DecidableEq

instance instFintypeLink : Fintype Link where
  elems := {.pwd, .root, .executable}
  complete l := by cases l <;> decide

/-- What a task does when `iput` has come back to `sys_close`. -/
inductive Next where
  | done
  | dup (oldfd newfd : ℕ)
  | exec (rest : List Fd)
  | exit (rest : List Fd)

/-- Where a task sleeps, with what it holds there. -/
inductive Wait where
  | none
  | opening (fd : Fd) (f : FileNr) (flag : UInt16)
  | openTty (fd : Fd) (f : FileNr) (i : Slot)
  | checking (fd : Fd) (f : FileNr) (flag mode : UInt16) (i : Slot)
  | closing (i : Option Slot) (next : Next)
  | piping (fd₀ fd₁ : Fd) (f₀ f₁ : FileNr)
  | chNamei (l : Link)
  | chPut (l : Link) (i : Slot)
  | putting (i : Slot) (r : ℤ)
  | execNamei (shBang : Bool)
  | execHeld (shBang : Bool) (i : Slot)
  | execInterp (i : Slot)
  | execSwap (i : Slot)
  | exitPut (l : Link)

structure State where
  file : FileNr → File
  filp : Task → Fd → Option FileNr
  closeOnExec : Task → Fd → Bool
  link : Task → Link → Option Slot
  leader : Task → Bool
  tty : Task → ℤ
  alive : Task → Bool
  zombie : Task → Bool
  wait : Task → Wait
  refs : Slot → ℕ

namespace State

def setFilp (s : State) (p : Task) (fd : Fd) (v : Option FileNr) : State :=
  { s with filp := Function.update s.filp p (Function.update (s.filp p) fd v) }

def setClose (s : State) (p : Task) (fd : Fd) (v : Bool) : State :=
  { s with closeOnExec := Function.update s.closeOnExec p (Function.update (s.closeOnExec p) fd v) }

def setFile (s : State) (f : FileNr) (x : File) : State :=
  { s with file := Function.update s.file f x }

def setCount (s : State) (f : FileNr) (n : ℕ) : State := s.setFile f { s.file f with count := n }

def setLink (s : State) (p : Task) (l : Link) (v : Option Slot) : State :=
  { s with link := Function.update s.link p (Function.update (s.link p) l v) }

def setTty (s : State) (p : Task) (v : ℤ) : State := { s with tty := Function.update s.tty p v }

def setWait (s : State) (p : Task) (w : Wait) : State := { s with wait := Function.update s.wait p w }

theorem setWait_self (s : State) (p : Task) (w : Wait) : (s.setWait p w).wait p = w :=
  Function.update_self _ _ _

theorem setWait_ne (s : State) {p q : Task} (w : Wait) (hq : q ≠ p) :
    (s.setWait p w).wait q = s.wait q := Function.update_of_ne hq _ _

/-- References to an inode are given. -/
def grab (s : State) (i : Slot) (n : ℕ) : State :=
  { s with refs := Function.update s.refs i (s.refs i + n) }

end State

/-- How far a call comes. -/
inductive Turn where
  | ret (r : ℤ) (s : State)
  | wait (w : Wait) (s : State)
  | gone (s : State)
  | fileCount
  | freeInode

/-- `iput`, as it is left. -/
def iput (v : Option Slot) (s : State) (next : State → Turn) : Turn :=
  match v with
  | none => next s
  | some i =>
    if s.refs i = 0 then .freeInode
    else next { s with refs := Function.update s.refs i (s.refs i - 1) }

/-! ### `sys_open` -/

/-- The first free descriptor from `arg` on. -/
def firstFd (filp : Fd → Option FileNr) (arg : ℕ) : Option Fd :=
  (List.finRange NR_OPEN).find? fun fd => decide (arg ≤ fd.val ∧ filp fd = none)

def firstFile (file : FileNr → File) : Option FileNr :=
  (List.finRange NR_FILE).find? fun f => decide ((file f).count = 0)

/-- What `open_namei` answers: an error, or an inode with its `i_mode` and `i_zone[0]`. -/
inductive Answer where
  | error (r : ℤ)
  | found (i : Slot) (mode : UInt16) (zone : ℕ)

def sysOpen (p : Task) (flag : UInt16) (s : State) : Turn :=
  match firstFd (s.filp p) 0 with
  | none => .ret (-EINVAL) s
  | some fd =>
    let s := s.setClose p fd false
    match firstFile s.file with
    | none => .ret (-EINVAL) s
    | some f =>
      .wait (.opening fd f flag) ((s.setFilp p fd (some f)).setCount f ((s.file f).count + 1))

/-- The entry is filled. -/
def openEnd (fd : Fd) (f : FileNr) (flag mode : UInt16) (i : Slot) (s : State) : Turn :=
  .ret fd.val (s.setFile f ⟨mode, flag, 1, some i, 0⟩)

def openUndo (p : Task) (fd : Fd) (f : FileNr) (r : ℤ) (s : State) : Turn :=
  .ret r ((s.setFilp p fd none).setCount f 0)

def opened (p : Task) (fd : Fd) (f : FileNr) (flag : UInt16) (a : Answer) (s : State) : Turn :=
  match a with
  | .error r => openUndo p fd f r s
  | .found i mode zone =>
    let s := s.grab i 1
    if isChr mode then
      if zone / 256 = 4 then
        openEnd fd f flag mode i
          (if s.leader p ∧ s.tty p < 0 then s.setTty p (zone % 256 : ℕ) else s)
      else if zone / 256 = 5 ∧ s.tty p < 0 then .wait (.openTty fd f i) s
      else openEnd fd f flag mode i s
    else if isBlk mode then .wait (.checking fd f flag mode i) s
    else openEnd fd f flag mode i s

/-! ### `dupfd` and `sys_close` -/

/-- The count of a file is an unsigned short. -/
def dupfd (p : Task) (fd arg : ℕ) (s : State) : Turn :=
  if h : fd < NR_OPEN then
    match s.filp p ⟨fd, h⟩ with
    | none => .ret (-EBADF) s
    | some f =>
      if arg ≥ NR_OPEN then .ret (-EINVAL) s
      else match firstFd (s.filp p) arg with
      | none => .ret (-EMFILE) s
      | some fd' =>
        .ret fd'.val (((s.setClose p fd' false).setFilp p fd' (some f)).setCount f
          (((s.file f).count + 1) % 65536))
  else .ret (-EBADF) s

/-- What `sys_close` comes to: it is done, or `iput` is next. -/
inductive Closed where
  | done (r : ℤ) (s : State)
  | put (i : Option Slot) (s : State)
  | fileCount

def sysClose (p : Task) (fd : ℕ) (s : State) : Closed :=
  if h : fd < NR_OPEN then
    let s := s.setClose p ⟨fd, h⟩ false
    match s.filp p ⟨fd, h⟩ with
    | none => .done (-EINVAL) s
    | some f =>
      let s := s.setFilp p ⟨fd, h⟩ none
      if (s.file f).count = 0 then .fileCount
      else
        let s := s.setCount f ((s.file f).count - 1)
        if (s.file f).count ≠ 0 then .done 0 s else .put (s.file f).inode s
  else .done (-EINVAL) s

/-- The loop of `do_execve` over `close_on_exec`. -/
def execClose (p : Task) : List Fd → State → Turn
  | [], s => .ret 0 { s with closeOnExec := Function.update s.closeOnExec p fun _ => false }
  | fd :: rest, s =>
    if s.closeOnExec p fd then
      match sysClose p fd s with
      | .done _ s => execClose p rest s
      | .put i s => .wait (.closing i (.exec rest)) s
      | .fileCount => .fileCount
    else execClose p rest s

/-- The loop of `do_exit` over `filp`. -/
def exitClose (p : Task) : List Fd → State → Turn
  | [], s => .wait (.exitPut .pwd) s
  | fd :: rest, s =>
    if (s.filp p fd).isSome then
      match sysClose p fd s with
      | .done _ s => exitClose p rest s
      | .put i s => .wait (.closing i (.exit rest)) s
      | .fileCount => .fileCount
    else exitClose p rest s

/-- `sys_close` has returned `r`. -/
def Next.go (p : Task) (r : ℤ) : Next → State → Turn
  | .done, s => .ret r s
  | .dup oldfd newfd, s => dupfd p oldfd newfd s
  | .exec rest, s => execClose p rest s
  | .exit rest, s => exitClose p rest s

def Closed.turn (p : Task) (next : Next) : Closed → Turn
  | .done r s => next.go p r s
  | .put i s => .wait (.closing i next) s
  | .fileCount => .fileCount

def sysFcntl (p : Task) (fd cmd arg : ℕ) (s : State) : Turn :=
  if h : fd < NR_OPEN then
    match s.filp p ⟨fd, h⟩ with
    | none => .ret (-EBADF) s
    | some f =>
      match cmd with
      | 0 => dupfd p fd arg s
      | 1 => .ret (if s.closeOnExec p ⟨fd, h⟩ then 1 else 0) s
      | 2 => .ret 0 (s.setClose p ⟨fd, h⟩ (arg % 2 = 1))
      | 3 => .ret (s.file f).flags.toNat s
      | 4 =>
        let mask := UInt16.ofNat O_APPEND ||| O_NONBLOCK
        .ret 0 (s.setFile f { s.file f with
          flags := ((s.file f).flags &&& ~~~mask) ||| (UInt16.ofNat arg &&& mask) })
      | _ => .ret (-1) s
  else .ret (-EBADF) s

/-! ### `sys_pipe` -/

def sysPipe (p : Task) (s : State) : Turn :=
  match (List.finRange NR_FILE).filter fun f => decide ((s.file f).count = 0) with
  | f₀ :: f₁ :: _ =>
    match (List.finRange NR_OPEN).filter fun fd => decide (s.filp p fd = none) with
    | fd₀ :: fd₁ :: _ =>
      .wait (.piping fd₀ fd₁ f₀ f₁)
        ((((s.setCount f₀ 1).setCount f₁ 1).setFilp p fd₀ (some f₀)).setFilp p fd₁ (some f₁))
    | _ => .ret (-1) s
  | _ => .ret (-1) s

/-- What `get_pipe_inode` answers. -/
def piped (p : Task) (fd₀ fd₁ : Fd) (f₀ f₁ : FileNr) (a : Option Slot) (s : State) : Turn :=
  match a with
  | none => .ret (-1) ((((s.setFilp p fd₀ none).setFilp p fd₁ none).setCount f₀ 0).setCount f₁ 0)
  | some i =>
    let s := s.grab i 2
    let s := s.setFile f₀ { s.file f₀ with inode := some i, pos := 0, mode := 1 }
    .ret 0 (s.setFile f₁ { s.file f₁ with inode := some i, pos := 0, mode := 2 })

/-! ### Working directory, programs, children -/

/-- `sys_chdir` and `sys_chroot` when `namei` is back, with whether it is a directory. -/
def chFound (l : Link) (a : Option (Slot × Bool)) (s : State) : Turn :=
  match a with
  | none => .ret (-ENOENT) s
  | some (i, isDir) =>
    if isDir then .wait (.chPut l i) (s.grab i 1) else .wait (.putting i (-ENOTDIR)) (s.grab i 1)

/-- What `do_execve` finds in the file: an error, a script, or a program. -/
inductive Header where
  | refused (r : ℤ)
  | script
  | program

def execFound (shBang : Bool) (a : Option Slot) (s : State) : Turn :=
  match a with
  | none => .ret (-ENOENT) s
  | some i => .wait (.execHeld shBang i) (s.grab i 1)

def execHeader (p : Task) (shBang : Bool) (i : Slot) (x : Header) (s : State) : Turn :=
  match x with
  | .refused r => .wait (.putting i r) s
  | .script => if shBang then .wait (.putting i (-ENOEXEC)) s else .wait (.execInterp i) s
  | .program =>
    if (s.link p .executable).isSome then .wait (.execSwap i) s
    else execClose p (List.finRange NR_OPEN) (s.setLink p .executable (some i))

/-- `for (i=0; i<NR_OPEN; i++) if ((f=p->filp[i])) f->f_count++`. -/
def countRow (row : Fd → Option FileNr) : List Fd → (FileNr → File) → FileNr → File
  | [], file => file
  | fd :: rest, file =>
    match row fd with
    | none => countRow row rest file
    | some f =>
      countRow row rest
        (Function.update file f { file f with count := ((file f).count + 1) % 65536 })

/-- An inode that is there gets a reference. -/
def State.share (s : State) (v : Option Slot) : State :=
  match v with
  | none => s
  | some i => s.grab i 1

/-- The end of `copy_process`: the child `c` has what its father `p` has. -/
def copyProcess (p c : Task) (s : State) : State :=
  let s := { s with
    filp := Function.update s.filp c (s.filp p)
    closeOnExec := Function.update s.closeOnExec c (s.closeOnExec p)
    link := Function.update s.link c (s.link p)
    tty := Function.update s.tty c (s.tty p)
    leader := Function.update s.leader c false
    alive := Function.update s.alive c true
    zombie := Function.update s.zombie c false
    file := countRow (s.filp p) (List.finRange NR_OPEN) s.file }
  ((s.share (s.link p .pwd)).share (s.link p .root)).share (s.link p .executable)

def sysSetsid (p : Task) (suser : Bool) (pid : ℤ) (s : State) : Turn :=
  if s.leader p ∧ !suser then .ret (-EPERM) s
  else .ret pid ({ s with leader := Function.update s.leader p true }.setTty p (-1))

/-- `do_exit` has closed all files and puts the inodes of the task, one after the other. -/
def exitPut (p : Task) (l : Link) (s : State) : Turn :=
  iput (s.link p l) s fun s =>
    let s := s.setLink p l none
    match l with
    | .pwd => .wait (.exitPut .root) s
    | .root => .wait (.exitPut .executable) s
    | .executable => .gone { s with zombie := Function.update s.zombie p true }

/-! ### Steps -/

/-- What a call finds where it slept. -/
inductive Reply where
  | answer (a : Answer)
  | pipe (a : Option Slot)
  | dir (a : Option (Slot × Bool))
  | program (a : Option Slot)
  | header (x : Header)
  | interp (r : Option ℤ)
  | back

/-- A call goes on. -/
def resume (p : Task) : Wait → Reply → State → Option Turn
  | .opening fd f flag, .answer a, s => some (opened p fd f flag a s)
  | .openTty fd f i, .back, s => some (iput (some i) s (openUndo p fd f (-EPERM)))
  | .checking fd f flag mode i, .back, s => some (openEnd fd f flag mode i s)
  | .closing v next, .back, s => some (iput v s (next.go p 0))
  | .piping fd₀ fd₁ f₀ f₁, .pipe a, s => some (piped p fd₀ fd₁ f₀ f₁ a s)
  | .chNamei l, .dir a, s => some (chFound l a s)
  | .chPut l i, .back, s => some (iput (s.link p l) s fun s => .ret 0 (s.setLink p l (some i)))
  | .putting i r, .back, s => some (iput (some i) s (.ret r))
  | .execNamei sh, .program a, s => some (execFound sh a s)
  | .execHeld sh i, .header x, s => some (execHeader p sh i x s)
  | .execInterp i, .interp (some r), s => some (iput (some i) s (.ret r))
  | .execInterp i, .interp none, s => some (iput (some i) s (.wait (.execNamei true)))
  | .execSwap i, .back, s =>
    some (iput (s.link p .executable) s fun s =>
      execClose p (List.finRange NR_OPEN) (s.setLink p .executable (some i)))
  | .exitPut l, .back, s => some (exitPut p l s)
  | _, _, _ => none

inductive Syscall where
  | open (flag : UInt16)
  | close (fd : ℕ)
  | dup (fildes : ℕ)
  | dup2 (oldfd newfd : ℕ)
  | fcntl (fd cmd arg : ℕ)
  | pipe
  | chdir
  | chroot
  | execve
  | setsid (suser : Bool) (pid : ℤ)
  | exit

/-- A call begins. -/
def enter (p : Task) : Syscall → State → Turn
  | .open flag, s => sysOpen p flag s
  | .close fd, s => (sysClose p fd s).turn p .done
  | .dup fildes, s => dupfd p fildes 0 s
  | .dup2 oldfd newfd, s => (sysClose p newfd s).turn p (.dup oldfd newfd)
  | .fcntl fd cmd arg, s => sysFcntl p fd cmd arg s
  | .pipe, s => sysPipe p s
  | .chdir, s => .wait (.chNamei .pwd) s
  | .chroot, s => .wait (.chNamei .root) s
  | .execve, s => .wait (.execNamei false) s
  | .setsid suser pid, s => sysSetsid p suser pid s
  | .exit, s => exitClose p (List.finRange NR_OPEN) s

/-- A task that has come so far. -/
def Turn.state (p : Task) : Turn → Option State
  | .ret _ s => some (s.setWait p .none)
  | .wait w s => some (s.setWait p w)
  | .gone s => some (s.setWait p .none)
  | .fileCount => none
  | .freeInode => none

/-- A task can call the kernel. -/
def State.ready (s : State) (p : Task) : Prop :=
  s.alive p = true ∧ s.zombie p = false ∧ s.wait p = .none

/-- What `mount_root` has given to the first two tasks. -/
def State.boot (i : Slot) : State where
  file _ := ⟨0, 0, 0, none, 0⟩
  filp _ _ := none
  closeOnExec _ _ := false
  link p l := if p.val = 1 ∧ l ≠ .executable then some i else none
  leader _ := false
  tty _ := -1
  alive p := p.val ≤ 1
  zombie _ := false
  wait _ := .none
  refs j := if j = i then 2 else 0

/-- Any task begins a call or goes on with one, has a child, or is released by its father. -/
inductive Step (s : State) : State → Prop
  | enter {p : Task} {c : Syscall} {s' : State} : s.ready p → (enter p c s).state p = some s' → Step s s'
  | resume {p : Task} {r : Reply} {t : Turn} {s' : State} : resume p (s.wait p) r s = some t →
      t.state p = some s' → Step s s'
  | fork {p c : Task} : s.ready p → s.alive c = false → Step s (copyProcess p c s)
  | release {p : Task} : s.zombie p = true →
      Step s { s with alive := Function.update s.alive p false, zombie := Function.update s.zombie p false }

end Linux011.FileTables
