import Linux011.Scheduler
import Mathlib

set_option autoImplicit false

/-!
# fork, exit and waitpid (kernel/fork.c, kernel/exit.c)

The task table between two points where another task can run: a task may sleep while it closes its
files in `do_exit`, in the `schedule` of `release` and of `sys_waitpid`. Memory, files and times are
left out.
-/
namespace Linux011.ProcessTree
open WaitQueue (TaskState)
open Scheduler (NR_TASKS)

def WNOHANG : ℕ := 1
def WUNTRACED : ℕ := 2
/-- `1 << (SIGCHLD - 1)` and `1 << (SIGHUP - 1)`. -/
def sigchld : BitVec 32 := 1 <<< 16
def sighup : BitVec 32 := 1

/-- The child that a call to `waitpid` has released. -/
structure Reaped where
  serial : ℕ
  pid : ℤ
  father : ℤ
  exitCode : ℤ

/-- Where a task is when another one may run. -/
inductive Place where
  | user
  | closing (code : ℤ)
  | waiting (pid : ℤ) (options : ℕ)
  | releasing (child : Reaped)
  | dead

/-- `serial` tells apart the tasks that get the same number one after another. -/
structure Task where
  pid : ℤ
  father : ℤ
  pgrp : ℤ
  session : ℤ
  leader : Bool
  superuser : Bool
  state : TaskState
  signal : BitVec 32
  exitCode : ℤ
  serial : ℕ
  place : Place

/-- `returned` is what `waitpid` has returned so far, with the number of the caller. -/
structure Tasks where
  task : ℕ → Option Task
  lastPid : ℤ
  current : ℕ
  born : ℕ
  returned : List (ℤ × Reaped)

def Tasks.set (s : Tasks) (i : ℕ) (t : Option Task) : Tasks :=
  { s with task := Function.update s.task i t }

/-- A change made to the task in a slot, if there is one. -/
def Tasks.modify (s : Tasks) (i : ℕ) (f : Task → Task) : Tasks := s.set i ((s.task i).map f)

/-! ### fork -/

/-- `if ((++last_pid)<0) last_pid=1`. -/
def nextPid (last : ℤ) : ℤ := if last + 1 < 2147483648 then last + 1 else 1

def pidUsed (task : ℕ → Option Task) (pid : ℤ) : Bool :=
  (List.range NR_TASKS).any fun i => (task i).any fun t => t.pid = pid

/-- The loop of `find_empty_process`, for as many turns as given. -/
def findPid (task : ℕ → Option Task) : ℕ → ℤ → Option ℤ
  | 0, _ => none
  | fuel + 1, last =>
    if pidUsed task (nextPid last) then findPid task fuel (nextPid last) else some (nextPid last)

def findSlot (task : ℕ → Option Task) : Option ℕ :=
  (List.range NR_TASKS).find? fun i => decide (1 ≤ i) && (task i).isNone

/-- `copy_process` for the running task; `memory` says whether there is enough. -/
def copyProcess (s : Tasks) (cur : Task) (nr : ℕ) (memory : Bool) : Tasks :=
  if memory then
    { s.set nr (some { cur with
        pid := s.lastPid, father := cur.pid, signal := 0, leader := false, state := .running,
        serial := s.born, place := .user }) with born := s.born + 1 }
  else s

/-- `sys_fork`: 65 turns are enough to find a number. -/
def sysFork (s : Tasks) (cur : Task) (memory : Bool) : Option Tasks :=
  (findPid s.task (NR_TASKS + 1) s.lastPid).map fun pid =>
    let s := { s with lastPid := pid }
    match findSlot s.task with
    | none => s
    | some nr => copyProcess s cur nr memory

/-! ### exit -/

/-- One turn of the loop over the children: they get task 1 as their father. -/
def reparent (pid : ℤ) (s : Tasks) (i : ℕ) : Tasks :=
  match s.task i with
  | none => s
  | some t =>
    if t.father = pid then
      let s := s.set i (some { t with father := 1 })
      if t.state = .zombie then s.modify 1 fun t => { t with signal := t.signal ||| sigchld } else s
    else s

def enterExit (s : Tasks) (cur : Task) (code : ℤ) : Tasks :=
  ((List.range NR_TASKS).foldl (reparent cur.pid) s).modify s.current fun t =>
    { t with place := .closing code }

/-- One turn of `kill_session`. -/
def hangUp (session : ℤ) (s : Tasks) (i : ℕ) : Tasks :=
  match s.task i with
  | none => s
  | some t =>
    if t.session = session then s.set i (some { t with signal := t.signal ||| sighup }) else s

def killSession (s : Tasks) (session : ℤ) : Tasks :=
  ((List.range NR_TASKS).filter fun i => 1 ≤ i).reverse.foldl (hangUp session) s

def findTask (task : ℕ → Option Task) (pid : ℤ) : Option ℕ :=
  (List.range NR_TASKS).find? fun i => (task i).any fun t => t.pid = pid

/-- `release`: slot 0 is never looked at, and a task that is not found is a panic. -/
def release (s : Tasks) (i : ℕ) : Option Tasks := if i = 0 then none else some (s.set i none)

/-- Number 0 is not looked for. -/
def findFather (task : ℕ → Option Task) (pid : ℤ) : Option ℕ :=
  if pid ≠ 0 then findTask task pid else none

def tellFather (s : Tasks) (pid : ℤ) : Option Tasks :=
  match findFather s.task pid with
  | some i => some (s.modify i fun t => { t with signal := t.signal ||| sigchld })
  | none => release s s.current

/-- The rest of `do_exit`, when the files are closed. -/
def leaveExit (s : Tasks) (cur : Task) (code : ℤ) : Option Tasks :=
  let s := if cur.leader then killSession s cur.session else s
  tellFather (s.modify s.current fun t =>
    { t with state := .zombie, exitCode := code, place := .dead }) cur.father

/-! ### waitpid -/

/-- What a walk through the table has come to; `quiet flag` at its end. -/
inductive Found where
  | stopped (t : Task)
  | zombie (i : ℕ) (t : Task)
  | quiet (flag : Bool)

/-- The children that `waitpid` looks at. -/
def selected (cur : Task) (pid : ℤ) (t : Task) : Bool :=
  if pid > 0 then t.pid = pid
  else if pid = 0 then t.pgrp = cur.pgrp
  else pid = -1 || t.pgrp = -pid

/-- From slot `i` down to 1. -/
def scan (s : Tasks) (cur : Task) (pid : ℤ) (options : ℕ) : ℕ → Bool → Found
  | 0, flag => .quiet flag
  | i + 1, flag => match s.task (i + 1) with
    | none => scan s cur pid options i flag
    | some t =>
      if i + 1 = s.current ∨ t.father ≠ cur.pid ∨ selected cur pid t = false then
        scan s cur pid options i flag
      else match t.state with
        | .stopped =>
          if options &&& WUNTRACED = 0 then scan s cur pid options i flag else .stopped t
        | .zombie => .zombie (i + 1) t
        | _ => scan s cur pid options i true

def putPlace (s : Tasks) (p : Place) : Tasks := s.modify s.current fun t => { t with place := p }

/-- `sys_waitpid` from `repeat` on. -/
def sysWaitpid (s : Tasks) (cur : Task) (pid : ℤ) (options : ℕ) : Option Tasks :=
  match scan s cur pid options (NR_TASKS - 1) false with
  | .stopped _ => some (putPlace s .user)
  | .zombie i t =>
    (release s i).map fun s => putPlace s (.releasing ⟨t.serial, t.pid, t.father, t.exitCode⟩)
  | .quiet false => some (putPlace s .user)
  | .quiet true =>
    if options &&& WNOHANG ≠ 0 then some (putPlace s .user)
    else some (s.modify s.current fun t =>
      { t with state := .interruptible, place := .waiting pid options })

/-! ### Runs -/

/-- What can happen next: the running task goes on, another one is dispatched (task 0 in any state),
    a sleeper is woken, or a signal comes in or is handled. `exit` is a call to `do_exit`. -/
inductive Act where
  | dispatch (i : ℕ)
  | rouse (i : ℕ)
  | signal (i : ℕ) (mask : BitVec 32)
  | sleep (state : TaskState)
  | setsid
  | fork (memory : Bool)
  | exit (code : ℤ)
  | waitpid (pid : ℤ) (options : ℕ)
  | go

def runCurrent (s : Tasks) (cur : Task) : Act → Option Tasks
  | .setsid => match cur.place with
    | .user =>
      if cur.leader ∧ ¬ cur.superuser then some s
      else some (s.modify s.current fun t =>
        { t with leader := true, session := t.pid, pgrp := t.pid })
    | _ => none
  | .fork memory => match cur.place with
    | .user => sysFork s cur memory
    | _ => none
  | .exit code => match cur.place with
    -- task 1 does not exit
    | .user => if s.current = 1 then none else some (enterExit s cur code)
    | _ => none
  | .waitpid pid options => match cur.place with
    | .user => sysWaitpid s cur pid options
    | _ => none
  | .sleep state => match cur.place, state with
    | .dead, _ | _, .zombie => none
    | _, _ => some (s.modify s.current fun t => { t with state := state })
  | .go => match cur.place with
    | .closing code => leaveExit s cur code
    | .waiting pid options =>
      let cur := { cur with signal := cur.signal &&& ~~~sigchld }
      let s := s.set s.current (some cur)
      if cur.signal = 0 then sysWaitpid s cur pid options else some (putPlace s .user)
    | .releasing child => some { putPlace s .user with
        returned := s.returned ++ [(cur.pid, child)] }
    | _ => none
  | _ => none

def step (s : Tasks) : Act → Option Tasks
  | .dispatch i => match s.task i with
    | some t => if t.state = .running ∨ i = 0 then some { s with current := i } else none
    | none => none
  | .rouse i => match s.task i with
    | some t =>
      if t.state = .interruptible ∨ t.state = .uninterruptible then
        some (s.set i (some { t with state := .running }))
      else none
    | none => none
  | .signal i mask => some (s.modify i fun t => { t with signal := mask })
  | a => match s.task s.current with
    | some cur => if cur.state = .running ∨ s.current = 0 then runCurrent s cur a else none
    | none => none

/-- Tasks 0 and 1, the second one running. -/
def boot : Tasks where
  task i := if i = 0 then some ⟨0, -1, 0, 0, false, true, .running, 0, 0, 0, .user⟩
    else if i = 1 then some ⟨1, 0, 0, 0, false, true, .running, 0, 0, 1, .user⟩
    else none
  lastPid := 1
  current := 1
  born := 2
  returned := []

/-- The states of all runs. -/
inductive Reachable : Tasks → Prop where
  | boot : Reachable boot
  | step {s s' : Tasks} (a : Act) (h : Reachable s) (hs : step s a = some s') : Reachable s'

end Linux011.ProcessTree
