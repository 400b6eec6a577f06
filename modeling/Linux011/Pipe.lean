import Linux011.CooperativeTasks

set_option autoImplicit false

/-!
# Pipes (fs/pipe.c)

`read_pipe` and `write_pipe` as blocks of a cooperative machine: the only point
where another task can run is `sleep_on`. `wake_up(&inode->i_wait)` has no effect
of its own here, since a sleeper may be picked at any time.
-/
namespace Linux011.Pipe
open CooperativeTasks

def PAGE_SIZE : ℕ := 4096

/-- What a pipe inode holds: `i_zone[0]`, `i_zone[1]`, the page at `i_size`, and `i_count`. -/
structure PipeInode where
  head : ℕ
  tail : ℕ
  page : ℕ → UInt8
  count : ℕ

/-- `PIPE_SIZE`: a masked difference, so the sign of the subtraction does not matter. -/
def pipeSize (p : PipeInode) : ℕ := (((p.head : ℤ) - p.tail) % PAGE_SIZE).toNat

/-- `PIPE_TAIL += chars` on an unsigned short, then the mask. -/
def advance (zone chars : ℕ) : ℕ := (zone + chars) % 65536 % PAGE_SIZE

/-- Line by line: the loop tests, the waits, and one turn of each copy loop. A writer reads
    its bytes from user memory `src`; `buf` counts how far the user pointer has moved. -/
inductive Frame where
  | user
  | readTest (count read : ℤ) (buf : ℕ)
  | readEmpty (count read : ℤ) (buf : ℕ)
  | readCopy (count read : ℤ) (buf size chars : ℕ)
  | writeTest (src : ℕ → UInt8) (count written : ℤ) (buf : ℕ)
  | writeFull (src : ℕ → UInt8) (count written : ℤ) (buf : ℕ)
  | writeCopy (src : ℕ → UInt8) (count written : ℤ) (buf size chars : ℕ)

inductive Event where
  | quiet
  | enterRead (count : ℤ)
  | enterWrite (src : ℕ → UInt8) (count : ℤ)
  | got (buf : ℕ) (b : UInt8)
  | put (buf : ℕ) (b : UInt8)
  | exitRead (n : ℤ)
  | exitWrite (n : ℤ)

abbrev Exit := Ctl Frame Unit ℤ

/-- The chunk a pass copies: up to the end of the page, of the request, of what is there. -/
def chunk (zone : ℕ) (count : ℤ) (size : ℕ) : ℕ :=
  let chars : ℤ := PAGE_SIZE - zone
  let chars := if chars > count then count else chars
  let chars := if chars > size then (size : ℤ) else chars
  chars.toNat

def readPipe (s : PipeInode) : Frame → Option (Event × PipeInode × Exit)
  | .readTest count read buf =>
    if count > 0 then some (.quiet, s, .goto (.readEmpty count read buf))
    else some (.exitRead read, s, .ret read)
  | .readEmpty count read buf =>
    if pipeSize s = 0 then
      if s.count ≠ 2 then some (.exitRead read, s, .ret read)
      else some (.quiet, s, .sleep (.readEmpty count read buf))
    else
      let chars := chunk s.tail count (pipeSize s)
      some (.quiet, { s with tail := advance s.tail chars },
        .goto (.readCopy (count - chars) (read + chars) buf s.tail chars))
  | .readCopy count read buf _ 0 => some (.quiet, s, .goto (.readTest count read buf))
  | .readCopy count read buf size (chars + 1) =>
    some (.got buf (s.page size), s, .goto (.readCopy count read (buf + 1) (size + 1) chars))
  | _ => none

def writePipe (s : PipeInode) : Frame → Option (Event × PipeInode × Exit)
  | .writeTest src count written buf =>
    if count > 0 then some (.quiet, s, .goto (.writeFull src count written buf))
    else some (.exitWrite written, s, .ret written)
  | .writeFull src count written buf =>
    if PAGE_SIZE - 1 - pipeSize s = 0 then
      if s.count ≠ 2 then
        let n := if written ≠ 0 then written else -1
        some (.exitWrite n, s, .ret n)
      else some (.quiet, s, .sleep (.writeFull src count written buf))
    else
      let chars := chunk s.head count (PAGE_SIZE - 1 - pipeSize s)
      some (.quiet, { s with head := advance s.head chars },
        .goto (.writeCopy src (count - chars) (written + chars) buf s.head chars))
  | .writeCopy src count written buf _ 0 => some (.quiet, s, .goto (.writeTest src count written buf))
  | .writeCopy src count written buf size (chars + 1) =>
    some (.put buf (src buf), { s with page := Function.update s.page size (src buf) },
      .goto (.writeCopy src count written (buf + 1) (size + 1) chars))
  | _ => none

/-- A task in user mode reads, writes, or lets others run; inside a call it follows the source.
    A writer that finds no reader is also sent SIGPIPE (`current->signal`, no field of the pipe). -/
inductive Block : Frame → PipeInode → Event → PipeInode → Exit → Prop where
  | yield (s : PipeInode) : Block .user s .quiet s (.sleep .user)
  | read (s : PipeInode) (count : ℤ) :
      Block .user s (.enterRead count) s (.call (.readTest count 0 0) ())
  | write (s : PipeInode) (src : ℕ → UInt8) (count : ℤ) :
      Block .user s (.enterWrite src count) s (.call (.writeTest src count 0 0) ())
  | reading {f : Frame} {s s' : PipeInode} {e : Event} {c : Exit}
      (h : readPipe s f = some (e, s', c)) : Block f s e s' c
  | writing {f : Frame} {s s' : PipeInode} {e : Event} {c : Exit}
      (h : writePipe s f = some (e, s', c)) : Block f s e s' c

/-- Other system calls open and close ends of the pipe, which changes `i_count`. -/
def machine : Machine PipeInode Frame Unit ℤ Event where
  block := Block
  resume _ _ := .user
  interrupt s s' := ∃ c, s' = { s with count := c }

/-- `get_pipe_inode`, with any number of tasks in user mode. -/
def initial (T : Type) (page : ℕ → UInt8) : Sys T PipeInode Frame Unit where
  shared := { head := 0, tail := 0, page := page, count := 2 }
  task _ := ⟨.user, []⟩
  running := none

end Linux011.Pipe
