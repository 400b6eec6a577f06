import Linux011.PageSteps
import Linux011.MemoryChains

set_option autoImplicit false

/-!
# The kernel's allocator (lib/malloc.c)

`bucket_dir` has one chain of bucket descriptors for each size. A descriptor is 16 bytes of a
page taken for descriptors: `page`, `next`, `freeptr`, and `refcnt` and `bucket_size` in one
word. The free objects of a bucket page are chained through their own first words. Addresses
are byte addresses and memory is read and written a word at a time.
-/
namespace Linux011.Malloc
open Memory Chains

structure Kernel where
  mm : Mm
  /-- `bucket_dir[i].chain` -/
  chain : ℕ → ℕ
  freeBucketDesc : ℕ

def word (m : Mm) (a : ℕ) : ℕ := m.mem (a / 4096) (a % 4096 / 4)
def setWord (m : Mm) (a v : ℕ) : Mm := m.write (a / 4096) (a % 4096 / 4) v

section
variable (m : Mm) (d v : ℕ)

def page : ℕ := word m d
def next : ℕ := word m (d + 4)
def freeptr : ℕ := word m (d + 8)
/-- The lower of the two shorts at the end of a descriptor. -/
def refcnt : ℕ := word m (d + 12) % 65536

def setPage : Mm := setWord m d v
def setNext : Mm := setWord m (d + 4) v
def setFreeptr : Mm := setWord m (d + 8) v
def setRefcnt : Mm := setWord m (d + 12) (v % 65536 + 65536 * (word m (d + 12) / 65536))
def setBucketSize : Mm := setWord m (d + 12) (word m (d + 12) % 65536 + 65536 * (v % 65536))

end

/-- The `size` fields of `bucket_dir`, with the end of list marker. -/
def bucketSizes : List ℕ := [16, 32, 64, 128, 256, 512, 1024, 2048, 4096, 0]

def bucketSize (i : ℕ) : ℕ := bucketSizes.getD i 0

inductive Panic where
  | noDescriptors
  | badArg
  | outOfMemory
  | badAddress
  | chainsCorrupted
  | freePage (why : Stop)
  deriving DecidableEq

inductive Outcome (α : Type) where
  | returned (a : α) (k : Kernel)
  | panicked (why : Panic)
  | looping

def Outcome.bind {α β : Type} : Outcome α → (α → Kernel → Outcome β) → Outcome β
  | .returned a k, f => f a k
  | .panicked why, _ => .panicked why
  | .looping, _ => .looping

/-- How many turns a loop over a chain is followed for. -/
def turns : ℕ := 8192

/-- `for (; i > 1; i--) { *(a + off) = a + step; a += step; }`, with the last `a`. -/
def linkUp (step off : ℕ) : ℕ → ℕ → Mm → Mm × ℕ
  | 0, a, m => (m, a)
  | n + 1, a, m => linkUp step off n (a + step) (setWord m (a + off) (a + step))

def initBucketDesc (k : Kernel) : Outcome Unit :=
  match getFreePage k.mm with
  | none => .panicked .noDescriptors
  | some (p, mm) =>
    let first := p * 4096
    let r := linkUp 16 4 (4096 / 16 - 1) first mm
    .returned () { k with mm := setNext r.1 r.2 k.freeBucketDesc, freeBucketDesc := first }

/-- The bucket chosen by the first loop of `malloc`; none at the end marker. -/
def bucketFor (len : ℕ) : List ℕ → ℕ → Option ℕ
  | [], _ => none
  | size :: rest, i =>
    if size = 0 then none else if size ≥ len then some i else bucketFor len rest (i + 1)

/-- `bdesc = free_bucket_desc; free_bucket_desc = bdesc->next;` and the rest of the branch of
    `malloc` that sets up a page of objects. -/
def fillBucket (i : ℕ) (k : Kernel) : Outcome ℕ :=
  let bdesc := k.freeBucketDesc
  let mm := setBucketSize (setRefcnt k.mm bdesc 0) bdesc (bucketSize i)
  match getFreePage mm with
  | none => .panicked .outOfMemory
  | some (p, m) =>
    let m := setPage (setFreeptr m bdesc (p * 4096)) bdesc (p * 4096)
    let r := linkUp (bucketSize i) 0 (4096 / bucketSize i - 1) (p * 4096) m
    .returned bdesc
      { mm := setNext (setWord r.1 r.2 0) bdesc (k.chain i)
        chain := Function.update k.chain i bdesc
        freeBucketDesc := next k.mm bdesc }

def newBucket (i : ℕ) (k : Kernel) : Outcome ℕ :=
  (if k.freeBucketDesc = 0 then initBucketDesc k else .returned () k).bind fun _ k => fillBucket i k

/-- The end of `malloc`. -/
def takeObject (bdesc : ℕ) (k : Kernel) : Outcome ℕ :=
  let retval := freeptr k.mm bdesc
  let mm := setFreeptr k.mm bdesc (word k.mm retval)
  .returned retval { k with mm := setRefcnt mm bdesc (refcnt mm bdesc + 1) }

def malloc (len : ℕ) (k : Kernel) : Outcome ℕ :=
  match bucketFor len bucketSizes 0 with
  | none => .panicked .badArg
  | some i =>
    match walk 0 (next k.mm) (fun d => freeptr k.mm d ≠ 0) turns (k.chain i) with
    | none => .looping
    | some bdesc =>
      (if bdesc = 0 then newBucket i k else .returned bdesc k).bind takeObject

inductive Search where
  | found (i prev bdesc : ℕ)
  | missing
  | looping
  deriving DecidableEq

/-- The search of `free_s`, over the rest of `bucket_dir` from its entry `i` on. -/
def search (k : Kernel) (pg : ℕ) (size : ℤ) : List ℕ → ℕ → Search
  | [], _ => .missing
  | s :: rest, i =>
    if s = 0 then .missing
    else if (s : ℤ) < size then search k pg size rest (i + 1)
    else match walkPrev 0 (next k.mm) (fun d => page k.mm d = pg) turns 0 (k.chain i) with
      | none => .looping
      | some (prev, bdesc) =>
        if bdesc = 0 then search k pg size rest (i + 1) else .found i prev bdesc

/-- `free_page(bdesc->page)` and the descriptor back on the free list. -/
def releaseBucket (bdesc : ℕ) (k : Kernel) : Outcome Unit :=
  match Memory.freePage (page k.mm bdesc / 4096) k.mm with
  | .stop why _ => .panicked (.freePage why)
  | .ok _ mm =>
    .returned () { k with mm := setNext mm bdesc k.freeBucketDesc, freeBucketDesc := bdesc }

/-- `prev` is looked for again when it is no longer the node before `bdesc`. -/
def unlinkBucket (i prev bdesc : ℕ) (k : Kernel) : Outcome Unit :=
  let again := (prev ≠ 0 ∧ next k.mm prev ≠ bdesc) ∨ (prev = 0 ∧ k.chain i ≠ bdesc)
  match if again then walk 0 (next k.mm) (fun p => next k.mm p = bdesc) turns (k.chain i)
    else some prev with
  | none => .looping
  | some prev =>
    if prev ≠ 0 then releaseBucket bdesc { k with mm := setNext k.mm prev (next k.mm bdesc) }
    else if k.chain i ≠ bdesc then .panicked .chainsCorrupted
    else releaseBucket bdesc
      { k with chain := Function.update k.chain i (next k.mm bdesc) }

/-- The object at the head of the free chain; `refcnt--` is on an unsigned short. -/
def giveObject (obj bdesc : ℕ) (m : Mm) : Mm :=
  let m := setFreeptr (setWord m obj (freeptr m bdesc)) bdesc obj
  setRefcnt m bdesc (refcnt m bdesc + 65535)

def freeS (obj : ℕ) (size : ℤ) (k : Kernel) : Outcome Unit :=
  match search k (obj - obj % 4096) size bucketSizes 0 with
  | .looping => .looping
  | .missing => .panicked .badAddress
  | .found i prev bdesc =>
    let mm := giveObject obj bdesc k.mm
    if refcnt mm bdesc = 0 then unlinkBucket i prev bdesc { k with mm := mm }
    else .returned () { k with mm := mm }

end Linux011.Malloc
