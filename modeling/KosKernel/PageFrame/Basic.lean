import KosKernel.Lib.LinkedList
import Mathlib.Algebra.Group.Nat.Defs

/-!
# KosKernel.PageFrame.Basic

The **page frame allocator** (`src/kernel/pageframe.c` and
`src/kernel/pageframe-alloc.c.inl`), function by function.

The allocator keeps no table of its own: the descriptor of a free region lives
in the first page of the region. Memory is therefore a map from page addresses
to descriptors, split by field. Addresses are the 32-bit byte addresses of the
source; `frameAdd` is its pointer arithmetic on `struct kpageframe *`, with the
wrap at the end of the address space.

Assertions are compiled out, as `assert.h` does under `NDEBUG`, and with them
the debug fill of freed and allocated pages. Each call runs under
`kpagealloc_lock`, so a call is one step. Loops over the free list carry a
bound, `maxFrames`, the number of pages of the address space.
-/

namespace KosKernel.PageFrame

open Function LinkedList

/-- `PAGESIZE`. -/
def pageSize : Nat := 4096

/-- One past the largest value of `uintptr_t`. -/
def addrSpace : Nat := 2 ^ 32

/-- `PAGEFRAME_NIL`, the pointer `(void *)(uintptr_t)-1`. -/
def pageNil : Nat := addrSpace - 1

/-- How many pages the address space has; no free list is longer. -/
def maxFrames : Nat := addrSpace / pageSize

/-- `p+n` for `struct kpageframe *p`. -/
def frameAdd (p n : Nat) : Nat := (p + n * pageSize) % addrSpace

/-- The allocator's globals, and the descriptor fields of every page. -/
structure State where
  /-- `first_free_page`. -/
  firstFreePage : Nat
  pffPrev : Nat → Nat
  pffNext : Nat → Nat
  pffSize : Nat → Nat
  /-- `total_allocated_pages`, a `size_t` that the boot code lets roll over. -/
  totalAllocatedPages : Nat

/-- The allocator before any region is known. -/
def State.empty : State where
  firstFreePage := pageNil
  pffPrev := fun _ => 0
  pffNext := fun _ => 0
  pffSize := fun _ => 0
  totalAllocatedPages := 0

namespace State

@[simp] def setPrev (s : State) (p q : Nat) : State := { s with pffPrev := update s.pffPrev p q }
@[simp] def setNext (s : State) (p q : Nat) : State := { s with pffNext := update s.pffNext p q }
@[simp] def setSize (s : State) (p n : Nat) : State := { s with pffSize := update s.pffSize p n }
@[simp] def setFirst (s : State) (p : Nat) : State := { s with firstFreePage := p }

/-- `if (p->pff_next != NIL) p->pff_next->pff_prev = q;` -/
@[simp] def backlinkNext (s : State) (p q : Nat) : State :=
  { s with pffPrev := linkPrev pageNil s.pffPrev (s.pffNext p) q }

/-- `if (p->pff_prev != NIL) p->pff_prev->pff_next = q; else first_free_page = q;` -/
@[simp] def forwardPrev (s : State) (p q : Nat) : State :=
  { s with
    pffNext := linkNext pageNil s.pffNext (s.pffPrev p) q
    firstFreePage := linkHead pageNil s.firstFreePage (s.pffPrev p) q }

/-- `total_allocated_pages -= n` -/
def subAllocated (s : State) (n : Nat) : State :=
  { s with totalAllocatedPages := (s.totalAllocatedPages + addrSpace - n % addrSpace) % addrSpace }

/-- `total_allocated_pages += n` -/
def addAllocated (s : State) (n : Nat) : State :=
  { s with totalAllocatedPages := (s.totalAllocatedPages + n) % addrSpace }

end State

/-- The list surgery shared by `kpageframe_free` and `__kpageframe_alloc_many`:
the page `start` takes over the list position of `iter`. -/
def takePlace (s : State) (start iter : Nat) : State :=
  let s := s.setNext start (s.pffNext iter)
  let s := s.backlinkNext start start
  let s := s.setPrev start (s.pffPrev iter)
  s.forwardPrev start start

/-! ### Freeing -/

/-- `kpageframe_free`, the given region ends where `iter` starts: it takes over
the list position of `iter`. -/
def mergeBefore (s : State) (start n iter : Nat) : State :=
  let s := takePlace s start iter
  s.setSize start (n + s.pffSize iter)

/-- `kpageframe_free`, the given region starts where `iter` ends: `iter` grows,
and swallows its successor when the two now touch. -/
def mergeAfter (s : State) (n iter : Nat) : State :=
  let s := s.setSize iter (s.pffSize iter + n)
  if s.pffNext iter = frameAdd iter (s.pffSize iter) ∧ s.pffNext iter ≠ pageNil then
    let s := s.setSize iter (s.pffSize iter + s.pffSize (s.pffNext iter))
    let s := s.setNext iter (s.pffNext (s.pffNext iter))
    s.backlinkNext iter iter
  else s

/-- `kpageframe_free`, insert a new list entry before `iter`. -/
def insertBefore (s : State) (start n iter : Nat) : State :=
  let s := s.setSize start n
  let s := s.setPrev start (s.pffPrev iter)
  let s := s.forwardPrev start start
  let s := s.setNext start iter
  s.setPrev iter start

/-- `kpageframe_free`, append a new list entry behind the last one. -/
def appendAfter (s : State) (start n iter : Nat) : State :=
  let s := s.setNext iter start
  let s := s.setPrev start iter
  let s := s.setNext start pageNil
  s.setSize start n

/-- The search loop of `kpageframe_free`. -/
def freeLoop (start n : Nat) : Nat → Nat → State → Option State
  | 0, _, _ => none
  | fuel + 1, iter, s =>
    let regionEnd := frameAdd start n
    if regionEnd = iter then some (mergeBefore s start n iter)
    else if frameAdd iter (s.pffSize iter) = start then some (mergeAfter s n iter)
    else if regionEnd < iter then some (insertBefore s start n iter)
    else if s.pffNext iter = pageNil then some (appendAfter s start n iter)
    else freeLoop start n fuel (s.pffNext iter) s

def kpageframeFree (s : State) (start n : Nat) : Option State :=
  if s.firstFreePage = pageNil then
    -- Special case: first free region.
    let s := s.setFirst start
    let s := s.setSize start n
    let s := s.setPrev start pageNil
    let s := s.setNext start pageNil
    some (s.subAllocated n)
  else
    (freeLoop start n maxFrames s.firstFreePage s).map (·.subAllocated n)

/-! ### Allocating -/

/-- `__kpageframe_alloc_one`: take the first page of the first region. The page
counter is not touched here. -/
def kpageframeAllocOne (s : State) : Nat × State :=
  let result := s.firstFreePage
  if result = pageNil then (pageNil, s)
  else if s.pffSize result ≠ 1 then
    -- Split the page.
    let split := frameAdd result 1
    let s := s.setFirst split
    let s := s.setPrev split pageNil
    let s := s.setNext split (s.pffNext result)
    let s := s.setSize split (s.pffSize result - 1)
    (result, s.backlinkNext result split)
  else
    -- First page frame is now empty (move on to the next).
    let s := s.setFirst (s.pffNext result)
    (result, { s with pffPrev := linkPrev pageNil s.pffPrev s.firstFreePage pageNil })

/-- The tail of `__kpageframe_alloc_many`: cut `n` pages off the front of the
region `iter`. -/
def takeFront (s : State) (n iter : Nat) : State :=
  if s.pffSize iter = n then
    -- Exception: the free page is an exact fit.
    let s := s.backlinkNext iter (s.pffPrev iter)
    s.forwardPrev iter (s.pffNext iter)
  else
    let split := frameAdd iter n
    let s := takePlace s split iter
    s.setSize split (s.pffSize iter - n)

/-- The search loop of `__kpageframe_alloc_many`. -/
def allocLoop (n : Nat) : Nat → Nat → State → Option (Nat × State)
  | 0, _, _ => none
  | fuel + 1, iter, s =>
    if iter = pageNil then some (pageNil, s)
    else if n ≤ s.pffSize iter then some (iter, (takeFront s n iter).addAllocated n)
    else allocLoop n fuel (s.pffNext iter) s

/-- `__kpageframe_alloc_many`. -/
def kpageframeAllocMany (s : State) (n : Nat) : Option (Nat × State) :=
  allocLoop n (maxFrames + 1) s.firstFreePage s

/-! ### Reading the free list -/

/-- The regions met by following `pff_next` from a page: start and page count. -/
def regionsFrom (s : State) : Nat → Nat → List (Nat × Nat)
  | 0, _ => []
  | fuel + 1, p => if p = pageNil then [] else (p, s.pffSize p) :: regionsFrom s fuel (s.pffNext p)

/-- The free list: what every walk over it (`kpageframe_getinfo`, say) sees. -/
def regions (s : State) : List (Nat × Nat) := regionsFrom s maxFrames s.firstFreePage

/-- The addresses of `n` consecutive pages. -/
def pagesOf (start n : Nat) : Set Nat := {a | ∃ i < n, a = start + i * pageSize}

/-- The free pages: those of the listed regions. -/
def freePages (s : State) : Set Nat := {a | ∃ r ∈ regions s, a ∈ pagesOf r.1 r.2}

end KosKernel.PageFrame
