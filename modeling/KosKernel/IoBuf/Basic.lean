import KosKernel.Lib.Slice

/-!
# KosKernel.IoBuf.Basic

The **I/O buffer** (`src/kernel/iobuf-writeimpl.c.inl`,
`src/kernel/iobuf-readimpl.c.inl`, `include/kos/kernel/iobuf.h`): a ring that may
grow up to a maximum size.

`ib_rpos` and `ib_wpos` are offsets into `ib_buffer` here. Both functions hold
`ib_rwlock` for their whole work, so a call is one step. The calls are the
non-blocking ones (`KIO_BLOCKNONE`), without `KIO_PEEK`; assertions are compiled
out. `realloc` may fail, and fills the memory it adds with anything. Sizes do not
overflow: the buffer and the data written both lie in the address space.
-/

namespace KosKernel.IoBuf

open Slice

/-- `struct kiobuf`, over a type of bytes. -/
structure Iobuf (α : Type) where
  ibMaxsize : Nat
  ibSize : Nat
  ibBuffer : Nat → α
  ibRpos : Nat
  ibWpos : Nat

variable {α : Type}

/-- `kiobuf_init_ex`; there is no buffer yet, so its contents are anything. -/
def kiobufInit (maxsize : Nat) (junk : Nat → α) : Iobuf α where
  ibMaxsize := maxsize
  ibSize := 0
  ibBuffer := junk
  ibRpos := 0
  ibWpos := 0

/-- `__kiobuf_maxread` -/
def maxread (self : Iobuf α) (rpos : Nat) : Nat :=
  if rpos < self.ibWpos then self.ibWpos - rpos else self.ibSize - (rpos - self.ibWpos)

/-- `__kiobuf_maxwrite` -/
def maxwrite (self : Iobuf α) (rpos : Nat) : Nat :=
  if self.ibWpos ≤ rpos then rpos - self.ibWpos else self.ibSize - (self.ibWpos - rpos)

inductive Errno where
  | keOk
  | keNomem
  deriving DecidableEq, Repr

/-! ### Writing -/

/-- The environment of a write: whether `realloc` fails, and what it puts into
the memory it adds. -/
structure Heap (α : Type) where
  nomem : Bool
  junk : Nat → α

/-- The buffer after `realloc` to a larger size. An out-of-bounds read position,
the mark of an empty buffer, moves along. -/
def grow (self : Iobuf α) (heap : Heap α) (newSize : Nat) : Iobuf α :=
  { self with
    ibBuffer := fun i => if i < self.ibSize then self.ibBuffer i else heap.junk i
    ibRpos := if self.ibRpos = self.ibSize ∧ self.ibSize ≠ 0 then newSize else self.ibRpos
    ibSize := newSize }

/-- `end:` of `__kiobuf_write_c`. -/
def writeEnd (self : Iobuf α) (error : Errno) (wsize : Nat) : Errno × Nat × Iobuf α :=
  if wsize ≠ 0 ∧ self.ibRpos = self.ibSize then
    -- Prevent the buffer from appearing as though it was empty.
    (error, wsize, { self with ibRpos := 0 })
  else (error, wsize, self)

/-- `__kiobuf_write_c` from the upper copy on; `full` is what follows `goto
buffer_is_full`, with the rest of the data and the value `max_write` has there. -/
def writeCopy (full : Iobuf α → List α → Nat → Nat → Option (Errno × Nat × Iobuf α))
    (self : Iobuf α) (buf : List α) (wsize : Nat) : Option (Errno × Nat × Iobuf α) :=
  -- Copy into the upper portion.
  let upper := self.ibSize - self.ibWpos
  let upper := if self.ibWpos < self.ibRpos then min upper (self.ibRpos - self.ibWpos) else upper
  let upper := min upper buf.length
  let self := { self with
    ibBuffer := copy self.ibBuffer self.ibWpos (buf.take upper)
    ibWpos := self.ibWpos + upper }
  let wsize := wsize + upper
  if buf.length = upper then some (writeEnd self .keOk wsize)
  else
    let buf := buf.drop upper
    if self.ibWpos ≠ self.ibSize then full self buf 0 wsize
    else if self.ibRpos = 0 then full self buf 0 wsize
    else
      -- Copy into the lower portion.
      let lower := min self.ibRpos buf.length
      let self := { self with
        ibBuffer := copy self.ibBuffer 0 (buf.take lower)
        ibWpos := lower }
      let wsize := wsize + lower
      if buf.length = lower then some (writeEnd self .keOk wsize)
      else full self (buf.drop lower) lower wsize

/-- `__kiobuf_write_c` from `buffer_is_full:` on. -/
def writeLoop (heap : Heap α) : Nat → Iobuf α → List α → Nat → Nat →
    Option (Errno × Nat × Iobuf α)
  | 0, _, _, _, _ => none
  | fuel + 1, self, buf, maxWrite, wsize =>
    if maxWrite < buf.length then
      -- Check if the buffer can be reallocated to be large enough.
      let newSize := min (self.ibSize + (buf.length - maxWrite)) self.ibMaxsize
      if newSize ≠ self.ibSize then
        if heap.nomem then some (writeEnd self .keNomem wsize)
        else writeCopy (writeLoop heap fuel) (grow self heap newSize) buf wsize
      else if maxWrite = 0 then some (writeEnd self .keOk wsize)
      else writeCopy (writeLoop heap fuel) self buf wsize
    else writeCopy (writeLoop heap fuel) self buf wsize

/-- `kiobuf_write`: the error, `*wsize` and the buffer. Every round but the last
writes something. -/
def kiobufWrite (heap : Heap α) (self : Iobuf α) (buf : List α) :
    Option (Errno × Nat × Iobuf α) :=
  writeLoop heap (buf.length + 2) self buf (maxwrite self self.ibRpos) 0

/-! ### Reading -/

/-- `end_rpos:` of `__kiobuf_read_c`. -/
def readEnd (self : Iobuf α) (rpos : Nat) (out : List α) : List α × Iobuf α :=
  if out.length = 0 then (out, self)
  else if rpos = self.ibWpos then
    -- The buffer is now empty.
    (out, { self with ibWpos := 0, ibRpos := self.ibSize })
  else (out, { self with ibRpos := rpos })

/-- `kiobuf_read`: the bytes delivered, and the buffer. -/
def kiobufRead (self : Iobuf α) (destsize : Nat) : List α × Iobuf α :=
  let rpos := self.ibRpos
  let maxRead := maxread self rpos
  if maxRead = 0 then readEnd self rpos []
  else
    -- Read upper-half memory.
    let linear := min (min maxRead (self.ibSize - rpos)) destsize
    let out := slice self.ibBuffer rpos linear
    let rpos := rpos + linear
    if destsize = linear ∨ rpos = self.ibWpos then readEnd self rpos out
    else
      -- Read lower-half memory.
      let lower := min self.ibWpos (destsize - linear)
      readEnd self lower (out ++ slice self.ibBuffer 0 lower)

end KosKernel.IoBuf
