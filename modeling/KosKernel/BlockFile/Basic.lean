import KosKernel.Lib.Slice
import Mathlib.Logic.Function.Basic

/-!
# KosKernel.BlockFile.Basic

The **block file** (`src/kernel/fs/fs-blockfile.c.inl`,
`include/kos/kernel/fs/fs-blockfile.h`): a file whose data is kept in chunks of a
backing store, behind a buffer for one of them.

`bf_bufpos` and `bf_bufend` are offsets into `bf_buffer` here, and `bf_bufmax` is
`bf_chunksize`. A position in the file is 64 bits wide, a size in memory 32. Assertions
are checks, and one that fails is a fault. Every call holds `bf_lock` for its whole
work, so a call is one step; the user memory it is given can be accessed.

The callbacks of the store succeed and load what was last saved. What `fc_data` is the
address of is named by the number of the chunk; when chunks are released, addresses of
them are no more.
-/

namespace KosKernel.BlockFile

open Slice

variable {α : Type}

/-- A 64-bit number. -/
def wrap64 (n : Nat) : Nat := n % 18446744073709551616

/-- A 32-bit number. -/
def wrap32 (n : Nat) : Nat := n % 4294967296

inductive Fault where
  /-- An assertion fails. -/
  | assertion
  /-- Memory behind the buffer is accessed. -/
  | overrun
  /-- `fc_data` is not the address of a chunk. -/
  | address
  deriving DecidableEq, Repr

inductive Errno where
  | keOk
  | keAcces
  | keRange
  | keInval
  deriving DecidableEq, Repr

/-- `struct kblockfile` without its references to the directory, with the flags one by
one, and the backing store. -/
structure Blockfile (α : Type) where
  /-- `KBLOCKFILE_FLAG_*` -/
  changed : Bool
  bufdata : Bool
  chunk : Bool
  wasprev : Bool
  append : Bool
  canread : Bool
  canwrite : Bool
  bfChunksize : Nat
  bfBuffer : Nat → α
  bfBufpos : Nat
  bfBufend : Nat
  fcIndex : Nat
  fcData : Option Nat
  bfFilesaved : Nat
  bfFilesize : Nat
  /-- The chunks of the store. -/
  chunks : Nat → Nat → α
  /-- The file size in the store. -/
  size : Nat

/-! ### The store -/

def bftLoadchunk (self : Blockfile α) : Except Fault (Nat → α) :=
  match self.fcData with
  | some i => .ok (self.chunks i)
  | none => .error .address

def bftSavechunk (self : Blockfile α) (buf : Nat → α) : Except Fault (Blockfile α) :=
  match self.fcData with
  | some i => .ok { self with chunks := Function.update self.chunks i buf }
  | none => .error .address

/-- `bft_nextchunk`: from the address of a chunk to that of the next one. -/
def bftNextchunk (self : Blockfile α) : Except Fault (Blockfile α) :=
  match self.fcData with
  | some i => .ok { self with fcData := some (i + 1) }
  | none => .error .address

def bftFindchunk (self : Blockfile α) : Blockfile α := { self with fcData := some self.fcIndex }

def bftSetsize (self : Blockfile α) (fsize : Nat) : Blockfile α := { self with size := fsize }

/-- `bft_releasechunks`; `junk` is what is found there when the chunks are used again. -/
def bftReleasechunks (self : Blockfile α) (count : Nat) (junk : Nat → Nat → α) : Blockfile α :=
  { self with
    chunks := fun i => if i < count then self.chunks i else junk i
    fcData := self.fcData.filter (· < count) }

/-! ### The current chunk -/

/-- `ceildiv` of a file size and the chunk size. -/
def ceildiv (self : Blockfile α) (size : Nat) : Nat :=
  wrap64 (size + (self.bfChunksize - 1)) / self.bfChunksize

def kblockfileChunkcount (self : Blockfile α) : Nat := ceildiv self self.bfFilesize

/-- The position of the start of the current chunk. -/
def chunkStart (self : Blockfile α) : Nat := wrap64 (self.fcIndex * self.bfChunksize)

/-- The position of the cursor. -/
def position (self : Blockfile α) : Nat :=
  wrap64 (self.fcIndex * self.bfChunksize + self.bfBufpos)

def kblockfileUpdatebufend (self : Blockfile α) : Blockfile α :=
  let chunkcount := kblockfileChunkcount self
  if chunkcount ≤ self.fcIndex then { self with bfBufend := 0 }
  else if self.fcIndex = chunkcount - 1 then
    { self with bfBufend := self.bfFilesize % self.bfChunksize }
  else { self with bfBufend := self.bfChunksize }

def kblockfileFlushbuffer (self : Blockfile α) : Except Fault (Blockfile α) :=
  if self.changed then
    if ¬self.bufdata then .error .assertion
    else
      (bftSavechunk self self.bfBuffer).map fun self =>
        let self := { self with changed := false }
        if self.bfFilesaved ≠ self.bfFilesize then
          { bftSetsize self self.bfFilesize with bfFilesaved := self.bfFilesize }
        else self
  else .ok self

def kblockfileLoadbuffer (self : Blockfile α) : Except Fault (Blockfile α) :=
  if kblockfileChunkcount self < self.fcIndex ∨ self.bufdata then .error .assertion
  else (bftLoadchunk self).map fun buf => { self with bfBuffer := buf, bufdata := true }

def kblockfileFindchunk (self : Blockfile α) : Except Fault (Blockfile α) :=
  if self.bufdata then .error .assertion
  else
    (if self.wasprev then bftNextchunk self else .ok (bftFindchunk self)).map
      fun self => { self with chunk := true }

/-- The current chunk is searched for if that is not done yet. -/
def needChunk (self : Blockfile α) : Except Fault (Blockfile α) :=
  if self.chunk then .ok self else kblockfileFindchunk self

/-- What `kblockfile_selectnextchunk_withdata` and `_withoutdata` have in common. -/
def selectnext (self : Blockfile α) : Blockfile α :=
  { kblockfileUpdatebufend
      { self with
        wasprev := self.chunk
        bufdata := false
        chunk := false
        fcIndex := wrap64 (self.fcIndex + 1) } with
    bfBufpos := 0 }

def kblockfileSelectnextchunkWithdata (self : Blockfile α) : Except Fault (Blockfile α) :=
  if ¬self.bufdata then .error .assertion
  else (kblockfileFlushbuffer self).map selectnext

def kblockfileSelectnextchunkWithoutdata (self : Blockfile α) : Except Fault (Blockfile α) :=
  if self.bufdata then .error .assertion else .ok (selectnext self)

/-- `kblockfile_selectchunk` behind the flush. -/
def selectAt (self : Blockfile α) (chunkid : Nat) : Blockfile α :=
  { kblockfileUpdatebufend
      { self with
        wasprev := chunkid = wrap64 (self.fcIndex + 1) ∧ self.chunk
        bufdata := false
        chunk := false
        fcIndex := chunkid } with
    bfBufpos := 0 }

def kblockfileSelectchunk (self : Blockfile α) (chunkid : Nat) : Except Fault (Blockfile α) :=
  if chunkid = self.fcIndex then .ok self
  else
    (if self.bufdata then kblockfileFlushbuffer self else .ok self).map (selectAt · chunkid)

/-! ### Opening -/

/-- The modes that `_kblockfile_open` looks at. -/
structure OpenMode where
  trunc : Bool
  append : Bool
  rdwr : Bool
  wronly : Bool

/-- `_kblockfile_open` of a file in a store. The new buffer holds `junk`. -/
def kblockfileOpen (mode : OpenMode) (chunksize filesize : Nat) (chunks : Nat → Nat → α)
    (junk : Nat → α) : Blockfile α :=
  let truncated : Bool := mode.trunc ∧ filesize ≠ 0
  let filesize := if truncated then 0 else filesize
  { changed := false
    bufdata := false
    chunk := false
    wasprev := false
    append := mode.append
    canread := mode.rdwr ∨ ¬mode.wronly
    canwrite := mode.rdwr ∨ mode.wronly
    bfChunksize := chunksize
    bfBuffer := junk
    bfBufpos := 0
    bfBufend := if filesize < chunksize then filesize else chunksize
    fcIndex := 0
    fcData := none
    bfFilesaved := filesize
    bfFilesize := filesize
    chunks := chunks
    size := filesize }

end KosKernel.BlockFile
