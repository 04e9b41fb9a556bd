import KosKernel.BlockFile.Basic

/-!
# KosKernel.BlockFile.Calls

The **calls on a block file**: reading, writing, seeking, truncating and flushing
(`src/kernel/fs/fs-blockfile.c.inl`).

A read or a write first finishes the chunk that is in the buffer, then transfers whole
chunks past the buffer, and puts the last, partial chunk into the buffer. A chunk of user
memory is transferred as a whole (`kbufsize == bf_chunksize`).
-/

namespace KosKernel.BlockFile

open Slice

variable {α : Type}

/-! ### Reading -/

/-- Whole chunks are read directly into the buffer of the user. -/
def readWhole : Nat → Blockfile α → Except Fault (List α × Blockfile α)
  | 0, self => .ok ([], self)
  | count + 1, self => do
      let self ← needChunk self
      let buf ← bftLoadchunk self
      let next ← kblockfileSelectnextchunkWithoutdata self
      let (out, self) ← readWhole count next
      return (slice buf 0 next.bfChunksize ++ out, self)

/-- The last data portion of a read. -/
def readLast (self : Blockfile α) (bufsize : Nat) : Except Fault (List α × Blockfile α) :=
  if bufsize = 0 then .ok ([], self)
  else do
    let self ← needChunk self
    let self ← kblockfileLoadbuffer self
    if self.bfBufpos ≠ 0 ∨ self.bfBufend < bufsize ∨ bufsize = self.bfChunksize then
      .error .assertion
    else .ok (slice self.bfBuffer 0 bufsize, { self with bfBufpos := bufsize })

/-- `_kblockfile_read` from where the cursor is aligned, or the end of the file reached.
The rest of the file is cut down to 32 bits. -/
def readTail (self : Blockfile α) (bufsize : Nat) (out : List α) :
    Except Fault (Errno × List α × Blockfile α) :=
  if bufsize = 0 ∨ self.bfFilesize ≠ self.bfFilesaved then .error .assertion
  else if position self < self.bfFilesize then
    if self.bfBufpos ≠ 0 then .error .assertion
    else do
      let maxread := wrap32 (self.bfFilesize - position self)
      let bufsize := if maxread < bufsize then maxread else bufsize
      let (whole, self) ← readWhole (bufsize / self.bfChunksize) self
      let (last, self) ← readLast self (bufsize % self.bfChunksize)
      return (.keOk, out ++ whole ++ last, self)
  else .ok (.keOk, out, self)

/-- The next chunk is selected when the one in the buffer was read to its end. -/
def readNext (self : Blockfile α) : Except Fault (Blockfile α) :=
  if self.bfBufpos = self.bfChunksize then kblockfileSelectnextchunkWithdata self else .ok self

/-- `_kblockfile_read` from `read_buffer:` on. -/
def readBuffer (self : Blockfile α) (bufsize : Nat) :
    Except Fault (Errno × List α × Blockfile α) :=
  let bufavail := wrap32 (self.bfBufend + 4294967296 - self.bfBufpos)
  let bufavail := if bufsize < bufavail then bufsize else bufavail
  if self.bfChunksize < self.bfBufpos + bufavail then .error .overrun
  else
    let out := slice self.bfBuffer self.bfBufpos bufavail
    let self := { self with bfBufpos := self.bfBufpos + bufavail }
    if bufavail = 0 then .ok (.keOk, out, self)
    else do
      let self ← readNext self
      if bufsize = bufavail then return (.keOk, out, self)
      else readTail self (bufsize - bufavail) out

/-- `_kblockfile_read`: the error, the bytes read and the file. -/
def kblockfileRead (self : Blockfile α) (bufsize : Nat) :
    Except Fault (Errno × List α × Blockfile α) :=
  if self.bfChunksize ≤ self.bfBufpos then .error .assertion
  else if ¬self.canread then .ok (.keAcces, [], self)
  else if self.bufdata then readBuffer self bufsize
  else if self.bfBufpos ≠ 0 then
    if self.bfBufend < self.bfBufpos then .ok (.keOk, [], self)
    else if self.bfBufend = 0 then .error .assertion
    else do
      let self ← needChunk self
      let self ← kblockfileLoadbuffer self
      readBuffer self bufsize
  else if bufsize = 0 then .ok (.keOk, [], self)
  else readTail self bufsize []

/-! ### Writing -/

/-- Whole chunks are written directly from the buffer of the user. -/
def writeWhole : Nat → Blockfile α → List α → Except Fault (Blockfile α)
  | 0, self, _ => .ok self
  | count + 1, self, buf => do
      let self ← needChunk self
      let self ← bftSavechunk self (copy self.bfBuffer 0 (buf.take self.bfChunksize))
      let self ← kblockfileSelectnextchunkWithoutdata self
      writeWhole count self (buf.drop self.bfChunksize)

/-- The chunk of a partial write is loaded if it has bytes of the file; otherwise only the last
chunk of a write is marked as being in the buffer. -/
def writeLoad (self : Blockfile α) (bufdata : Bool) : Except Fault (Blockfile α) :=
  if chunkStart self < self.bfFilesize then kblockfileLoadbuffer self
  else .ok { self with bufdata := bufdata }

/-- The last, partial chunk of a write. -/
def writeLast (self : Blockfile α) (buf : List α) : Except Fault (Blockfile α) :=
  if buf.length = 0 then .ok self
  else do
    let self ← needChunk self
    if self.bfBufpos ≠ 0 then .error .assertion
    else
      let self ← writeLoad self true
      if self.bfChunksize ≤ buf.length then .error .assertion
      else
        .ok { self with
          bfBuffer := copy self.bfBuffer 0 buf
          bfBufpos := buf.length
          bfBufend := max self.bfBufend buf.length
          changed := true }

/-- `endok:` of `_kblockfile_write`: the new file size. -/
def writeEnd (self : Blockfile α) : Blockfile α :=
  { self with bfFilesize := max self.bfFilesize (position self) }

/-- `_kblockfile_write` from where the cursor is aligned. -/
def writeTail (self : Blockfile α) (buf : List α) (wsize : Nat) :
    Except Fault (Errno × Nat × Blockfile α) :=
  if buf.length = 0 ∨ self.bfBufpos ≠ 0 then .error .assertion
  else do
    let count := buf.length / self.bfChunksize
    let rest := buf.drop (count * self.bfChunksize)
    let self ← writeWhole count self buf
    let self ← writeLast self rest
    return (.keOk, wsize + buf.length, writeEnd self)

/-- The next chunk is selected when the one in the buffer was written to its end, and the end
moves behind what was written otherwise. -/
def writeNext (self : Blockfile α) : Except Fault (Blockfile α) :=
  if self.bfBufpos = self.bfChunksize then kblockfileSelectnextchunkWithdata self
  else .ok { self with bfBufend := max self.bfBufend self.bfBufpos }

/-- `_kblockfile_write` from `write_buffer:` on. -/
def writeBuffer (self : Blockfile α) (buf : List α) : Except Fault (Errno × Nat × Blockfile α) :=
  let bufavail := self.bfChunksize - self.bfBufpos
  let bufavail := if buf.length < bufavail then buf.length else bufavail
  let self := { self with
    bfBuffer := copy self.bfBuffer self.bfBufpos (buf.take bufavail)
    bfBufpos := self.bfBufpos + bufavail
    changed := true }
  do
    let self ← writeNext self
    if buf.length = bufavail then return (.keOk, bufavail, writeEnd self)
    else writeTail self (buf.drop bufavail) bufavail

/-- The cursor is moved to the end of the file, for `KBLOCKFILE_FLAG_APPEND`. -/
def appendSeek (self : Blockfile α) : Except Fault (Blockfile α) :=
  let chunkCount := kblockfileChunkcount self
  if ¬self.append then .ok self
  else if self.fcIndex = wrap64 (chunkCount + 18446744073709551615) then
    .ok { self with bfBufpos := self.bfBufend }
  else if self.fcIndex < chunkCount then
    (kblockfileSelectchunk self (chunkCount - 1)).map fun self =>
      { self with bfBufpos := self.bfBufend }
  else .ok self

/-- `_kblockfile_write`: the error, the number of bytes written and the file. An unaligned
chunk behind the end of the file is not loaded, and not marked as being in the buffer
either. -/
def kblockfileWrite (self : Blockfile α) (buf : List α) :
    Except Fault (Errno × Nat × Blockfile α) :=
  if ¬self.canwrite then .ok (.keAcces, 0, self)
  else do
    let self ← appendSeek self
    if self.bufdata then writeBuffer self buf
    else if self.bfBufpos ≠ 0 then
      let self ← needChunk self
      let self ← writeLoad self false
      writeBuffer self buf
    else if buf.length = 0 then return (.keOk, 0, writeEnd self)
    else writeTail self buf 0

/-! ### The other calls -/

inductive Whence where
  | seekSet
  | seekCur
  | seekEnd
  | other
  deriving DecidableEq, Repr

/-- The position to seek to; from the end it is counted backwards. -/
def seekTarget (self : Blockfile α) (off : Int) : Whence → Except Errno Nat
  | .seekSet => .ok (off % 18446744073709551616).toNat
  | .seekCur =>
    if off < 0 ∧ (position self : Int) < -off then .error .keRange
    else .ok ((position self + off) % 18446744073709551616).toNat
  | .seekEnd =>
    let abspos := (off % 18446744073709551616).toNat
    if self.bfFilesize < abspos then .error .keRange else .ok (self.bfFilesize - abspos)
  | .other => .error .keInval

/-- `_kblockfile_seek`: the error, the new position and the file. (`KE_INVAL` is returned with
`bf_lock` still held.) -/
def kblockfileSeek (self : Blockfile α) (off : Int) (whence : Whence) :
    Except Fault (Errno × Nat × Blockfile α) :=
  match seekTarget self off whence with
  | .error error => .ok (error, 0, self)
  | .ok abspos =>
    (kblockfileSelectchunk self (abspos / self.bfChunksize)).map fun self =>
      (.keOk, abspos, { self with bfBufpos := abspos % self.bfChunksize })

/-- `_kblockfile_trunc` up to the new size; a new last chunk is allocated by the search for
it. -/
def truncChunks (self : Blockfile α) (size : Nat) (junk : Nat → Nat → α) : Blockfile α :=
  let oldchunks := ceildiv self self.bfFilesize
  let newchunks := ceildiv self size
  if oldchunks < newchunks then self
  else if newchunks < oldchunks then
    let self := bftReleasechunks self newchunks junk
    if newchunks ≤ self.fcIndex then
      { self with bufdata := false, changed := false, chunk := false, wasprev := false }
    else self
  else if self.fcIndex = wrap64 (newchunks + 18446744073709551615) then
    { self with bfBufend := size % self.bfChunksize }
  else self

/-- `_kblockfile_trunc` -/
def kblockfileTrunc (self : Blockfile α) (size : Nat) (junk : Nat → Nat → α) :
    Errno × Blockfile α :=
  if ¬self.canwrite then (.keAcces, self)
  else (.keOk, { truncChunks self size junk with bfFilesize := size })

/-- `_kblockfile_flush` -/
def kblockfileFlush (self : Blockfile α) : Except Fault (Blockfile α) :=
  kblockfileFlushbuffer self

end KosKernel.BlockFile
