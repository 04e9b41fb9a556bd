import Mathlib.Order.Basic

/-!
# KosKernel.Pty.Basic

The **pseudo terminal in canonical mode** (`kpty_mwrite_canon_unlocked` and
`kpty_m_special_canon` in `src/kernel/pty.c`) and its line buffer
(`include/kos/kernel/rawbuf.h`).

Bytes typed at the master are kept in the line buffer `ty_canon` until a line is complete, and
go to the slave through `ty_m2s` then. The two I/O buffers are taken to be large enough: they are
the bytes that were ever written to them. Calls follow one another (`kpty_mwrite` takes `ty_lock`
for reading only), and assertions are compiled out. Two local variables are read before anything
was assigned to them; what they hold then is a part of the environment.
-/

namespace KosKernel.Pty

/-- A byte, or `cc_t`. -/
abbrev Byte := BitVec 8

inductive Errno
  | keOk
  | ksUnchanged
  | keNomem
  | kePerm
  | keDestroyed
  /-- An error that an uninitialised variable happens to hold. -/
  | indeterminate
deriving DecidableEq

/-- `KE_ISERR` -/
def Errno.isErr : Errno → Bool
  | .keOk | .ksUnchanged => false
  | _ => true

/-! ### The line buffer -/

/-- `struct krawbuf`. -/
structure Krawbuf where
  /-- `rb_flags & KRAWBUF_FLAG_DEAD` -/
  rbDead : Bool
  rbMaxsize : Nat
  /-- The bytes from `rb_buffer` to `rb_bufpos`. -/
  rbData : List Byte
  /-- The bytes from `rb_buffer` to `rb_bufend`. -/
  rbSize : Nat
deriving DecidableEq

def krawbufInitEx (maxsize : Nat) : Krawbuf where
  rbDead := false
  rbMaxsize := maxsize
  rbData := []
  rbSize := 0

/-- The part of `__krawbuf_write_unlocked` behind the reallocation: the error, `*wsize` and the
buffer. -/
def krawbufCopy (self : Krawbuf) (buf : List Byte) : Errno × Nat × Krawbuf :=
  let copysize := min (self.rbSize - self.rbData.length) buf.length
  (.keOk, copysize, { self with rbData := self.rbData ++ buf.take copysize })

/-- `__krawbuf_write_unlocked`; `nomem` tells whether `realloc` fails. -/
def krawbufWrite (nomem : Bool) (self : Krawbuf) (buf : List Byte) : Errno × Nat × Krawbuf :=
  let bufavail := self.rbSize - self.rbData.length
  if bufavail < buf.length then
    if self.rbDead then (.keDestroyed, 0, self)
    else
      let newsize := (self.rbData.length + buf.length + 63) / 64 * 64
      if self.rbMaxsize < newsize ∧ self.rbMaxsize = self.rbSize then (.kePerm, 0, self)
      else if nomem then (.keNomem, 0, self)
      else krawbufCopy { self with rbSize := min newsize self.rbMaxsize } buf
  else krawbufCopy self buf

/-- `krawbuf_capture_end` -/
def Krawbuf.captureEnd (self : Krawbuf) : Krawbuf := { self with rbData := [] }

/-- `krawbuf_capture_end_inherit` -/
def Krawbuf.captureEndInherit (self : Krawbuf) : Krawbuf :=
  { self with rbData := [], rbSize := 0 }

/-! ### The terminal -/

/-- The fields of `struct termios` that are used here. -/
structure Termios where
  /-- `c_lflag & ECHO` -/
  echo : Bool
  /-- `c_oflag & ONLCR` -/
  onlcr : Bool
  vkill : Byte
  verase : Byte
  vintr : Byte
  vquit : Byte
  veof : Byte
deriving DecidableEq

/-- `struct kpty`. -/
structure Kpty where
  /-- All bytes written to `ty_s2m`. -/
  tyS2m : List Byte
  /-- All bytes written to `ty_m2s`. -/
  tyM2s : List Byte
  tyCanon : Krawbuf
  tyIos : Termios
  /-- Whether there is a foreground process. -/
  tyFproc : Bool
  /-- How often the reader of `ty_m2s` was interrupted. -/
  interrupts : Nat
  /-- How often the foreground process was told to terminate. -/
  terminations : Nat
deriving DecidableEq

/-- What the uninitialised variables of a call hold. -/
structure Stack where
  /-- `new_canon_start`, as an offset from `buf`. -/
  newCanonStart : Nat
  /-- Whether `error` is an error code when `kpty_m_special_canon` starts for a byte. -/
  error : Nat → Bool

def lf : Byte := 10
def cr : Byte := 13

/-- `ERASE` -/
def eraseText : List Byte := [8, 32, 8]

/-- `kpty_s2m_write_crlf_unlocked`: the bytes it writes, with `flush` those from `flush_start` to
`iter`. It compares the two bytes of `crlf` with `sizeof(sizeof(crlf))`, so that it stops behind
the first line feed. -/
def s2mWriteCrlf : List Byte → List Byte → List Byte
  | [], flush => flush
  | ch :: buf, flush => if ch = lf then flush ++ [cr, lf] else s2mWriteCrlf buf (flush ++ [ch])

/-- `kpty_s2m_write_unlocked` -/
def kptyS2mWrite (self : Kpty) (buf : List Byte) : Kpty :=
  { self with tyS2m := self.tyS2m ++ if self.tyIos.onlcr then s2mWriteCrlf buf [] else buf }

def kptyMSpecialCanon (errorIsErr : Bool) (self : Kpty) (ch : Byte) : Errno × Kpty :=
  if ch = self.tyIos.vkill then
    let captureSize := self.tyCanon.rbData.length
    let self := { self with tyCanon := self.tyCanon.captureEnd }
    if self.tyIos.echo then
      -- with nothing to erase, `error` is returned without having been set
      if captureSize = 0 then (if errorIsErr then .indeterminate else .keOk, self)
      else (.keOk, { self with
        tyS2m := self.tyS2m ++ (List.replicate captureSize eraseText).flatten })
    else (.keOk, self)
  else if ch = self.tyIos.verase then
    let didErase := self.tyCanon.rbData ≠ []
    let self := { self with
      tyCanon := { self.tyCanon with rbData := self.tyCanon.rbData.dropLast } }
    (.keOk, if didErase ∧ self.tyIos.echo then { self with tyS2m := self.tyS2m ++ eraseText }
      else self)
  else if ch = self.tyIos.vintr ∨ ch = self.tyIos.vquit then
    let self := if self.tyIos.echo then kptyS2mWrite self [94, 64 + ch, lf] else self
    (.keOk, if self.tyFproc then { self with terminations := self.terminations + 1 } else self)
  else if ch = self.tyIos.veof then
    if self.tyCanon.rbData ≠ [] then
      (.keOk, { self with
        tyM2s := self.tyM2s ++ self.tyCanon.rbData
        tyCanon := self.tyCanon.captureEndInherit })
    else (.keOk, { self with
      tyCanon := self.tyCanon.captureEnd
      interrupts := self.interrupts + 1 })
  else (.ksUnchanged, self)

/-- The pointers of `kpty_mwrite_canon_unlocked`, as offsets from `buf`. -/
structure Cursor where
  iter : Nat
  canonStart : Nat
  newCanonStart : Nat

/-- How a round of the loop ends. -/
inductive Next
  | stop (error : Errno) (self : Kpty)
  | go (self : Kpty) (at' : Cursor)

/-- The echo of typed text. -/
def echoText (self : Kpty) (text : List Byte) : Kpty :=
  if self.tyIos.echo then kptyS2mWrite self text else self

/-- The line buffer is written to the slave. -/
def writeCanon (self : Kpty) : Kpty :=
  { self with
    tyM2s := self.tyM2s ++ self.tyCanon.rbData
    tyCanon := self.tyCanon.captureEndInherit }

/-- The loop from `flush_canon` on, behind the writes to the line buffer and to the master. -/
def flushNext (buf : List Byte) (self : Kpty) (at' : Cursor) : Next :=
  if at'.newCanonStart = at'.iter then
    if at'.iter = buf.length then .stop .keOk (writeCanon self)
    -- `goto again` leaves `canon_start` where it was
    else .go (writeCanon self) at'
  else if at'.iter = buf.length ∨ at'.iter + 1 = buf.length then .stop .keOk self
  else .go self { at' with iter := at'.iter + 1, canonStart := at'.newCanonStart }

/-- The loop from `flush_canon` on. -/
def flushCanon (nomem : Bool) (buf : List Byte) (self : Kpty) (at' : Cursor) : Next :=
  let text := (buf.drop at'.canonStart).take (at'.iter - at'.canonStart)
  let written := krawbufWrite nomem self.tyCanon text
  let self := { self with tyCanon := written.2.2 }
  if written.1.isErr then .stop written.1 self else flushNext buf (echoText self text) at'

/-- A round of the loop of `kpty_mwrite_canon_unlocked`. -/
def canonRound (nomem : Bool) (stack : Stack) (buf : List Byte) (self : Kpty) (at' : Cursor) :
    Next :=
  match buf[at'.iter]? with
  | none => flushCanon nomem buf self at'
  | some ch =>
    if ch = lf then
      flushCanon nomem buf self
        { at' with iter := at'.iter + 1, newCanonStart := at'.iter + 1 }
    else
      -- the control character acts on a line buffer that the text before it is not yet in
      let special := kptyMSpecialCanon (stack.error at'.iter) self ch
      if special.1 = .ksUnchanged then .go special.2 { at' with iter := at'.iter + 1 }
      else if special.1.isErr then .stop special.1 special.2
      else flushCanon nomem buf special.2 { at' with newCanonStart := at'.iter + 1 }

/-- The loop of `kpty_mwrite_canon_unlocked`. -/
def canonLoop (nomem : Bool) (stack : Stack) (buf : List Byte) :
    Nat → Kpty → Cursor → Option (Errno × Kpty)
  | 0, _, _ => none
  | fuel + 1, self, at' =>
    match canonRound nomem stack buf self at' with
    | .stop error self => some (error, self)
    | .go self at' => canonLoop nomem stack buf fuel self at'

/-- `kpty_mwrite_canon_unlocked`; on success `*wsize` is `bufsize`. Every round but the last moves
`iter`. -/
def kptyMwriteCanon (nomem : Bool) (stack : Stack) (self : Kpty) (buf : List Byte) :
    Option (Errno × Kpty) :=
  canonLoop nomem stack buf (buf.length + 1) self ⟨0, 0, stack.newCanonStart⟩

end KosKernel.Pty
