import KosKernel.Lib.LinkedList

/-!
# KosKernel.Sync.Addist

The **asynchronous data distributor** (`src/kernel/sched/sync/addist.c.inl`,
`src/kernel/sched/sync/addist-recv.c.inl`, `include/kos/kernel/addist.h`): every
registered ticket is to receive every message, directly if its task is waiting for
one, through a chunk of the distributor's buffer otherwise.

Every section executed under the lock of the signal `ad_nbdat` is one definition.
The memory is one map per field of `struct kaddistticket` and `struct kasyncdata`,
from addresses; `0` is `NULL`. A blocking receive consists of the section that
either finds a chunk or registers the ticket as ready and joins the signal
(`kaddistVrecv`), and the section after a timeout or an interrupt
(`kaddistVrecvFailed`); `_ksignal_vsendall_andunlock_c` drops the lock and then
wakes the waiting tasks one section at a time (`sendone`). A ticket is used by one
call at a time, so the waiting tasks are named by their tickets.

Assertions and the tracking of tickets (`KCONFIG_HAVE_DEBUG_TRACKEDDDIST`) are
compiled out. `kaddist_vtryrecv_unlocked` reads `sd_next` of a chunk it has just
freed; the memory of a freed chunk is taken to stay as it is until the section ends.
-/

namespace KosKernel.Addist

open Function LinkedList

inductive Errno where
  | keOk | ksEmpty | ksFound | ksFull | ksBlocking
  | keBusy | keNomem | keDestroyed | keOverflow | keWouldblock
  deriving DecidableEq, Repr

/-- Where the receive call of a ticket is. -/
inductive Phase where
  /-- There is none. -/
  | idle
  /-- In the queue of the signal. -/
  | waiting
  /-- Woken without data, before `goto again`. -/
  | nodata
  /-- Timed out or interrupted, before the ticket is unregistered. -/
  | failed
  deriving DecidableEq, Repr

/-- `struct kaddist` with the memory of its tickets and chunks. -/
structure Kaddist (α : Type) where
  /-- `KSIGNAL_FLAG_DEAD` of `ad_nbdat` -/
  dead : Bool
  /-- The tasks scheduled in `ad_nbdat`, first to be woken first. -/
  waiting : List Nat
  adReady : Nat
  adKnown : Nat
  adTiready : Nat
  adTnready : Nat
  adChunkmax : Nat
  adChunkc : Nat
  adFront : Nat
  adBack : Nat
  dtPrev : Nat → Nat
  dtNext : Nat → Nat
  dtAsync : Nat → Nat
  sdPending : Nat → Nat
  sdPrev : Nat → Nat
  sdNext : Nat → Nat
  sdData : Nat → α
  /-- The chunks that were allocated and not freed. -/
  heap : List Nat
  phase : Nat → Phase
  /-- The sends that are still waking tasks, with the data they pass on. -/
  sending : List (Option α)

variable {α : Type}

/-- `kaddist_init`; tickets and chunks are still any memory. -/
def kaddistInit (mem : Kaddist α) (chunkmax : Nat) : Kaddist α :=
  { mem with
    dead := false, waiting := []
    adReady := 0, adKnown := 0
    adTiready := 0, adTnready := 0
    adChunkmax := chunkmax, adChunkc := 0
    adFront := 0, adBack := 0
    heap := [], phase := fun _ => .idle, sending := [] }

/-- The largest value of a `KCONFIG_DDIST_USERBITS` bit counter. -/
def userMax : Nat := 4294967295

/-- `_kaddist_genticket_andunlock` -/
def kaddistGenticket (self : Kaddist α) (ticket : Nat) : Errno × Kaddist α :=
  if self.dead then (.keDestroyed, self)
  else if self.adKnown = userMax then (.keOverflow, self)
  else (.keOk, { self with
    adKnown := self.adKnown + 1
    dtAsync := update self.dtAsync ticket 0
    dtNext := update self.dtNext ticket self.adTnready
    dtPrev := linkPrev 0 (update self.dtPrev ticket 0) self.adTnready ticket
    adTnready := ticket })

/-- The first chunk is freed. -/
def freeFront (self : Kaddist α) (chunk : Nat) : Kaddist α :=
  let front := self.sdNext chunk
  { self with
    adChunkc := self.adChunkc - 1
    heap := self.heap.erase chunk
    adFront := front
    adBack := if front = 0 then 0 else self.adBack
    sdPrev := linkPrev 0 self.sdPrev front 0 }

/-- `--chunk->sd_pending` -/
def decPending (self : Kaddist α) (chunk : Nat) : Kaddist α :=
  { self with sdPending := update self.sdPending chunk (self.sdPending chunk - 1) }

/-- The loop of `_kaddist_delticket_andunlock` over the chunks from `iter` on. -/
def dropPending : Nat → Kaddist α → Nat → Option (Kaddist α)
  | 0, _, _ => none
  | fuel + 1, self, iter =>
    let self := decPending self iter
    if self.sdPending iter = 0 then
      let self := freeFront self iter
      if self.adFront = 0 then some self else dropPending fuel self self.adFront
    else
      let iter := self.sdNext iter
      if iter = 0 then some self else dropPending fuel self iter

/-- The ticket is removed from the list of non-ready tickets. -/
def removeTicket (self : Kaddist α) (ticket : Nat) : Kaddist α :=
  let next := self.dtNext ticket
  if ticket = self.adTnready then
    { self with adTnready := next, dtPrev := linkPrev 0 self.dtPrev next 0 }
  else
    { self with
      dtNext := update self.dtNext (self.dtPrev ticket) next
      dtPrev := linkPrev 0 self.dtPrev next (self.dtPrev ticket) }

/-- `_kaddist_delticket_andunlock` -/
def kaddistDelticket (self : Kaddist α) (ticket : Nat) : Option (Kaddist α) :=
  let self := removeTicket self ticket
  let iter := self.dtAsync ticket
  (if iter ≠ 0 then dropPending (self.adChunkc + 1) self iter else some self).map
    fun self => { self with adKnown := self.adKnown - 1 }

/-- `kaddist_vtryrecv_unlocked`: the error, `*buf` and the distributor. -/
def kaddistVtryrecv (self : Kaddist α) (ticket : Nat) : Errno × Option α × Kaddist α :=
  if self.dead then (.keDestroyed, none, self)
  else
    let reschunk := self.dtAsync ticket
    if reschunk ≠ 0 then
      let self := { self with dtAsync := update self.dtAsync ticket (self.sdNext reschunk) }
      let self := decPending self reschunk
      (.keOk, some (self.sdData reschunk),
        if self.sdPending reschunk = 0 then freeFront self reschunk else self)
    else (.keWouldblock, none, self)

/-- The ticket moves to the ready list, and its task into the queue of the signal. -/
def beginReady (self : Kaddist α) (ticket : Nat) : Kaddist α :=
  let next := self.dtNext ticket
  let prev := self.dtPrev ticket
  { self with
    adReady := self.adReady + 1
    adTnready := linkHead 0 self.adTnready prev next
    dtPrev := update (linkPrev 0 self.dtPrev next prev) ticket 0
    -- The old head of the ready list does not get a back link.
    dtNext := update (linkNext 0 self.dtNext prev next) ticket self.adTiready
    adTiready := ticket
    waiting := self.waiting ++ [ticket]
    phase := update self.phase ticket .waiting }

/-- `_kaddist_vrecv_andunlock` from `again:` on, up to where it returns (the error
and `*buf`) or waits (`none`). -/
def kaddistVrecv (self : Kaddist α) (ticket : Nat) : Option (Errno × Option α) × Kaddist α :=
  match kaddistVtryrecv self ticket with
  | (.keWouldblock, _, self) => (none, beginReady self ticket)
  | (error, buf, self) =>
    (some (error, buf), { self with phase := update self.phase ticket .idle })

/-- A waiting task times out or is interrupted, and leaves the queue. -/
def leaveQueue (self : Kaddist α) (ticket : Nat) : Kaddist α :=
  { self with
    waiting := self.waiting.erase ticket
    phase := update self.phase ticket .failed }

/-- `delete_ready_ticket:` -/
def deleteReadyTicket (self : Kaddist α) (ticket : Nat) : Kaddist α :=
  let next := self.dtNext ticket
  let prev := self.dtPrev ticket
  { self with
    adReady := self.adReady - 1
    adTiready := linkHead 0 self.adTiready prev next
    dtPrev := linkPrev 0 (update (linkPrev 0 self.dtPrev next prev) ticket 0)
      self.adTnready ticket
    dtNext := update (linkNext 0 self.dtNext prev next) ticket self.adTnready
    adTnready := ticket }

def kaddistHasreadyticket (self : Kaddist α) (ticket : Nat) : Option Bool := do
  let ready ← walk 0 self.dtNext (self.adKnown + 1) self.adTiready
  return decide (ticket ∈ ready)

/-- `_kaddist_vrecv_andunlock` after `KE_TIMEDOUT` or `KE_INTR`: the ticket may
still be registered as ready. -/
def kaddistVrecvFailed (self : Kaddist α) (ticket : Nat) : Option (Kaddist α) := do
  let ready ← kaddistHasreadyticket self ticket
  let self := if ready then deleteReadyTicket self ticket else self
  return { self with phase := update self.phase ticket .idle }

/-! ### Sending -/

/-- A new chunk behind the last one. -/
def appendChunk (self : Kaddist α) (reschunk : Nat) : Kaddist α :=
  { self with
    adChunkc := self.adChunkc + 1
    heap := reschunk :: self.heap
    sdNext := linkNext 0 (update self.sdNext reschunk 0) self.adBack reschunk
    sdPrev := update self.sdPrev reschunk self.adBack
    adFront := linkHead 0 self.adFront self.adBack reschunk
    adBack := reschunk }

/-- One round of the loop over the tickets that are not ready. -/
def registerChunk (reschunk : Nat) (async : Nat → Nat) (ticket : Nat) : Nat → Nat :=
  if async ticket = 0 then update async ticket reschunk else async

/-- The ready list, whose last ticket is given, is put before the non-ready list. -/
def moveReady (self : Kaddist α) (last : Nat) : Kaddist α :=
  { self with
    dtNext := update self.dtNext last self.adTnready
    dtPrev := linkPrev 0 self.dtPrev self.adTnready last
    adTnready := self.adTiready
    adTiready := 0
    adReady := 0 }

/-- `_kaddist_vsend_andunlock` once there is a chunk for the data. -/
def sendChunk (self : Kaddist α) (buf : α) (recvCount reschunk : Nat) : Option (Kaddist α) := do
  let canUseUnbuffered := self.adReady = recvCount
  let notReady ← walk 0 self.dtNext (self.adKnown + 1) self.adTnready
  let self := { self with
    sdData := update self.sdData reschunk buf
    dtAsync := notReady.foldl (registerChunk reschunk) self.dtAsync }
  if canUseUnbuffered then
    return { self with
      sdPending := update self.sdPending reschunk (self.adKnown - recvCount)
      sending := self.sending ++ [some buf] }
  else
    let self := { self with
      sdPending := update self.sdPending reschunk self.adKnown
      sending := self.sending ++ [none] }
    if self.adTiready ≠ 0 then
      let ready ← walk 0 self.dtNext (self.adKnown + 1) self.adTiready
      let self := { self with
        dtAsync := ready.foldl (fun async t => update async t reschunk) self.dtAsync }
      return moveReady self (ready.getLastD 0)
    else return self

/-- `_kaddist_vsend_andunlock` up to where it drops the lock for good, or for the
wakeup of the waiting tasks; `mem` is what `malloc` returns. -/
def kaddistVsend (self : Kaddist α) (buf : α) (mem : Nat) : Option (Errno × Kaddist α) := do
  if self.dead then return (.keDestroyed, self)
  let recvCount := self.waiting.length
  if recvCount = self.adKnown then
    if self.adTiready = 0 then return (.ksEmpty, self)
    let ready ← walk 0 self.dtNext (self.adKnown + 1) self.adTiready
    let self := moveReady self (ready.getLastD 0)
    return (.keOk, { self with sending := self.sending ++ [some buf] })
  if self.adChunkc = self.adChunkmax then
    -- Re-use the last chunk.
    if self.adBack = 0 then
      if self.adReady = recvCount then
        return (.ksFound, { self with sending := self.sending ++ [some buf] })
      return (.keBusy, self)
    return (.ksFull, ← sendChunk self buf recvCount self.adBack)
  if mem = 0 then return (.keNomem, self)
  return (.ksBlocking, ← sendChunk (appendChunk self mem) buf recvCount mem)

/-- A waiting task is taken out of the queue, with data or without. -/
def wakeTask (self : Kaddist α) (ticket : Nat) (waiting : List Nat) (data : Option α) : Kaddist α :=
  { self with
    waiting := waiting
    phase := update self.phase ticket (if data.isSome then .idle else .nodata) }

/-- One round of `_ksignal_vsendall_andunlock_c`, or of its variant without data,
of one of the sends: it wakes the first waiting task, whose ticket and data are
given, or ends. -/
def sendone (self : Kaddist α) (i : Nat) : Option (Option (Nat × α) × Kaddist α) := do
  let data ← self.sending[i]?
  match self.waiting with
  | [] => return (none, { self with sending := self.sending.eraseIdx i })
  | ticket :: waiting => return (data.map (ticket, ·), wakeTask self ticket waiting data)

/-! ### What is pending -/

/-- The chunks a ticket has not received yet. -/
def pendingChunks (self : Kaddist α) (ticket : Nat) : List Nat :=
  (walk 0 self.sdNext (self.adChunkc + 1) (self.dtAsync ticket)).getD []

/-- The data that a send is about to pass on to the waiting task of a ticket. -/
def inTransit (self : Kaddist α) (ticket : Nat) : List α :=
  if ticket ∈ self.waiting then self.sending.filterMap id else []

end KosKernel.Addist
