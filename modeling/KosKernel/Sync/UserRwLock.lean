import KosKernel.Lib.Holders

/-!
# KosKernel.Sync.UserRwLock

The **read/write lock of user space** (`include/kos/sync-rwlock.h`), used by any number of
threads.

The lock is one futex word: the write flag, or the number of readers. Every atomic operation on
the word and every futex call is one step; a thread is at one of the program points `Pc` between
two of them, with the value it loaded. `KFUTEX_RECVIF` blocks only if its condition holds at that
step, and `kfutex_sendall` wakes every thread that is blocked then. `debug` is the configuration:
`krwlock_endread` is a loop with it, and one decrement without.

Next to the word the state records what each thread holds, and whether another thread has had the
write lock since a thread was granted its read lock.
-/

namespace KosKernel.UserRwLock

open Function

/-- The results of the calls; `KS_` results are signals, not errors. -/
inductive Errno
  | keOk | ksUnchanged | ksEmpty | ksUnlocked
  | keWouldblock | keOverflow | keTimedout | keNomem | keFault
deriving DecidableEq

/-- The operations of the lock, without their `krwlock_` prefix in the source. -/
inductive Call
  | beginread | trybeginread | endread
  | beginwrite | trybeginwrite | endwrite
  | upgrade | tryupgrade | downgrade
deriving DecidableEq

/-- `_KRWLOCK_WRITEMODE` -/
def writemode : BitVec 32 := 0x80000000

/-- `_KRWLOCK_READCOUNT` -/
def readcount : BitVec 32 := 0x7fffffff

/-- Where a thread is between two steps. -/
inductive Pc
  | idle
  /-- In `krwlock_trybeginread`, before the load and before `katomic_cmpxch`. -/
  | readLoad | readCas (oldval : BitVec 32)
  /-- In `krwlock_timedbeginread`, before `kfutex_cmd` and blocked in it. -/
  | readRecv | readBlocked
  /-- In `krwlock_trybeginwrite`, before the load and before `katomic_cmpxch`. -/
  | writeLoad | writeCas (oldval : BitVec 32)
  /-- In `krwlock_timedbeginwrite`, before `kfutex_cmd` and blocked in it. -/
  | writeRecv | writeBlocked
  /-- In `krwlock_endread`: the loop with `__DEBUG__`, the decrement without. -/
  | endreadLoad | endreadCas (oldval : BitVec 32) | endreadFetch
  | endwriteFetch
  | downgradeCas
  /-- In `krwlock_timedupgrade` and `krwlock_tryupgrade`. -/
  | upgradeLoad | upgradeCas (oldval : BitVec 32)
  /-- Before `kfutex_sendall`. -/
  | send
deriving DecidableEq

/-- What `krwlock_trybeginread` does with a value of the word: its error, or the attempt. -/
def trybeginread (oldval : BitVec 32) : Errno :=
  if oldval &&& writemode ≠ 0 then .keWouldblock
  else if oldval &&& readcount = readcount then .keOverflow
  else .keOk

/-- What `krwlock_trybeginwrite` does with a value of the word. -/
def trybeginwrite (oldval : BitVec 32) : Errno :=
  if oldval ≠ 0 then .keWouldblock else .keOk

variable {T : Type}

/-- One lock and its users. -/
structure State (T : Type) where
  rwFutex : BitVec 32
  holders : Holders T
  /-- Whether another thread has held the write lock since the read lock of a thread, or the
  first of them, was granted. -/
  disturbed : T → Bool
  pc : T → Pc
  /-- The call a thread is in, or was in last. -/
  call : T → Call
  /-- What that call returned, once it has. -/
  result : T → Option Errno

/-- `KRWLOCK_INIT`, before any thread has used the lock. -/
def State.init : State T where
  rwFutex := 0
  holders := .nobody
  disturbed := fun _ => false
  pc := fun _ => .idle
  call := fun _ => .endwrite
  result := fun _ => none

variable [DecidableEq T]

namespace State

/-- The thread continues at another program point. -/
def goto (s : State T) (t : T) (p : Pc) : State T := { s with pc := update s.pc t p }

/-- The call of the thread returns. -/
def ret (s : State T) (t : T) (e : Errno) : State T :=
  { s with pc := update s.pc t .idle, result := update s.result t (some e) }

/-- The word gets a value that lets the thread read. -/
def grantRead (s : State T) (t : T) (newval : BitVec 32) : State T :=
  { s with
    rwFutex := newval
    holders := s.holders.addReader t
    disturbed :=
      if s.holders.reads t = 0 then update s.disturbed t false else s.disturbed }

/-- The word gets a value that lets the thread write. -/
def grantWrite (s : State T) (t : T) (newval : BitVec 32) : State T :=
  { s with
    rwFutex := newval
    holders := s.holders.setWriter t
    disturbed := fun u => if u = t then s.disturbed u else true }

/-- The word gets a value without a read lock of the thread. -/
def dropRead (s : State T) (t : T) (newval : BitVec 32) : State T :=
  { s with rwFutex := newval, holders := s.holders.delReader t }

/-- The word gets a value without the write lock of the thread. -/
def dropWrite (s : State T) (t : T) (newval : BitVec 32) : State T :=
  { s with rwFutex := newval, holders := s.holders.delWriter t }

end State

/-- Where a blocked thread continues when it is woken. -/
def Pc.woken : Pc → Pc
  | .readBlocked => .readLoad
  | .writeBlocked => .writeLoad
  | p => p

/-- The next step of a thread that is in a call and not blocked. -/
def exec [Fintype T] (s : State T) (t : T) : Option (State T) :=
  match s.pc t with
  | .idle | .readBlocked | .writeBlocked => none
  | .readLoad =>
    match trybeginread s.rwFutex with
    | .keOk => some (s.goto t (.readCas s.rwFutex))
    | .keWouldblock =>
      if s.call t = .beginread then some (s.goto t .readRecv) else some (s.ret t .keWouldblock)
    | e => some (s.ret t e)
  | .readCas oldval =>
    if s.rwFutex = oldval then some ((s.grantRead t (oldval + 1)).ret t .keOk)
    else some (s.goto t .readLoad)
  | .readRecv =>
    -- otherwise the call returns `KE_AGAIN`
    if s.rwFutex &&& writemode ≠ 0 then some (s.goto t .readBlocked)
    else some (s.goto t .readLoad)
  | .writeLoad =>
    match trybeginwrite s.rwFutex with
    | .keOk => some (s.goto t (.writeCas s.rwFutex))
    | e => if s.call t = .trybeginwrite then some (s.ret t e) else some (s.goto t .writeRecv)
  | .writeCas oldval =>
    if s.rwFutex = oldval then
      some ((s.grantWrite t (oldval ||| writemode)).ret t
        (if s.call t = .upgrade then .ksUnlocked else .keOk))
    else some (s.goto t .writeLoad)
  | .writeRecv =>
    if s.rwFutex ≠ 0 then some (s.goto t .writeBlocked) else some (s.goto t .writeLoad)
  | .endreadLoad => some (s.goto t (.endreadCas s.rwFutex))
  | .endreadCas oldval =>
    if s.rwFutex = oldval then
      let s := s.dropRead t (oldval - 1)
      if oldval ≠ 1 then some (s.ret t .ksUnchanged) else some (s.goto t .send)
    else some (s.goto t .endreadLoad)
  | .endreadFetch =>
    let s := s.dropRead t (s.rwFutex - 1)
    if s.rwFutex ≠ 0 then some (s.ret t .ksUnchanged) else some (s.goto t .send)
  | .endwriteFetch => some ((s.dropWrite t (s.rwFutex &&& ~~~writemode)).goto t .send)
  | .downgradeCas =>
    if s.rwFutex = writemode then some (((s.dropWrite t 0).grantRead t 1).goto t .send)
    else some (s.goto t .send)
  | .upgradeLoad =>
    if s.call t = .tryupgrade ∧ s.rwFutex ≠ 1 then some (s.ret t .keWouldblock)
    else some (s.goto t (.upgradeCas s.rwFutex))
  | .upgradeCas oldval =>
    if s.rwFutex = oldval then
      let newval := if oldval = 1 then writemode else oldval - 1
      if newval = writemode then some (((s.dropRead t 0).grantWrite t newval).ret t .keOk)
      else some ((s.dropRead t newval).goto t .writeLoad)
    else some (s.goto t .upgradeLoad)
  | .send =>
    let woken := { s with pc := fun u => (s.pc u).woken }
    some (woken.ret t (if ∃ u, (s.pc u).woken ≠ s.pc u then .keOk else .ksEmpty))

/-- The first program point of a call. -/
def Call.first (debug : Bool) : Call → Pc
  | .beginread | .trybeginread => .readLoad
  | .beginwrite | .trybeginwrite => .writeLoad
  | .endread => if debug then .endreadLoad else .endreadFetch
  | .endwrite => .endwriteFetch
  | .upgrade | .tryupgrade => .upgradeLoad
  | .downgrade => .downgradeCas

/-- What a thread must hold to make a call. -/
def Call.Allowed : Call → Nat → Bool → Prop
  | .endread, r, _ | .upgrade, r, _ | .tryupgrade, r, _ => 0 < r
  | .endwrite, _, w | .downgrade, _, w => w = true
  | _, _, _ => True

variable [Fintype T]

/-- One step of one thread. -/
inductive Step (debug : Bool) (s : State T) (t : T) : State T → Prop
  /-- The thread makes a call. -/
  | call (c : Call) : s.pc t = .idle → c.Allowed (s.holders.reads t) (s.holders.writes t) →
      Step debug s t { s with
        pc := update s.pc t (c.first debug)
        call := update s.call t c
        result := update s.result t none }
  | exec {s' : State T} : exec s t = some s' → Step debug s t s'
  /-- `kfutex_cmd` fails, or its timeout expires. -/
  | fail (e : Errno) : e = .keTimedout ∨ e = .keNomem ∨ e = .keFault →
      s.pc t = .readRecv ∨ s.pc t = .readBlocked ∨ s.pc t = .writeRecv ∨ s.pc t = .writeBlocked →
      Step debug s t (s.ret t e)

/-- The states of all runs on a new lock. -/
inductive Run (debug : Bool) : State T → Prop
  | start : Run debug State.init
  | step {s s' : State T} {t : T} : Run debug s → Step debug s t s' → Run debug s'

end KosKernel.UserRwLock
