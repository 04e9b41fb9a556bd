import Mathlib.Algebra.BigOperators.Group.Finset.Basic
import Mathlib.Data.Fintype.Basic
import Mathlib.Logic.Function.Basic

/-!
# KosKernel.Sync.RwLock

The **read/write lock** (`src/kernel/sched/sync/rwlock.c.inl`,
`include/kos/kernel/rwlock.h`), used by any number of tasks.

Every section that the source executes under the lock's signal lock is one step.
A task is at one of the program points `Pc`; `exec` is the next section of a task,
as the source writes it. The lock itself is the four fields the source has: the
write-mode flag, the dead flag of the signal, the reader counter and the queue of
the signal's waiting tasks. Next to them the state records what each task holds,
which is what the return values of its calls told it.

This is the configuration without tracked locks and without assertions. A task
that is interrupted, or whose timeout passes, leaves the queue and the call in one
step (`Action.fail`), so the `timed` and `timeout` variants are the same calls.
-/

namespace KosKernel.RwLock

open Function

/-- The results of the calls; `KS_` results are signals, not errors. -/
inductive Errno where
  | keOk | ksUnchanged | ksEmpty | ksBlocking | ksUnlocked
  | keWouldblock | keDestroyed | keIntr | keTimedout
  deriving DecidableEq, Repr

/-- `KE_ISERR` -/
def Errno.isErr : Errno → Bool
  | .keWouldblock | .keDestroyed | .keIntr | .keTimedout => true
  | _ => false

/-- The operations of the lock, without their `krwlock_` prefix in the source. -/
inductive Call where
  | beginread | trybeginread | endread
  | beginwrite | trybeginwrite | endwrite
  | endAny
  | downgrade | upgrade | atomicUpgrade | tryupgrade
  | close | tryclose | reset
  deriving DecidableEq, Repr

/-- Where a task is between two sections. -/
inductive Pc where
  | idle
  /-- Before the only section of a call that never waits. -/
  | once
  /-- At `again:` of `krwlock_beginread`; in the queue there. -/
  | readAgain | readWait
  /-- At `again:` of `krwlock_beginwrite`; in the queue there. -/
  | writeAgain | writeWait
  /-- Before the first section of `krwlock_atomic_upgrade`; in the queue there;
  after the signal was received. -/
  | upgradeFirst | upgradeWait | upgradeSecond
  /-- In `krwlock_close`, before `_krwlock_endwrite_andclose`. -/
  | closing
  /-- In the loop of `_ksignal_sendall_andunlock_c`, with its count of woken tasks. -/
  | sendall (count : Nat)
  deriving DecidableEq, Repr

/-- `rw_readc` has `KCONFIG_RWLOCK_READERBITS` bits. -/
def readerLimit : Nat := 2 ^ 32

/-- `++rw_readc` -/
def incr (n : Nat) : Nat := if n + 1 = readerLimit then 0 else n + 1

/-- `--rw_readc` -/
def decr (n : Nat) : Nat := if n = 0 then readerLimit - 1 else n - 1

variable {T : Type}

/-- One lock and its users. -/
structure State (T : Type) where
  /-- `KRWLOCK_FLAG_WRITEMODE` -/
  writeMode : Bool
  /-- `KSIGNAL_FLAG_DEAD` -/
  dead : Bool
  /-- `rw_readc` -/
  readc : Nat
  /-- The tasks in the signal's queue, first to be woken first. -/
  waiting : List T
  /-- How many read locks each task holds. -/
  reads : T → Nat
  /-- Whether a task holds the write lock. -/
  writes : T → Bool
  pc : T → Pc
  /-- The call a task is in, or was in last. -/
  call : T → Call
  /-- What that call returned, once it has. -/
  result : T → Option Errno
  /-- How many read locks the task held when it made that call. -/
  entry : T → Nat

/-- `krwlock_init`, before any task has used the lock. -/
def State.init : State T where
  writeMode := false
  dead := false
  readc := 0
  waiting := []
  reads := fun _ => 0
  writes := fun _ => false
  pc := fun _ => .idle
  call := fun _ => .reset
  result := fun _ => none
  entry := fun _ => 0

variable [DecidableEq T]

namespace State

/-- The task continues at another program point. -/
def goto (s : State T) (t : T) (p : Pc) : State T :=
  { s with pc := update s.pc t p }

/-- The call of the task returns. -/
def ret (s : State T) (t : T) (e : Errno) : State T :=
  { s with pc := update s.pc t .idle, result := update s.result t (some e) }

/-- `_ksignal_recv_andunlock_c` puts the task into the queue. -/
def enqueue (s : State T) (t : T) (p : Pc) : State T :=
  { s with waiting := s.waiting ++ [t], pc := update s.pc t p }

/-- `krwlock_debug_addreader` -/
def addreader (s : State T) (t : T) : State T :=
  { s with
    readc := incr s.readc
    reads := update s.reads t (s.reads t + 1) }

/-- `krwlock_debug_delreader` -/
def delreader (s : State T) (t : T) : State T :=
  { s with
    readc := decr s.readc
    reads := update s.reads t (s.reads t - 1) }

/-- `krwlock_debug_setwriter` -/
def setwriter (s : State T) (t : T) : State T :=
  { s with writeMode := true, writes := update s.writes t true }

/-- `krwlock_debug_delwriter` -/
def delwriter (s : State T) (t : T) : State T :=
  { s with writeMode := false, writes := update s.writes t false }

/-- The simple case of an upgrade: `rw_readc = 0`, then write-mode. -/
def upgradeOnly (s : State T) (t : T) : State T :=
  setwriter { s with readc := 0, reads := update s.reads t (s.reads t - 1) } t

/-- `krwlock_debug_delwriter`, then `rw_readc = 1`. -/
def downgradeOnly (s : State T) (t : T) : State T :=
  { delwriter s t with readc := 1, reads := update s.reads t (s.reads t + 1) }

/-- `ksignal_close`: the flag; the write lock of the closing task is gone with it. -/
def kill (s : State T) (t : T) : State T :=
  { s with dead := true, writes := update s.writes t false }

end State

/-- Where a task continues that received the signal. -/
def Pc.woken : Pc → Pc
  | .readWait => .readAgain
  | .writeWait => .writeAgain
  | .upgradeWait => .upgradeSecond
  | p => p

/-- `_ksignal_popone_andunlock_c` and `ktask_reschedule_ex`: the first task of the
queue goes on. -/
def sendone (s : State T) : Option (State T) :=
  match s.waiting with
  | [] => none
  | w :: ws => some { s with waiting := ws, pc := update s.pc w (s.pc w).woken }

/-! ### The sections -/

/-- `krwlock_beginread`, from `again:`. -/
def execRead (s : State T) (t : T) : State T :=
  if s.writeMode then
    if s.dead then s.ret t .keDestroyed else s.enqueue t .readWait
  else (s.addreader t).ret t .keOk

/-- `krwlock_beginwrite`, from `again:`, in its three callers. -/
def execWrite (s : State T) (t : T) : State T :=
  if s.writeMode ∨ s.readc ≠ 0 then
    if s.dead then s.ret t (if s.call t = .close then .ksUnchanged else .keDestroyed)
    else s.enqueue t .writeWait
  else
    let s := s.setwriter t
    match s.call t with
    | .close => s.goto t .closing
    | .upgrade => s.ret t .ksUnlocked
    | _ => s.ret t .keOk

/-- `krwlock_atomic_upgrade`, up to the wait. -/
def execUpgrade (s : State T) (t : T) : State T :=
  if s.readc = 1 then (s.upgradeOnly t).ret t .keOk
  else
    let s := s.delreader t
    if s.dead then s.ret t .keDestroyed else s.enqueue t .upgradeWait

/-- `krwlock_atomic_upgrade`, after the wait. `krwlock_upgrade` answers
`KE_WOULDBLOCK` with a regular write lock. -/
def execUpgraded (s : State T) (t : T) : State T :=
  if s.dead then s.ret t .keDestroyed
  else if s.readc = 0 ∧ s.writeMode = false then (s.setwriter t).ret t .ksBlocking
  else if s.call t = .upgrade then s.goto t .writeAgain
  else s.ret t .keWouldblock

/-- The error of a `try` call that cannot have the lock. -/
def busy (s : State T) : Errno := if s.dead then .keDestroyed else .keWouldblock

/-- The calls that have one section. -/
def execOnce (s : State T) (t : T) : State T :=
  match s.call t with
  | .trybeginread =>
    if s.writeMode then s.ret t (busy s) else (s.addreader t).ret t .keOk
  | .trybeginwrite =>
    if s.writeMode ∨ s.readc ≠ 0 then s.ret t (busy s) else (s.setwriter t).ret t .keOk
  | .endread =>
    let s := s.delreader t
    if s.readc = 0 then
      match sendone s with
      | some s => s.ret t .keOk
      | none => s.ret t .ksEmpty
    else s.ret t .ksUnchanged
  | .endwrite => (s.delwriter t).goto t (.sendall 0)
  | .endAny =>
    if s.writeMode then (s.delwriter t).goto t (.sendall 0)
    else
      let s := s.delreader t
      if s.readc = 0 then s.goto t (.sendall 0) else s.ret t .ksUnchanged
  | .downgrade => (s.downgradeOnly t).goto t (.sendall 0)
  | .tryupgrade =>
    if s.readc = 1 then (s.upgradeOnly t).ret t .keOk else s.ret t .keWouldblock
  | .reset => if s.dead then State.ret { s with dead := false } t .keOk else s.ret t .ksUnchanged
  | .tryclose =>
    if s.writeMode ∨ s.readc ≠ 0 then
      s.ret t (if s.dead then .ksUnchanged else .keWouldblock)
    else (s.setwriter t).goto t .closing
  | .beginread | .beginwrite | .upgrade | .atomicUpgrade | .close => s

/-- The loop of `_ksignal_sendall_andunlock_c`, and the return behind it. -/
def execSendall (s : State T) (t : T) (count : Nat) : State T :=
  match sendone s with
  | some s => s.goto t (.sendall (count + 1))
  | none =>
    match s.call t with
    | .close | .tryclose => s.ret t .keOk
    | _ => s.ret t (if count = 0 then .ksEmpty else .keOk)

/-- The next section of a task that is in a call and not waiting. -/
def exec (s : State T) (t : T) : Option (State T) :=
  match s.pc t with
  | .idle | .readWait | .writeWait | .upgradeWait => none
  | .once => some (execOnce s t)
  | .readAgain => some (execRead s t)
  | .writeAgain => some (execWrite s t)
  | .upgradeFirst => some (execUpgrade s t)
  | .upgradeSecond => some (execUpgraded s t)
  | .closing => some (if s.dead then
      State.ret { s with writes := update s.writes t false } t .keOk
      else (s.kill t).goto t (.sendall 0))
  | .sendall count => some (execSendall s t count)

/-! ### Steps -/

/-- The first program point of a call. -/
def Call.first : Call → Pc
  | .beginread => .readAgain
  | .beginwrite | .close => .writeAgain
  | .upgrade | .atomicUpgrade => .upgradeFirst
  | _ => .once

/-- What a task must hold to make a call. -/
def Call.Allowed : Call → Nat → Bool → Prop
  | .endread, r, _ | .upgrade, r, _ | .atomicUpgrade, r, _ | .tryupgrade, r, _ => 0 < r
  | .endwrite, _, w | .downgrade, _, w => w = true
  | .endAny, r, w => 0 < r ∨ w = true
  | _, _, _ => True

inductive Action where
  /-- The task makes a call. -/
  | call (c : Call)
  /-- The task executes its next section. -/
  | exec
  /-- The task stops waiting, with `KE_INTR` or `KE_TIMEDOUT`. -/
  | fail (e : Errno)

/-- One step of one task. -/
inductive Step (s : State T) (t : T) : Action → State T → Prop
  | call (c : Call) : s.pc t = .idle → c.Allowed (s.reads t) (s.writes t) →
      Step s t (.call c) { s with
        pc := update s.pc t c.first
        call := update s.call t c
        result := update s.result t none
        entry := update s.entry t (s.reads t) }
  | exec {s' : State T} : exec s t = some s' → Step s t .exec s'
  | fail (e : Errno) : e = .keIntr ∨ e = .keTimedout →
      s.pc t = .readWait ∨ s.pc t = .writeWait ∨ s.pc t = .upgradeWait →
      Step s t (.fail e) (State.ret { s with waiting := s.waiting.erase t } t e)

end KosKernel.RwLock
