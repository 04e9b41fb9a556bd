import Mathlib.Data.BitVec
import Mathlib.Logic.Function.Basic

/-!
# KosKernel.Proc.Perm

**Taking permissions away** (`src/kernel/procperm-getset.c.inl`,
`include/kos/kernel/procperm.h`, `include/kos/perm.h`): `kproc_perm_set` and
`kproc_perm_xch`, which are one text with two ways to return.

The permissions of a process are changed by any number of its tasks at once. Every atomic
access of the source is one step, so a task in a call is at one of the program points `Pc`,
with the values it has loaded. A request is the raw `struct kperm`: an id, a size and four
bytes that are read as whatever the id says.
-/

namespace KosKernel.Perm

open Function

inductive Errno where
  | keOk | keAcces | keBufsiz | keInval
  deriving DecidableEq, Repr

/-- `struct kperm`, up to the bytes of `p_data` that are used. -/
structure Kperm where
  pId : Nat
  pSize : Nat
  pData : BitVec 32
  deriving DecidableEq, Repr

namespace Kperm

/-- `p_data.d_prio`; a `ktaskprio_t` is a signed 16-bit number. -/
def dPrio (perm : Kperm) : Int := (perm.pData.setWidth 16).toInt

def dFlagMask (perm : Kperm) : BitVec 16 := perm.pData.setWidth 16

def dFlagGroup (perm : Kperm) : Nat := perm.pData.toNat / 65536

def dSize (perm : Kperm) : Nat := perm.pData.toNat

def dInt (perm : Kperm) : Int := perm.pData.toInt

/-- The low half of `p_data` is overwritten. -/
def setLow (perm : Kperm) (x : BitVec 16) : Kperm :=
  { perm with pData := perm.pData.extractLsb' 16 16 ++ x }

/-- `p_data` is overwritten. -/
def setData (perm : Kperm) (x : BitVec 32) : Kperm := { perm with pData := x }

end Kperm

/-- `KPERM_FLAG_GROUPCOUNT` -/
def groupCount : Nat := 4

/-- `struct kprocperm` without its barriers, `pe_memmax` and `fdm_max`, and the two locks. -/
structure Procperm where
  ppPriomin : Int
  ppPriomax : Int
  ppNamemax : Nat
  ppPipemax : Nat
  ppThrdmax : Nat
  ppFlags : Nat → BitVec 16
  ppState : BitVec 32
  peMemmax : Nat
  fdmMax : Nat
  /-- `KPROC_LOCK_ENVIRON` is taken. -/
  environLocked : Bool
  /-- `KPROC_LOCK_FDMAN` is taken. -/
  fdmanLocked : Bool

/-- `KPROCSTATE_SHIFT_LOGPRIV` -/
def logprivShift : Nat := 28

/-- `KPROCSTATE_MASK_LOGPRIV` -/
def logprivMask : BitVec 32 := 0xf0000000#32

/-- `oldstate >> KPROCSTATE_SHIFT_LOGPRIV` -/
def logpriv (state : BitVec 32) : Nat := (state >>> logprivShift).toNat

/-- The limits that are swapped atomically, from `atomic_size_field:` on. -/
inductive SizeField where
  | namemax | pipemax | thrdmax
  deriving DecidableEq, Repr

def SizeField.get (self : Procperm) : SizeField → Nat
  | .namemax => self.ppNamemax
  | .pipemax => self.ppPipemax
  | .thrdmax => self.ppThrdmax

def SizeField.set (self : Procperm) (x : Nat) : SizeField → Procperm
  | .namemax => { self with ppNamemax := x }
  | .pipemax => { self with ppPipemax := x }
  | .thrdmax => { self with ppThrdmax := x }

/-- The limits that are changed under a lock of the process. -/
inductive LockField where
  | envMemmax | fdmax
  deriving DecidableEq, Repr

def LockField.get (self : Procperm) : LockField → Nat
  | .envMemmax => self.peMemmax
  | .fdmax => self.fdmMax

def LockField.set (self : Procperm) (x : Nat) : LockField → Procperm
  | .envMemmax => { self with peMemmax := x }
  | .fdmax => { self with fdmMax := x }

def LockField.locked (self : Procperm) : LockField → Bool
  | .envMemmax => self.environLocked
  | .fdmax => self.fdmanLocked

def LockField.setLocked (self : Procperm) (x : Bool) : LockField → Procperm
  | .envMemmax => { self with environLocked := x }
  | .fdmax => { self with fdmanLocked := x }

/-! ### A call -/

/-- Where a task is in a call, before an atomic access. -/
inductive Pc where
  /-- At the `switch`. -/
  | start
  /-- `KPERM_NAME_PRIO_MIN`: before the loads of `pp_priomin` and `pp_priomax`, before the
  comparison of `pp_priomax` and before the exchange of `pp_priomin`. -/
  | minLoad
  | minLoadMax (oldMinval : Int)
  | minKeepMax (oldMinval oldMaxval : Int)
  | minSwap (oldMinval oldMaxval : Int)
  /-- `KPERM_NAME_PRIO_MAX`, the other way round. -/
  | maxLoad
  | maxLoadMin (oldMaxval : Int)
  | maxKeepMin (oldMinval oldMaxval : Int)
  | maxSwap (oldMinval oldMaxval : Int)
  | sizeLoad (field : SizeField)
  | sizeSwap (field : SizeField) (oldval : Nat)
  /-- With the lock of the field held. -/
  | lockBody (field : LockField)
  | syslogLoad
  | syslogSwap (oldstate : BitVec 32)
  | done (error : Errno)
  deriving DecidableEq, Repr

/-- A call of `kproc_perm_set` (`xch` is false) or `kproc_perm_xch`. -/
structure Call where
  xch : Bool
  perm : Kperm
  pc : Pc
  deriving DecidableEq, Repr

namespace Call

def goto (c : Call) (pc : Pc) : Call := { c with pc := pc }

def fail (c : Call) (error : Errno) : Call := { c with pc := .done error }

/-- The call returns `KE_OK`; `kproc_perm_xch` leaves the old value in the request. -/
def ok (c : Call) (old : Kperm) : Call :=
  { c with pc := .done .keOk, perm := if c.xch then old else c.perm }

/-- The `switch` over `p_id`. -/
def switch (c : Call) (self : Procperm) : Option (Procperm × Call) :=
  let sized (size : Nat) (pc : Pc) : Option (Procperm × Call) :=
    some (self, if c.perm.pSize < size then c.fail .keBufsiz else c.goto pc)
  let lock (field : LockField) : Option (Procperm × Call) :=
    if field.locked self then none else some (field.setLocked self true, c.goto (.lockBody field))
  let unlimited : Option (Procperm × Call) :=
    some (self, if c.perm.pSize < 4 then c.fail .keBufsiz
      else c.ok (c.perm.setData 0xffffffff#32))
  match c.perm.pId with
  | 1 =>
    if c.perm.pSize < 4 then some (self, c.fail .keBufsiz)
    else if groupCount ≤ c.perm.dFlagGroup then
      some (self, { c.fail .keInval with
        perm := if c.xch then c.perm.setLow 0xffff#16 else c.perm })
    else
      -- `katomic_fetchand`
      let group := c.perm.dFlagGroup
      some ({ self with
          ppFlags := update self.ppFlags group
            (self.ppFlags group &&& ~~~c.perm.dFlagMask) },
        c.ok (c.perm.setLow (self.ppFlags group)))
  | 2 => sized 2 .minLoad
  | 3 => sized 2 .maxLoad
  | 4 => sized 4 (.sizeLoad .namemax)
  | 5 => sized 4 (.sizeLoad .pipemax)
  | 6 => sized 4 .syslogLoad
  | 7 => lock .fdmax
  | 8 => lock .envMemmax
  | 9 => sized 4 (.sizeLoad .thrdmax)
  | 10 => unlimited
  | 11 => unlimited
  | _ => some (self, c.fail .keInval)

/-- The new word for a syslog level. -/
def newstate (perm : Kperm) (oldstate : BitVec 32) : BitVec 32 :=
  (oldstate &&& ~~~logprivMask) ||| perm.pData <<< logprivShift

/-- The next atomic access of a call; there is none when it has returned, or waits for a
lock. -/
def step (c : Call) (self : Procperm) : Option (Procperm × Call) :=
  match c.pc with
  | .start => c.switch self
  | .minLoad =>
    some (self, if c.perm.dPrio < self.ppPriomin then c.fail .keAcces
      else c.goto (.minLoadMax self.ppPriomin))
  | .minLoadMax oldMinval => some (self, c.goto (.minKeepMax oldMinval self.ppPriomax))
  | .minKeepMax oldMinval oldMaxval =>
    some (self, c.goto (if self.ppPriomax = oldMaxval then .minSwap oldMinval oldMaxval
      else .minLoad))
  | .minSwap oldMinval oldMaxval =>
    if self.ppPriomin = oldMinval then
      some ({ self with ppPriomin := min c.perm.dPrio oldMaxval },
        c.ok (c.perm.setLow (BitVec.ofInt 16 oldMinval)))
    else some (self, c.goto .minLoad)
  | .maxLoad =>
    some (self, if self.ppPriomax < c.perm.dPrio then c.fail .keAcces
      else c.goto (.maxLoadMin self.ppPriomax))
  | .maxLoadMin oldMaxval => some (self, c.goto (.maxKeepMin self.ppPriomin oldMaxval))
  | .maxKeepMin oldMinval oldMaxval =>
    some (self, c.goto (if self.ppPriomin = oldMinval then .maxSwap oldMinval oldMaxval
      else .maxLoad))
  | .maxSwap oldMinval oldMaxval =>
    if self.ppPriomax = oldMaxval then
      some ({ self with ppPriomax := max c.perm.dPrio oldMinval },
        c.ok (c.perm.setLow (BitVec.ofInt 16 oldMaxval)))
    else some (self, c.goto .maxLoad)
  | .sizeLoad field =>
    let oldval := field.get self
    some (self, if oldval < c.perm.dSize then c.fail .keAcces
      else c.goto (.sizeSwap field oldval))
  | .sizeSwap field oldval =>
    if field.get self = oldval then
      some (field.set self c.perm.dSize, c.ok (c.perm.setData (BitVec.ofNat 32 oldval)))
    else some (self, c.goto (.sizeLoad field))
  | .lockBody field =>
    -- Both errors return with the lock held.
    let oldval := field.get self
    if c.perm.pSize < 4 then some (self, c.fail .keBufsiz)
    else if oldval < c.perm.dSize then some (self, c.fail .keAcces)
    else some (field.setLocked (field.set self c.perm.dSize) false,
      c.ok (c.perm.setData (BitVec.ofNat 32 oldval)))
  | .syslogLoad =>
    let oldstate := self.ppState
    some (self, if c.perm.dInt < (logpriv oldstate : Int) then c.fail .keAcces
      else c.goto (.syslogSwap oldstate))
  | .syslogSwap oldstate =>
    if self.ppState = oldstate then
      some ({ self with ppState := newstate c.perm oldstate },
        c.ok (c.perm.setData (oldstate >>> logprivShift)))
    else some (self, c.goto .syslogLoad)
  | .done _ => none

end Call

/-! ### The process -/

variable {T : Type}

/-- The permissions of a process and the calls of its tasks. -/
structure State (T : Type) where
  perm : Procperm
  calls : T → Option Call

inductive Action (T : Type) where
  /-- A task that is in no call makes one. -/
  | call (t : T) (xch : Bool) (perm : Kperm)
  /-- The next atomic access of a task. -/
  | access (t : T)

variable [DecidableEq T]

/-- One step of the process. -/
def State.step (s : State T) : Action T → Option (State T)
  | .call t xch perm =>
    match s.calls t with
    | none => some { s with calls := update s.calls t (some ⟨xch, perm, .start⟩) }
    | some ⟨_, _, .done _⟩ =>
      some { s with calls := update s.calls t (some ⟨xch, perm, .start⟩) }
    | some _ => none
  | .access t =>
    match s.calls t with
    | none => none
    | some c => (c.step s.perm).map fun r =>
      ⟨r.1, update s.calls t (some r.2)⟩

end KosKernel.Perm
