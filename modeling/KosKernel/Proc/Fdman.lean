import Mathlib.Data.List.DropRight
import Mathlib.Logic.Function.Basic

/-!
# KosKernel.Proc.Fdman

**The file descriptors of a process** (`struct kfdman` in `include/kos/kernel/fdman.h`, and the
calls of `src/kernel/sched/proc-fdman.c.inl` that insert and close descriptors).

The table is a vector of slots, with two more slots for the special descriptors. A slot is
free if its type is `KFDTYPE_NONE`; two of the calls look at the resource pointer instead.
Assertions are left out. A call with `debug` is that of a kernel that is built with
`__DEBUG__`, where `kproc_closefd` clears the pointer; `granted` says whether `realloc`
succeeds. The references that were dropped are recorded in order.
-/

namespace KosKernel.Fdman

/-- `KFDTYPE_*` -/
inductive KfdType where
  | none
  | file
  | task
  | proc
  | inode
  | dirent
  | device
  deriving DecidableEq, Repr

/-- `struct kfdentry` -/
structure Kfdentry where
  fdType : KfdType
  fdFlag : Nat
  fdData : Nat
  deriving DecidableEq, Repr

/-- An entry that is all zero. -/
def Kfdentry.zero : Kfdentry := ⟨.none, 0, 0⟩

/-- The entry has a resource. -/
def Kfdentry.isLive (e : Kfdentry) : Bool := e.fdType ≠ .none

/-- `struct kfdman`; `fdm_fda` is the length of `fdm_fdv`. -/
structure Kfdman where
  fdmCnt : Nat
  fdmMax : Nat
  fdmFre : Nat
  fdmFdv : List Kfdentry
  fdmRoot : Kfdentry
  fdmCwd : Kfdentry
  dropped : List Kfdentry
  deriving DecidableEq, Repr

def kfdmanInit (fdMax : Nat) : Kfdman := ⟨0, fdMax, 0, [], .zero, .zero, []⟩

inductive Errno where
  | keOk
  | ksFound
  | keBadf
  | keMfile
  | keNomem
  deriving DecidableEq, Repr

/-- How a call goes wrong. -/
inductive Fault where
  /-- Memory outside of the vector is accessed. -/
  | overrun
  /-- The search for a slot does not end. -/
  | endless
  deriving DecidableEq, Repr

/-- `unsigned int` -/
def wrap32 (n : Nat) : Nat := n % 4294967296

/-- `--` of an `unsigned int` -/
def decrement (n : Nat) : Nat := if n = 0 then 4294967295 else n - 1

/-- `KFD_ROOT` -/
def kfdRoot : Int := -172365908

/-- `KFD_CWD` -/
def kfdCwd : Int := -100

def kfdentryQuit (self : Kfdman) (e : Kfdentry) : Kfdman :=
  if e.isLive then { self with dropped := self.dropped ++ [e] } else self

def kfdmanSpecialslot (self : Kfdman) (fd : Int) : Option Kfdentry :=
  if fd = kfdRoot then some self.fdmRoot else if fd = kfdCwd then some self.fdmCwd else none

def kfdmanSlot (self : Kfdman) (fd : Int) : Option Kfdentry :=
  if fd < 0 then kfdmanSpecialslot self fd else self.fdmFdv[fd.toNat]?

/-- A slot is written. -/
def setSlot (self : Kfdman) (fd : Int) (e : Kfdentry) : Kfdman :=
  if fd < 0 then
    if fd = kfdRoot then { self with fdmRoot := e }
    else if fd = kfdCwd then { self with fdmCwd := e } else self
  else { self with fdmFdv := self.fdmFdv.set fd.toNat e }

/-- The size in bytes of a vector overflows. -/
def oversized (count : Nat) : Bool := 4294967296 ≤ count * 8

def kprocFreeUnusedFdMemory (self : Kfdman) (granted : Bool) : Kfdman :=
  let kept := self.fdmFdv.rdropWhile fun e => !e.isLive
  if kept.length ≠ self.fdmFdv.length then
    if kept.length ≠ 0 then
      if granted then { self with fdmFdv := kept } else self
    else { self with fdmFdv := [] }
  else self

def kprocClosefd (debug : Bool) (self : Kfdman) (fd : Int) (granted : Bool) : Errno × Kfdman :=
  match kfdmanSlot self fd with
  | none => (.keBadf, self)
  | some slotcopy =>
    if slotcopy.isLive then
      let slot := { slotcopy with
        fdType := .none, fdData := if debug then 0 else slotcopy.fdData }
      let self := setSlot self fd slot
      let self := { self with fdmCnt := decrement self.fdmCnt }
      (.keOk, kfdentryQuit (kprocFreeUnusedFdMemory self granted) slotcopy)
    else (.keBadf, self)

/-- `CLOSE` of `kproc_closeall`, with the number of descriptors that were closed. -/
def closeSlot (self : Kfdman) (fd : Int) (slotcopy : Kfdentry) (result : Nat) : Nat × Kfdman :=
  if slotcopy.isLive then
    let self := { self with fdmCnt := decrement self.fdmCnt }
    let self := setSlot self fd { slotcopy with fdType := .none }
    (result + 1, kfdentryQuit self slotcopy)
  else (result, self)

/-- The loop of `kproc_closeall` over `count` regular descriptors. -/
def closeLoop : Nat → Nat → Kfdman → Nat → Except Fault (Nat × Kfdman)
  | 0, _, self, result => .ok (result, self)
  | count + 1, i, self, result =>
    match self.fdmFdv[i]? with
    | none => .error .overrun
    | some slot =>
      let r := closeSlot self i slot result
      closeLoop count (i + 1) r.2 r.1

/-- The regular descriptors of `kproc_closeall`. -/
def closeRegular (self : Kfdman) (low high : Int) (granted : Bool) :
    Except Fault (Nat × Kfdman) :=
  if 0 ≤ high then
    let endFd := min high.toNat (decrement self.fdmFdv.length) + 1
    let i := (max 0 low).toNat
    match closeLoop (wrap32 (endFd + 4294967296 - i)) i self 0 with
    | .error fault => .error fault
    | .ok (result, self) =>
      .ok (result, if result ≠ 0 then kprocFreeUnusedFdMemory self granted else self)
  else .ok (0, self)

/-- A special descriptor of `kproc_closeall`. -/
def closeSpecial (low high fd : Int) (slot : Kfdentry) (r : Nat × Kfdman) : Nat × Kfdman :=
  if low ≤ fd ∧ fd ≤ high then closeSlot r.2 fd slot r.1 else r

def kprocCloseall (self : Kfdman) (low high : Int) (granted : Bool) :
    Except Fault (Nat × Kfdman) :=
  if high < low then .ok (0, self)
  else
    match closeRegular self low high granted with
    | .error fault => .error fault
    | .ok r =>
      let r := closeSpecial low high kfdRoot r.2.fdmRoot r
      .ok (closeSpecial low high kfdCwd r.2.fdmCwd r)

/-- The search of `kproc_insfd_inherited` for the next free slot. -/
def searchFree (fdv : List Kfdentry) : Nat → Nat → Except Fault Nat
  | 0, _ => .error .endless
  | fuel + 1, fre =>
    let fre := if fdv.length ≤ fre then 0 else fre
    match fdv[fre]? with
    | none => .error .overrun
    | some resfd => if resfd.fdData = 0 then .ok fre else searchFree fdv fuel (fre + 1)

/-- The size that `kproc_insfd_inherited` extends the vector to. -/
def newalloc (self : Kfdman) : Nat :=
  let newalloc := if self.fdmFdv.length ≠ 0 then wrap32 (self.fdmFdv.length * 2) else 2
  if self.fdmMax < newalloc then self.fdmMax else newalloc

/-- `found:` the entry is stored. -/
def storeEntry (self : Kfdman) (i : Nat) (entry : Kfdentry) : Kfdman :=
  { self with fdmCnt := wrap32 (self.fdmCnt + 1), fdmFdv := self.fdmFdv.set i entry }

/-- `kproc_insfd_inherited`, which stores the number of the descriptor if there is no error. One
round of the search for each slot tells whether it ends. -/
def kprocInsfdInherited (self : Kfdman) (entry : Kfdentry) (granted : Bool) :
    Except Fault (Errno × Option Nat × Kfdman) :=
  let fda := self.fdmFdv.length
  if self.fdmCnt ≠ fda then
    match searchFree self.fdmFdv (fda + 1) self.fdmFre with
    | .error fault => .error fault
    | .ok fre => .ok (.keOk, some fre, storeEntry { self with fdmFre := fre } fre entry)
  else if self.fdmCnt = self.fdmMax then .ok (.keMfile, none, self)
  else if ¬granted then .ok (.keNomem, none, self)
  else if oversized (newalloc self) || newalloc self ≤ fda then .error .overrun
  else
    let newvec := self.fdmFdv ++ List.replicate (newalloc self - fda) .zero
    .ok (.keOk, some fda,
      storeEntry { self with fdmFdv := newvec, fdmFre := fda + 1 } fda entry)

def kprocInsfdatInherited (self : Kfdman) (fd : Int) (entry : Kfdentry) (granted : Bool) :
    Except Fault (Errno × Kfdman) :=
  let fda := self.fdmFdv.length
  if fd < 0 then
    match kfdmanSpecialslot self fd with
    | none => .ok (.keBadf, self)
    | some oldfd =>
      .ok (if oldfd.isLive then .ksFound else .keOk,
        kfdentryQuit (setSlot self fd entry) oldfd)
  else if self.fdmMax ≤ fd.toNat then .ok (.keMfile, self)
  else
    match self.fdmFdv[fd.toNat]? with
    | some resfd =>
      if resfd.fdData ≠ 0 then
        -- Slot already in use (override)
        .ok (.ksFound, kfdentryQuit (setSlot self fd entry) resfd)
      else .ok (.keOk, storeEntry self fd.toNat entry)
    | none =>
      if ¬granted then .ok (.keNomem, self)
      else if oversized (fd.toNat + 1) then .error .overrun
      else
        let newvec := self.fdmFdv ++ List.replicate (fd.toNat + 1 - fda) .zero
        .ok (.keOk, storeEntry { self with fdmFdv := newvec } fd.toNat entry)

/-- The search of `kproc_insfdh_inherited` from the hinted slot on. -/
def searchHinted (fdv : List Kfdentry) (hint : Nat) : Option Nat :=
  ((fdv.drop hint).findIdx? fun e => !e.isLive).map (hint + ·)

def kprocInsfdhInherited (self : Kfdman) (hint : Int) (entry : Kfdentry) (granted : Bool) :
    Except Fault (Errno × Option Nat × Kfdman) :=
  let fda := self.fdmFdv.length
  match searchHinted self.fdmFdv hint.toNat with
  | some i => .ok (.keOk, some i, storeEntry self i entry)
  | none =>
    if self.fdmMax ≤ fda then .ok (.keMfile, none, self)
    else if ¬granted then .ok (.keNomem, none, self)
    else if oversized (fda + 1) then .error .overrun
    else
      let newvec := self.fdmFdv ++ [.zero]
      .ok (.keOk, some fda, storeEntry { self with fdmFdv := newvec } fda entry)

/-- `KFD_TASKSELF` -/
def kfdTaskself : Int := -176695755

/-- `KFD_TASKROOT` -/
def kfdTaskroot : Int := -176842708

/-- `KFD_PROCSELF` -/
def kfdProcself : Int := -168454083

/-- `ktask_self()`, `ktask_proc()` and `kproc_self()` -/
structure Caller where
  taskSelf : Nat
  taskProc : Nat
  procSelf : Nat

/-- What `kproc_getfd` finds under a descriptor. -/
def findEntry (caller : Caller) (self : Kfdman) (fd : Int) : Option Kfdentry :=
  if fd = kfdTaskself then some ⟨.task, 0, caller.taskSelf⟩
  else if fd = kfdTaskroot then some ⟨.task, 0, caller.taskProc⟩
  else if fd = kfdProcself then some ⟨.proc, 0, caller.procSelf⟩
  else kfdmanSlot self fd

/-- `kproc_getfd`; `incref` is the result of taking a reference. -/
def kprocGetfd (debug : Bool) (caller : Caller) (incref : Kfdentry → Errno) (self : Kfdman)
    (fd : Int) : Except Errno Kfdentry :=
  match findEntry caller self fd with
  | none => .error .keBadf
  | some e =>
    if e.isLive then if incref e = .keOk then .ok e else .error (incref e)
    else .ok { e with fdData := if debug then 0 else e.fdData }

/-- `kproc_dupfdh_c`, which is `F_DUPFD` and `F_DUPFD_CLOEXEC` of `fcntl`. -/
def kprocDupfdhC (debug : Bool) (caller : Caller) (incref : Kfdentry → Errno) (self : Kfdman)
    (oldfd hintfd : Int) (flags : Nat) (granted : Bool) :
    Except Fault (Errno × Option Nat × Kfdman) :=
  match kprocGetfd debug caller incref self oldfd with
  | .error error => .ok (error, none, self)
  | .ok oldfdentry =>
    let oldfdentry := { oldfdentry with fdFlag := flags }
    match kprocInsfdhInherited self hintfd oldfdentry granted with
    | .error fault => .error fault
    | .ok (.keOk, newfd, self) => .ok (.keOk, newfd, self)
    | .ok (error, newfd, self) => .ok (error, newfd, kfdentryQuit self oldfdentry)

end KosKernel.Fdman
