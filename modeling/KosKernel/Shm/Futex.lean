import KosKernel.Lib.BackList
import KosKernel.Lib.Blocks
import KosKernel.Shm.Region

/-!
# KosKernel.Shm.Futex

The **futexes** of shared memory (`src/kernel/shm-futex.c.inl`, and the declarations of
`include/kos/kernel/shm.h`).

Every part of a region has a list of futexes. A futex pointer is a word: the address of a futex,
which leaves the four low bits free, and in these bits the number of readers of the pointer and
whether it is in write mode. The list is walked hand over hand: the next pointer is read-locked
before the last one is released.

The calls of a history follow each other, so nobody else ever holds one of these locks: where the
source yields and tries again the model stops with `waits`. An assertion that fails, and an access
to a futex that was freed, are the fault `assertion`. Futexes are numbered in the order they are
allocated, and a number is never given out twice. Region addresses are numbers without a bound,
since a region has no more pages than there are page frames.
-/

namespace KosKernel.Shm

open Function WindowTree PageFrame BackList

variable {α : Type}

/-- `union kshmfutex_ptr`: the address bits and the two fields of the lock bits. -/
structure FutexPtr where
  futex : Option Nat
  rcnt : Nat
  wmode : Bool
  deriving DecidableEq, Repr

/-- An address without lock bits, as `katomic_store` of a futex leaves it. -/
def FutexPtr.unlocked (futex : Option Nat) : FutexPtr := ⟨futex, 0, false⟩

/-- Where a futex pointer lies: `sp_futex` of a part, named by its region and its index there, or
`f_next` of a futex. -/
abbrev FutexLoc := Loc (Nat × Nat) Nat

/-- The futexes, field by field, and the memory they are allocated in. -/
structure Futexes where
  ptr : FutexLoc → FutexPtr
  fPself : Nat → FutexLoc
  fRefcnt : Nat → Nat
  fId : Nat → Nat
  heap : Blocks

inductive FutexFault where
  /-- An assertion of the source does not hold. -/
  | assertion
  /-- The call waits for a lock that nobody releases. -/
  | waits
  /-- The bound of the model is too small; see `searchLoop_spec`. -/
  | outOfFuel
  deriving DecidableEq, Repr

inductive FutexErrno where
  | keOk | keFault | keNomem | keNoent
  deriving DecidableEq, Repr

/-- `KSHMPART_FUTEX_MASK_RCNT` -/
def maskRcnt : Nat := 7

/-- `(__u32)-1`, where a reference counter is full. -/
def refcntMax : Nat := 4294967295

namespace Futexes

/-- No part has a futex. -/
def start : Futexes :=
  ⟨fun _ => .unlocked none, fun _ => .head (0, 0), fun _ => 0, fun _ => 0, .empty⟩

def setPtr (s : Futexes) (l : FutexLoc) (p : FutexPtr) : Futexes :=
  { s with ptr := update s.ptr l p }

/-- `kassert_kshmfutex` -/
def kassert (s : Futexes) (f : Nat) : Except FutexFault Unit :=
  if s.heap.live f = true then .ok () else .error .assertion

def free (s : Futexes) (f : Nat) : Except FutexFault Futexes :=
  match s.heap.free f with
  | none => .error .assertion
  | some heap => .ok { s with heap := heap }

end Futexes

/-! ### Locks -/

def kshmfutexPtrBeginread (s : Futexes) (l : FutexLoc) : Except FutexFault Futexes :=
  if (s.ptr l).wmode = true ∨ (s.ptr l).rcnt = maskRcnt then .error .waits
  else .ok (s.setPtr l { s.ptr l with rcnt := (s.ptr l).rcnt + 1 })

def kshmfutexPtrEndread (s : Futexes) (l : FutexLoc) : Except FutexFault Futexes :=
  if (s.ptr l).rcnt = 0 then .error .assertion
  else .ok (s.setPtr l { s.ptr l with rcnt := (s.ptr l).rcnt - 1 })

/-- `kshmfutex_ptr_beginwrite`, and `kshmfutex_ptr_trybeginwrite` where its caller tries again
until it works. -/
def kshmfutexPtrBeginwrite (s : Futexes) (l : FutexLoc) : Except FutexFault Futexes :=
  if (s.ptr l).wmode = true ∨ (s.ptr l).rcnt ≠ 0 then .error .waits
  else .ok (s.setPtr l { s.ptr l with wmode := true })

def kshmfutexPtrEndwrite (s : Futexes) (l : FutexLoc) : Except FutexFault Futexes :=
  if (s.ptr l).wmode = false then .error .assertion
  else .ok (s.setPtr l { s.ptr l with wmode := false })

/-- `kshmfutex_ptr_upgrade`; its caller, too, tries again until it works. -/
def kshmfutexPtrUpgrade (s : Futexes) (l : FutexLoc) : Except FutexFault Futexes :=
  if (s.ptr l).rcnt = 0 then .error .assertion
  else if (s.ptr l).rcnt ≠ 1 then .error .waits
  else .ok (s.setPtr l { s.ptr l with rcnt := 0, wmode := true })

/-! ### References -/

/-- `kshmfutex_tryincref`; `none` is `KE_DESTROYED` or `KE_OVERFLOW`. -/
def kshmfutexTryincref (s : Futexes) (f : Nat) : Option Futexes :=
  if s.fRefcnt f = 0 then none
  else if s.fRefcnt f = refcntMax then none
  else some { s with fRefcnt := update s.fRefcnt f (s.fRefcnt f + 1) }

def kshmfutexDestroy (s : Futexes) (f : Nat) : Except FutexFault Futexes := do
  s.kassert f
  if s.fRefcnt f ≠ 0 then .error .assertion else
  let s ← kshmfutexPtrBeginwrite s (.next f)
  let s ← kshmfutexPtrBeginwrite s (s.fPself f)
  match (s.ptr (.next f)).futex with
  | some nextFutex =>
    let s ← kshmfutexPtrBeginwrite s (.next nextFutex)
    let s := { s with fPself := update s.fPself nextFutex (s.fPself f) }
    -- the store of the bare address also unlocks the pointer
    let s := s.setPtr (s.fPself f) (.unlocked (some nextFutex))
    let s ← kshmfutexPtrEndwrite s (.next nextFutex)
    s.free f
  | none => (s.setPtr (s.fPself f) (.unlocked none)).free f

def kshmfutexDecref (s : Futexes) (f : Nat) : Except FutexFault Futexes := do
  s.kassert f
  if s.fRefcnt f = 0 then .error .assertion else
  let s := { s with fRefcnt := update s.fRefcnt f (s.fRefcnt f - 1) }
  if s.fRefcnt f = 0 then kshmfutexDestroy s f else .ok s

/-! ### Lookup -/

/-- Release the read lock and return. -/
def endreadReturn (s : Futexes) (l : FutexLoc) (result : Option Nat) :
    Except FutexFault (Option Nat × Futexes) := do
  let s ← kshmfutexPtrEndread s l
  .ok (result, s)

/-- The loop that `kshmfutex_ptr_getfutex` and `kshmfutex_ptr_getfutex_newmissing` share. They
differ in what they do where the futex would be, if it is missing or a reference to it cannot be
had (`missing`). -/
def searchLoop (missing : Futexes → FutexLoc → Except FutexFault (Option Nat × Futexes)) :
    Nat → Futexes → FutexLoc → Nat → Except FutexFault (Option Nat × Futexes)
  | 0, _, _, _ => .error .outOfFuel
  | fuel + 1, s, iter, id =>
    match (s.ptr iter).futex with
    | none => missing s iter
    | some result => do
        s.kassert result
        if id ≤ s.fId result then
          if s.fId result ≠ id then missing s iter
          else match kshmfutexTryincref s result with
            | some s => endreadReturn s iter (some result)
            | none => missing s iter
        else
          let s ← kshmfutexPtrBeginread s (.next result)
          let s ← kshmfutexPtrEndread s iter
          searchLoop missing fuel s (.next result) id

/-- More rounds than there are futexes. -/
def Futexes.fuel (s : Futexes) : Nat := s.heap.next + 1

def kshmfutexPtrGetfutex (s : Futexes) (self : FutexLoc) (id : Nat) :
    Except FutexFault (Option Nat × Futexes) := do
  let s ← kshmfutexPtrBeginread s self
  searchLoop (fun s iter => endreadReturn s iter none) s.fuel s self id

/-- `insert_futex_into_iter` of `kshmfutex_ptr_getfutex_newmissing`; `nomem` is whether `memalign`
fails. -/
def insertFutexIntoIter (s : Futexes) (iter : FutexLoc) (id : Nat) (nomem : Bool) :
    Except FutexFault (Option Nat × Futexes) :=
  if nomem = true then endreadReturn s iter none else do
  let result := s.heap.next
  let s := { s with heap := s.heap.alloc }
  let s ← kshmfutexPtrUpgrade s iter
  let s := { s with
    fRefcnt := update s.fRefcnt result 1
    fId := update s.fId result id
    fPself := update s.fPself result iter }
  let s := s.setPtr (.next result) (.unlocked (s.ptr iter).futex)
  match (s.ptr (.next result)).futex with
  | some nextFutex =>
    s.kassert nextFutex
    let s ← kshmfutexPtrBeginwrite s (.next nextFutex)
    let s := { s with fPself := update s.fPself nextFutex (.next result) }
    let s ← kshmfutexPtrEndwrite s (.next nextFutex)
    -- this store, too, unlocks the pointer
    .ok (some result, s.setPtr iter (.unlocked (some result)))
  | none => .ok (some result, s.setPtr iter (.unlocked (some result)))

def kshmfutexPtrGetfutexNewmissing (s : Futexes) (self : FutexLoc) (id : Nat) (nomem : Bool) :
    Except FutexFault (Option Nat × Futexes) := do
  let s ← kshmfutexPtrBeginread s self
  searchLoop (fun s iter => insertFutexIntoIter s iter id nomem) s.fuel s self id

/-- The walk to the part that has the page, from a part on; the index of that part. -/
def walkParts : List Part → Nat → Nat → Except FutexFault Nat
  | [], _, _ => .error .assertion
  | futexPart :: rest, index, futexPage =>
    if futexPart.spStart + futexPart.spPages ≤ futexPage then
      walkParts rest (index + 1) futexPage
    else .ok index

/-- Where `kshm_getfutex_unlocked` looks for the futex of an address: the list and the id;
`none` is `KE_FAULT`. -/
def futexKey (m : Mem α) (map : Tree Branch) (address : Nat) :
    Except FutexFault (Option ((Nat × Nat) × Nat)) :=
  match kshmbranchLocate map address with
  | .error _ => .error .assertion
  | .ok none => .ok none
  | .ok (some branch) =>
    match m.regions branch.sbRegion with
    | none => .error .assertion
    | some region =>
      let futexAddress := branch.sbRstart * pageSize + (address - branch.sbMapMin)
      let futexPage := futexAddress / pageSize
      if region.sreClusterc = 0 ∨ region.scPages = 0 ∨ region.scPartv = [] ∨
          ¬Maps branch address ∨ region.scPages * pageSize ≤ futexAddress ∨
          region.sreClusterc ≤ futexPage / clusterSize then .error .assertion
      else if region.scRefcnt (getcluster futexPage) = 0 then .ok none
      else do
        let part := region.scPart (getcluster futexPage)
        let index ← walkParts (region.scPartv.drop part) part futexPage
        .ok (some ((branch.sbRegion, index), (futexAddress % pageSize) >>> 2))

def kshmGetfutexUnlocked (m : Mem α) (map : Tree Branch) (s : Futexes) (address : Nat)
    (allocMissing nomem : Bool) : Except FutexFault (FutexErrno × Option Nat × Futexes) := do
  match ← futexKey m map address with
  | none => .ok (.keFault, none, s)
  | some (part, futexId) =>
    let (userFutex, s) ← if allocMissing = true then
        kshmfutexPtrGetfutexNewmissing s (.head part) futexId nomem
      else kshmfutexPtrGetfutex s (.head part) futexId
    match userFutex with
    | some f => .ok (.keOk, some f, s)
    | none => .ok (if allocMissing = true then .keNomem else .keNoent, none, s)

end KosKernel.Shm
