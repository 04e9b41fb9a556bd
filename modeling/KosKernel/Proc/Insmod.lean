import KosKernel.Lib.Slots
import Mathlib.Data.Multiset.AddSub

/-!
# KosKernel.Proc.Insmod

**Loading shared libraries into a process** (`kernel/sched/proc-insmod.c.inl`).

A process keeps a table of modules, one for each library loaded, with a load counter and the
numbers of the modules its dependencies are loaded as. Inserting a library inserts its
dependencies after it, each with its own dependencies; deleting one whose counter drops to zero
deletes its dependencies. A failure on the way takes back what was inserted so far.

Everything the rest of the kernel may refuse (memory, a reference to the library, a free range of
addresses, the mapping of a section) is asked for through `Fate`, which answers the `n`-th
question with an error or, where an address was asked for, with that address. Assertions are
compiled out, and user callbacks and relocation are left out.
-/

namespace KosKernel.Proc

/-- The libraries that may be loaded: their dependencies, which form no cycle, and their
sections (offset and region). -/
structure Libraries (L R : Type) where
  deps : L → List L
  rank : L → Nat
  rank_lt : ∀ m, ∀ d ∈ deps m, rank d < rank m
  secs : L → List (Nat × R)
  /-- `KMODFLAG_FIXED` -/
  fixed : L → Bool
  /-- `KMODKIND_ISLIB` -/
  isLib : L → Bool

/-- `struct kprocmodule` of a slot in use -/
structure Module (L : Type) where
  lib : L
  loadc : Nat
  base : Nat
  depids : List Nat
  deriving DecidableEq, Repr

inductive ModErrno where
  | nobin
  | nomem
  | overflow
  | nospc
  | inval
  | denied
  deriving DecidableEq, Repr

/-- `KE_OK`, `KS_UNCHANGED` or an error -/
inductive ModRet where
  | ok
  | unchanged
  | err (e : ModErrno)
  deriving DecidableEq, Repr

/-- The answers of the rest of the kernel, in the order it is asked -/
abbrev Fate := Nat → Except ModErrno Nat

/-- The module table and the sections mapped in the address space. -/
structure Modules (L R : Type) where
  modv : List (Option (Module L))
  maps : Multiset (Nat × R)
  /-- How often the rest of the kernel was asked -/
  asked : Nat

variable {L R : Type} [DecidableEq L] [DecidableEq R]

/-- The next question was asked. -/
def Modules.ask (s : Modules L R) : Modules L R := { s with asked := s.asked + 1 }

/-! ### Sections -/

/-- `kproc_loadmodsections`; if a section cannot be mapped, those before it are unmapped, the last
one first. -/
def kprocLoadmodsections (fate : Fate) (base : Nat) :
    List (Nat × R) → Modules L R → Option ModErrno × Modules L R
  | [], s => (none, s)
  | (albase, region) :: secs, s =>
    match fate s.asked with
    | .error e => (some e, s.ask)
    | .ok _ =>
      match kprocLoadmodsections fate base secs
          { s.ask with maps := (base + albase, region) ::ₘ s.maps } with
      | (none, s) => (none, s)
      | (some e, s) => (some e, { s with maps := s.maps.erase (base + albase, region) })

def kprocUnloadmodsections (base : Nat) (secs : List (Nat × R)) (s : Modules L R) :
    Modules L R :=
  { s with maps := secs.foldl (fun maps sec => maps.erase (base + sec.1, sec.2)) s.maps }

/-! ### One module -/

/-- The loop of `kproc_insmod_single_unlocked`: the module of the library, or else the last
unused slot. -/
def findModule (module : L) :
    List (Option (Module L)) → Nat → Option Nat → (Nat × Module L) ⊕ Option Nat
  | [], _, freeSlot => .inr freeSlot
  | some e :: rest, i, freeSlot =>
    if e.lib = module then .inl (i, e) else findModule module rest (i + 1) freeSlot
  | none :: rest, i, _ => findModule module rest (i + 1) (some i)

/-- Set up a slot for a library that is loaded for the first time. -/
def initModule (g : Libraries L R) (fate : Fate) (s : Modules L R) (module : L) (i : Nat) :
    ModRet × Nat × Modules L R :=
  let fail (e : ModErrno) (s : Modules L R) : ModRet × Nat × Modules L R :=
    (.err e, i, { s with modv := s.modv.set i none })
  let enter (s : Modules L R) (base : Nat) : Modules L R :=
    { s with modv := s.modv.set i (some ⟨module, 1, base, []⟩) }
  -- kshlib_incref
  match fate s.asked with
  | .error e => fail e s.ask
  | .ok _ =>
    let s := s.ask
    if g.fixed module || (g.secs module).isEmpty then
      match kprocLoadmodsections fate 0 (g.secs module) (enter s 0) with
      | (none, s) => (.ok, i, s)
      | (some e, s) => fail e s
    else
      -- kproc_find_base_for_module
      match fate s.asked with
      | .error _ => fail .nospc s.ask
      | .ok base =>
        match kprocLoadmodsections fate base (g.secs module) (enter s.ask base) with
        | (none, s) => (.ok, i, s)
        | (some e, s) => fail e s

/-- `kproc_insmod_single_unlocked`: the result, the module's number and the state -/
def kprocInsmodSingle (g : Libraries L R) (fate : Fate) (s : Modules L R) (module : L) :
    ModRet × Nat × Modules L R :=
  match findModule module s.modv 0 none with
  | .inl (i, e) =>
    if e.loadc = 2 ^ 32 - 1 then (.err .overflow, i, s)
    else (.unchanged, i, { s with modv := s.modv.set i (some { e with loadc := e.loadc + 1 }) })
  | .inr (some i) => initModule g fate s module i
  | .inr none =>
    -- realloc
    match fate s.asked with
    | .error _ => (.err .nomem, 0, s.ask)
    | .ok _ =>
      initModule g fate { s.ask with modv := s.modv ++ [none] } module s.modv.length

/-- `kproc_delmod_single_unlocked`: the result, the numbers of the dependencies if the module was
unloaded, and the state -/
def kprocDelmodSingle (g : Libraries L R) (s : Modules L R) (id : Nat) :
    ModRet × List Nat × Modules L R :=
  match Slots.slot s.modv id with
  | none => (.err .inval, [], s)
  | some e =>
    -- The counter is a word of 32 bits.
    let loadc := if e.loadc = 0 then 2 ^ 32 - 1 else e.loadc - 1
    if loadc ≠ 0 then
      (.unchanged, [], { s with modv := s.modv.set id (some { e with loadc }) })
    else
      let s := kprocUnloadmodsections e.base (g.secs e.lib) s
      let newvecsize := s.modv.length - 1
      if id = newvecsize then
        (.ok, e.depids, { s with modv := Slots.trim (s.modv.take newvecsize) })
      else (.ok, e.depids, { s with modv := s.modv.set id none })

/-! ### Modules with their dependencies -/

/-- Delete modules one after the other. -/
def delmodAll (del : Modules L R → Nat → Option (ModRet × Modules L R)) :
    List Nat → Modules L R → Option (Modules L R)
  | [], s => some s
  | id :: ids, s => match del s id with
    | none => none
    | some (_, s) => delmodAll del ids s

/-- `kproc_delmod_unlocked`; `none` if the recursion is deeper than the first argument. -/
def kprocDelmod (g : Libraries L R) : Nat → Modules L R → Nat → Option (ModRet × Modules L R)
  | 0, _, _ => none
  | depth + 1, s, moduleId =>
    match kprocDelmodSingle g s moduleId with
    | (.ok, depIdv, s) =>
      (delmodAll (kprocDelmod g depth) depIdv.reverse s).map fun s => (.ok, s)
    | (error, _, s) => some (error, s)

/-- `*depids_iter = id` in the dependencies of a module that was loaded for the first time -/
def Modules.pushDepid (s : Modules L R) (moduleId id : Nat) : Modules L R :=
  match Slots.slot s.modv moduleId with
  | none => s
  | some e =>
    { s with modv := s.modv.set moduleId (some { e with depids := e.depids ++ [id] }) }

/-- The loop of `kproc_insmod_unlocked_impl` over the dependencies. `depids` are the modules
inserted so far, the last one first; on an error they are deleted in that order. -/
def insmodDeps (g : Libraries L R)
    (ins : Modules L R → L → Option (ModRet × Nat × Modules L R))
    (del : Modules L R → Nat → Option (ModRet × Modules L R)) (error : ModRet) (moduleId : Nat) :
    List L → List Nat → Modules L R → Option (ModRet × Nat × Modules L R)
  | [], _, s => some (error, moduleId, s)
  | dep :: deps, depids, s => match ins s dep with
    | none => none
    | some (.err depError, _, s) =>
      (delmodAll del depids s).map fun s =>
        (.err depError, moduleId, (kprocDelmodSingle g s moduleId).2.2)
    | some (_, id, s) =>
      insmodDeps g ins del error moduleId deps (id :: depids)
        (if error = .ok then s.pushDepid moduleId id else s)

/-- `kproc_insmod_unlocked_impl`; `none` if the recursion is deeper than the first argument. -/
def kprocInsmodImpl (g : Libraries L R) (fate : Fate) :
    Nat → Modules L R → L → Option (ModRet × Nat × Modules L R)
  | 0, _, _ => none
  | depth + 1, s, module =>
    -- malloc of depids
    match fate s.asked with
    | .error _ => some (.err .nomem, 0, s.ask)
    | .ok _ =>
      match kprocInsmodSingle g fate s.ask module with
      | (.err e, moduleId, s) => some (.err e, moduleId, s)
      | (error, moduleId, s) =>
        insmodDeps g (kprocInsmodImpl g fate depth) (kprocDelmod g depth) error moduleId
          (g.deps module) [] s

/-- `kproc_insmod_unlocked`; the recursion is as deep as the dependencies. -/
def kprocInsmodUnlocked (g : Libraries L R) (fate : Fate) (s : Modules L R) (module : L) :
    Option (ModRet × Nat × Modules L R) :=
  if g.isLib module then kprocInsmodImpl g fate (g.rank module + 1) s module
  else some (.err .nobin, 0, s)

def kprocDelmodUnlocked (g : Libraries L R) (s : Modules L R) (moduleId : Nat) :
    Option (ModRet × Modules L R) :=
  kprocDelmod g ((Slots.slot s.modv moduleId).elim 0 (g.rank ·.lib) + 1) s moduleId

end KosKernel.Proc
