import KosKernel.Lib.WindowTree
import KosKernel.PageFrame.Basic

/-!
# KosKernel.Shm.Branch

The **branch tree** of a process's shared memory map (`src/kernel/shm-map.c.inl`
and the inline functions at the end of `include/kos/kernel/shm.h`).

A `struct kshmbranch **` of the source is a position in a tree; the functions
below take the subtree at that position with the position's semi-address and
level, and return what the source leaves there.

An assertion of these functions that fails, and a descent below level zero
(where `1 << (level-1)` is undefined), end the call with a fault. The `goto again`
and the mutual recursion of `kshmbranch_insert` and `kshmbranch_reinsertall` are
bounded by `insertFuel`.
-/

namespace KosKernel.Shm

export KosKernel.WindowTree (Tree)

open WindowTree PageFrame

/-- `struct kshmbranch`, without the two child pointers. Regions are named by
number; a cluster pointer into `sre_clusterv` is the cluster's index. -/
structure Branch where
  sbMapMin : Nat
  sbMapMax : Nat
  sbRstart : Nat
  sbRpages : Nat
  sbRegion : Nat
  sbClusterMin : Nat
  sbClusterMax : Nat
  deriving DecidableEq, Repr

/-- The branch maps the address: `addr >= sb_map_min && addr <= sb_map_max`. -/
def Maps (b : Branch) (addr : Nat) : Prop := b.sbMapMin ≤ addr ∧ addr ≤ b.sbMapMax

instance (b : Branch) (addr : Nat) : Decidable (Maps b addr) := inferInstanceAs (Decidable (_ ∧ _))

/-- How a call on a branch tree fails. -/
inductive Fault where
  /-- `KE_EXISTS` -/
  | exists
  /-- An assertion of the source does not hold. -/
  | assertion
  /-- A descent from level zero. -/
  | levelUnderflow
  /-- The bound of the model is too small; see `kshmbranchInsert_spec`. -/
  | outOfFuel
  deriving DecidableEq, Repr

/-! ### Semi-addresses -/

/-- `KSHMBRANCH_ADDRSEMI_INIT` -/
def addrSemiInit : Nat := (addrSpace - 1) / 2 + 1

/-- `KSHMBRANCH_ADDRLEVEL_INIT` -/
def addrLevelInit : Nat := 4 * 8 - 1

/-- `~x` on a `uintptr_t`. -/
def bitNot (x : Nat) : Nat := 2 ^ 32 - (x + 1)

/-- `KSHMBRANCH_MAPMIN` -/
def mapMin (semi level : Nat) : Nat := semi &&& bitNot (1 <<< level)

/-- `KSHMBRANCH_MAPMAX` -/
def mapMax (semi level : Nat) : Nat := semi ||| (1 <<< level - 1)

/-- The semi-address after `KSHMBRANCH_WALKMIN`; the level drops by one. -/
def walkMin (semi level : Nat) : Nat := (semi &&& bitNot (1 <<< level)) ||| 1 <<< (level - 1)

/-- The semi-address after `KSHMBRANCH_WALKMAX`; the level drops by one. -/
def walkMax (semi level : Nat) : Nat := semi ||| 1 <<< (level - 1)

/-! ### Insertion -/

/-- `kshmbranch_reinsertall`, over the insertion it calls. Its `asserte` refuses
every failure of that insertion. -/
def kshmbranchReinsertall (insert : Tree Branch → Branch → Except Fault (Tree Branch))
    (root : Tree Branch) : Tree Branch → Except Fault (Tree Branch)
  | .nil => .ok root
  | .node b mn mx => do
      let root ← kshmbranchReinsertall insert root mn
      let root ← kshmbranchReinsertall insert root mx
      match insert root b with
      | .error .exists => .error .assertion
      | r => r

/-- `kshmbranch_insert`, for a bounded number of rounds. -/
def insertLoop : Nat → Tree Branch → Branch → Nat → Nat → Except Fault (Tree Branch)
  | 0, _, _, _, _ => .error .outOfFuel
  | fuel + 1, curr, newleaf, semi, level =>
    -- The given entry must fit somewhere within this branch.
    if newleaf.sbMapMin < mapMin semi level ∨ mapMax semi level < newleaf.sbMapMax then
      .error .assertion
    else
      match curr with
      | .nil => .ok (.node newleaf .nil .nil)
      | .node iter mn mx =>
        if newleaf.sbMapMin ≤ iter.sbMapMax ∧ iter.sbMapMin ≤ newleaf.sbMapMax then
          .error .exists
        else if newleaf.sbMapMin ≤ semi ∧ semi ≤ newleaf.sbMapMax then
          -- The new leaf takes this place; everything below moves.
          kshmbranchReinsertall (fun t b => insertLoop fuel t b semi level)
            (.node newleaf .nil .nil) (.node iter mn mx)
        else if level = 0 then .error .levelUnderflow
        else if newleaf.sbMapMax < semi then
          (insertLoop fuel mn newleaf (walkMin semi level) (level - 1)).map (.node iter · mx)
        else
          (insertLoop fuel mx newleaf (walkMax semi level) (level - 1)).map (.node iter mn ·)

/-- Two rounds per level: one to put a leaf in place, one to move what was there. -/
def insertFuel (level : Nat) : Nat := 2 * level + 2

def kshmbranchInsert (curr : Tree Branch) (newleaf : Branch) (semi level : Nat) :
    Except Fault (Tree Branch) :=
  insertLoop (insertFuel level) curr newleaf semi level

/-! ### Removal and lookup -/

/-- `kshmbranch_popone`: the branch that was at the position, and what is there now. -/
def kshmbranchPopone (root : Tree Branch) (semi level : Nat) :
    Except Fault (Branch × Tree Branch) :=
  match root with
  | .nil => .error .assertion
  | .node b mn mx => do
      let insert := fun t b => kshmbranchInsert t b semi level
      let t ← kshmbranchReinsertall insert .nil mn
      let t ← kshmbranchReinsertall insert t mx
      return (b, t)

/-- `kshmbranch_remove`, from a position on. -/
def removeLoop : Tree Branch → Nat → Nat → Nat → Except Fault (Option Branch × Tree Branch)
  | .nil, _, _, _ => .ok (none, .nil)
  | .node iter mn mx, addr, semi, level =>
    if addr < mapMin semi level ∨ mapMax semi level < addr then .error .assertion
    else if Maps iter addr then
      (kshmbranchPopone (.node iter mn mx) semi level).map (fun r => (some r.1, r.2))
    else if level = 0 then .error .assertion
    else if addr < semi then
      (removeLoop mn addr (walkMin semi level) (level - 1)).map
        (fun r => (r.1, .node iter r.2 mx))
    else
      (removeLoop mx addr (walkMax semi level) (level - 1)).map
        (fun r => (r.1, .node iter mn r.2))

def kshmbranchRemove (root : Tree Branch) (addr : Nat) :
    Except Fault (Option Branch × Tree Branch) :=
  removeLoop root addr addrSemiInit addrLevelInit

/-- `kshmbranch_locate`, from a position on. -/
def locateLoop : Tree Branch → Nat → Nat → Nat → Except Fault (Option Branch)
  | .nil, _, _, _ => .ok none
  | .node root mn mx, addr, semi, level =>
    if Maps root addr then .ok (some root)
    else if level = 0 then .error .assertion
    else if addr < semi then locateLoop mn addr (walkMin semi level) (level - 1)
    else locateLoop mx addr (walkMax semi level) (level - 1)

def kshmbranchLocate (root : Tree Branch) (addr : Nat) : Except Fault (Option Branch) :=
  locateLoop root addr addrSemiInit addrLevelInit

/-- Which child of a branch a path continues with. -/
inductive Side where
  | min
  | max
  deriving DecidableEq, Repr

/-- `kshmbranch_popone` on the branch at the end of a path, called with the
semi-address and level that the path leads to. -/
def poponeAt : List Side → Tree Branch → Nat → Nat → Except Fault (Branch × Tree Branch)
  | [], t, semi, level => kshmbranchPopone t semi level
  | _ :: _, .nil, _, _ => .error .assertion
  | .min :: path, .node b mn mx, semi, level =>
    (poponeAt path mn (walkMin semi level) (level - 1)).map (fun r => (r.1, .node b r.2 mx))
  | .max :: path, .node b mn mx, semi, level =>
    (poponeAt path mx (walkMax semi level) (level - 1)).map (fun r => (r.1, .node b mn r.2))

end KosKernel.Shm
