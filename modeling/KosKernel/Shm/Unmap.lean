import KosKernel.Shm.Region

/-!
# KosKernel.Shm.Unmap

**Splitting and unmapping** branches (`kshmbrach_putsplit`, `kshmbranch_unmap_portion`
and `kshmbranch_unmap` of `src/kernel/shm.c`, and `kshm_unmap_unlocked`).

As in `KosKernel.Shm.Branch`, a position is the subtree there with its semi-address.
A page directory maps page numbers; `kpagedir_unmap` is all that is called of it here.
`nomem` is the failure of the one allocation that a split makes.
-/

namespace KosKernel.Shm

open WindowTree PageFrame

variable {α β : Type}

/-- A present entry of a page directory. -/
structure Pte where
  frame : Nat
  user : Bool
  readWrite : Bool
  deriving DecidableEq, Repr

/-- The present entries of a page directory, by page number. -/
abbrev PageDir := Nat → Option Pte

def kpagedirUnmap (pd : PageDir) (virt pages : Nat) : PageDir :=
  fun page => if virt / pageSize ≤ page ∧ page < virt / pageSize + pages then none else pd page

/-- `KSHMBRANCH_SEMILEVEL`, the number of the lowest bit that is set. -/
def semiLevel (semi : Nat) : Nat := (List.range 32).findIdx fun i => semi.testBit i

/-- `kshmbranch_plocateat`, and what is done with the branch that it finds. -/
def atBranch (f : Branch → Tree Branch → Tree Branch → Except Fault (β × Tree Branch)) :
    Tree Branch → Nat → Nat → Nat → Except Fault (β × Tree Branch)
  | .nil, _, _, _ => .error .assertion
  | .node b mn mx, addr, semi, level =>
    if Maps b addr then f b mn mx
    else if level = 0 then .error .assertion
    else if addr < semi then
      (atBranch f mn addr (walkMin semi level) (level - 1)).map (fun r => (r.1, .node b r.2 mx))
    else
      (atBranch f mx addr (walkMax semi level) (level - 1)).map (fun r => (r.1, .node b mn r.2))

/-! ### Splitting -/

/-- The lower half of a split. -/
def splitMin (b : Branch) (page : Nat) : Branch :=
  { b with
    sbMapMax := b.sbMapMin + (page - b.sbRstart) * pageSize - 1
    sbRpages := page - b.sbRstart
    sbClusterMax := getcluster (b.sbRstart + (page - b.sbRstart - 1)) }

/-- The upper half of a split. -/
def splitMax (b : Branch) (page : Nat) : Branch :=
  { b with
    sbMapMin := b.sbMapMin + (page - b.sbRstart) * pageSize
    sbRstart := page
    sbRpages := b.sbRpages - (page - b.sbRstart)
    sbClusterMin := getcluster page }

/-- The counters of a split: one more branch, and one more reference to a cluster that
both halves have pages of. This reference is not checked for an overflow. -/
def splitCounters (m : Mem α) (b : Branch) (page : Nat) : Except Fault (Mem α) := do
  let m ← increfBranches m b.sbRegion
  let r ← m.region b.sbRegion
  let cluster := getcluster page
  if (splitMin b page).sbClusterMax = cluster then
    if r.scRefcnt cluster = 0 then .error .assertion
    else
      let refcnt := if r.scRefcnt cluster = 4294967295 then 0 else r.scRefcnt cluster + 1
      .ok (m.setRegion b.sbRegion
        { r with scRefcnt := Function.update r.scRefcnt cluster refcnt })
  else .ok m

def kshmbrachPutsplit (m : Mem α) (nomem : Bool) (t : Tree Branch) (semi page : Nat) :
    Except Fault (Errno × Mem α × Tree Branch) :=
  match t with
  | .nil => .error .assertion
  | .node b mn mx => do
      let r ← m.region b.sbRegion
      if ¬(b.sbMapMin ≤ b.sbMapMax ∧ b.sbRstart < page ∧ page < b.sbRstart + b.sbRpages ∧
          page < r.scPages) then .error .assertion
      else if nomem then return (.keNomem, m, t)
      else if b.sbMapMax ≤ (splitMax b page).sbMapMin then .error .assertion
      else
        let m ← splitCounters m b page
        if ¬(b.sbClusterMin ≤ (splitMin b page).sbClusterMax ∧
            (splitMin b page).sbClusterMax ≤ (splitMax b page).sbClusterMin ∧
            (splitMax b page).sbClusterMin ≤ b.sbClusterMax ∧ b.sbClusterMax < r.sreClusterc) then
          .error .assertion
        else
          match kshmbranchInsert (.node (splitMin b page) mn mx) (splitMax b page) semi
              (semiLevel semi) with
          | .ok t => return (.keOk, m, t)
          | .error .exists => .error .assertion
          | .error fault => .error fault

/-! ### Unmapping a portion -/

/-- `trim_front:` -/
def trimFront (m : Mem α) (b : Branch) (firstPage pageCount : Nat) :
    Except Fault (Mem α × Branch) := do
  let newCluster := getcluster (firstPage + pageCount)
  if newCluster < b.sbClusterMin then .error .assertion
  else
    let m ←
      if b.sbClusterMin ≠ newCluster then
        kshmregionDecrefClusters m b.sbRegion b.sbClusterMin (newCluster - 1)
      else .ok m
    if b.sbRpages - pageCount = 0 then .error .assertion
    else
      .ok (m, { b with
        sbClusterMin := newCluster
        sbMapMin := b.sbMapMin + pageCount * pageSize
        sbRstart := firstPage + pageCount
        sbRpages := b.sbRpages - pageCount })

/-- The other side: the cluster of the first page that is removed stays referred to. -/
def trimBack (m : Mem α) (b : Branch) (firstPage pageCount : Nat) :
    Except Fault (Mem α × Branch) := do
  let newCluster := getcluster firstPage
  if newCluster < b.sbClusterMin ∨ b.sbClusterMax < newCluster then .error .assertion
  else
    let m ←
      if b.sbClusterMax ≠ newCluster then
        kshmregionDecrefClusters m b.sbRegion (newCluster + 1) b.sbClusterMax
      else .ok m
    if b.sbRpages - pageCount = 0 then .error .assertion
    else
      .ok (m, { b with
        sbClusterMax := newCluster
        sbMapMax := b.sbMapMax - pageCount * pageSize
        sbRpages := b.sbRpages - pageCount })

/-- `kshmbranch_unmap_portion`; the page directory that it is given is not used. -/
def kshmbranchUnmapPortion (m : Mem α) (nomem : Bool) (t : Tree Branch)
    (firstPage pageCount semi : Nat) : Except Fault (Errno × Mem α × Tree Branch) :=
  match t with
  | .nil => .error .assertion
  | .node b mn mx => do
      let r ← m.region b.sbRegion
      if ¬((firstPage ≠ b.sbRstart ∨ pageCount ≠ b.sbRpages) ∧ b.sbRstart ≤ firstPage ∧
          0 < pageCount ∧ firstPage + pageCount ≤ b.sbRstart + b.sbRpages ∧
          b.sbRstart + b.sbRpages ≤ r.scPages) then .error .assertion
      else if firstPage = b.sbRstart then
        let (m, b) ← trimFront m b firstPage pageCount
        return (.keOk, m, .node b mn mx)
      else if firstPage + pageCount = b.sbRstart + b.sbRpages then
        let (m, b) ← trimBack m b firstPage pageCount
        return (.keOk, m, .node b mn mx)
      else
        match ← kshmbrachPutsplit m nomem t semi firstPage with
        | (.keOk, m, t) =>
          let (m, t) ← atBranch (fun b mn mx =>
              (trimFront m b firstPage pageCount).map fun r => (r.1, .node r.2 mn mx))
            t (splitMax b firstPage).sbMapMin semi (semiLevel semi)
          return (.keOk, m, t)
        | (error, m, t) => return (error, m, t)

/-! ### Unmapping a range -/

/-- The arguments of `kshmbranch_unmap`; `restricted` is `KSHMUNMAP_FLAG_RESTRICTED`. -/
structure UnmapArgs where
  addrMin : Nat
  addrMax : Nat
  restricted : Bool
  origin : Option Nat
  nomem : Bool

/-- What is carried through the tree: the memory, the page directory, and the number of
pages that were unmapped. -/
structure Walk (α : Type) where
  mem : Mem α
  pd : PageDir
  result : Nat

/-- Whether the region of a branch may be unmapped. -/
def Accepts (args : UnmapArgs) (rid : Nat) (r : Region) : Prop :=
  ¬(r.scFlags.restricted ∧ ¬args.restricted) ∧
    ∀ origin ∈ args.origin, rid = origin ∨ r.sreOrigin = some origin

instance (args : UnmapArgs) (rid : Nat) (r : Region) : Decidable (Accepts args rid r) :=
  inferInstanceAs (Decidable (_ ∧ _))

/-- The range has addresses of the branch. -/
def Overlaps (args : UnmapArgs) (b : Branch) : Prop :=
  args.addrMin ≤ b.sbMapMax ∧ b.sbMapMin ≤ args.addrMax

instance (args : UnmapArgs) (b : Branch) : Decidable (Overlaps args b) :=
  inferInstanceAs (Decidable (_ ∧ _))

/-- The range has all addresses of the branch. -/
def Contains (args : UnmapArgs) (b : Branch) : Prop :=
  args.addrMin ≤ b.sbMapMin ∧ b.sbMapMax ≤ args.addrMax

instance (args : UnmapArgs) (b : Branch) : Decidable (Contains args b) :=
  inferInstanceAs (Decidable (_ ∧ _))

/-- `start_page` of a branch that is unmapped in part. -/
def startPage (args : UnmapArgs) (b : Branch) : Nat :=
  (args.addrMin - b.sbMapMin) / pageSize + b.sbRstart

/-- `unmap_pages` of a branch that is unmapped in part. -/
def unmapPages (args : UnmapArgs) (b : Branch) : Nat :=
  (min args.addrMax b.sbMapMax + 1 - max args.addrMin b.sbMapMin + (pageSize - 1)) / pageSize

/-- A branch is unmapped in part: the memory, the pages that were unmapped, the subtree,
and where in it the branch itself starts now. -/
def unmapPart (args : UnmapArgs) (w : Walk α) (b : Branch) (t : Tree Branch) (semi : Nat) :
    Except Fault (Walk α × Tree Branch × Nat) := do
  let start := startPage args b
  let pages := unmapPages args b
  if ¬(b.sbRpages = (b.sbMapMax - b.sbMapMin + 1 + (pageSize - 1)) / pageSize) then
    .error .assertion
  else
    match ← kshmbranchUnmapPortion w.mem args.nomem t start pages semi with
    | (.keOk, m, t) =>
      let addr := if start = b.sbRstart then b.sbMapMin + pages * pageSize else b.sbMapMin
      return ({ w with mem := m, result := w.result + pages }, t, addr)
    | (_, m, t) => return ({ w with mem := m }, t, b.sbMapMin)

/-- A subtree is searched if it is there and may have addresses of the range. -/
def searchSide (go : Walk α → Tree Branch → Nat → Nat → Except Fault (Walk α × Tree Branch))
    (side : Bool) (w : Walk α) (t : Tree Branch) (semi level : Nat) :
    Except Fault (Walk α × Tree Branch) :=
  if side ∧ ¬t.isNil then go w t semi level else .ok (w, t)

/-- `continue_search:` below a branch. -/
def searchBelow (go : Walk α → Tree Branch → Nat → Nat → Except Fault (Walk α × Tree Branch))
    (args : UnmapArgs) (w : Walk α) (semi level : Nat) (b : Branch) (mn mx : Tree Branch) :
    Except Fault (Walk α × Tree Branch) := do
  let (w, mn) ← searchSide go (args.addrMin < semi) w mn (walkMin semi level) (level - 1)
  let (w, mx) ← searchSide go (semi ≤ args.addrMax) w mx (walkMax semi level) (level - 1)
  return (w, .node b mn mx)

/-- `kshmbranch_unmap`, for a bounded number of branches. -/
def unmapLoop (args : UnmapArgs) : Nat → Walk α → Tree Branch → Nat → Nat →
    Except Fault (Walk α × Tree Branch)
  | 0, _, _, _, _ => .error .outOfFuel
  | _ + 1, _, .nil, _, _ => .error .assertion
  | fuel + 1, w, .node b mn mx, semi, level => do
      let r ← w.mem.region b.sbRegion
      if ¬(args.addrMin % pageSize = 0 ∧ args.addrMin < args.addrMax) then .error .assertion
      else if Overlaps args b ∧ Accepts args b.sbRegion r then
        if Contains args b then
          let (_, t) ← kshmbranchPopone (.node b mn mx) semi level
          let m ← kshmregionDecref w.mem b.sbRegion b.sbClusterMin b.sbClusterMax
          let w := ⟨m, kpagedirUnmap w.pd b.sbMapMin b.sbRpages, w.result + b.sbRpages⟩
          -- The search goes on at the same place, or stops if this was the last branch.
          if t.isNil then return (w, t) else unmapLoop args fuel w t semi level
        else
          -- A split may have moved the branch; what is below it is searched all the same
          -- with the semi-address of the place where it was.
          let (w, t, addr) ← unmapPart args w b (.node b mn mx) semi
          atBranch (searchBelow (unmapLoop args fuel) args w semi level) t addr semi level
      else searchBelow (unmapLoop args fuel) args w semi level b mn mx

def kshmbranchUnmap (args : UnmapArgs) (w : Walk α) (t : Tree Branch) (semi level : Nat) :
    Except Fault (Walk α × Tree Branch) :=
  unmapLoop args (t.toList.length + 2) w t semi level

/-- `kshm_unmap_unlocked` -/
def kshmUnmap (m : Mem α) (pd : PageDir) (t : Tree Branch) (address pages : Nat)
    (restricted : Bool) (origin : Option Nat) (nomem : Bool) :
    Except Fault (Walk α × Tree Branch) :=
  if pages = 0 ∨ t.isNil then .ok (⟨m, pd, 0⟩, t)
  else
    kshmbranchUnmap ⟨address, address + pages * pageSize - 1, restricted, origin, nomem⟩
      ⟨m, pd, 0⟩ t addrSemiInit addrLevelInit

end KosKernel.Shm
