import KosKernel.Shm.Branch

/-!
# KosKernel.Shm.Region

The **regions** of shared memory and their reference counters (`src/kernel/shm.c`,
`include/kos/kernel/shm.h`).

A region is a vector of parts, which are runs of page frames; its clusters are runs
of `clusterSize` pages, and each has a reference counter. Regions, and the clusters
and parts in them, are named by number; page frames are numbered, and `sp_frame+n`
is the `n`th frame from there on. A region number is never used again, so a
comparison of regions is one of numbers.

The assertions of these functions are checks: one that fails is a fault, and so is
an access to a region that was freed. `sre_branches` is a number without a bound;
every reference to it is held by an allocated branch.
-/

namespace KosKernel.Shm

open Function

variable {α : Type}

/-- `KSHM_CLUSTERSIZE` -/
def clusterSize : Nat := 16

/-- `KSHMREGION_FLAG_*` -/
structure RegionFlags where
  exec : Bool
  write : Bool
  read : Bool
  shared : Bool
  loseOnFork : Bool
  restricted : Bool
  noFree : Bool
  noCopy : Bool
  deriving DecidableEq, Repr

/-- `KSHMREGION_FLAG_USECOW` -/
def RegionFlags.useCow (flags : RegionFlags) : Bool :=
  flags.write && !(flags.shared || flags.noCopy)

/-- `struct kshmpart`, without its futexes. -/
structure Part where
  spFrame : Nat
  spStart : Nat
  spPages : Nat
  deriving DecidableEq, Repr

/-- `struct kshmregion`; the chunk and the vector of clusters are part of it. -/
structure Region where
  scFlags : RegionFlags
  scPages : Nat
  scPartv : List Part
  sreOrigin : Option Nat
  sreBranches : Nat
  sreClustera : Nat
  sreClusterc : Nat
  scRefcnt : Nat → Nat
  /-- The index of `sc_part`. -/
  scPart : Nat → Nat

/-- The regions, and the page frames: those that the regions got from the allocator,
those that the allocator does not know, and what all of them hold. -/
structure Mem (α : Type) where
  regions : Nat → Option Region
  /-- The next region number. -/
  next : Nat
  held : Nat → Bool
  reserved : Nat → Bool
  content : Nat → α

inductive Errno where
  | keOk | keNomem | keOverflow | keExists
  deriving DecidableEq, Repr

/-- `kshmregion_getcluster` -/
def getcluster (page : Nat) : Nat := page / clusterSize

namespace Mem

/-- `kassert_kshmregion` -/
def region (m : Mem α) (rid : Nat) : Except Fault Region :=
  match m.regions rid with
  | some r => .ok r
  | none => .error .assertion

def setRegion (m : Mem α) (rid : Nat) (r : Region) : Mem α :=
  { m with regions := update m.regions rid (some r) }

/-- `free` of a region and its parts. -/
def freeRegion (m : Mem α) (rid : Nat) : Mem α :=
  { m with regions := update m.regions rid none }

@[simp] theorem setRegion_self (m : Mem α) (rid : Nat) (r : Region) :
    (m.setRegion rid r).regions rid = some r := update_self ..

@[simp] theorem freeRegion_self (m : Mem α) (rid : Nat) : (m.freeRegion rid).regions rid = none :=
  update_self ..

@[simp] theorem freeRegion_of_ne (m : Mem α) {rid i : Nat} (h : i ≠ rid) :
    (m.freeRegion rid).regions i = m.regions i := update_of_ne h ..

/-- A region of a memory in which one region was replaced. -/
theorem regions_cases {m m' : Mem α} {rid i : Nat} {o : Option Region} {r : Region}
    (hr : m'.regions i = some r) (h : m'.regions = update m.regions rid o) :
    i = rid ∧ o = some r ∨ i ≠ rid ∧ m.regions i = some r := by
  rw [h] at hr
  by_cases hi : i = rid
  · exact .inl ⟨hi, by rwa [hi, update_self] at hr⟩
  · exact .inr ⟨hi, by rwa [update_of_ne hi] at hr⟩

theorem region_of {m : Mem α} {rid : Nat} {r : Region} (h : m.regions rid = some r) :
    m.region rid = .ok r := by rw [region, h]

end Mem

def kpageframeFree (m : Mem α) (start pages : Nat) : Mem α :=
  { m with held := fun f => if start ≤ f ∧ f < start + pages then false else m.held f }

/-! ### Pieces of clusters -/

/-- The loop over the parts of a region, from an offset into the first one on: runs of
frames, up to a number of pages or the end of the parts. -/
def pieces : List Part → Nat → Nat → List (Nat × Nat)
  | [], _, _ => []
  | part :: rest, offset, pages =>
    let maxPages := min pages (part.spPages - offset)
    (part.spFrame + offset, maxPages) ::
      if pages - maxPages = 0 then [] else pieces rest 0 (pages - maxPages)

/-- The runs of frames of `count` clusters, the last of which need not be full. -/
def clusterPieces (r : Region) (first count : Nat) : Except Fault (List (Nat × Nat)) :=
  match r.scPartv.drop (r.scPart first) with
  | [] => .error .assertion
  | part :: rest =>
    let start := first * clusterSize
    if part.spStart ≤ start ∧ start < part.spStart + part.spPages then
      .ok (pieces (part :: rest) (start - part.spStart) (count * clusterSize))
    else .error .assertion

/-! ### Reference counters -/

def kshmregionFreecluster (m : Mem α) (rid cluster : Nat) : Except Fault (Mem α) := do
  let r ← m.region rid
  let runs ← clusterPieces r cluster 1
  let m := if r.scFlags.noFree then m else runs.foldl (fun m run => kpageframeFree m run.1 run.2) m
  if r.sreClustera = 0 then .error .assertion
  else .ok (m.setRegion rid { r with sreClustera := r.sreClustera - 1 })

/-- One cluster of `kshmregion_decref_clusters`. -/
def decrefCluster (m : Mem α) (rid cluster : Nat) : Except Fault (Mem α) := do
  let r ← m.region rid
  if r.sreClusterc ≤ cluster ∨ r.scRefcnt cluster = 0 then .error .assertion
  else
    let refcnt := r.scRefcnt cluster - 1
    let m := m.setRegion rid { r with scRefcnt := update r.scRefcnt cluster refcnt }
    if refcnt = 0 then kshmregionFreecluster m rid cluster else .ok m

/-- The loop of `kshmregion_decref_clusters`. -/
def decrefLoop (rid : Nat) : Nat → Mem α → Nat → Except Fault (Mem α)
  | 0, m, _ => .ok m
  | count + 1, m, cluster => do
      let m ← decrefCluster m rid cluster
      decrefLoop rid count m (cluster + 1)

def kshmregionDecrefClusters (m : Mem α) (rid clsMin clsMax : Nat) : Except Fault (Mem α) :=
  if clsMin ≤ clsMax then decrefLoop rid (clsMax - clsMin + 1) m clsMin else .error .assertion

/-- A branch gives up its reference to the region, which is freed with the last one. -/
def decrefBranches (m : Mem α) (rid : Nat) : Except Fault (Mem α) := do
  let r ← m.region rid
  if r.sreBranches = 0 then .error .assertion
  else if r.sreBranches = 1 then .ok (m.freeRegion rid)
  else .ok (m.setRegion rid { r with sreBranches := r.sreBranches - 1 })

def kshmregionDecref (m : Mem α) (rid clsMin clsMax : Nat) : Except Fault (Mem α) := do
  let m ← kshmregionDecrefClusters m rid clsMin clsMax
  decrefBranches m rid

/-- The loop of `kshmregion_incref_clusters`, with the cluster whose counter would overflow. -/
def increfLoop (rid : Nat) : Nat → Mem α → Nat → Except Fault (Option Nat × Mem α)
  | 0, m, _ => .ok (none, m)
  | count + 1, m, cluster => do
      let r ← m.region rid
      if r.sreClusterc ≤ cluster ∨ r.scRefcnt cluster = 0 then .error .assertion
      else if r.scRefcnt cluster = 4294967295 then .ok (some cluster, m)
      else
        let refcnt := r.scRefcnt cluster + 1
        increfLoop rid count
          (m.setRegion rid { r with scRefcnt := update r.scRefcnt cluster refcnt })
          (cluster + 1)

/-- `kshmregion_incref_clusters`; on overflow it calls `kshmregion_decref`, which takes
away a branch as well. -/
def kshmregionIncrefClusters (m : Mem α) (rid clsMin clsMax : Nat) :
    Except Fault (Errno × Mem α) := do
  if clsMin ≤ clsMax then
    match ← increfLoop rid (clsMax - clsMin + 1) m clsMin with
    | (none, m) => return (.keOk, m)
    | (some cluster, m) =>
      if cluster = clsMin then return (.keOverflow, m)
      else return (.keOverflow, ← kshmregionDecref m rid clsMin (cluster - 1))
  else .error .assertion

/-- A branch takes a reference to the region. -/
def increfBranches (m : Mem α) (rid : Nat) : Except Fault (Mem α) := do
  let r ← m.region rid
  if r.sreBranches = 0 then .error .assertion
  else .ok (m.setRegion rid { r with sreBranches := r.sreBranches + 1 })

def kshmregionIncref (m : Mem α) (rid clsMin clsMax : Nat) : Except Fault (Errno × Mem α) := do
  let m ← increfBranches m rid
  match ← kshmregionIncrefClusters m rid clsMin clsMax with
  | (.keOk, m) => return (.keOk, m)
  | (error, m) =>
    let r ← m.region rid
    if r.sreBranches ≤ 1 then .error .assertion
    else return (error, m.setRegion rid { r with sreBranches := r.sreBranches - 1 })

end KosKernel.Shm
