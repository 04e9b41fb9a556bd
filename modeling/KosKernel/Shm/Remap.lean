import KosKernel.Shm.Frames
import KosKernel.Shm.Unmap

/-!
# KosKernel.Shm.Remap

**Mapping a branch** (`kshmbranch_remap` and `kshmregion_getphyspage` of
`src/kernel/shm.c`): one specification lemma for each of its loops.

A branch of a region with copy-on-write is mapped cluster by cluster, every other one part
by part. `nomem` says, by page, that the page table is missing and that there is no memory for
it. `kpagedir_remap` (`src/kernel/paging-map.c.inl`) takes the `PAGENIL` that it then gets for a
table, so that it never returns an error, and the loops have nothing to undo.
-/

namespace KosKernel.Shm

open PageFrame List

variable {α : Type}

/-! ### The source -/

/-- `PAGEDIR_FLAG_USER` and `PAGEDIR_FLAG_READ_WRITE` -/
structure PageFlags where
  user : Bool
  readWrite : Bool
  deriving DecidableEq, Repr

/-- The entry of a frame. -/
def entry (flags : PageFlags) (frame : Nat) : Pte := ⟨frame, flags.user, flags.readWrite⟩

/-- The entries that `kpagedir_remap` writes. -/
def mapRun (pd : PageDir) (frame page pages : Nat) (flags : PageFlags) : PageDir :=
  fun q => if page ≤ q ∧ q < page + pages then some (entry flags (frame + (q - page))) else pd q

/-- "Address overflow": the end of some pages, as a 32-bit address, is below their start. -/
def Overflows (addr pages : Nat) : Prop := (addr + pages * pageSize) % addrSpace < addr

instance (addr pages : Nat) : Decidable (Overflows addr pages) :=
  inferInstanceAs (Decidable (_ < _))

def kpagedirRemap (pd : PageDir) (frame virt pages : Nat) (flags : PageFlags)
    (nomem : Nat → Bool) : Except Fault (Errno × PageDir) :=
  if Overflows (frame * pageSize % addrSpace) pages ∨ Overflows virt pages then .error .assertion
  -- A table that could not be allocated is `PAGENIL`, which is not `NULL` and not aligned.
  else if (List.range' (virt / pageSize) pages).any nomem then .error .assertion
  else .ok (.keOk, mapRun pd frame (virt / pageSize) pages flags)

/-- The loop that finds the part of an offset, as `kshmregion_getphyspage` and
`kshmbranch_remap` have it. -/
def skipTo : List Part → Nat → Except Fault (Part × List Part × Nat)
  | [], _ => .error .assertion
  | part :: rest, offset =>
    if part.spPages ≤ offset then skipTo rest (offset - part.spPages)
    else .ok (part, rest, offset)

/-- `kshmregion_getphyspage`: the frame of a page, and the number of frames that follow in
its part (`max_pages`). -/
def kshmregionGetphyspage (r : Region) (page : Nat) : Except Fault (Nat × Nat) :=
  if r.scPages ≤ page then .error .assertion
  else
    match r.scPartv.drop (r.scPart (getcluster page)) with
    | [] => .error .assertion
    | part :: rest =>
      if page < part.spStart then .error .assertion
      else do
        let (part, _, offset) ← skipTo (part :: rest) (page - part.spStart)
        return (part.spFrame + offset, part.spPages - offset)

/-- A call of `kpagedir_remap` in one of the loops: go on, or unmap everything mapped thus
far and return the error. -/
def remapThen (b : Branch) (nomem : Nat → Bool) (pd : PageDir) (frame virt pages : Nat)
    (flags : PageFlags) (next : PageDir → Except Fault (Errno × PageDir)) :
    Except Fault (Errno × PageDir) :=
  match kpagedirRemap pd frame virt pages flags nomem with
  | .error fault => .error fault
  | .ok (.keOk, pd) => next pd
  | .ok (error, pd) => .ok (error, kpagedirUnmap pd b.sbMapMin ((virt - b.sbMapMin) / pageSize))

/-- The loop over the clusters. Every round maps a page, so their number bounds it. -/
def cowLoop (r : Region) (b : Branch) (flags : PageFlags) (nomem : Nat → Bool) :
    Nat → Nat → Nat → Nat → Nat → PageDir → Except Fault (Errno × PageDir)
  | 0, _, _, _, _, _ => .error .outOfFuel
  | fuel + 1, iter, partOffset, remaining, virt, pd =>
    if iter = r.sreClusterc ∨ clusterSize ≤ partOffset then .error .assertion
    else do
      let (phys, maxPages) ← kshmregionGetphyspage r (iter * clusterSize + partOffset)
      if phys = 0 ∨ r.sreBranches < r.scRefcnt iter then .error .assertion
      else
        let mapPages := min (min maxPages remaining) (clusterSize - partOffset)
        -- A cluster with more than one user is mapped read-only.
        let used := if 1 < r.scRefcnt iter then { flags with readWrite := false } else flags
        remapThen b nomem pd phys virt mapPages used fun pd =>
          if remaining - mapPages = 0 then .ok (.keOk, pd)
          else if clusterSize ≤ partOffset + mapPages then
            cowLoop r b flags nomem fuel (iter + 1) (partOffset + mapPages - clusterSize)
              (remaining - mapPages) (virt + mapPages * pageSize) pd
          else
            cowLoop r b flags nomem fuel iter (partOffset + mapPages)
              (remaining - mapPages) (virt + mapPages * pageSize) pd

/-- The loop over the parts. A part behind the last one is not looked for. -/
def partLoop (b : Branch) (flags : PageFlags) (nomem : Nat → Bool) :
    List Part → Nat → Nat → Nat → PageDir → Except Fault (Errno × PageDir)
  | [], _, _, _, _ => .error .assertion
  | part :: rest, partOffset, remaining, virt, pd =>
    if part.spFrame = 0 then .error .assertion
    else
      let mapPages := min remaining part.spPages
      remapThen b nomem pd (part.spFrame + partOffset) virt mapPages flags fun pd =>
        if remaining - mapPages = 0 then .ok (.keOk, pd)
        else partLoop b flags nomem rest 0 (remaining - mapPages)
          (virt + mapPages * pageSize) pd

/-- The flags of the plain path; it is taken with copy-on-write too, if there is no access
from user-space. -/
def plainFlags (flags : RegionFlags) : PageFlags :=
  if flags.useCow then ⟨false, true⟩ else ⟨flags.read, flags.write || !flags.read⟩

def kshmbranchRemap (m : Mem α) (b : Branch) (pd : PageDir) (nomem : Nat → Bool) :
    Except Fault (Errno × PageDir) := do
  let r ← m.region b.sbRegion
  let partOffset := b.sbRstart % clusterSize
  if r.scFlags.useCow && r.scFlags.read then
    cowLoop r b ⟨true, true⟩ nomem b.sbRpages b.sbClusterMin partOffset b.sbRpages b.sbMapMin pd
  else do
    let (part, rest, offset) ← skipTo (r.scPartv.drop (r.scPart b.sbClusterMin)) partOffset
    partLoop b (plainFlags r.scFlags) nomem (part :: rest) offset b.sbRpages b.sbMapMin pd

/-! ### Page directories -/

/-- A page directory with `count` entries from a page on replaced. -/
def upTo (pd : PageDir) (page : Nat) (w : Nat → Option Pte) (count : Nat) : PageDir :=
  fun q => if page ≤ q ∧ q < page + count then w (q - page) else pd q

@[simp] theorem upTo_zero (pd : PageDir) (page : Nat) (w : Nat → Option Pte) :
    upTo pd page w 0 = pd := by
  funext q
  exact if_neg (by omega)

theorem upTo_apply (pd : PageDir) (page : Nat) (w : Nat → Option Pte) {count i : Nat}
    (hi : i < count) : upTo pd page w count (page + i) = w i := by
  rw [upTo, if_pos (by omega), Nat.add_sub_cancel_left]

/-- A run that continues the replaced entries. -/
theorem mapRun_upTo {pd : PageDir} {page count frame pages : Nat} {w : Nat → Option Pte}
    {flags : PageFlags} (h : ∀ j < pages, w (count + j) = some (entry flags (frame + j))) :
    mapRun (upTo pd page w count) frame (page + count) pages flags =
      upTo pd page w (count + pages) := by
  funext q
  unfold mapRun upTo
  by_cases hrun : page + count ≤ q ∧ q < page + count + pages
  · have hw := h (q - (page + count)) (by omega)
    rw [if_pos hrun, if_pos (by omega), ← hw]
    congr 1
    omega
  · rw [if_neg hrun]
    exact if_congr (by omega) rfl rfl

/-- How a loop ends: with the expected directory, or with a fault if a check fails. -/
def EndsWith (checks : Prop) (result : Except Fault (Errno × PageDir)) (pd : PageDir) : Prop :=
  (checks → result = .ok (.keOk, pd)) ∧ (¬ checks → ∃ fault, result = .error fault)

theorem EndsWith.congr {checks checks' : Prop} {result : Except Fault (Errno × PageDir)}
    {pd : PageDir} (h : EndsWith checks result pd) (hiff : checks ↔ checks') :
    EndsWith checks' result pd :=
  propext hiff ▸ h

theorem EndsWith.ok (pd : PageDir) : EndsWith True (.ok (.keOk, pd)) pd :=
  ⟨fun _ => rfl, fun h => absurd trivial h⟩

theorem EndsWith.fault {checks : Prop} {fault : Fault} (h : ¬ checks) (pd : PageDir) :
    EndsWith checks (.error fault) pd :=
  ⟨fun hchecks => absurd hchecks h, fun _ => ⟨fault, rfl⟩⟩

/-- The last page of an address space, and the last page frame. -/
def lastPage : Nat := 0xfffff

/-- What `kpagedir_remap` asks for a page and its frame: neither is the last one there is, and
there is a table for the page. -/
def PageFits (nomem : Nat → Bool) (frame page : Nat) : Prop :=
  frame ≠ lastPage ∧ page ≠ lastPage ∧ nomem page = false

theorem overflows_iff {page pages : Nat} (hpage : page ≤ lastPage) (hpages : pages ≤ lastPage) :
    Overflows (page * pageSize) pages ↔ ∃ j < pages, page + j = lastPage := by
  unfold Overflows lastPage pageSize addrSpace at *
  constructor
  · intro h
    exact ⟨0xfffff - page, by omega, by omega⟩
  · rintro ⟨j, hj, hlast⟩
    omega

/-- **Specification of `kpagedir_remap`**. -/
theorem kpagedirRemap_spec {nomem : Nat → Bool} {frame page pages : Nat}
    (hframe : frame ≤ lastPage) (hpage : page ≤ lastPage) (hpages : pages ≤ lastPage)
    (pd : PageDir) (flags : PageFlags) :
    EndsWith (∀ j < pages, PageFits nomem (frame + j) (page + j))
      (kpagedirRemap pd frame (page * pageSize) pages flags nomem)
      (mapRun pd frame page pages flags) := by
  have hwrap : frame * pageSize % addrSpace = frame * pageSize := by
    unfold lastPage pageSize addrSpace at *
    omega
  unfold kpagedirRemap
  simp only [hwrap, overflows_iff hframe hpages, overflows_iff hpage hpages,
    Nat.mul_div_cancel page (show 0 < pageSize by decide)]
  constructor
  · intro hfits
    rw [if_neg, if_neg]
    · simp only [any_eq_true, mem_range'_1, not_exists, not_and, Bool.not_eq_true]
      intro q hq
      have := (hfits (q - page) (by omega)).2.2
      rwa [show page + (q - page) = q by omega] at this
    · rintro (⟨j, hj, hlast⟩ | ⟨j, hj, hlast⟩)
      · exact (hfits j hj).1 hlast
      · exact (hfits j hj).2.1 hlast
  · intro hnot
    split_ifs with hover hmem
    · exact ⟨_, rfl⟩
    · exact ⟨_, rfl⟩
    refine absurd (fun j hj => ⟨fun hlast => ?_, fun hlast => ?_, ?_⟩) hnot
    · exact hover (.inl ⟨j, hj, hlast⟩)
    · exact hover (.inr ⟨j, hj, hlast⟩)
    · simp only [any_eq_true, mem_range'_1, not_exists, not_and, Bool.not_eq_true] at hmem
      exact hmem (page + j) (by omega)

/-- A round of a loop: its own pages, and what the rest of the loop asks. -/
theorem EndsWith.remapThen {b : Branch} {nomem : Nat → Bool} {pd pd' : PageDir}
    {frame page pages : Nat} {flags : PageFlags} {checks : Prop}
    {next : PageDir → Except Fault (Errno × PageDir)}
    (hframe : frame ≤ lastPage) (hpage : page ≤ lastPage) (hpages : pages ≤ lastPage)
    (h : EndsWith checks (next (mapRun pd frame page pages flags)) pd') :
    EndsWith ((∀ j < pages, PageFits nomem (frame + j) (page + j)) ∧ checks)
      (Shm.remapThen b nomem pd frame (page * pageSize) pages flags next) pd' := by
  obtain ⟨hok, hfault⟩ := kpagedirRemap_spec hframe hpage hpages pd flags
  unfold Shm.remapThen
  by_cases hfits : ∀ j < pages, PageFits nomem (frame + j) (page + j)
  · rw [hok hfits]
    exact h.congr (and_iff_right hfits).symm
  · obtain ⟨fault, hresult⟩ := hfault hfits
    rw [hresult]
    exact .fault (fun hchecks => hfits hchecks.1) _

/-! ### Frames -/

/-- What the search for a part finds: the page at the offset, in the part that has it. -/
theorem skipTo_spec {parts : List Part} : ∀ {start offset : Nat}, PartsFrom start parts →
    offset < (pageFrames parts).length →
    ∃ part rest found, skipTo parts offset = .ok (part, rest, found) ∧
      (∀ p ∈ part :: rest, p ∈ parts) ∧ found < part.spPages ∧
      part.spStart + found = start + offset ∧
      (pageFrames (part :: rest)).drop found = (pageFrames parts).drop offset := by
  induction parts with
  | nil => exact fun _ h => absurd h (by simp)
  | cons part rest ih =>
    intro start offset hparts hoff
    obtain ⟨hstart, hpos, hrest⟩ := hparts
    rw [pageFrames_cons, length_append, length_range'] at hoff
    rw [skipTo]
    by_cases hnext : part.spPages ≤ offset
    · obtain ⟨part', rest', found, hskip, hmem, hlt, hpage, hdrop⟩ :=
        ih hrest (show offset - part.spPages < (pageFrames rest).length by omega)
      have hpast : (List.range' part.spFrame part.spPages).drop offset = [] :=
        drop_eq_nil_of_le (by simpa using hnext)
      refine ⟨part', rest', found, by rw [if_pos hnext, hskip],
        fun p hp => .tail _ (hmem p hp), hlt, by omega, ?_⟩
      rw [hdrop, pageFrames_cons part rest, drop_append, hpast, nil_append,
        length_range']
    · exact ⟨part, rest, offset, by rw [if_neg hnext], fun _ hp => hp, by omega, by omega, rfl⟩

/-- The frames of a part, by page of the region. -/
theorem frame_of_drop {r : Region} {part : Part} {rest : List Part} {found page : Nat}
    (hdrop : (pageFrames (part :: rest)).drop found = (pageFrames r.scPartv).drop page)
    (i : Nat) (hi : found + i < part.spPages) :
    r.frame (page + i) = some (part.spFrame + found + i) := by
  have hget := congrArg (·[i]?) hdrop
  simp only [getElem?_drop] at hget
  rw [Region.frame, ← hget, pageFrames_cons, getElem?_append_left (by simpa using hi),
    getElem?_range' hi]
  congr 1
  omega

/-- **Specification of `kshmregion_getphyspage`**: the part of the page is found, and the
frames from there on are those of the pages that follow. -/
theorem kshmregionGetphyspage_part {r : Region} (h : RegionWf r) {page : Nat}
    (hpage : page < r.scPages) : ∃ part ∈ r.scPartv, ∃ found < part.spPages,
      part.spStart + found = page ∧
      kshmregionGetphyspage r page = .ok (part.spFrame + found, part.spPages - found) ∧
      ∀ j, found + j < part.spPages → r.frame (page + j) = some (part.spFrame + found + j) := by
  obtain ⟨part, rest, hdrop, hlo, hhi, hsuffix, hframes⟩ := h.partsAt (h.cluster_lt hpage)
  have hge : getcluster page * clusterSize ≤ page := Nat.div_mul_le_self ..
  have hlen : page - part.spStart < (pageFrames (part :: rest)).length := by
    rw [hframes, length_drop, h.pages]
    omega
  obtain ⟨part', rest', found, hskip, hmem, hlt, hsum, hdrop'⟩ := skipTo_spec hsuffix hlen
  rw [hframes, drop_drop, show part.spStart + (page - part.spStart) = page by omega]
    at hdrop'
  refine ⟨part', mem_of_mem_drop (hdrop ▸ hmem part' (by simp)), found, hlt, by omega, ?_,
    frame_of_drop hdrop'⟩
  rw [kshmregionGetphyspage, if_neg (by omega), hdrop]
  simp only [if_neg (show ¬ page < part.spStart by omega), hskip]
  rfl

theorem kshmregionGetphyspage_spec {r : Region} (h : RegionWf r) {page : Nat}
    (hpage : page < r.scPages) :
    ∃ phys maxPages, kshmregionGetphyspage r page = .ok (phys, maxPages) ∧ 0 < maxPages ∧
      ∀ j < maxPages, r.frame (page + j) = some (phys + j) := by
  obtain ⟨part, -, found, hlt, -, hval, hframe⟩ := kshmregionGetphyspage_part h hpage
  exact ⟨_, _, hval, by omega, fun j hj => hframe j (by omega)⟩

/-! ### The entry of a page -/

/-- The access to a page: that of the region, without writing for a cluster that is shared
copy-on-write. There is always access from the kernel. -/
def access (r : Region) (page : Nat) : PageFlags where
  user := r.scFlags.read
  readWrite := (r.scFlags.write || !r.scFlags.read) &&
    !(r.scFlags.useCow && decide (1 < r.scRefcnt (getcluster page)))

/-- The entry that a page of the region should have. -/
def wanted (r : Region) (page : Nat) : Option Pte :=
  match kshmregionGetphyspage r page with
  | .ok (phys, _) => some (entry (access r page) phys)
  | .error _ => none

theorem wanted_eq {r : Region} (h : RegionWf r) {page : Nat} (hpage : page < r.scPages) :
    wanted r page = (r.frame page).map (entry (access r page)) := by
  obtain ⟨phys, maxPages, hphys, hpos, hframe⟩ := kshmregionGetphyspage_spec h hpage
  have hzero := hframe 0 hpos
  rw [Nat.add_zero, Nat.add_zero] at hzero
  rw [wanted, hphys, hzero]
  rfl

theorem access_cow {r : Region} (hcow : r.scFlags.useCow = true) (hread : r.scFlags.read = true)
    (page : Nat) :
    access r page =
      if 1 < r.scRefcnt (getcluster page) then ⟨true, false⟩ else ⟨true, true⟩ := by
  -- Copy-on-write needs a region that can be written.
  have hwrite : r.scFlags.write = true := by
    rw [RegionFlags.useCow, Bool.and_eq_true] at hcow
    exact hcow.1
  rw [access, hcow, hread, hwrite]
  by_cases hshared : 1 < r.scRefcnt (getcluster page) <;> simp [hshared]

/-! ### The loops -/

section
variable {r : Region} {b : Branch} {nomem : Nat → Bool} {pd : PageDir} {v : Nat}

/-- What the loops ask for a page of the branch and the frame that they map it to. -/
def PageOk (nomem : Nat → Bool) (frame : Option Nat) (page : Nat) : Prop :=
  ∀ f, frame = some f → f ≠ 0 ∧ PageFits nomem f page

/-- The checks of a run of pages and of what follows it. -/
theorem checks_split {frames : Nat → Option Nat} {frame pages remaining page : Nat}
    (hnull : frame ≠ 0) (hle : pages ≤ remaining)
    (hrun : ∀ j < pages, frames j = some (frame + j)) :
    ((∀ j < pages, PageFits nomem (frame + j) (page + j)) ∧
        ∀ i < remaining - pages, PageOk nomem (frames (pages + i)) (page + (pages + i))) ↔
      ∀ i < remaining, PageOk nomem (frames i) (page + i) := by
  constructor
  · rintro ⟨hfits, hrest⟩ i hi
    by_cases hin : i < pages
    · intro f hf
      rw [hrun i hin] at hf
      cases hf
      exact ⟨by omega, hfits i hin⟩
    · have := hrest (i - pages) (by omega)
      rwa [show pages + (i - pages) = i by omega] at this
  · intro hall
    exact ⟨fun j hj => (hall j (by omega) _ (hrun j hj)).2, fun i hi => hall _ (by omega)⟩

/-- **The loop over the clusters** maps every page as it should, if all of them pass the
checks. -/
theorem cowLoop_spec (h : RegionWf r) (hcow : r.scFlags.useCow = true)
    (hread : r.scFlags.read = true) (hcount : ∀ c, r.scRefcnt c ≤ r.sreBranches)
    (hlast : ∀ page f, r.frame page = some f → f ≤ lastPage) {start : Nat} (fuel : Nat) :
    ∀ iter partOffset remaining done, partOffset < clusterSize →
      iter * clusterSize + partOffset = start + done → 0 < remaining → remaining ≤ fuel →
      start + done + remaining ≤ r.scPages → v + done + remaining ≤ lastPage + 1 →
      EndsWith (∀ i < remaining, PageOk nomem (r.frame (start + done + i)) (v + done + i))
        (cowLoop r b ⟨true, true⟩ nomem fuel iter partOffset remaining ((v + done) * pageSize)
          (upTo pd v (fun i => wanted r (start + i)) done))
        (upTo pd v (fun i => wanted r (start + i)) (done + remaining)) := by
  induction fuel with
  | zero => exact fun _ _ _ _ _ _ hpos hle => absurd hpos (by omega)
  | succ fuel ih =>
    intro iter partOffset remaining done hoff hpage hpos hfuel hin hspace
    obtain ⟨phys, maxPages, hphys, hmax, hframe⟩ :=
      kshmregionGetphyspage_spec h (show start + done < r.scPages by omega)
    have hiter : getcluster (start + done) = iter := by
      rw [getcluster, ← hpage]
      unfold clusterSize at *
      omega
    have hlt := h.cluster_lt (show start + done < r.scPages by omega)
    have hcount' := hcount iter
    rw [cowLoop, if_neg (by omega), hpage, hphys]
    simp only [bind, Except.bind]
    by_cases hnull : phys = 0
    · rw [if_pos (.inl hnull)]
      exact .fault (fun hall => (hall 0 hpos _ (hframe 0 hmax)).1 hnull) _
    rw [if_neg (by omega)]
    set mapPages := min (min maxPages remaining) (clusterSize - partOffset) with hmap
    have hrun : mapRun (upTo pd v (fun i => wanted r (start + i)) done) phys (v + done) mapPages
        (if 1 < r.scRefcnt iter then ⟨true, false⟩ else ⟨true, true⟩) =
          upTo pd v (fun i => wanted r (start + i)) (done + mapPages) := by
      refine mapRun_upTo fun j hj => ?_
      have hcluster : getcluster (start + (done + j)) = iter := by
        unfold getcluster clusterSize at *
        omega
      rw [wanted_eq h (by omega), ← Nat.add_assoc, hframe j (by omega), Option.map_some,
        Nat.add_assoc, access_cow hcow hread, hcluster]
    have hphys' := hlast _ _ (hframe 0 hmax)
    have hcs : clusterSize ≤ lastPage := by decide
    refine (EndsWith.remapThen (by omega) (by omega) (by omega) ?_).congr
      (checks_split hnull (show mapPages ≤ remaining by omega) fun j hj => hframe j (by omega))
    rw [hrun]
    by_cases hend : remaining - mapPages = 0
    · rw [if_pos hend, show done + remaining = done + mapPages by omega]
      exact (EndsWith.ok _).congr (iff_of_true trivial fun i hi => absurd hi (by omega))
    rw [if_neg hend, ← Nat.add_mul, Nat.add_assoc v,
      show done + remaining = done + mapPages + (remaining - mapPages) by omega]
    simp only [← Nat.add_assoc (start + done), ← Nat.add_assoc (v + done), Nat.add_assoc start done,
      Nat.add_assoc v done]
    by_cases hnext : clusterSize ≤ partOffset + mapPages
    · rw [if_pos hnext]
      refine ih _ _ _ _ ?_ ?_ (by omega) (by omega) (by omega) (by omega)
      · unfold clusterSize at *
        omega
      · rw [Nat.add_mul, Nat.one_mul]
        omega
    · rw [if_neg hnext]
      exact ih _ _ _ _ (by omega) (by omega) (by omega) (by omega) (by omega) (by omega)

/-- The frames that the loop over the parts maps, in order. The first run is as long as its
part, wherever in the part it starts. -/
def partFrames : List Part → Nat → List Nat
  | [], _ => []
  | part :: rest, offset =>
    List.range' (part.spFrame + offset) part.spPages ++ pageFrames rest

theorem partFrames_zero (parts : List Part) : partFrames parts 0 = pageFrames parts := by
  cases parts <;> rfl

theorem first_of_checks {parts : List Part} {page : Nat} (hpos : ∀ p ∈ parts, 0 < p.spPages)
    (h : PageOk nomem (pageFrames parts)[0]? page) : ∀ p ∈ parts.head?, p.spFrame ≠ 0 := by
  cases parts with
  | nil => simp
  | cons part rest =>
    have hpart := hpos part (.head _)
    rw [pageFrames_cons, getElem?_append_left (by simpa using hpart), getElem?_range' hpart] at h
    simpa using (h _ rfl).1

/-- **The loop over the parts**, whatever its offset into the first one. -/
theorem partLoop_spec {flags : PageFlags} {w : Nat → Option Pte} {parts : List Part} :
    ∀ {offset remaining done : Nat},
      (∀ p ∈ parts, 0 < p.spPages ∧ p.spFrame + p.spPages ≤ lastPage + 1) →
      (∀ p ∈ parts.head?, p.spFrame + offset ≤ lastPage) → 0 < remaining →
      remaining ≤ (pageFrames parts).length → v + done + remaining ≤ lastPage + 1 →
      (∀ i < remaining, w (done + i) = ((partFrames parts offset)[i]?).map (entry flags)) →
      EndsWith ((∀ p ∈ parts.head?, p.spFrame ≠ 0) ∧
          ∀ i < remaining, PageOk nomem (partFrames parts offset)[i]? (v + done + i))
        (partLoop b flags nomem parts offset remaining ((v + done) * pageSize) (upTo pd v w done))
        (upTo pd v w (done + remaining)) := by
  induction parts with
  | nil => exact fun _ _ hpos hle => absurd hle (by simpa using Nat.pos_iff_ne_zero.1 hpos)
  | cons part rest ih =>
    intro offset remaining done hparts hoff hpos hle hspace hw
    obtain ⟨hpages, hframes⟩ := hparts part (.head _)
    have hfirst := hoff part rfl
    rw [pageFrames_cons, length_append, length_range'] at hle
    rw [partLoop]
    by_cases hnull : part.spFrame = 0
    · rw [if_pos hnull]
      exact .fault (fun hall => hall.1 part rfl hnull) _
    rw [if_neg hnull]
    set mapPages := min remaining part.spPages
    have hget : ∀ j < mapPages,
        (partFrames (part :: rest) offset)[j]? = some (part.spFrame + offset + j) := by
      intro j hj
      rw [partFrames, getElem?_append_left (by simp; omega), getElem?_range' (by omega),
        Nat.one_mul]
    have hrun : mapRun (upTo pd v w done) (part.spFrame + offset) (v + done) mapPages flags =
        upTo pd v w (done + mapPages) := by
      refine mapRun_upTo fun j hj => ?_
      rw [hw j (by omega), hget j hj, Option.map_some]
    refine (EndsWith.remapThen (by omega) (by omega) (by omega) ?_).congr
      ((checks_split (by omega) (show mapPages ≤ remaining by omega) hget).trans
        (by simp [hnull]))
    rw [hrun]
    by_cases hend : remaining - mapPages = 0
    · rw [if_pos hend, show done + remaining = done + mapPages by omega]
      exact (EndsWith.ok _).congr (iff_of_true trivial fun i hi => absurd hi (by omega))
    have hrest : ∀ i, (partFrames (part :: rest) offset)[mapPages + i]? =
        (partFrames rest 0)[i]? := by
      intro i
      rw [partFrames, getElem?_append_right (by simp; omega), partFrames_zero, length_range',
        show mapPages + i - part.spPages = i by omega]
    have hparts' : ∀ p ∈ rest, 0 < p.spPages ∧ p.spFrame + p.spPages ≤ lastPage + 1 :=
      fun p hp => hparts p (.tail _ hp)
    rw [if_neg hend, ← Nat.add_mul, Nat.add_assoc v,
      show done + remaining = done + mapPages + (remaining - mapPages) by omega]
    simp only [hrest, ← Nat.add_assoc (v + done), Nat.add_assoc v done]
    refine (ih hparts' (fun p hp => ?_) (by omega) (by omega) (by omega) fun i hi => ?_).congr
      (and_iff_right_of_imp fun hall => ?_)
    · have := hparts' p (mem_of_mem_head? hp)
      omega
    · rw [Nat.add_assoc, hw _ (by omega), hrest]
    · have hzero := hall 0 (by omega)
      rw [partFrames_zero] at hzero
      exact first_of_checks (fun p hp => (hparts' p hp).1) hzero

end

end KosKernel.Shm
