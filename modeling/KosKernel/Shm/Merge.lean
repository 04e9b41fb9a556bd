import KosKernel.Shm.NewRegion
import KosKernel.Shm.Remap

/-!
# KosKernel.Shm.Merge

**Merging two regions** (`kshmregion_merge` in `src/kernel/shm.c`).

The parts of the second region follow those of the first. If the frames of its first part
continue those of the last part before it, the two are fused, and the parts behind them get
their offsets from the end of the first region, without the pages of the fused part that come
after it: these offsets are too small as soon as there is such a part. The number of parts is
then stored in 16 bits, so that parts are lost when there are too many.
-/

namespace KosKernel.Shm

open List

variable {α : Type}

/-! ### The source -/

/-- The offsets of the parts behind a fused one. -/
def restart : Nat → List Part → List Part
  | _, [] => []
  | partStart, part :: rest =>
    { part with spStart := partStart } :: restart (partStart + part.spPages) rest

/-- The offset of a part in the merged region. -/
def shiftPart (pages : Nat) (part : Part) : Part := { part with spStart := part.spStart + pages }

/-- The parts of the merged region. -/
def mergeParts (minRegion maxRegion : Region) : Except Fault (List Part) :=
  match minRegion.scPartv.getLast?, maxRegion.scPartv with
  | some minpartMax, maxpartMin :: rest =>
    if minpartMax.spFrame + minpartMax.spPages = maxpartMin.spFrame then
      .ok (minRegion.scPartv.dropLast ++
        { minpartMax with spPages := minpartMax.spPages + maxpartMin.spPages } ::
          restart (minpartMax.spStart + minpartMax.spPages) rest)
    else if maxpartMin.spStart ≠ 0 then .error .assertion
    else .ok (minRegion.scPartv ++ maxRegion.scPartv.map (shiftPart minRegion.scPages))
  | _, _ => .error .assertion

/-- The parts that are left when their number is stored in `sc_partc`. -/
def countedParts (parts : List Part) : List Part := parts.take (parts.length % partcLimit)

/-- What `kshmregion_merge` asserts of one of the regions. -/
def Whole (r : Region) : Prop :=
  r.sreBranches = 1 ∧ r.scPartv ≠ [] ∧ r.sreClusterc ≠ 0 ∧ r.sreClustera = r.sreClusterc ∧
    ∀ c < r.sreClusterc, r.scRefcnt c = 1

instance (r : Region) : Decidable (Whole r) := inferInstanceAs (Decidable (_ ∧ _))

/-- The regions that `kshmregion_merge` accepts. -/
def Mergeable (minRegion maxRegion : Region) : Prop :=
  Whole minRegion ∧ Whole maxRegion ∧ minRegion.scFlags = maxRegion.scFlags

instance (minRegion maxRegion : Region) : Decidable (Mergeable minRegion maxRegion) :=
  inferInstanceAs (Decidable (_ ∧ _))

/-- `kshmregion_merge`; `nomem` is the failure of one of its two allocations. -/
def kshmregionMerge (m : Mem α) (minRid maxRid : Nat) (nomem : Bool) :
    Except Fault (Option Nat × Mem α) := do
  let minRegion ← m.region minRid
  let maxRegion ← m.region maxRid
  if ¬Mergeable minRegion maxRegion then .error .assertion
  else
    let totalPages := minRegion.scPages + maxRegion.scPages
    if minRegion.sreClusterc + maxRegion.sreClusterc < clustersForPages totalPages then
      .error .assertion
    else if nomem then return (none, m)
    else
      let parts ← mergeParts minRegion maxRegion
      let r ← kshmregionSetup minRegion.scFlags totalPages (countedParts parts)
      let (rid, m) := ((m.freeRegion minRid).freeRegion maxRid).addRegion r
      return (some rid, m)

/-! ### What a merge is for -/

/-- The frames of the two regions, one after the other. -/
def joinedFrames (minRegion maxRegion : Region) : List Nat :=
  pageFrames minRegion.scPartv ++ pageFrames maxRegion.scPartv

/-- The merged region has the pages of both, in parts that follow each other without a gap, and
each page is found where it is. -/
structure MergedFrom (minRegion maxRegion r : Region) : Prop where
  frame : ∀ i, r.frame i = (joinedFrames minRegion maxRegion)[i]?
  phys : ∀ i < r.scPages, ∃ phys maxPages, kshmregionGetphyspage r i = .ok (phys, maxPages) ∧
    (joinedFrames minRegion maxRegion)[i]? = some phys
  starts : PartsFrom 0 r.scPartv
  pages : r.scPages = minRegion.scPages + maxRegion.scPages
  clusters : r.sreClusterc = clustersForPages (minRegion.scPages + maxRegion.scPages)

/-- The call returns, and a region that it returns is the right one. -/
def MergeRight (minRegion maxRegion : Region) (result : Except Fault (Option Nat × Mem α)) :
    Prop :=
  ∃ merged m', result = .ok (merged, m') ∧ ∀ rid ∈ merged, ∃ r, m'.regions rid = some r ∧
    MergedFrom minRegion maxRegion r

/-- The frames of the second region continue those of the first. -/
def Adjacent (minRegion maxRegion : Region) : Prop :=
  ∃ minpartMax ∈ minRegion.scPartv.getLast?, ∃ maxpartMin ∈ maxRegion.scPartv.head?,
    minpartMax.spFrame + minpartMax.spPages = maxpartMin.spFrame

/-- The condition: no parts are fused in front of another part, and all parts are counted. -/
def MergeOk (nomem : Bool) (minRegion maxRegion : Region) : Prop :=
  nomem = true ∨ (Adjacent minRegion maxRegion ∧ maxRegion.scPartv.length = 1) ∨
    (¬Adjacent minRegion maxRegion ∧
      minRegion.scPartv.length + maxRegion.scPartv.length < partcLimit)

/-! ### Parts -/

theorem pageFrames_restart (start : Nat) (parts : List Part) :
    pageFrames (restart start parts) = pageFrames parts := by
  induction parts generalizing start with
  | nil => rfl
  | cons part rest ih => rw [restart, pageFrames_cons, pageFrames_cons, ih]

theorem pageFrames_shift (pages : Nat) (parts : List Part) :
    pageFrames (parts.map (shiftPart pages)) = pageFrames parts := by
  induction parts with
  | nil => rfl
  | cons part rest ih => rw [map_cons, pageFrames_cons, pageFrames_cons, ih]; rfl

variable {parts : List Part}

theorem pages_pos_restart (h : ∀ part ∈ parts, 0 < part.spPages) :
    ∀ start, ∀ part ∈ restart start parts, 0 < part.spPages := by
  induction parts with
  | nil => exact fun _ part hpart => absurd hpart not_mem_nil
  | cons first rest ih =>
    obtain ⟨hfirst, hrest⟩ := forall_mem_cons.1 h
    exact fun start => forall_mem_cons.2 ⟨hfirst, ih hrest _⟩

theorem countedParts_of_lt (h : parts.length < partcLimit) : countedParts parts = parts := by
  rw [countedParts, Nat.mod_eq_of_lt h, take_length]

/-- Parts that are not counted have pages, which are lost. -/
theorem countedParts_short (hpos : ∀ part ∈ parts, 0 < part.spPages)
    (h : partcLimit ≤ parts.length) :
    (pageFrames (countedParts parts)).length < (pageFrames parts).length := by
  have hlt : parts.length % partcLimit < parts.length :=
    Nat.lt_of_lt_of_le (Nat.mod_lt _ (by decide)) h
  have hsplit : pageFrames parts = pageFrames (countedParts parts) ++
      pageFrames (parts.drop (parts.length % partcLimit)) := by
    rw [← pageFrames_append, countedParts, take_append_drop]
  have hfirst := hpos _ (getElem_mem hlt)
  rw [hsplit, length_append, drop_eq_getElem_cons hlt, pageFrames_cons,
    length_append, length_range']
  omega

theorem PartsFrom.shift (pages : Nat) :
    ∀ {start : Nat}, PartsFrom start parts →
      PartsFrom (start + pages) (parts.map (shiftPart pages)) := by
  induction parts with
  | nil => exact fun _ => trivial
  | cons part rest ih =>
    intro start h
    obtain ⟨hstart, hpos, hrest⟩ := h
    refine ⟨by rw [← hstart]; rfl, hpos, ?_⟩
    have := ih hrest
    rwa [Nat.add_right_comm] at this

variable {r : Region}

theorem RegionWf.first_part (h : RegionWf r) :
    ∃ first rest, r.scPartv = first :: rest ∧ first.spStart = 0 ∧ 0 < first.spPages := by
  have hfrom := h.parts
  have hpages := h.pages
  have hpos := h.pos
  cases hparts : r.scPartv with
  | nil =>
    rw [hparts, pageFrames_nil, length_nil] at hpages
    omega
  | cons first rest =>
    rw [hparts] at hfrom
    exact ⟨first, rest, rfl, hfrom.1, hfrom.2.1⟩

theorem RegionWf.last_part (h : RegionWf r) : ∃ init last, r.scPartv = init ++ [last] := by
  obtain ⟨first, rest, hparts, -⟩ := h.first_part
  have hne : r.scPartv ≠ [] := hparts ▸ cons_ne_nil _ _
  exact ⟨_, _, (dropLast_append_getLast hne).symm⟩

/-! ### Calls -/

theorem kshmregionSetup_parts {flags : RegionFlags} {pages : Nat}
    (h : kshmregionSetup flags pages parts = .ok r) : r.scPartv = parts := by
  unfold kshmregionSetup at h
  cases hloop : setupLoop (clustersForPages pages) parts 0 0 with
  | error fault =>
    rw [hloop] at h
    cases h
  | ok scPart =>
    rw [hloop] at h
    cases h
    rfl

/-- Parts that follow each other and have the frames of both regions make the right region. -/
theorem kshmregionSetup_merged {minRegion maxRegion : Region} (hmin : RegionWf minRegion)
    (hmax : RegionWf maxRegion) (hfrom : PartsFrom 0 parts)
    (hframes : pageFrames parts = joinedFrames minRegion maxRegion) :
    ∃ r, kshmregionSetup minRegion.scFlags (minRegion.scPages + maxRegion.scPages) parts = .ok r ∧
      MergedFrom minRegion maxRegion r := by
  have hlen : (pageFrames parts).length = minRegion.scPages + maxRegion.scPages := by
    rw [hframes, joinedFrames, length_append, hmin.pages, hmax.pages]
  have hpos := hmin.pos
  obtain ⟨r, hr, hwf, -, hpages, hparts, -⟩ :=
    kshmregionSetup_spec minRegion.scFlags hfrom hlen (by omega)
  have hframe : ∀ i, r.frame i = (joinedFrames minRegion maxRegion)[i]? := by
    intro i
    rw [Region.frame, hparts, hframes]
  refine ⟨r, hr, hframe, fun i hi => ?_, hparts ▸ hfrom, hpages, ?_⟩
  · obtain ⟨phys, maxPages, hphys, hmaxPages, hrun⟩ := kshmregionGetphyspage_spec hwf hi
    exact ⟨phys, maxPages, hphys, (hframe i).symm.trans (hrun 0 hmaxPages)⟩
  · rw [hwf.clusters, hpages]
    rfl

theorem merged_region (m : Mem α) (minRid maxRid : Nat) (r : Region) :
    (((m.freeRegion minRid).freeRegion maxRid).addRegion r).2.regions m.next = some r :=
  Function.update_self ..

/-! ### The two ways of putting parts together -/

section Parts

variable {minRegion maxRegion : Region} {init rest : List Part} {last first : Part}

section

variable (hminP : minRegion.scPartv = init ++ [last]) (hmaxP : maxRegion.scPartv = first :: rest)

include hminP hmaxP

theorem mergeParts_fused (hadj : last.spFrame + last.spPages = first.spFrame) :
    mergeParts minRegion maxRegion =
      .ok (init ++ { last with spPages := last.spPages + first.spPages } ::
        restart (last.spStart + last.spPages) rest) := by
  rw [mergeParts, hminP, hmaxP, getLast?_concat, dropLast_concat]
  exact if_pos hadj

theorem mergeParts_apart (hstart : first.spStart = 0)
    (hadj : ¬last.spFrame + last.spPages = first.spFrame) :
    mergeParts minRegion maxRegion =
      .ok (minRegion.scPartv ++ maxRegion.scPartv.map (shiftPart minRegion.scPages)) := by
  rw [mergeParts, hminP, hmaxP, getLast?_concat]
  dsimp only
  rw [if_neg hadj, if_neg (not_not.2 hstart)]

/-- The fused part has the frames of both, as they are adjacent. -/
theorem pageFrames_fused (hadj : last.spFrame + last.spPages = first.spFrame) (k : Nat) :
    pageFrames (init ++ { last with spPages := last.spPages + first.spPages } :: restart k rest) =
      joinedFrames minRegion maxRegion := by
  have hrange : List.range' last.spFrame (last.spPages + first.spPages) =
      List.range' last.spFrame last.spPages ++ List.range' first.spFrame first.spPages := by
    rw [← hadj, ← List.range'_append_1]
  rw [joinedFrames, hminP, hmaxP, pageFrames_append, pageFrames_append, pageFrames_cons,
    pageFrames_cons, pageFrames_cons, pageFrames_nil, pageFrames_restart, hrange]
  simp only [append_assoc, nil_append]

theorem adjacent_iff :
    Adjacent minRegion maxRegion ↔ last.spFrame + last.spPages = first.spFrame := by
  rw [Adjacent, hminP, hmaxP, getLast?_concat, head?_cons]
  simp

end

end Parts

/-! ### Calls -/

section Cases

variable {m : Mem α} {minRid maxRid : Nat} {minRegion maxRegion : Region}

variable (hminR : m.regions minRid = some minRegion) (hmaxR : m.regions maxRid = some maxRegion)
  (hmin : RegionWf minRegion) (hmax : RegionWf maxRegion) (hacc : Mergeable minRegion maxRegion)

include hminR hmaxR hmin hmax hacc

/-- What a call does once its assertions hold. -/
theorem kshmregionMerge_eq (nomem : Bool) :
    kshmregionMerge m minRid maxRid nomem =
      if nomem then .ok (none, m)
      else (mergeParts minRegion maxRegion).bind fun parts =>
        (kshmregionSetup minRegion.scFlags (minRegion.scPages + maxRegion.scPages)
          (countedParts parts)).bind fun r => .ok (some m.next,
            (((m.freeRegion minRid).freeRegion maxRid).addRegion r).2) := by
  have hclusters : ¬minRegion.sreClusterc + maxRegion.sreClusterc <
      clustersForPages (minRegion.scPages + maxRegion.scPages) := by
    rw [hmin.clusters, hmax.clusters]
    simp only [clustersForPages, clusterSize]
    omega
  simp only [kshmregionMerge, Mem.region, hminR, hmaxR, bind, Except.bind, pure, Except.pure,
    hacc, not_true_eq_false, if_false, if_neg hclusters]
  cases nomem <;> rfl

/-- **A call is right when the parts that it puts together are**: it is wrong when parts are
lost, or the offsets of the parts do not add up. -/
theorem mergeRight_iff_parts {parts : List Part}
    (hparts : mergeParts minRegion maxRegion = .ok parts)
    (hpos : ∀ part ∈ parts, 0 < part.spPages)
    (hframes : pageFrames parts = joinedFrames minRegion maxRegion) :
    MergeRight minRegion maxRegion (kshmregionMerge m minRid maxRid false) ↔
      parts.length < partcLimit ∧ PartsFrom 0 parts := by
  rw [kshmregionMerge_eq hminR hmaxR hmin hmax hacc false, hparts]
  simp only [Bool.false_eq_true, if_false, Except.bind]
  constructor
  · rintro ⟨merged, m', hcall, hright⟩
    cases hsetup : kshmregionSetup minRegion.scFlags (minRegion.scPages + maxRegion.scPages)
        (countedParts parts) with
    | error fault =>
      rw [hsetup] at hcall
      cases hcall
    | ok r =>
      rw [hsetup] at hcall
      cases hcall
      obtain ⟨r', hr', hmerged⟩ := hright m.next rfl
      obtain rfl := Option.some.inj ((merged_region ..).symm.trans hr')
      have hstored : r.scPartv = countedParts parts := kshmregionSetup_parts hsetup
      by_cases hcount : parts.length < partcLimit
      · rw [countedParts_of_lt hcount] at hstored
        exact ⟨hcount, hstored ▸ hmerged.starts⟩
      -- The first page that is lost has no frame.
      have hshort := countedParts_short hpos (Nat.not_lt.1 hcount)
      have hlost := hmerged.frame (pageFrames (countedParts parts)).length
      rw [Region.frame, hstored, ← hframes, getElem?_eq_none le_rfl,
        getElem?_eq_getElem hshort] at hlost
      cases hlost
  · rintro ⟨hcount, hfrom⟩
    obtain ⟨r, hr, hmerged⟩ := kshmregionSetup_merged hmin hmax hfrom hframes
    rw [countedParts_of_lt hcount, hr]
    refine ⟨_, _, rfl, fun rid hrid => ⟨r, ?_, hmerged⟩⟩
    obtain rfl := Option.some.inj hrid
    exact merged_region ..

/-- Regions that are adjacent are merged if the second one has only the part that is fused. -/
theorem mergeRight_adjacent_iff (hpartc : minRegion.scPartv.length < partcLimit)
    (hadj : Adjacent minRegion maxRegion) :
    MergeRight minRegion maxRegion (kshmregionMerge m minRid maxRid false) ↔
      maxRegion.scPartv.length = 1 := by
  obtain ⟨init, last, hminP⟩ := hmin.last_part
  obtain ⟨first, rest, hmaxP, -, hpos⟩ := hmax.first_part
  have hfrom := hmin.parts
  rw [hminP, partsFrom_append, Nat.zero_add] at hfrom
  obtain ⟨hinit, hlast, hpages, -⟩ := hfrom
  have hnext := (adjacent_iff hminP hmaxP).1 hadj
  have hparts := mergeParts_fused hminP hmaxP hnext
  have hframes := pageFrames_fused hminP hmaxP hnext (last.spStart + last.spPages)
  rw [mergeRight_iff_parts hminR hmaxR hmin hmax hacc hparts ?_ hframes, hmaxP, length_cons,
    Nat.add_eq_right, length_eq_zero_iff, partsFrom_append, Nat.zero_add]
  · constructor
    · rintro ⟨-, -, -, -, hstarts⟩
      cases rest with
      | nil => rfl
      | cons part rest =>
        -- What is fused is longer, so that nothing may start at its old end.
        have hend : last.spStart + last.spPages = _ := hstarts.1
        dsimp only at hend
        omega
    · rintro rfl
      exact ⟨by simpa [hminP, restart] using hpartc, hinit, hlast, Nat.add_pos_right _ hpos,
        trivial⟩
  · intro part hpart
    rcases mem_append.1 hpart with hin | hin
    · exact hinit.pages_pos part hin
    rcases mem_cons.1 hin with rfl | hin
    · exact Nat.add_pos_right _ hpos
    refine pages_pos_restart (fun q hq => hmax.parts.pages_pos q ?_) _ part hin
    rw [hmaxP]
    exact mem_cons_of_mem _ hq

/-- Regions that are not adjacent are merged if their parts can be counted. -/
theorem mergeRight_apart_iff (hadj : ¬Adjacent minRegion maxRegion) :
    MergeRight minRegion maxRegion (kshmregionMerge m minRid maxRid false) ↔
      minRegion.scPartv.length + maxRegion.scPartv.length < partcLimit := by
  obtain ⟨init, last, hminP⟩ := hmin.last_part
  obtain ⟨first, rest, hmaxP, hfirst, -⟩ := hmax.first_part
  have hparts := mergeParts_apart hminP hmaxP hfirst
    (fun h => hadj ((adjacent_iff hminP hmaxP).2 h))
  have hframes : pageFrames (minRegion.scPartv ++
      maxRegion.scPartv.map (shiftPart minRegion.scPages)) =
        joinedFrames minRegion maxRegion := by
    rw [pageFrames_append, pageFrames_shift, joinedFrames]
  have hfrom : PartsFrom 0 (minRegion.scPartv ++
      maxRegion.scPartv.map (shiftPart minRegion.scPages)) := by
    have hshift := hmax.parts.shift minRegion.scPages
    rw [Nat.zero_add] at hshift
    rw [partsFrom_append, hmin.pages, Nat.zero_add]
    exact ⟨hmin.parts, hshift⟩
  rw [mergeRight_iff_parts hminR hmaxR hmin hmax hacc hparts hfrom.pages_pos hframes,
    and_iff_left hfrom, length_append, length_map]

end Cases

/-- **Merging two regions.** Of any two regions that it accepts, the call makes a region with
the pages of both, each found where it is, exactly if memory is short (and nothing happens), or
it fuses two parts that no other part follows, or it fuses none and can count all parts. -/
theorem kshmregionMerge_right_iff (m : Mem α) (minRid maxRid : Nat) (nomem : Bool)
    (minRegion maxRegion : Region) (hminR : m.regions minRid = some minRegion)
    (hmaxR : m.regions maxRid = some maxRegion) (hmin : RegionWf minRegion)
    (hmax : RegionWf maxRegion) (hacc : Mergeable minRegion maxRegion)
    (hpartc : minRegion.scPartv.length < partcLimit) :
    MergeRight minRegion maxRegion (kshmregionMerge m minRid maxRid nomem) ↔
      MergeOk nomem minRegion maxRegion := by
  cases nomem with
  | true =>
    refine iff_of_true ⟨none, m, ?_, fun rid hrid => by cases hrid⟩ (.inl rfl)
    rw [kshmregionMerge_eq hminR hmaxR hmin hmax hacc true, if_pos rfl]
  | false =>
    by_cases hadj : Adjacent minRegion maxRegion
    · rw [mergeRight_adjacent_iff hminR hmaxR hmin hmax hacc hpartc hadj]
      simp [MergeOk, hadj]
    · rw [mergeRight_apart_iff hminR hmaxR hmin hmax hacc hadj]
      simp [MergeOk, hadj]

/-! ### Examples -/

/-- Parts of one cluster each. -/
def scatteredParts : Nat → List Nat → List Part
  | _, [] => []
  | start, frame :: rest => ⟨frame, start, clusterSize⟩ :: scatteredParts (start + clusterSize) rest

/-- A region of whole clusters, with a part for each of them. -/
def scatteredRegion (frames : List Nat) : Region where
  scFlags := ⟨false, true, true, false, false, false, false, false⟩
  scPages := frames.length * clusterSize
  scPartv := scatteredParts 0 frames
  sreOrigin := none
  sreBranches := 1
  sreClustera := frames.length
  sreClusterc := frames.length
  scRefcnt := fun _ => 1
  scPart := id

/-- Memory with two such regions. -/
def scatteredMem (frames frames' : List Nat) : Mem Unit where
  regions := fun rid =>
    if rid = 0 then some (scatteredRegion frames)
    else if rid = 1 then some (scatteredRegion frames') else none
  next := 2
  held := fun f => (frames ++ frames').any fun frame => frame ≤ f && f < frame + clusterSize
  reserved := fun _ => false
  content := fun _ => ()

theorem partsFrom_scattered (start : Nat) (frames : List Nat) :
    PartsFrom start (scatteredParts start frames) := by
  induction frames generalizing start with
  | nil => trivial
  | cons frame rest ih => exact ⟨rfl, Nat.succ_pos _, ih _⟩

theorem length_pageFrames_scattered (start : Nat) (frames : List Nat) :
    (pageFrames (scatteredParts start frames)).length = frames.length * clusterSize := by
  induction frames generalizing start with
  | nil => rw [scatteredParts, pageFrames_nil, length_nil, Nat.zero_mul]
  | cons frame rest ih =>
    rw [scatteredParts, pageFrames_cons, length_append, length_range', ih,
      length_cons, Nat.succ_mul, Nat.add_comm]

theorem drop_scatteredParts (start c : Nat) (frames : List Nat) :
    (scatteredParts start frames).drop c =
      scatteredParts (start + c * clusterSize) (frames.drop c) := by
  induction frames generalizing start c with
  | nil => simp [scatteredParts]
  | cons frame rest ih =>
    cases c with
    | zero => simp
    | succ c =>
      rw [scatteredParts, drop_succ_cons, drop_succ_cons, ih, Nat.succ_mul,
        Nat.add_right_comm, Nat.add_assoc start]

theorem regionWf_scattered {frames : List Nat} (hne : frames ≠ []) :
    RegionWf (scatteredRegion frames) := by
  have hpos : 0 < frames.length := length_pos_iff.2 hne
  refine ⟨partsFrom_scattered 0 frames, length_pageFrames_scattered 0 frames,
    Nat.mul_pos hpos (Nat.succ_pos _), ?_, fun c hc => ?_⟩
  · simp only [scatteredRegion, clusterSize]
    omega
  · have hlt : c < frames.length := hc
    have hdrop := drop_scatteredParts 0 c frames
    rw [drop_eq_getElem_cons hlt, scatteredParts, Nat.zero_add] at hdrop
    exact ⟨_, _, hdrop, Nat.le_refl _, Nat.lt_add_of_pos_right (Nat.succ_pos _)⟩

/-- The second region has two parts, the first of which is adjacent to the first region. The
last cluster of the merged region is not found. -/
theorem kshmregionMerge_misplaces :
    RegionWf (scatteredRegion [100]) ∧ RegionWf (scatteredRegion [116, 200]) ∧
    Mergeable (scatteredRegion [100]) (scatteredRegion [116, 200]) ∧
    (∃ m' r, kshmregionMerge (scatteredMem [100] [116, 200]) 0 1 false = .ok (some 2, m') ∧
      m'.regions 2 = some r ∧ r.scPages = 48 ∧ r.scPartv = [⟨100, 0, 32⟩, ⟨200, 16, 16⟩] ∧
      kshmregionGetphyspage r 32 = .error .assertion) ∧
    ¬MergeRight (scatteredRegion [100]) (scatteredRegion [116, 200])
      (kshmregionMerge (scatteredMem [100] [116, 200]) 0 1 false) := by
  have hcall : ∃ m' r,
      kshmregionMerge (scatteredMem [100] [116, 200]) 0 1 false = .ok (some 2, m') ∧
      m'.regions 2 = some r ∧ r.scPages = 48 ∧ r.scPartv = [⟨100, 0, 32⟩, ⟨200, 16, 16⟩] ∧
      kshmregionGetphyspage r 32 = .error .assertion := ⟨_, _, rfl, rfl, rfl, rfl, rfl⟩
  refine ⟨regionWf_scattered (by decide), regionWf_scattered (by decide), by decide, hcall, ?_⟩
  obtain ⟨m', r, hval, hr, -, hparts, -⟩ := hcall
  rintro ⟨merged, m'', hval', hright⟩
  rw [hval] at hval'
  cases hval'
  obtain ⟨r', hr', hmerged⟩ := hright 2 rfl
  obtain rfl := Option.some.inj (hr.symm.trans hr')
  have hstarts := hmerged.starts
  rw [hparts] at hstarts
  have hsecond : 16 = 32 := hstarts.2.2.1
  exact absurd hsecond (by decide)

/-- Regions that are not adjacent are merged, whatever parts they have. -/
theorem kshmregionMerge_right_apart :
    MergeOk false (scatteredRegion [100]) (scatteredRegion [150, 200]) ∧
    MergeRight (scatteredRegion [100]) (scatteredRegion [150, 200])
      (kshmregionMerge (scatteredMem [100] [150, 200]) 0 1 false) := by
  have hok : MergeOk false (scatteredRegion [100]) (scatteredRegion [150, 200]) := by
    have hlast : (scatteredRegion [100]).scPartv = [] ++ [⟨100, 0, 16⟩] := rfl
    refine .inr (.inr ⟨fun hadj => ?_, by decide⟩)
    exact absurd ((adjacent_iff hlast rfl).1 hadj) (by decide)
  exact ⟨hok, (kshmregionMerge_right_iff _ 0 1 false _ _ rfl rfl
    (regionWf_scattered (by decide)) (regionWf_scattered (by decide)) (by decide)
    (by decide)).2 hok⟩

end KosKernel.Shm
