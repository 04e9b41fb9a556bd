import KosKernel.Shm.NewRegion
import KosKernel.Shm.Remap
import KosKernel.Shm.Trim

/-!
# KosKernel.Shm.RemapExact

**When a branch is mapped as it should be.** Both loops ask for page tables, and for pages and
frames that are not at an end of memory; the loop over the clusters is then right for every
branch. The loop over the parts starts at the first page of the cluster's part, not at the
first page of the cluster, and takes the first run to be as long as its part, wherever it
starts: it is right only if the cluster is at the start of a part and the branch is too, or
if the frames happen to follow each other.
-/

namespace KosKernel.Shm

open PageFrame List

variable {α : Type}

/-- An entry of a page directory is the one for a page of the region. -/
def EntryRight (r : Region) (page : Nat) (pte : Option Pte) : Prop :=
  ∃ phys maxPages, kshmregionGetphyspage r page = .ok (phys, maxPages) ∧
    pte = some (entry (access r page) phys)

/-- `kshmbranch_remap` returns and maps every page of the branch to the frame of its page of the
region. -/
def RemapRight (m : Mem α) (b : Branch) (pd : PageDir) (nomem : Nat → Bool) : Prop :=
  ∃ r pd', m.regions b.sbRegion = some r ∧ kshmbranchRemap m b pd nomem = .ok (.keOk, pd') ∧
    ∀ i < b.sbRpages, EntryRight r (b.sbRstart + i) (pd' (b.sbMapMin / pageSize + i))

/-- What holds for a region and a branch of it: the counters count branches, and every page
has a frame of its own. -/
structure Mappable (m : Mem α) (b : Branch) (r : Region) : Prop where
  region : m.regions b.sbRegion = some r
  wf : RegionWf r
  branch : BranchOk m b
  count : ∀ c, r.scRefcnt c ≤ r.sreBranches
  nodup : (pageFrames r.scPartv).Nodup
  frames : ∀ f ∈ pageFrames r.scPartv, f ≤ lastPage

/-- A part starts at the page. -/
def StartsPart (r : Region) (page : Nat) : Prop := ∃ part ∈ r.scPartv, part.spStart = page

/-- **The exact condition for the plain path.** The first cluster is at the start of a part,
and so is the branch, or it is no longer than the part it starts in and its frames follow
each other. That part does not start at frame 0. -/
def PartsLineUp (r : Region) (start pages : Nat) : Prop :=
  StartsPart r (getcluster start * clusterSize) ∧
  ∃ part ∈ r.scPartv, part.spStart ≤ start ∧ start < part.spStart + part.spPages ∧
    part.spFrame ≠ 0 ∧ (part.spStart = start ∨ (pages ≤ part.spPages ∧
      ∀ i < pages, r.frame (start + i) = (r.frame start).map (· + i)))

/-- **The exact condition on a branch.** -/
def RemapOk (r : Region) (b : Branch) (nomem : Nat → Bool) : Prop :=
  (∀ i < b.sbRpages,
    PageOk nomem (r.frame (b.sbRstart + i)) (b.sbMapMin / pageSize + i)) ∧
  ((r.scFlags.useCow = true ∧ r.scFlags.read = true) ∨
    ((r.scFlags.useCow = true →
        ∀ i < b.sbRpages, r.scRefcnt (getcluster (b.sbRstart + i)) ≤ 1) ∧
      PartsLineUp r b.sbRstart b.sbRpages))

/-! ### Parts -/

theorem PartsFrom.eq_of_mem {parts : List Part} {start : Nat} (h : PartsFrom start parts)
    (page : Nat) {p q : Part} (hp : p ∈ parts) (hq : q ∈ parts)
    (hin : p.spStart ≤ page ∧ page < p.spStart + p.spPages)
    (hin' : q.spStart ≤ page ∧ page < q.spStart + q.spPages) : p = q := by
  obtain ⟨i, hi⟩ := mem_iff_getElem?.1 hp
  obtain ⟨j, hj⟩ := mem_iff_getElem?.1 hq
  obtain rfl := h.unique hi hj hin hin'
  exact Option.some.inj (hi.symm.trans hj)

theorem frame_injective {r : Region} (h : (pageFrames r.scPartv).Nodup) {i j : Nat}
    (hi : i < (pageFrames r.scPartv).length) (heq : r.frame i = r.frame j) : i = j :=
  (getElem?_inj hi h).1 heq

theorem cluster_add_mod (page : Nat) :
    getcluster page * clusterSize + page % clusterSize = page := by
  rw [getcluster, Nat.mul_comm]
  exact Nat.div_add_mod ..

/-! ### What the loop over the parts maps -/

section
variable {r : Region} {part : Part} {rest : List Part} {found page : Nat}

/-- Inside the first part, the frames follow each other; behind it they are those of the
pages that follow the part. -/
theorem partFrames_getElem?
    (hdrop : (pageFrames (part :: rest)).drop found = (pageFrames r.scPartv).drop page)
    (hpage : part.spStart + found = page) (hfound : found < part.spPages) (i : Nat) :
    (partFrames (part :: rest) found)[i]? =
      if i < part.spPages then some (part.spFrame + found + i) else r.frame (part.spStart + i) := by
  rw [partFrames]
  by_cases hi : i < part.spPages
  · rw [if_pos hi, getElem?_append_left (by simpa using hi), getElem?_range' hi,
      Nat.one_mul]
  have hget := congrArg (·[i - found]?) hdrop
  simp only [getElem?_drop] at hget
  rw [if_neg hi, getElem?_append_right (by simpa using hi), length_range', Region.frame,
    show part.spStart + i = page + (i - found) by omega, ← hget, pageFrames_cons,
    getElem?_append_right (by simp; omega), length_range']
  congr 1
  omega

/-- The plain path maps the pages of the branch exactly if the parts line up. `first` is
the part that the cluster of the first page starts in. -/
theorem partFrames_right_iff {start pages : Nat} {first : Part} (h : RegionWf r)
    (hnodup : (pageFrames r.scPartv).Nodup) (hpos : 0 < pages)
    (hin : start + pages ≤ r.scPages) (hfirst : first ∈ r.scPartv)
    (hlo : first.spStart ≤ getcluster start * clusterSize)
    (hhi : getcluster start * clusterSize < first.spStart + first.spPages)
    (hpart : part ∈ r.scPartv) (hfound : found < part.spPages)
    (hpage : part.spStart + found = first.spStart + start % clusterSize)
    (hdrop : (pageFrames (part :: rest)).drop found =
      (pageFrames r.scPartv).drop (first.spStart + start % clusterSize)) :
    (part.spFrame ≠ 0 ∧
        ∀ i < pages, (partFrames (part :: rest) found)[i]? = r.frame (start + i)) ↔
      PartsLineUp r start pages := by
  have hstart := cluster_add_mod start
  have hget := partFrames_getElem? hdrop hpage hfound
  have hlen := h.pages
  constructor
  · rintro ⟨hnull, hall⟩
    -- the first frame is that of the first page, so the cluster starts its part
    have hzero := hall 0 hpos
    rw [hget, if_pos (by omega), ← frame_of_drop hdrop 0 (by omega)] at hzero
    have hsame := frame_injective hnodup (by omega) hzero.symm
    refine ⟨⟨first, hfirst, by omega⟩, part, hpart, by omega, by omega, hnull, ?_⟩
    rcases Nat.eq_zero_or_pos found with hnone | hsome
    · left
      omega
    right
    have hframe : r.frame start = some (part.spFrame + found) := by
      have := frame_of_drop hdrop 0 (by omega)
      rwa [Nat.add_zero, Nat.add_zero, show first.spStart + start % clusterSize = start by omega]
        at this
    have hle : pages ≤ part.spPages := by
      -- a second run would start too early
      by_contra hlong
      have hnext := hall part.spPages (by omega)
      rw [hget, if_neg (Nat.lt_irrefl _)] at hnext
      have := frame_injective hnodup (by omega) hnext
      omega
    refine ⟨hle, fun i hi => ?_⟩
    rw [← hall i hi, hget, if_pos (by omega), hframe]
    rfl
  · rintro ⟨⟨first', hfirst', hstart'⟩, part', hpart', hlo', hhi', hnull, hcase⟩
    have hfirsts : first' = first := h.parts.eq_of_mem (getcluster start * clusterSize)
      hfirst' hfirst ⟨by omega, by have := h.parts.pages_pos first' hfirst'; omega⟩ ⟨hlo, hhi⟩
    subst hfirsts
    have hparts : part' = part :=
      h.parts.eq_of_mem start hpart' hpart ⟨hlo', hhi'⟩ ⟨by omega, by omega⟩
    subst hparts
    rw [show first'.spStart + start % clusterSize = start by omega] at hdrop
    refine ⟨hnull, fun i hi => ?_⟩
    rw [hget]
    rcases hcase with hline | ⟨hle, hrun⟩
    · by_cases hinside : i < part'.spPages
      · rw [if_pos hinside, frame_of_drop hdrop i (by omega)]
      · rw [if_neg hinside, hline]
    have hframe := frame_of_drop hdrop 0 (by omega)
    rw [Nat.add_zero, Nat.add_zero] at hframe
    rw [if_pos (by omega), hrun i hi, hframe]
    rfl

end

/-! ### The flags of the plain path -/

theorem plainFlags_eq_access_iff {r : Region} {page : Nat}
    (hplain : ¬(r.scFlags.useCow = true ∧ r.scFlags.read = true)) :
    plainFlags r.scFlags = access r page ↔
      (r.scFlags.useCow = true → r.scRefcnt (getcluster page) ≤ 1) := by
  unfold plainFlags access
  by_cases hcow : r.scFlags.useCow = true
  · have hread : r.scFlags.read = false := by
      simpa [hcow] using hplain
    simp [hcow, hread]
  · simp [hcow]

theorem entry_inj {flags flags' : PageFlags} {f f' : Nat} :
    entry flags f = entry flags' f' ↔ flags = flags' ∧ f = f' := by
  cases flags
  cases flags'
  simp only [entry, Pte.mk.injEq, PageFlags.mk.injEq]
  tauto

/-! ### The whole call -/

section
variable {m : Mem α} {b : Branch} {r : Region} {pd : PageDir}
  {nomem : Nat → Bool}

section

variable (h : Mappable m b r)

include h

theorem Mappable.pages_pos : 0 < b.sbRpages := by
  have hsize := h.branch.size
  have hordered := h.branch.leaf.ordered
  rcases Nat.eq_zero_or_pos b.sbRpages with hzero | hpos
  · rw [hzero] at hsize
    omega
  · exact hpos

theorem Mappable.in_region : b.sbRstart + b.sbRpages ≤ r.scPages := by
  obtain ⟨r', hr', hle, -⟩ := h.branch.region
  rw [h.region] at hr'
  cases hr'
  exact hle

omit h in
theorem entryRight_iff (h : RegionWf r) {page : Nat} (hpage : page < r.scPages)
    {pte : Option Pte} : EntryRight r page pte ↔ pte = wanted r page := by
  obtain ⟨phys, maxPages, hphys, -, -⟩ := kshmregionGetphyspage_spec h hpage
  simp [EntryRight, wanted, hphys]

theorem Mappable.in_space : b.sbMapMin / pageSize + b.sbRpages ≤ lastPage + 1 := by
  have hsize := h.branch.size
  have hspace := h.branch.space
  unfold pageSize addrSpace lastPage at *
  omega

/-- A call that ends with certain entries is right if all checks pass and these are the wanted
ones. -/
theorem remapRight_iff_of_ends {w : Nat → Option Pte} {checks : Prop}
    (hends : EndsWith checks (kshmbranchRemap m b pd nomem)
      (upTo pd (b.sbMapMin / pageSize) w b.sbRpages)) :
    RemapRight m b pd nomem ↔
      checks ∧ ∀ i < b.sbRpages, w i = wanted r (b.sbRstart + i) := by
  have hin := h.in_region
  obtain ⟨hok, hfault⟩ := hends
  constructor
  · rintro ⟨r', pd', hr', hcall, hmaps⟩
    rw [h.region] at hr'
    cases hr'
    have hchecks : checks := by
      by_contra hnot
      obtain ⟨fault, hresult⟩ := hfault hnot
      rw [hcall] at hresult
      cases hresult
    refine ⟨hchecks, fun i hi => ?_⟩
    have hentry := (entryRight_iff h.wf (by omega)).1 (hmaps i hi)
    rw [hok hchecks] at hcall
    cases hcall
    rwa [upTo_apply _ _ _ hi] at hentry
  · rintro ⟨hchecks, hw⟩
    refine ⟨r, _, h.region, hok hchecks, fun i hi => ?_⟩
    rw [entryRight_iff h.wf (by omega), upTo_apply _ _ _ hi, hw i hi]

theorem Mappable.virt : (b.sbMapMin / pageSize + 0) * pageSize = b.sbMapMin := by
  exact Nat.div_mul_cancel (Nat.dvd_of_mod_eq_zero h.branch.leaf.aligned_min)

theorem kshmbranchRemap_cow (hcow : r.scFlags.useCow = true) (hread : r.scFlags.read = true) :
    EndsWith (∀ i < b.sbRpages,
        PageOk nomem (r.frame (b.sbRstart + i)) (b.sbMapMin / pageSize + i))
      (kshmbranchRemap m b pd nomem)
      (upTo pd (b.sbMapMin / pageSize) (fun i => wanted r (b.sbRstart + i)) b.sbRpages) := by
  have hlast : ∀ page f, r.frame page = some f → f ≤ lastPage :=
    fun page f hf => h.frames f (mem_of_getElem? hf)
  have hends : EndsWith _ (cowLoop r b _ nomem _ _ _ _ ((b.sbMapMin / pageSize + 0) * _)
      (upTo pd _ _ 0)) _ :=
    cowLoop_spec h.wf hcow hread h.count hlast b.sbRpages _ _ _ 0 (Nat.mod_lt _ (by decide))
      (cluster_add_mod b.sbRstart) h.pages_pos le_rfl h.in_region h.in_space
  rw [h.virt, upTo_zero, Nat.zero_add] at hends
  unfold kshmbranchRemap
  rw [Mem.region_of h.region, h.branch.clusterMin]
  simp only [bind, Except.bind, hcow, hread, Bool.and_true, if_true]
  exact hends

theorem kshmbranchRemap_plain (pd : PageDir)
    (hplain : ¬(r.scFlags.useCow = true ∧ r.scFlags.read = true)) :
    ∃ (part : Part) (frames : Nat → Option Nat),
      EndsWith (part.spFrame ≠ 0 ∧
          ∀ i < b.sbRpages, PageOk nomem (frames i) (b.sbMapMin / pageSize + i))
        (kshmbranchRemap m b pd nomem)
        (upTo pd (b.sbMapMin / pageSize)
          (fun i => (frames i).map (entry (plainFlags r.scFlags))) b.sbRpages) ∧
      ((part.spFrame ≠ 0 ∧ ∀ i < b.sbRpages, frames i = r.frame (b.sbRstart + i)) ↔
        PartsLineUp r b.sbRstart b.sbRpages) := by
  have hpos := h.pages_pos
  have hin := h.in_region
  have hlen := h.wf.pages
  obtain ⟨first, others, hfirst, hlo, hhi, hsuffix, hframes⟩ :=
    h.wf.partsAt (h.wf.cluster_lt (show b.sbRstart < r.scPages by omega))
  have hstart := cluster_add_mod b.sbRstart
  have hsub : ∀ part ∈ first :: others, part ∈ r.scPartv :=
    fun part hpart => mem_of_mem_drop (hfirst ▸ hpart)
  obtain ⟨part, rest, found, hskip, hpart, hfound, hpage, hdrop⟩ := skipTo_spec hsuffix
    (show b.sbRstart % clusterSize < (pageFrames (first :: others)).length by
      rw [hframes, length_drop]
      omega)
  rw [hframes, drop_drop] at hdrop
  refine ⟨part, fun i => (partFrames (part :: rest) found)[i]?, ?_,
    partFrames_right_iff h.wf h.nodup hpos hin (hsub first (.head _)) hlo hhi
      (hsub part (hpart part (.head _))) hfound hpage hdrop⟩
  have hparts : ∀ p ∈ part :: rest, 0 < p.spPages ∧ p.spFrame + p.spPages ≤ lastPage + 1 := by
    intro p hp
    have hmem := hsub p (hpart p hp)
    have hpages := h.wf.parts.pages_pos p hmem
    have hlast := h.frames (p.spFrame + (p.spPages - 1))
      (mem_flatMap.2 ⟨p, hmem, mem_range'_1.2 (by omega)⟩)
    exact ⟨hpages, by omega⟩
  have hfits : part.spFrame + found ≤ lastPage := by
    have := (hparts part (.head _)).2
    omega
  have hlengths := congrArg List.length hdrop
  rw [length_drop, length_drop] at hlengths
  have hends : EndsWith _ (partLoop b _ nomem _ found _ ((b.sbMapMin / pageSize + 0) * _)
      (upTo pd _ (fun i => ((partFrames _ found)[i]?).map (entry (plainFlags r.scFlags))) 0)) _ :=
    partLoop_spec hparts (by simpa using hfits) hpos (by omega) h.in_space
      fun i _ => by rw [Nat.zero_add]
  rw [h.virt, upTo_zero, Nat.zero_add] at hends
  simp only [head?_cons, Option.mem_some_iff, forall_eq', Nat.add_zero] at hends
  unfold kshmbranchRemap
  rw [Mem.region_of h.region]
  simp only [bind, Except.bind, h.branch.clusterMin, hfirst, hskip]
  rw [if_neg (by simpa using hplain)]
  exact hends

end

/-- **Branch remapping.** Every page of a branch is mapped to the frame of its page of the
region, with the access that it should have, exactly if the branch meets the condition. -/
theorem kshmbranchRemap_right_iff (h : Mappable m b r) (pd : PageDir) (nomem : Nat → Bool) :
    RemapRight m b pd nomem ↔ RemapOk r b nomem := by
  have hin := h.in_region
  unfold RemapOk
  by_cases hcow : r.scFlags.useCow = true ∧ r.scFlags.read = true
  · rw [remapRight_iff_of_ends h (kshmbranchRemap_cow h hcow.1 hcow.2)]
    exact and_congr_right fun _ => iff_of_true (fun _ _ => rfl) (.inl hcow)
  obtain ⟨part, frames, hends, hframes⟩ := kshmbranchRemap_plain h pd hcow
  rw [remapRight_iff_of_ends h hends, or_iff_right hcow, ← hframes]
  -- An entry is the wanted one if the frame and the flags are.
  have hentry : ∀ i < b.sbRpages, ((frames i).map (entry (plainFlags r.scFlags)) =
      wanted r (b.sbRstart + i) ↔ plainFlags r.scFlags = access r (b.sbRstart + i) ∧
        frames i = r.frame (b.sbRstart + i)) := by
    intro i hi
    have hpage : b.sbRstart + i < r.scPages := by omega
    obtain ⟨f, hf⟩ : ∃ f, r.frame (b.sbRstart + i) = some f :=
      ⟨_, getElem?_eq_getElem (h.wf.pages.symm ▸ hpage)⟩
    rw [wanted_eq h.wf hpage, hf]
    cases frames i with
    | none => simp
    | some f' => simp [entry_inj]
  rw [forall₂_congr hentry, forall₂_and]
  simp only [plainFlags_eq_access_iff hcow]
  -- The frames that pass the checks are then those of the pages.
  have hchecks (hall : ∀ i < b.sbRpages, frames i = r.frame (b.sbRstart + i)) :
      (∀ i < b.sbRpages, PageOk nomem (frames i) (b.sbMapMin / pageSize + i)) ↔
        ∀ i < b.sbRpages, PageOk nomem (r.frame (b.sbRstart + i)) (b.sbMapMin / pageSize + i) :=
    forall₂_congr fun i hi => by rw [hall i hi]
  tauto

end

/-- Two clusters in one part, shared between processes. -/
def sharedRegion : Region where
  scFlags := ⟨false, true, true, true, false, false, false, false⟩
  scPages := 32
  scPartv := [⟨256, 0, 32⟩]
  sreOrigin := none
  sreBranches := 1
  sreClustera := 2
  sreClusterc := 2
  scRefcnt := fun _ => 1
  scPart := fun _ => 0

/-- The region as the only one. -/
def sharedMem : Mem Unit where
  regions := fun rid => if rid = 0 then some sharedRegion else none
  next := 1
  held := fun f => decide (256 ≤ f ∧ f < 288)
  reserved := fun _ => false
  content := fun _ => ()

theorem sharedRegion_wf : RegionWf sharedRegion where
  parts := by simp [PartsFrom, sharedRegion]
  pages := by decide
  pos := by decide
  clusters := by decide
  part := by
    intro c hc
    have hc : c < 2 := hc
    refine ⟨⟨256, 0, 32⟩, [], rfl, Nat.zero_le _, ?_⟩
    simp only [clusterSize]
    omega

theorem sharedRegion_mappable {start : Nat} (hstart : start ≤ 16) :
    Mappable sharedMem (mapBranch 0 0x400000 start 16) sharedRegion where
  region := rfl
  wf := sharedRegion_wf
  branch :=
    { leaf :=
        { aligned_min := show 0x400000 % pageSize = 0 by decide
          aligned_max := show (0x400000 + 16 * pageSize - 1 + 1) % pageSize = 0 by decide
          ordered := show 0x400000 ≤ 0x400000 + 16 * pageSize - 1 by decide }
      space := show 0x400000 + 16 * pageSize - 1 < addrSpace by decide
      size := show 0x400000 + 16 * pageSize - 1 + 1 = 0x400000 + 16 * pageSize by decide
      region := ⟨sharedRegion, rfl, show start + 16 ≤ 32 by omega,
        show (start + 16 - 1) / 16 < 2 by omega⟩
      clusterMin := rfl
      clusterMax := le_rfl }
  count := fun _ => le_rfl
  nodup := by decide
  frames := by decide

/-- A branch of the second cluster is mapped to the frames of the first. -/
theorem kshmbranchRemap_second_cluster :
    Mappable sharedMem (mapBranch 0 0x400000 16 16) sharedRegion ∧
      ¬ RemapRight sharedMem (mapBranch 0 0x400000 16 16) (fun _ => none) (fun _ => false) := by
  refine ⟨sharedRegion_mappable le_rfl, ?_⟩
  rintro ⟨r, pd', hr, hcall, hmaps⟩
  have hr : some sharedRegion = some r := hr
  cases hr
  have hvalue : kshmbranchRemap sharedMem (mapBranch 0 0x400000 16 16) (fun _ => none)
      (fun _ => false) = .ok (.keOk, mapRun (fun _ => none) 256 1024 16 ⟨true, true⟩) := by
    simp [kshmbranchRemap, Mem.region, sharedMem, sharedRegion, mapBranch, skipTo, partLoop,
      remapThen, kpagedirRemap, Overflows, plainFlags, pageSize, addrSpace, clusterSize,
      getcluster, RegionFlags.useCow, bind, Except.bind]
  rw [hvalue] at hcall
  cases hcall
  obtain ⟨phys, maxPages, hphys, hentry⟩ := hmaps 0 (by decide)
  have hphys : Except.ok (272, 16) = Except.ok (phys, maxPages) := hphys
  cases hphys
  exact absurd hentry (by decide)

/-- A branch of the first cluster is mapped as it should be. -/
theorem kshmbranchRemap_first_cluster :
    RemapRight sharedMem (mapBranch 0 0x400000 0 16) (fun _ => none) (fun _ => false) := by
  refine (kshmbranchRemap_right_iff (sharedRegion_mappable (by decide)) _ _).2
    ⟨fun i hi f hf => ?_, .inr ⟨?_, ?_⟩⟩
  · have hi : i < 16 := hi
    have hframe : sharedRegion.frame (0 + i) = some (256 + i) := by
      simp only [Nat.zero_add, Region.frame, sharedRegion, pageFrames_cons, pageFrames_nil,
        append_nil]
      rw [getElem?_range' (by omega), Nat.one_mul]
    cases hframe.symm.trans hf
    refine ⟨by omega, ?_, ?_, rfl⟩
    · unfold lastPage
      omega
    · show 0x400000 / pageSize + i ≠ lastPage
      unfold lastPage pageSize
      omega
  · exact fun hcow => absurd hcow (by decide)
  · exact ⟨⟨⟨256, 0, 32⟩, by decide, by decide⟩, ⟨256, 0, 32⟩, by decide, by decide, by decide,
      by decide, .inl (by decide)⟩

end KosKernel.Shm
