import KosKernel.Shm.Ledger

/-!
# KosKernel.Shm.NewRegion

**New regions** (`kshmregion_newlinear`, `kshmregion_newphys` and
`kshmregion_setup_clusters` of `src/kernel/shm.c`). A new region has one reference to
each of its clusters, which the branch that is made for it takes over.

The answer of the page frame allocator is an argument, and so is the failure of the
other allocations.
-/

namespace KosKernel.Shm

open Function WindowTree PageFrame List

variable {α : Type}

/-- The number of values of `sc_partc`. -/
def partcLimit : Nat := 65536

/-- `ceildiv(pages, KSHM_CLUSTERSIZE)` -/
def clustersForPages (pages : Nat) : Nat := (pages + clusterSize - 1) / clusterSize

/-- The inner loop of `kshmregion_setup_clusters`: the part that an offset lies in. -/
def skipParts : List Part → Nat → Nat → Except Fault (List Part × Nat × Nat)
  | [], _, _ => .error .assertion
  | part :: rest, index, partPage =>
    if part.spPages ≤ partPage then skipParts rest (index + 1) (partPage - part.spPages)
    else .ok (part :: rest, index, partPage)

/-- The outer loop of `kshmregion_setup_clusters`: the parts of the clusters. -/
def setupLoop : Nat → List Part → Nat → Nat → Except Fault (List Nat)
  | 0, _, _, _ => .ok []
  | clusters + 1, parts, index, partPage => do
      let (parts, index, partPage) ← skipParts parts index partPage
      let rest ← setupLoop clusters parts index (partPage + clusterSize)
      return index :: rest

/-- A region as `kshmregion_raw_alloc` and `kshmregion_setup_clusters` leave it. -/
def kshmregionSetup (flags : RegionFlags) (pages : Nat) (parts : List Part) :
    Except Fault Region := do
  let scPart ← setupLoop (clustersForPages pages) parts 0 0
  return {
    scFlags := flags
    scPages := pages
    scPartv := parts
    sreOrigin := none
    sreBranches := 1
    sreClustera := clustersForPages pages
    sreClusterc := clustersForPages pages
    scRefcnt := fun _ => 1
    scPart := fun c => scPart.getD c 0 }

/-- The region gets a number that was not used before. -/
def Mem.addRegion (m : Mem α) (r : Region) : Nat × Mem α :=
  (m.next, { m with regions := update m.regions m.next (some r), next := m.next + 1 })

/-- The frames that `kpageframe_alloc` answers with. -/
def kpageframeAlloc (m : Mem α) (start pages : Nat) : Mem α :=
  { m with held := fun f => if start ≤ f ∧ f < start + pages then true else m.held f }

/-- `kshmregion_newlinear`, with the answer of the page frame allocator. -/
def kshmregionNewlinear (m : Mem α) (pages : Nat) (flags : RegionFlags) (frame : Option Nat) :
    Except Fault (Option Nat × Mem α) :=
  if pages = 0 then .error .assertion
  else
    match frame with
    | none => .ok (none, m)
    | some start => do
        let r ← kshmregionSetup { flags with noFree := false } pages [⟨start, 0, pages⟩]
        let (rid, m) := (kpageframeAlloc m start pages).addRegion r
        return (some rid, m)

/-! ### The clusters of a new region -/

/-- The part that an offset into some parts lies in. -/
theorem skipParts_spec {parts : List Part} {start : Nat} (index offset : Nat)
    (hfrom : PartsFrom start parts) (hlt : offset < (pageFrames parts).length) :
    ∃ part rest k offset', skipParts parts index offset = .ok (part :: rest, index + k, offset') ∧
      parts.drop k = part :: rest ∧ part.spStart + offset' = start + offset ∧
      offset' < part.spPages ∧ PartsFrom part.spStart (part :: rest) ∧
      start + (pageFrames parts).length =
        part.spStart + (pageFrames (part :: rest)).length := by
  induction parts generalizing index offset start with
  | nil => simp at hlt
  | cons part rest ih =>
    obtain ⟨hstart, hpos, hrest⟩ := hfrom
    rw [pageFrames_cons, length_append, length_range'] at hlt
    by_cases hskip : part.spPages ≤ offset
    · obtain ⟨p, ps, k, o, hval, hdrop, hsum, hin, hps, hend⟩ :=
        ih (index + 1) (offset - part.spPages) hrest (by omega)
      refine ⟨p, ps, k + 1, o, ?_, hdrop, by omega, hin, hps, ?_⟩
      · rw [skipParts, if_pos hskip, hval, Nat.add_assoc, Nat.add_comm 1 k]
      · rw [pageFrames_cons, length_append, length_range', ← Nat.add_assoc]
        exact hend
    · refine ⟨part, rest, 0, offset, ?_, rfl, by omega, by omega, ?_, by rw [hstart]⟩
      · rw [skipParts, if_neg hskip, Nat.add_zero]
      · exact ⟨rfl, hpos, hstart ▸ hrest⟩

/-- Each cluster gets the part that it starts in. -/
theorem setupLoop_spec {clusters : Nat} {all parts : List Part} {start : Nat}
    (index offset first : Nat)
    (hall : all.drop index = parts) (hfrom : PartsFrom start parts)
    (hfirst : start + offset = first * clusterSize)
    (hlen : ∀ c < clusters, offset + c * clusterSize < (pageFrames parts).length) :
    ∃ scPart, setupLoop clusters parts index offset = .ok scPart ∧
      ∀ c < clusters, ∃ part rest, all.drop (scPart.getD c 0) = part :: rest ∧
        part.spStart ≤ (first + c) * clusterSize ∧
        (first + c) * clusterSize < part.spStart + part.spPages := by
  induction clusters generalizing parts index offset start first with
  | zero => exact ⟨[], rfl, fun c hc => absurd hc (Nat.not_lt_zero c)⟩
  | succ clusters ih =>
    obtain ⟨part, rest, k, offset', hval, hdrop, hsum, hin, hps, hend⟩ :=
      skipParts_spec index offset hfrom
        (by simpa using hlen 0 (Nat.succ_pos _))
    have hall' : all.drop (index + k) = part :: rest := by
      rw [← hdrop, ← hall, drop_drop]
    obtain ⟨scPart, hloop, hpart⟩ := ih (index + k)
      (offset' + clusterSize) (first + 1) hall' hps (by rw [Nat.add_mul]; omega) (fun c hc => by
        have := hlen (c + 1) (by omega)
        rw [Nat.add_mul] at this
        omega)
    refine ⟨(index + k) :: scPart, ?_, ?_⟩
    · simp only [setupLoop, hval, hloop, bind, Except.bind]
      rfl
    · intro c hc
      cases c with
      | zero => exact ⟨part, rest, by simpa using hall', by simp; omega, by simp; omega⟩
      | succ c =>
        obtain ⟨p, ps, hd, hlo, hhi⟩ := hpart c (by omega)
        rw [show first + (c + 1) = first + 1 + c by omega]
        exact ⟨p, ps, by simpa using hd, hlo, hhi⟩

/-- **A new region is well formed**, with one reference to each cluster. -/
theorem kshmregionSetup_spec (flags : RegionFlags) {pages : Nat} {parts : List Part}
    (hparts : PartsFrom 0 parts) (hpages : (pageFrames parts).length = pages) (hpos : 0 < pages) :
    ∃ r, kshmregionSetup flags pages parts = .ok r ∧ RegionWf r ∧ r.scFlags = flags ∧
      r.scPages = pages ∧ r.scPartv = parts ∧ r.sreBranches = 1 ∧
      r.sreClustera = r.sreClusterc ∧ ∀ c, r.scRefcnt c = 1 := by
  obtain ⟨scPart, hval, hpart⟩ := setupLoop_spec 0 0 0
    (show parts.drop 0 = parts from rfl) hparts (Nat.zero_mul _).symm
    (fun c (hc : c < clustersForPages pages) => by
      simp only [clustersForPages, clusterSize] at hc ⊢
      omega)
  rw [kshmregionSetup, hval]
  refine ⟨_, rfl, ⟨hparts, hpages, hpos, rfl, fun c hc => ?_⟩, rfl, rfl, rfl, rfl, rfl,
    fun _ => rfl⟩
  simpa using hpart c hc

/-! ### The counters with a new region -/

section Ledger

variable {m : Mem α} {bs : List Branch} {b : Branch} {r : Region}

theorem Tally.unused {cnt : Nat → Nat → Nat} {brs : Nat → Nat} (h : Tally m cnt brs) :
    m.regions m.next = none ∧ (∀ c, cnt m.next c = 0) ∧ brs m.next = 0 := by
  have hnone := h.next m.next le_rfl
  refine ⟨hnone, fun c => ?_, ?_⟩
  · by_contra hne
    obtain ⟨r, hr, -⟩ := h.cnt_live _ _ hne
    rw [hnone] at hr
    cases hr
  · by_contra hne
    obtain ⟨r, hr⟩ := h.brs_live _ hne
    rw [hnone] at hr
    cases hr

/-- The frames of a new region: taken from the allocator, or none of its business. -/
def FreshFrames (m : Mem α) (r : Region) : Prop :=
  if r.scFlags.noFree then ∀ f ∈ pageFrames r.scPartv, m.reserved f = true
  else (pageFrames r.scPartv).Nodup ∧
    ∀ f ∈ pageFrames r.scPartv, m.held f = false ∧ m.reserved f = false

/-- The memory with a new region and its frames. -/
def Mem.withRegion (m : Mem α) (r : Region) : Mem α :=
  { m with
    regions := update m.regions m.next (some r)
    next := m.next + 1
    held := fun f => if r.scFlags.noFree = false ∧ f ∈ pageFrames r.scPartv then true
      else m.held f }

/-- **A branch over a new region.** -/
theorem Ledger.withRegion (h : Ledger m bs) (hwf : RegionWf r)
    (href : ∀ c < r.sreClusterc, r.scRefcnt c = 1) (hbrs : r.sreBranches = 1)
    (hcl : r.sreClustera = r.sreClusterc) (hfresh : FreshFrames m r) (hb : b.sbRegion = m.next)
    (hmin : b.sbClusterMin = 0) (hmax : b.sbClusterMax + 1 = r.sreClusterc)
    (hroom : bs.length + 1 < 4294967295) : Ledger (m.withRegion r) (b :: bs) := by
  obtain ⟨hnone, hcnt, hbr⟩ := h.tally.unused
  have hself : (m.withRegion r).regions m.next = some r := update_self ..
  have hother : ∀ rid, rid ≠ m.next → (m.withRegion r).regions rid = m.regions rid :=
    fun rid hne => update_of_ne hne ..
  have hcov : ∀ c, Covers b m.next c ↔ c < r.sreClusterc := by
    intro c
    simp only [Covers, hb, hmin, true_and]
    omega
  have hcov' : ∀ rid c, rid ≠ m.next → ¬Covers b rid c :=
    fun rid c hne hc => hne (hc.1.symm.trans hb)
  have hlive : liveClusters r = r.sreClusterc := by
    rw [liveClusters, countP_eq_length.mpr, length_range]
    intro c hc
    simp [href c (mem_range.mp hc)]
  -- The new region owns all of its frames; the others own what they did.
  have howns : ∀ rid page f, Owns (m.withRegion r) rid page f ↔
      rid = m.next ∧ r.scFlags.noFree = false ∧ r.frame page = some f ∨
        rid ≠ m.next ∧ Owns m rid page f := by
    intro rid page f
    by_cases hrid : rid = m.next
    · subst hrid
      simp only [Owns, hself, Option.some.injEq, exists_eq_left', true_and, ne_eq, not_true,
        false_and, or_false]
      constructor
      · intro howned
        exact ⟨howned.1, howned.2.2⟩
      · intro hall
        obtain ⟨hfree, hf⟩ := hall
        refine ⟨hfree, ?_, hf⟩
        rw [href _ (hwf.cluster_lt (hwf.frame_lt hf))]
        exact Nat.one_ne_zero
    · simp only [Owns, hother rid hrid, hrid, false_and, ne_eq, not_false_eq_true, true_and,
        false_or]
  have hframe : ∀ f page, r.frame page = some f → f ∈ pageFrames r.scPartv :=
    fun f page hf => mem_of_getElem? hf
  have hnew : r.scFlags.noFree = false → (pageFrames r.scPartv).Nodup ∧
      ∀ f ∈ pageFrames r.scPartv, m.held f = false ∧ m.reserved f = false := by
    intro hfree
    rwa [FreshFrames, hfree, if_neg Bool.false_ne_true] at hfresh
  have hheld : ∀ {f rid page}, Owns m rid page f → m.held f = true :=
    fun {f rid page} ho => (h.tally.held f).mpr ⟨rid, page, ho⟩
  have hheldEq : ∀ f, (m.withRegion r).held f =
      if r.scFlags.noFree = false ∧ f ∈ pageFrames r.scPartv then true else m.held f :=
    fun _ => rfl
  refine ⟨⟨?_, ?_, ?_, ?_, ?_, ?_, ?_, ?_, ?_, ?_, ?_⟩, by simpa using hroom⟩
  · intro rid r' hr'
    rcases Mem.regions_cases hr' rfl with ⟨-, ⟨⟩⟩ | ⟨-, hr'⟩
    · exact hwf
    · exact h.tally.wf rid r' hr'
  · intro rid r' hr' c hc
    rw [coverCount_cons]
    rcases Mem.regions_cases hr' rfl with ⟨rfl, ⟨⟩⟩ | ⟨hne, hr'⟩
    · rw [hcnt c, if_pos ((hcov c).mpr hc), href c hc]
    · rw [if_neg (hcov' rid c hne), h.tally.refcnt rid r' hr' c hc, Nat.add_zero]
  · intro rid r' hr'
    rw [branchCount_cons]
    rcases Mem.regions_cases hr' rfl with ⟨rfl, ⟨⟩⟩ | ⟨hne, hr'⟩
    · rw [hbr, if_pos hb, hbrs]
    · rw [if_neg (fun hh => hne (hh.symm.trans hb)), h.tally.branches rid r' hr', Nat.add_zero]
  · intro rid r' hr'
    rcases Mem.regions_cases hr' rfl with ⟨rfl, ⟨⟩⟩ | ⟨hne, hr'⟩
    · rw [hcl, hlive]
    · exact h.tally.clustera rid r' hr'
  · intro rid c hc
    rw [coverCount_cons] at hc
    by_cases hrid : rid = m.next
    · subst hrid
      refine ⟨r, hself, ?_⟩
      by_contra hlt
      rw [hcnt c, if_neg (fun hh => hlt ((hcov c).mp hh))] at hc
      exact hc rfl
    · rw [if_neg (hcov' rid c hrid), Nat.add_zero] at hc
      rw [hother rid hrid]
      exact h.tally.cnt_live rid c hc
  · intro rid hrid'
    by_cases hrid : rid = m.next
    · exact ⟨r, hrid ▸ hself⟩
    rw [branchCount_cons, if_neg (fun hh => hrid (hh.symm.trans hb)), Nat.add_zero] at hrid'
    rw [hother rid hrid]
    exact h.tally.brs_live rid hrid'
  · intro f rid page rid' page' ho ho'
    rcases (howns _ _ _).mp ho with ⟨rfl, hfree, hf⟩ | ⟨hne, ho⟩ <;>
      rcases (howns _ _ _).mp ho' with ⟨rfl, hfree', hf'⟩ | ⟨hne', ho'⟩
    · obtain ⟨hlt, -⟩ := List.getElem?_eq_some_iff.mp hf
      exact ⟨rfl, (getElem?_inj hlt (hnew hfree).1).mp (hf.trans hf'.symm)⟩
    · exact absurd (hheld ho') (by simp [((hnew hfree).2 f (hframe f page hf)).1])
    · exact absurd (hheld ho) (by simp [((hnew hfree').2 f (hframe f page' hf')).1])
    · exact h.tally.owner f rid page rid' page' ho ho'
  · intro f
    rw [hheldEq]
    constructor
    · intro hf
      split_ifs at hf with hin
      · obtain ⟨page, hpage⟩ := mem_iff_getElem?.mp hin.2
        exact ⟨m.next, page, (howns _ _ _).mpr (.inl ⟨rfl, hin.1, hpage⟩)⟩
      obtain ⟨rid, page, ho⟩ := (h.tally.held f).mp hf
      have hne : rid ≠ m.next := by
        rintro rfl
        obtain ⟨r', hr', -⟩ := ho
        rw [hnone] at hr'
        cases hr'
      exact ⟨rid, page, (howns _ _ _).mpr (.inr ⟨hne, ho⟩)⟩
    · rintro ⟨rid, page, ho⟩
      rcases (howns _ _ _).mp ho with ⟨-, hfree, hf⟩ | ⟨-, ho⟩
      · rw [if_pos ⟨hfree, hframe f page hf⟩]
      · rw [hheld ho, ite_self]
  · intro rid hrid
    have hlt : m.next + 1 ≤ rid := hrid
    rw [hother rid (by omega)]
    exact h.tally.next rid (by omega)
  · intro f hf
    rw [hheldEq] at hf
    split_ifs at hf with hin
    · exact ((hnew hin.1).2 f hin.2).2
    · exact h.tally.free f hf
  · intro rid r' hr' hfree page f hf
    rcases Mem.regions_cases hr' rfl with ⟨rfl, ⟨⟩⟩ | ⟨hne, hr'⟩
    · rw [FreshFrames, if_pos hfree] at hfresh
      exact hfresh f (hframe f page hf)
    · exact h.tally.fixed rid r' hr' hfree page f hf

/-- The branch that `kshm_mapregion_inherited_unlocked` makes. -/
def mapBranch (rid address pageStart pageCount : Nat) : Branch where
  sbMapMin := address
  sbMapMax := address + pageCount * pageSize - 1
  sbRstart := pageStart
  sbRpages := pageCount
  sbRegion := rid
  sbClusterMin := getcluster pageStart
  sbClusterMax := getcluster (pageStart + pageCount - 1)

theorem pageFrames_run (start pages : Nat) :
    pageFrames [⟨start, 0, pages⟩] = List.range' start pages := by simp

/-- **Specification of `kshmregion_newlinear`**, with a branch that maps all of it. -/
theorem kshmregionNewlinear_spec {pages : Nat} (start : Nat) (flags : RegionFlags)
    (h : Ledger m bs) (hpos : 0 < pages)
    (hfresh : ∀ f, start ≤ f → f < start + pages → m.held f = false ∧ m.reserved f = false)
    (hroom : bs.length + 1 < 4294967295) :
    ∃ m' r, kshmregionNewlinear m pages flags (some start) = .ok (some m.next, m') ∧
      m'.regions m.next = some r ∧ r.scPages = pages ∧ r.sreClusterc = clustersForPages pages ∧
      r.scFlags = { flags with noFree := false } ∧ r.scPartv = [⟨start, 0, pages⟩] ∧
      m'.next = m.next + 1 ∧
      ∀ b : Branch, b.sbRegion = m.next → b.sbClusterMin = 0 →
        b.sbClusterMax + 1 = clustersForPages pages → Ledger m' (b :: bs) := by
  obtain ⟨r, hval, hwf, hflags, hpages, hparts, hbrs, hcl, href⟩ :=
    kshmregionSetup_spec { flags with noFree := false }
      (show PartsFrom 0 [⟨start, 0, pages⟩] from ⟨rfl, hpos, trivial⟩) (by simp) hpos
  have hclusters : r.sreClusterc = clustersForPages pages := by
    rw [hwf.clusters, hpages]
    rfl
  have hmem : ((kpageframeAlloc m start pages).addRegion r).2 = m.withRegion r := by
    simp only [Mem.addRegion, kpageframeAlloc, Mem.withRegion, hflags, hparts, pageFrames_run,
      mem_range'_1, true_and]
  refine ⟨m.withRegion r, r, ?_, update_self .., hpages, hclusters, hflags, hparts, rfl, ?_⟩
  · rw [kshmregionNewlinear, if_neg (Nat.ne_of_gt hpos)]
    simp only [hval, bind, Except.bind, hmem]
    rfl
  · intro b hb hmin hmax
    refine h.withRegion hwf (fun c _ => href c) hbrs hcl ?_ hb hmin (hclusters ▸ hmax) hroom
    rw [FreshFrames, hflags, if_neg Bool.false_ne_true, hparts, pageFrames_run]
    refine ⟨nodup_range', fun f hf => ?_⟩
    obtain ⟨hlo, hhi⟩ := mem_range'_1.mp hf
    exact hfresh f hlo hhi

/-- Memory before any region is made. -/
def Mem.start (reserved : Nat → Bool) (content : Nat → α) : Mem α :=
  ⟨fun _ => none, 0, fun _ => false, reserved, content⟩

theorem Ledger.start (reserved : Nat → Bool) (content : Nat → α) :
    Ledger (Mem.start reserved content) [] where
  tally := by
    refine ⟨?_, ?_, ?_, ?_, ?_, ?_, ?_, ?_, ?_, ?_, ?_⟩ <;>
      simp [Mem.start, coverCount, branchCount, Owns]
  few := by simp

end Ledger

end KosKernel.Shm
