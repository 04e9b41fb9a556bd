import KosKernel.PageFrame.Alloc

/-!
# KosKernel.PageFrame.Runs

**Whole runs of the allocator.** What the component is for is a set of free
pages: freeing adds a range, allocating removes one. `Run s free` is every state
`s` reached from the empty free list by any sequence of calls, with the set the
calls should have produced next to it; the theorem below says that the linked
list in memory keeps up with that set and keeps its shape.
-/

namespace KosKernel.PageFrame

open LinkedList List

/-- A free list as the comments of `pageframe.c` describe it. -/
structure WellFormed (s : State) : Prop where
  /-- Ascending in address; regions neither overlap nor touch. -/
  apart : (regions s).Pairwise (fun r t => r.1 + r.2 * pageSize < t.1)
  nonempty : ∀ r ∈ regions s, 1 ≤ r.2
  /-- `pff_prev` mirrors `pff_next`, and only the head has no predecessor. -/
  links : IsSeg pageNil s.pffNext s.pffPrev pageNil s.firstFreePage
    ((regions s).map Prod.fst) pageNil

/-- The result `p` of a request for `n` pages is right: no region is large enough
and the request fails, or `p` starts the lowest one that is. -/
structure FirstFit (s : State) (n p : Nat) : Prop where
  fails_iff : p = pageNil ↔ ∀ r ∈ regions s, r.2 < n
  lowest : p ≠ pageNil → (∃ r ∈ regions s, r.1 = p ∧ n ≤ r.2) ∧
    ∀ r ∈ regions s, n ≤ r.2 → p ≤ r.1

/-- The pages left of `free` once the `n` pages at `p` are handed out. -/
def handOut (free : Set Nat) (p n : Nat) : Set Nat :=
  {a | a ∈ free ∧ (p = pageNil ∨ a ∉ pagesOf p n)}

/-- The states of all runs, each with the pages that should be free in it. -/
inductive Run : State → Set Nat → Prop
  | start : Run State.empty ∅
  | free {s t : State} {free : Set Nat} {start n : Nat} : Run s free → IsRegion start n →
      Disjoint (freePages s) (pagesOf start n) → kpageframeFree s start n = some t →
      Run t (free ∪ pagesOf start n)
  | allocOne {s t : State} {free : Set Nat} {p : Nat} : Run s free →
      kpageframeAllocOne s = (p, t) → Run t (handOut free p 1)
  | allocMany {s t : State} {free : Set Nat} {n p : Nat} : Run s free → 1 ≤ n →
      kpageframeAllocMany s n = some (p, t) → Run t (handOut free p n)

/-! ### One call -/

/-- What an allocation of `n` pages that returned `p` left of the list `rs`. -/
structure Allocated (s : State) (rs : List (Nat × Nat)) (n p : Nat) (t : State) : Prop where
  fit : FirstFit s n p
  list : ∃ ts, FreeList t ts ∧ pagesIn ts = handOut (pagesIn rs) p n

variable {s : State} {rs : List (Nat × Nat)} {n : Nat}

theorem allocated_none (h : FreeList s rs) (hsmall : ∀ r ∈ rs, r.2 < n) :
    Allocated s rs n pageNil s := by
  refine ⟨⟨?_, fun hne => absurd rfl hne⟩, rs, h, ?_⟩
  · rw [h.regions_eq]
    simpa using hsmall
  · ext a
    simp [handOut]

/-- Cutting pages off the first region that is large enough is first fit. -/
theorem allocated_cut {t : State} {l : List (Nat × Nat)} {r : Nat × Nat}
    (h : FreeList s (l ++ r :: rs)) (hsmall : ∀ q ∈ l, q.2 < n) (hfit : n ≤ r.2)
    (ht : FreeList t (l ++ (cutFront r n ++ rs))) : Allocated s (l ++ r :: rs) n r.1 t := by
  have hnil : r.1 ≠ pageNil := (h.region r (by simp)).ne_pageNil
  refine ⟨⟨?_, fun _ => ⟨⟨r, ?_, rfl, hfit⟩, ?_⟩⟩, _, ht, ?_⟩
  · rw [h.regions_eq]
    refine ⟨fun hEq => absurd hEq hnil, fun hall => ?_⟩
    have := hall r (by simp)
    omega
  · rw [h.regions_eq]
    simp
  · -- The regions in front are too small, those behind start higher.
    intro q hq hq2
    rw [h.regions_eq, mem_append, mem_cons] at hq
    rcases hq with hq | rfl | hq
    · have := hsmall q hq
      omega
    · exact Nat.le_refl _
    · have := h.around.2 q hq
      omega
  · rw [pagesIn_cut (show (_ ++ (r.1, r.2) :: _).Pairwise Below from h.regionList.ascending) hfit]
    ext a
    simp [handOut, hnil, Set.mem_sdiff]

theorem kpageframeAllocOne_spec (h : FreeList s rs) :
    Allocated s rs 1 (kpageframeAllocOne s).1 (kpageframeAllocOne s).2 := by
  cases rs with
  | nil =>
    rw [kpageframeAllocOne_nil h]
    exact allocated_none h (by simp)
  | cons r rs =>
    obtain ⟨hres, ht⟩ := kpageframeAllocOne_cons h
    rw [hres]
    exact allocated_cut (l := []) h (by simp) (h.region r (by simp)).nonempty ht

theorem kpageframeAllocMany_allocated (h : FreeList s rs) :
    ∃ p t, kpageframeAllocMany s n = some (p, t) ∧ Allocated s rs n p t := by
  rcases kpageframeAllocMany_spec (n := n) h with
    ⟨hEq, hsmall⟩ | ⟨l, r, ts, rfl, hsmall, hfit, hEq⟩
  · exact ⟨_, _, hEq, allocated_none h hsmall⟩
  · exact ⟨_, _, hEq, allocated_cut h hsmall hfit ((takeFront_spec h hfit).addAllocated n)⟩

/-! ### All calls -/

/-- Every state of a run has a free list, over exactly the pages it should have. -/
theorem Run.freeList {free : Set Nat} (h : Run s free) :
    ∃ rs, FreeList s rs ∧ pagesIn rs = free := by
  induction h with
  | start => exact ⟨[], freeList_empty, pagesIn_nil⟩
  | free _ hs hdisj hEq ih =>
    obtain ⟨rs, hrs, rfl⟩ := ih
    rw [hrs.freePages_eq] at hdisj
    obtain ⟨t, ts, hEq', hts, hpages⟩ := kpageframeFree_spec hrs hs hdisj
    rw [hEq] at hEq'
    cases hEq'
    exact ⟨ts, hts, hpages⟩
  | allocOne _ hEq ih =>
    obtain ⟨rs, hrs, rfl⟩ := ih
    have hal := kpageframeAllocOne_spec hrs
    rw [hEq] at hal
    exact hal.list
  | allocMany _ _ hEq ih =>
    obtain ⟨rs, hrs, rfl⟩ := ih
    obtain ⟨p, t, hEq', hal⟩ := kpageframeAllocMany_allocated hrs
    rw [hEq] at hEq'
    cases hEq'
    exact hal.list

theorem FreeList.wellFormed (h : FreeList s rs) :
    WellFormed s where
  apart := by rw [h.regions_eq]; exact h.apart
  nonempty := by rw [h.regions_eq]; exact fun r hr => (h.region r hr).nonempty
  links := by rw [h.regions_eq]; exact h.seg

/-- **The page frame allocator keeps a set of free pages.** In every state of
every run the free list is well formed and holds exactly the pages freed and not
handed out since; every further call returns, and an allocation is first fit. -/
theorem kpageframe_run {s : State} {free : Set Nat} (h : Run s free) :
    WellFormed s ∧ freePages s = free ∧
    (∀ start n, IsRegion start n → Disjoint (freePages s) (pagesOf start n) →
      ∃ t, kpageframeFree s start n = some t) ∧
    FirstFit s 1 (kpageframeAllocOne s).1 ∧
    ∀ n, 1 ≤ n → ∃ p t, kpageframeAllocMany s n = some (p, t) ∧ FirstFit s n p := by
  obtain ⟨rs, hrs, rfl⟩ := h.freeList
  refine ⟨hrs.wellFormed, hrs.freePages_eq, ?_, (kpageframeAllocOne_spec hrs).fit, ?_⟩
  · intro start n hs hdisj
    rw [hrs.freePages_eq] at hdisj
    obtain ⟨t, -, hEq, -, -⟩ := kpageframeFree_spec hrs hs hdisj
    exact ⟨t, hEq⟩
  · intro n _
    obtain ⟨p, t, hEq, hal⟩ := kpageframeAllocMany_allocated hrs
    exact ⟨p, t, hEq, hal.fit⟩

/-- Three pages are freed and one is taken again: the two others stay free. -/
theorem kpageframe_run_free_allocOne :
    ∃ s t, kpageframeFree State.empty 4096 3 = some s ∧ kpageframeAllocOne s = (4096, t) ∧
      WellFormed t ∧ freePages t = handOut (∅ ∪ pagesOf 4096 3) 4096 1 := by
  have hfree : IsRegion 4096 3 := by constructor <;> decide
  have hnone : freePages State.empty = ∅ := by
    rw [freeList_empty.freePages_eq, pagesIn_nil]
  have hdisj : Disjoint (freePages State.empty) (pagesOf 4096 3) := by
    rw [hnone]
    exact Set.empty_disjoint _
  have hrun : Run _ (handOut (∅ ∪ pagesOf 4096 3) 4096 1) :=
    Run.allocOne (Run.free Run.start hfree hdisj rfl) rfl
  obtain ⟨hwf, hpages, -⟩ := kpageframe_run hrun
  exact ⟨_, _, rfl, rfl, hwf, hpages⟩

end KosKernel.PageFrame
