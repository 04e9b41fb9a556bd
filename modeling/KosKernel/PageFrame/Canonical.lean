import KosKernel.PageFrame.Runs

/-!
# KosKernel.PageFrame.Canonical

**The free list is a normal form of the set of free pages.** Freed ranges are merged with their
neighbours, so it does not matter which calls led to the set.
-/

namespace KosKernel.PageFrame

open List

variable {s t : State} {free : Set Nat} {n p : Nat} {r q : Nat × Nat} {rs ts : List (Nat × Nat)}

theorem end_lt_of_mem_tail (h : (r :: rs).Pairwise Before) {a : Nat} (ha : a ∈ pagesIn rs) :
    r.1 + r.2 * pageSize < a := by
  obtain ⟨q, hq, i, -, rfl⟩ := ha
  exact Nat.lt_add_right _ (rel_of_pairwise_cons h hq)

/-- The first region of the larger set does not start later, and from the same page on it does not
end earlier. -/
theorem first_le (hq : 1 ≤ q.2) (h : (r :: rs).Pairwise Before)
    (hsub : pagesIn (q :: ts) ⊆ pagesIn (r :: rs)) : r.1 ≤ q.1 ∧ (r.1 = q.1 → q.2 ≤ r.2) := by
  have hpage {i : Nat} (hi : i < q.2) :
      q.1 + i * pageSize ∈ pagesOf r.1 r.2 ∨ r.1 + r.2 * pageSize < q.1 + i * pageSize := by
    have hmem : q.1 + i * pageSize ∈ pagesIn (r :: rs) := hsub ⟨q, by simp, i, hi, rfl⟩
    rw [pagesIn_cons] at hmem
    exact hmem.imp_right (end_lt_of_mem_tail h)
  constructor
  · obtain ⟨j, -, hj⟩ | hlt := hpage hq <;> omega
  · intro heq
    by_contra hlt
    -- the page behind the shorter region
    obtain ⟨j, hj, hpj⟩ | hlt := hpage (not_le.mp hlt)
    · unfold pageSize at hpj
      omega
    · omega

theorem pagesIn_tail (h : (r :: rs).Pairwise Before) :
    pagesIn rs = pagesIn (r :: rs) \ pagesOf r.1 r.2 := by
  rw [pagesIn_cons, Set.union_sdiff_left, eq_comm, sdiff_eq_left, Set.disjoint_left]
  rintro a ha ⟨i, hi, rfl⟩
  have hlt := end_lt_of_mem_tail h ha
  unfold pageSize at hlt
  omega

theorem eq_of_pagesIn_eq (hrs : ∀ r ∈ rs, 1 ≤ r.2) (hr : rs.Pairwise Before)
    (hts : ∀ r ∈ ts, 1 ≤ r.2) (ht : ts.Pairwise Before) (h : pagesIn rs = pagesIn ts) :
    rs = ts := by
  have hempty {q : Nat × Nat} {l : List _} (hq : 1 ≤ q.2) :
      pagesIn (q :: l) ≠ pagesIn [] := by
    rw [pagesIn_nil]
    exact Set.Nonempty.ne_empty ⟨q.1, q, by simp, 0, hq, by simp⟩
  induction rs generalizing ts with
  | nil =>
    cases ts with
    | nil => rfl
    | cons q ts => exact absurd h.symm (hempty (hts q (by simp)))
  | cons r rs ih =>
    cases ts with
    | nil => exact absurd h (hempty (hrs r (by simp)))
    | cons q ts =>
      rw [forall_mem_cons] at hrs hts
      obtain ⟨hle, hsize⟩ := first_le hts.1 hr h.ge
      obtain ⟨hle', hsize'⟩ := first_le hrs.1 ht h.le
      have hstart := hle.antisymm hle'
      obtain rfl : r = q := Prod.ext hstart ((hsize' hstart.symm).antisymm (hsize hstart))
      have htail : pagesIn rs = pagesIn ts := by rw [pagesIn_tail hr, pagesIn_tail ht, h]
      rw [ih hrs.2 hr.of_cons hts.2 ht.of_cons htail]

theorem Run.regions_eq (hs : Run s free) (ht : Run t free) : regions s = regions t := by
  obtain ⟨rs, hrs, rfl⟩ := hs.freeList
  obtain ⟨ts, hts, heq⟩ := ht.freeList
  rw [hrs.regions_eq, hts.regions_eq]
  exact eq_of_pagesIn_eq (fun r hr => (hrs.region r hr).nonempty) hrs.apart
    (fun r hr => (hts.region r hr).nonempty) hts.apart heq.symm

/-- First fit is a function of the list. -/
theorem FirstFit.unique {p' : Nat} (h : FirstFit s n p) (h' : FirstFit t n p')
    (heq : regions s = regions t) : p = p' := by
  obtain ⟨hfails, hlow⟩ := h
  obtain ⟨hfails', hlow'⟩ := h'
  rw [← heq] at hfails' hlow'
  by_cases hp : p = pageNil
  · rw [hp, hfails'.mpr (hfails.mp hp)]
  · have hp' : p' ≠ pageNil := fun hnil => hp (hfails.mpr (hfails'.mp hnil))
    obtain ⟨⟨r, hr, rfl, hfit⟩, hmin⟩ := hlow hp
    obtain ⟨⟨r', hr', rfl, hfit'⟩, hmin'⟩ := hlow' hp'
    exact (hmin r' hr' hfit').antisymm (hmin' r hr hfit)

/-- **Only the set of free pages matters.** Two runs that end with the same pages free have the
same list, any request then gives the same address, and `kpageframeAllocMany` leaves the same
list. -/
theorem kpageframe_run_canonical (hs : Run s free) (ht : Run t free) :
    regions s = regions t ∧ (kpageframeAllocOne s).1 = (kpageframeAllocOne t).1 ∧
    ∀ n, 1 ≤ n → ∃ p s' t', kpageframeAllocMany s n = some (p, s') ∧
      kpageframeAllocMany t n = some (p, t') ∧ regions s' = regions t' := by
  have heq := hs.regions_eq ht
  obtain ⟨rs, hrs, -⟩ := hs.freeList
  obtain ⟨ts, hts, -⟩ := ht.freeList
  refine ⟨heq, (kpageframeAllocOne_spec hrs).fit.unique (kpageframeAllocOne_spec hts).fit heq,
    fun n h1 => ?_⟩
  obtain ⟨p, s', hcall, hal⟩ := kpageframeAllocMany_allocated hrs
  obtain ⟨p', t', hcall', hal'⟩ := kpageframeAllocMany_allocated hts
  obtain rfl := hal.fit.unique hal'.fit heq
  exact ⟨p, s', t', hcall, hcall',
    (hs.allocMany h1 hcall).regions_eq (ht.allocMany h1 hcall')⟩

theorem Run.freeTwo {a b : Nat} (ha : IsRegion a 1) (hb : IsRegion b 1) (hne : a ≠ b)
    (h1 : kpageframeFree State.empty a 1 = some s) (h2 : kpageframeFree s b 1 = some t) :
    Run t (pagesOf a 1 ∪ pagesOf b 1) := by
  have hrun : Run s (∅ ∪ pagesOf a 1) :=
    .free .start ha (by simp [freeList_empty.freePages_eq]) h1
  rw [Set.empty_union] at hrun
  refine .free hrun hb ?_ h2
  obtain ⟨rs, hrs, heq⟩ := hrun.freeList
  rw [hrs.freePages_eq, heq, Set.disjoint_left]
  rintro p ⟨i, hi, rfl⟩ ⟨j, hj, hij⟩
  exact hne (by simpa [Nat.lt_one_iff.mp hi, Nat.lt_one_iff.mp hj] using hij)

/-- Two adjacent pages are freed, the lower one first and the upper one first: the lists are the
same, and so is the page that is taken next. -/
theorem kpageframe_run_canonical_adjacent :
    ∃ s t, (kpageframeFree State.empty 4096 1).bind (kpageframeFree · 8192 1) = some s ∧
      (kpageframeFree State.empty 8192 1).bind (kpageframeFree · 4096 1) = some t ∧
      regions s = regions t ∧ (kpageframeAllocOne s).1 = (kpageframeAllocOne t).1 := by
  have hlow : IsRegion 4096 1 := by constructor <;> decide
  have hhigh : IsRegion 8192 1 := by constructor <;> decide
  have hup := Run.freeTwo hlow hhigh (by decide) rfl rfl
  have hdown := Run.freeTwo hhigh hlow (by decide) rfl rfl
  rw [Set.union_comm] at hdown
  obtain ⟨hregions, hone, -⟩ := kpageframe_run_canonical hup hdown
  exact ⟨_, _, rfl, rfl, hregions, hone⟩

end KosKernel.PageFrame
