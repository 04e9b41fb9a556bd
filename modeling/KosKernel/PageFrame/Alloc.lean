import KosKernel.PageFrame.Free

/-!
# KosKernel.PageFrame.Alloc

What the two allocators do to the free list. Both cut pages off the front of a
region (`cutFront`): `__kpageframe_alloc_one` off the first region,
`__kpageframe_alloc_many` off the first region that is large enough.
-/

namespace KosKernel.PageFrame

open Function LinkedList List

/-- What stays of a region when `n` pages are cut off its front. -/
def cutFront (r : Nat × Nat) (n : Nat) : List (Nat × Nat) :=
  if r.2 = n then [] else [(r.1 + n * pageSize, r.2 - n)]

section Cut

variable {s : State} {pre post : List (Nat × Nat)} {iter m n : Nat}

/-- The rest of a region is a region, and ends where the whole one did. -/
theorem rest_isRegion (h : IsRegion iter m) (hn : n < m) :
    IsRegion (iter + n * pageSize) (m - n) ∧
      iter + n * pageSize + (m - n) * pageSize = iter + m * pageSize := by
  have hend : iter + n * pageSize + (m - n) * pageSize = iter + m * pageSize := by
    rw [Nat.add_assoc, ← Nat.add_mul, Nat.add_sub_of_le (Nat.le_of_lt hn)]
  refine ⟨⟨?_, by omega, ?_⟩, hend⟩
  · rw [Nat.add_mul_mod_self_right]
    exact h.aligned
  · rw [hend]
    exact h.no_wrap

theorem pagesIn_cutFront (hn : n ≤ m) :
    pagesOf iter n ∪ pagesIn (cutFront (iter, m) n) = pagesOf iter m := by
  rw [cutFront]
  split
  · rename_i hEq
    simp only at hEq
    simp [hEq]
  have hsplit := pagesOf_add iter n (m - n)
  rw [Nat.add_sub_of_le hn] at hsplit
  simp [hsplit]

theorem Below.disjoint {r t : Nat × Nat} (h : Below r t) :
    Disjoint (pagesOf r.1 r.2) (pagesOf t.1 t.2) := by
  rw [Set.disjoint_left]
  rintro a ⟨i, hi, rfl⟩ ⟨j, -, hEq⟩
  have := Nat.mul_lt_mul_of_pos_right hi (by decide : 0 < pageSize)
  unfold Below at h
  omega

/-- Replacing a listed region by what is left of it without the pages `taken` removes
exactly those. -/
theorem pagesIn_remove {mid : List (Nat × Nat)} {taken : Set Nat}
    (h : (pre ++ (iter, m) :: post).Pairwise Below)
    (hall : taken ∪ pagesIn mid = pagesOf iter m) (hrest : Disjoint (pagesIn mid) taken) :
    pagesIn (pre ++ (mid ++ post)) = pagesIn (pre ++ (iter, m) :: post) \ taken := by
  simp only [pairwise_append, pairwise_cons] at h
  have hout : ∀ r ∈ pre ++ post, Disjoint (pagesOf r.1 r.2) (pagesOf iter m) := by
    intro r hr
    rcases mem_append.mp hr with hr | hr
    · exact (h.2.2 r hr (iter, m) (by simp)).disjoint
    · exact (h.2.1.1 r hr).disjoint.symm
  have hsub : taken ⊆ pagesOf iter m := by
    rw [← hall]; exact Set.subset_union_left
  have hothers : Disjoint (pagesIn pre ∪ pagesIn post) taken := by
    rw [← pagesIn_append, Set.disjoint_left]
    rintro a ⟨r, hr, ha⟩ ha'
    exact Set.disjoint_left.mp (hout r hr) ha (hsub ha')
  rw [Set.disjoint_left] at hrest hothers
  simp only [pagesIn_append, pagesIn_cons, ← hall]
  ext a
  have h1 := @hrest a
  have h2 := @hothers a
  simp only [Set.mem_union, Set.mem_sdiff] at h1 h2 ⊢
  tauto

/-- Cutting pages off the front of a listed region removes exactly those. -/
theorem pagesIn_cut (h : (pre ++ (iter, m) :: post).Pairwise Below) (hn : n ≤ m) :
    pagesIn (pre ++ (cutFront (iter, m) n ++ post)) =
      pagesIn (pre ++ (iter, m) :: post) \ pagesOf iter n := by
  refine pagesIn_remove h (pagesIn_cutFront hn) ?_
  rw [Set.disjoint_left]
  rintro a ⟨r, hr, i, -, rfl⟩ ⟨j, hj, hEq⟩
  rw [cutFront] at hr
  split at hr
  · cases hr
  rw [mem_singleton.mp hr] at hEq
  have := Nat.mul_lt_mul_of_pos_right hj (by decide : 0 < pageSize)
  omega

theorem pagesOf_subset_cut (pre post : List (Nat × Nat)) (hn : n ≤ m) :
    pagesOf iter n ⊆ pagesIn (pre ++ (iter, m) :: post) := by
  rw [pagesIn_append, pagesIn_cons, ← pagesIn_cutFront hn]
  intro a ha
  exact .inr (.inl (.inl ha))

theorem RegionList.inside_ne (h : RegionList s (pre ++ (iter, m) :: post)) (h1 : 0 < n)
    (hn : n < m) : ∀ r ∈ pre ++ (iter, m) :: post, r.1 ≠ iter + n * pageSize := by
  have hps : 0 < pageSize := by decide
  have hpos := Nat.mul_lt_mul_of_pos_right h1 hps
  have hshort := Nat.mul_lt_mul_of_pos_right hn hps
  intro r hr
  rw [mem_append, mem_cons] at hr
  rcases hr with hr | rfl | hr
  · have := h.around.1 r hr
    omega
  · dsimp only
    omega
  · have := h.around.2 r hr
    omega

theorem RegionList.next_ne_of_forall {x : Nat} (h : RegionList s (pre ++ (iter, m) :: post))
    (hx : ∀ r ∈ pre ++ (iter, m) :: post, r.1 ≠ x) (hx0 : x ≠ pageNil) : x ≠ s.pffNext iter := by
  refine h.at.2.2.ne_head ?_ hx0
  rw [mem_map]
  rintro ⟨r, hr, hEq⟩
  exact hx r (by simp [hr]) hEq

theorem takeFront_regionList (h : RegionList s (pre ++ (iter, m) :: post)) (hn : n ≤ m) :
    RegionList (takeFront s n iter) (pre ++ (cutFront (iter, m) n ++ post)) := by
  obtain ⟨hsegpre, hprev, hsegpost⟩ := h.at
  have hnext := h.next_ne
  have hiter := h.region (iter, m) (by simp)
  have hsize : s.pffSize iter = m := h.size (iter, m) (by simp)
  obtain ⟨hbelow, habove⟩ := h.around
  by_cases hEq : m = n
  · -- The whole region goes.
    have hcut : cutFront (iter, m) n = [] := if_pos hEq
    have hval : takeFront s n iter =
        (s.backlinkNext iter (s.pffPrev iter)).forwardPrev iter (s.pffNext iter) := by
      simp [takeFront, hsize, hEq]
    rw [hcut, hval]
    refine RegionList.splice pre [(iter, m)] [] _ h ⟨hsegpre, hsegpost, isSeg_nil.mpr rfl,
      ?_, ?_, ?_, ?_, ?_, ?_⟩ List.Pairwise.nil ?_ ?_
    · simp [linkPrev_of_ne hnext.symm, hprev]
    · intro r _
      simp [linkPrev_of_ne hnext.symm, hprev]
    · intro r _
      simp [hprev]
    all_goals simp
  · have hlt : n < m := by omega
    obtain ⟨hrest, hend⟩ := rest_isRegion hiter hlt
    dsimp only at hrest hend
    have hfa : frameAdd iter n = iter + n * pageSize :=
      frameAdd_eq (by have := hrest.no_wrap; omega)
    have hcut : cutFront (iter, m) n = [(iter + n * pageSize, m - n)] := if_neg hEq
    have hval : takeFront s n iter =
        (takePlace s (iter + n * pageSize) iter).setSize (iter + n * pageSize) (m - n) := by
      have hkeep : (takePlace s (iter + n * pageSize) iter).pffSize iter = m := hsize
      rw [takeFront, if_neg (by rw [hsize]; exact hEq), hfa]
      simp only [hkeep]
    rw [hcut, hval]
    refine takePlace_regionList h hrest ?_ ?_
    · intro r hr
      have := hbelow r hr
      dsimp only [Below]
      omega
    · intro r hr
      have := habove r hr
      dsimp only [Below]
      omega

theorem pairwise_parts {ts : List (Nat × Nat)} (h : (pre ++ (iter, m) :: post).Pairwise Before)
    (hts : ts.Pairwise Before)
    (hpart : ∀ t ∈ ts, iter ≤ t.1 ∧ t.1 + t.2 * pageSize ≤ iter + m * pageSize) :
    (pre ++ (ts ++ post)).Pairwise Before := by
  have hpw := h
  simp only [pairwise_append, pairwise_cons, mem_cons] at hpw
  refine pairwise_replace [(iter, m)] h hts ?_ ?_
  · intro r hr t ht
    exact Nat.lt_of_lt_of_le (hpw.2.2 r hr _ (.inl rfl)) (hpart t ht).1
  · intro t ht r hr
    exact Nat.lt_of_le_of_lt (hpart t ht).2 (hpw.2.1.1 r hr)

theorem pairwise_cutFront (h : (pre ++ (iter, m) :: post).Pairwise Before) (hn : n ≤ m) :
    (pre ++ (cutFront (iter, m) n ++ post)).Pairwise Before := by
  rw [cutFront]
  split
  · exact pairwise_parts h .nil (by simp)
  refine pairwise_parts h (pairwise_singleton _ _) fun t ht => ?_
  rw [mem_singleton.mp ht]
  rw [Nat.add_assoc, ← Nat.add_mul, Nat.add_sub_of_le hn]
  exact ⟨Nat.le_add_right .., le_rfl⟩

theorem takeFront_spec (h : FreeList s (pre ++ (iter, m) :: post)) (hn : n ≤ m) :
    FreeList (takeFront s n iter) (pre ++ (cutFront (iter, m) n ++ post)) :=
  (takeFront_regionList h.regionList hn).freeList (pairwise_cutFront h.apart hn)

end Cut

/-! ### One page -/

/-- **Specification of `__kpageframe_alloc_one`.** -/
theorem kpageframeAllocOne_nil {s : State} (h : FreeList s []) :
    kpageframeAllocOne s = (pageNil, s) := if_pos (isSeg_nil.mp h.seg)

theorem kpageframeAllocOne_cons {s : State} {r : Nat × Nat} {rs : List (Nat × Nat)}
    (h : FreeList s (r :: rs)) :
    (kpageframeAllocOne s).1 = r.1 ∧ FreeList (kpageframeAllocOne s).2 (cutFront r 1 ++ rs) := by
  obtain ⟨iter, m⟩ := r
  have h0 : FreeList s ([] ++ (iter, m) :: rs) := h
  obtain ⟨hfirst, hnil, hprev, -⟩ := h.seg
  change s.firstFreePage = iter at hfirst
  have hnext := h0.regionList.next_ne
  have hiter := h.region (iter, m) (by simp)
  have hpos : 1 ≤ m := hiter.nonempty
  have hsize : s.pffSize iter = m := h.size (iter, m) (by simp)
  -- The first region has no predecessor; its front is taken as that of any other one.
  have hval : kpageframeAllocOne s = (iter, takeFront s 1 iter) := by
    by_cases hm : m = 1
    · simp [kpageframeAllocOne, takeFront, hfirst, hnil, hsize, hm, hprev,
        linkPrev_of_ne hnext.symm, linkNext, linkHead]
    have hlt : 1 < m := by omega
    obtain ⟨hrest, -⟩ := rest_isRegion hiter hlt
    have hne := h0.regionList.inside_ne Nat.one_pos hlt
    have hfa : frameAdd iter 1 = iter + 1 * pageSize :=
      frameAdd_eq (by have := hrest.no_wrap; dsimp only at this; omega)
    rw [← hfa] at hne hrest
    have hself : iter ≠ frameAdd iter 1 := hne (iter, m) (by simp)
    have hq := h0.regionList.next_ne_of_forall hne hrest.ne_pageNil
    simp [kpageframeAllocOne, takeFront, takePlace, hfirst, hnil, hsize, hm, hprev, hself,
      linkPrev_of_ne hnext.symm, linkNext, linkHead, linkPrev_update_comm hq]
  rw [hval]
  exact ⟨rfl, takeFront_spec h0 hpos⟩

/-! ### Many pages -/

/-- **Specification of `__kpageframe_alloc_many`.** It gives up when every listed
region is too small, and otherwise cuts the pages off the first one that is not. -/
theorem kpageframeAllocMany_spec {s : State} {rs : List (Nat × Nat)} {n : Nat}
    (h : FreeList s rs) :
    (kpageframeAllocMany s n = some (pageNil, s) ∧ ∀ r ∈ rs, r.2 < n) ∨
    ∃ l r ts, rs = l ++ r :: ts ∧ (∀ q ∈ l, q.2 < n) ∧ n ≤ r.2 ∧
      kpageframeAllocMany s n = some (r.1, (takeFront s n r.1).addAllocated n) := by
  refine h.regionList.walk (P := fun pre p fuel => (∀ r ∈ pre, r.2 < n) →
    (allocLoop n fuel p s = some (pageNil, s) ∧ ∀ r ∈ rs, r.2 < n) ∨
    ∃ l r ts, rs = l ++ r :: ts ∧ (∀ q ∈ l, q.2 < n) ∧ n ≤ r.2 ∧
      allocLoop n fuel p s = some (r.1, (takeFront s n r.1).addAllocated n)) ?_ ?_ (by simp)
  · intro fuel hsmall
    exact .inl ⟨by rw [allocLoop, if_pos rfl], hsmall⟩
  · rintro pre r post fuel rfl hnil ih hsmall
    rw [allocLoop, if_neg hnil, h.size r (by simp)]
    by_cases hfit : n ≤ r.2
    · right
      rw [if_pos hfit]
      exact ⟨pre, r, post, rfl, hsmall, hfit, rfl⟩
    · rw [if_neg hfit]
      exact ih (forall_mem_append.2 ⟨hsmall, by simpa using hfit⟩)

end KosKernel.PageFrame
