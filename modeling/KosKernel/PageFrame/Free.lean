import KosKernel.PageFrame.FreeList

/-!
# KosKernel.PageFrame.Free

What `kpageframe_free` does to the free list. The search loop stops at one of
four places; each of the splices there is an instance of `FreeList.splice`, and
the loop itself only carries the fact that everything already passed ends
before the given range starts.
-/

namespace KosKernel.PageFrame

open Function LinkedList List

/-! ### The splices -/

section Splices

variable {s : State} {pre post : List (Nat × Nat)} {iter m start n : Nat}

theorem RegionList.next_ne (h : RegionList s (pre ++ (iter, m) :: post)) :
    s.pffNext iter ≠ iter := by
  obtain ⟨-, -, hpost⟩ := h.at
  have hnd := h.starts_nodup
  simp only [map_append, map_cons, nodup_append, nodup_cons] at hnd
  exact (hpost.ne_head hnd.2.1.1 (h.region (iter, m) (by simp)).ne_pageNil).symm

section

variable (h : FreeList s (pre ++ (iter, m) :: post))

include h

variable {k : Nat}

omit h in
/-- A page outside the list takes over the position of `iter`. -/
theorem takePlace_regionList (h : RegionList s (pre ++ (iter, m) :: post)) (hk : IsRegion start k)
    (hl : ∀ r ∈ pre, Below r (start, k)) (hr : ∀ r ∈ post, Below (start, k) r) :
    RegionList ((takePlace s start iter).setSize start k) (pre ++ ([(start, k)] ++ post)) := by
  obtain ⟨hsegpre, hprev, hsegpost⟩ := h.at
  have hnext := h.next_ne
  have hne : ∀ r ∈ pre ++ post, r.1 ≠ start := by
    simpa using h.starts_ne [(iter, m)] [(start, k)] (by simpa using hk) (by simpa using hl)
      (by simpa using hr)
  have hlast : start ≠ (pre.map Prod.fst).getLastD pageNil := by
    refine getLastD_ne ?_ hk.ne_pageNil
    rintro hmem
    obtain ⟨r, hr, hr1⟩ := mem_map.mp hmem
    exact hne r (by simp [hr]) hr1
  have hback : (takePlace s start iter).pffPrev =
      update (linkPrev pageNil s.pffPrev (s.pffNext iter) start) start
        ((pre.map Prod.fst).getLastD pageNil) := by
    simp [takePlace, linkPrev_of_ne hnext.symm, hprev]
  have hforw : (takePlace s start iter).pffNext =
      linkNext pageNil (update s.pffNext start (s.pffNext iter))
        ((pre.map Prod.fst).getLastD pageNil) start := by
    simp [takePlace, linkPrev_of_ne hnext.symm, hprev]
  refine RegionList.splice pre [(iter, m)] _ start h
    ⟨hsegpre, hsegpost, ?_, ?_, ?_, ?_, ?_, ?_, ?_⟩ (pairwise_singleton _ _) ?_ ?_
  · refine ⟨rfl, hk.ne_pageNil, by simp [hback], ?_⟩
    rw [State.setSize, hforw, linkNext_of_ne hlast, update_self]
    rfl
  · simp [takePlace, linkPrev_of_ne hnext.symm, hprev]
  · intro r hr
    rw [State.setSize, hforw, linkNext_update_of_ne (hne r hr)]
  · intro r hr
    rw [State.setSize, hback, update_of_ne (hne r hr)]
    simp
  · intro r hr
    simp [takePlace, hne r hr]
  · simp
  · simpa using hk
  · simpa using hl
  · simpa using hr

theorem takePlace_spec (hk : IsRegion start k) (hl : ∀ r ∈ pre, Before r (start, k))
    (hr : ∀ r ∈ post, Before (start, k) r) :
    FreeList ((takePlace s start iter).setSize start k) (pre ++ ([(start, k)] ++ post)) := by
  have hlist := takePlace_regionList h.regionList hk (fun r hr => (hl r hr).below)
    (fun r hr' => (hr r hr').below)
  refine hlist.freeList (pairwise_replace [(iter, m)] h.apart
    (pairwise_singleton _ _) ?_ ?_)
  · simpa using hl
  · simpa using hr

theorem mergeBefore_spec (hs : IsRegion start n) (hpre : ∀ r ∈ pre, Before r (start, n))
    (hend : start + n * pageSize = iter) :
    FreeList (mergeBefore s start n iter) (pre ++ ([(start, n + m)] ++ post)) := by
  have hiter := h.region (iter, m) (by simp)
  have hsize : (takePlace s start iter).pffSize iter = m := h.size (iter, m) (by simp)
  -- The merged region ends where `iter` ended.
  have hstop : start + (n + m) * pageSize = iter + m * pageSize := by
    rw [Nat.add_mul, ← Nat.add_assoc, hend]
  have hmerge : mergeBefore s start n iter = (takePlace s start iter).setSize start (n + m) := by
    rw [mergeBefore, hsize]
  rw [hmerge]
  refine takePlace_spec h ⟨hs.aligned, by have := hs.nonempty; omega, ?_⟩ hpre ?_
  · rw [hstop]; exact hiter.no_wrap
  · intro r hr
    rw [Before, hstop]
    exact h.around.2 r hr

omit h in
/-- A region takes another size, and the regions `gone` behind it leave the list. -/
theorem resize_spec (gone : List (Nat × Nat)) {b q : Nat}
    (h : FreeList s (pre ++ ((iter, m) :: gone ++ post)))
    (hsegpost : IsSeg pageNil s.pffNext s.pffPrev b q (post.map Prod.fst) pageNil)
    (hk : IsRegion iter k) (hr : ∀ r ∈ post, Before (iter, k) r) :
    FreeList (((s.setSize iter k).setNext iter q).backlinkNext iter iter)
      (pre ++ ([(iter, k)] ++ post)) := by
  obtain ⟨hsegpre, hprev, -⟩ := h.regionList.at
  obtain ⟨hbelow, habove⟩ := h.around
  have hne : ∀ r ∈ pre ++ post, r.1 ≠ iter := forall_mem_append.2
    ⟨fun r hr => by have := hbelow r hr; omega, fun r hr => by
      have := habove r (mem_append_right _ hr)
      omega⟩
  have hnext : q ≠ iter := by
    intro hEq
    cases post with
    | nil => exact hk.ne_pageNil (hEq.symm.trans hsegpost)
    | cons r post => exact hne r (by simp) (hEq ▸ hsegpost.1.symm)
  refine FreeList.splice pre ((iter, m) :: gone) _ iter h ⟨hsegpre, hsegpost,
    ⟨rfl, hk.ne_pageNil, ?_, by simp⟩, hsegpre.linkHead_self.symm, ?_, ?_, ?_, ?_, ?_⟩
    (pairwise_singleton _ _) ?_ ?_
  · simp [linkPrev_of_ne hnext.symm, hprev]
  · intro r hr
    rw [hsegpre.linkNext_self]
    simp [hne r hr]
  · intro r _
    simp
  · intro r hr
    simp [hne r hr]
  · simp
  · simpa using hk
  · intro r hr t ht
    rw [mem_singleton] at ht
    exact ht ▸ hbelow r hr
  · simpa using hr

/-- The range starts where `iter` ends. Whether the gap behind `iter` is now
closed decides between growing `iter` and joining three regions. -/
theorem mergeAfter_spec (hs : IsRegion start n) (hpost : ∀ r ∈ post, start + n * pageSize ≤ r.1)
    (hstart : iter + m * pageSize = start) :
    ∃ rs, FreeList (mergeAfter s n iter) rs ∧
      pagesIn rs = pagesIn (pre ++ (iter, m) :: post) ∪ pagesOf start n := by
  obtain ⟨-, -, hseg⟩ := h.regionList.at
  have hiter := h.region (iter, m) (by simp)
  have hsize : s.pffSize iter = m := h.size (iter, m) (by simp)
  have hend : iter + (m + n) * pageSize = start + n * pageSize := by
    rw [Nat.add_mul, ← Nat.add_assoc, hstart]
  have hgrown : IsRegion iter (m + n) :=
    ⟨hiter.aligned, by have := hiter.nonempty; omega, hend ▸ hs.no_wrap⟩
  have hpages : pagesOf iter (m + n) = pagesOf iter m ∪ pagesOf start n := by
    rw [pagesOf_add, hstart]
  have hnoswallow : (∀ r ∈ post, start + n * pageSize < r.1) →
      ∃ rs, FreeList (s.setSize iter (m + n)) rs ∧
        pagesIn rs = pagesIn (pre ++ (iter, m) :: post) ∪ pagesOf start n := by
    intro hgap
    have hsame : ((s.setSize iter (m + n)).setNext iter (s.pffNext iter)).backlinkNext iter iter =
        s.setSize iter (m + n) := by simp [hseg.linkPrev_self]
    rw [← hsame]
    refine ⟨_, resize_spec [] h hseg hgrown ?_, ?_⟩
    · intro r hr
      rw [Before, hend]
      exact hgap r hr
    · simp only [singleton_append, pagesIn_append, pagesIn_cons, hpages]
      ac_rfl
  cases post with
  | nil =>
    have hnext : s.pffNext iter = pageNil := hseg
    have hval : mergeAfter s n iter = s.setSize iter (m + n) := by
      simp [mergeAfter, hnext, hsize]
    rw [hval]
    exact hnoswallow (by simp)
  | cons r post =>
    obtain ⟨x, j⟩ := r
    have hnext : s.pffNext iter = x := hseg.1
    have hx : x ≠ pageNil := hseg.2.1
    have hjx : s.pffSize x = j := h.size (x, j) (by simp)
    have hxi : x ≠ iter := hnext ▸ h.regionList.next_ne
    have hfa : frameAdd iter (m + n) = start + n * pageSize := by
      rw [frameAdd_eq hgrown.no_wrap, hend]
    have hapart := h.apart
    simp only [pairwise_append, pairwise_cons] at hapart
    by_cases htouch : x = start + n * pageSize
    · -- Three regions become one.
      have hval : mergeAfter s n iter =
          ((s.setSize iter (m + n + j)).setNext iter (s.pffNext x)).backlinkNext iter iter := by
        simp [mergeAfter, hnext, hsize, hfa, ← htouch, hx, hxi, hjx]
      have hxreg := h.region (x, j) (by simp)
      have hend' : iter + (m + n + j) * pageSize = x + j * pageSize := by
        rw [Nat.add_mul _ j, ← Nat.add_assoc, hend, ← htouch]
      rw [hval]
      refine ⟨_, resize_spec [(x, j)] h hseg.2.2.2
        ⟨hiter.aligned, by have := hiter.nonempty; omega, ?_⟩ ?_, ?_⟩
      · rw [hend']; exact hxreg.no_wrap
      · intro r hr
        rw [Before, hend']
        exact hapart.2.1.2.1 r hr
      · simp only [singleton_append, pagesIn_append, pagesIn_cons, pagesOf_add iter (m + n),
          hpages, hend, ← htouch]
        ac_rfl
    · have hval : mergeAfter s n iter = s.setSize iter (m + n) := by
        simp [mergeAfter, hnext, hsize, hfa, htouch]
      rw [hval]
      have hx' := hpost (x, j) (by simp)
      refine hnoswallow ?_
      intro r hr
      rcases mem_cons.mp hr with rfl | hr
      · exact Nat.lt_of_le_of_ne hx' (Ne.symm htouch)
      have := hapart.2.1.2.1 r hr
      unfold Before at this
      omega

omit h in
theorem insert_spec {b q : Nat} (h : FreeList s (pre ++ post))
    (hsegpre : IsSeg pageNil s.pffNext s.pffPrev pageNil s.firstFreePage (pre.map Prod.fst) q)
    (hsegpost : IsSeg pageNil s.pffNext s.pffPrev b q (post.map Prod.fst) pageNil)
    (hs : IsRegion start n) (hpre : ∀ r ∈ pre, Before r (start, n))
    (hpost : ∀ r ∈ post, Before (start, n) r) {last : Nat}
    (hlast : (pre.map Prod.fst).getLastD pageNil = last) :
    FreeList { s with
      firstFreePage := linkHead pageNil s.firstFreePage last start
      pffNext := update (linkNext pageNil s.pffNext last start) start q
      pffPrev := update (linkPrev pageNil s.pffPrev q start) start last
      pffSize := update s.pffSize start n } (pre ++ ([(start, n)] ++ post)) := by
  subst hlast
  have hne : ∀ r ∈ pre ++ post, r.1 ≠ start := by
    simpa using h.regionList.starts_ne [] [(start, n)] (by simpa using hs)
      (by simpa using fun r hr => (hpre r hr).below) (by simpa using fun r hr => (hpost r hr).below)
  refine FreeList.splice pre [] _ start h ⟨hsegpre, hsegpost,
    ⟨rfl, hs.ne_pageNil, update_self .., update_self ..⟩, rfl, ?_, ?_, ?_, ?_, ?_⟩
    (pairwise_singleton _ _) ?_ ?_
  · exact fun r hr => update_of_ne (hne r hr) _ _
  · exact fun r hr => update_of_ne (hne r hr) _ _
  · exact fun r hr => update_of_ne (hne r hr) _ _
  · simp
  · simpa using hs
  · simpa using hpre
  · simpa using hpost

theorem insertBefore_spec (hs : IsRegion start n) (hpre : ∀ r ∈ pre, Before r (start, n))
    (hlt : start + n * pageSize < iter) :
    FreeList (insertBefore s start n iter) (pre ++ ([(start, n)] ++ (iter, m) :: post)) := by
  obtain ⟨hsegpre, hprev, hsegpost⟩ := h.regionList.at
  have hiter := (h.region (iter, m) (by simp)).ne_pageNil
  have hne : iter ≠ start := by omega
  have hval := insert_spec h hsegpre ⟨rfl, hiter, hprev, hsegpost⟩ hs hpre ?_ hprev.symm
  · simpa [insertBefore, linkPrev, hiter, update_comm hne] using hval
  · intro r hr
    rcases mem_cons.mp hr with rfl | hr
    · exact hlt
    · have := h.around.2 r hr
      dsimp only [Before]
      omega

end

theorem appendAfter_spec (h : FreeList s (pre ++ [(iter, m)])) (hs : IsRegion start n)
    (hpre : ∀ r ∈ pre ++ [(iter, m)], Before r (start, n)) :
    FreeList (appendAfter s start n iter) ((pre ++ [(iter, m)]) ++ [(start, n)]) := by
  have hiter := (h.region (iter, m) (by simp)).ne_pageNil
  have hnil : FreeList s ((pre ++ [(iter, m)]) ++ []) := by rwa [append_nil]
  have hval := insert_spec (b := iter) hnil h.seg rfl hs hpre (by simp) (by simp : _ = iter)
  simpa [appendAfter, linkNext, linkPrev, linkHead, hiter] using hval

end Splices

/-! ### The search -/

/-- The range is disjoint from every listed region. -/
def Fresh (start n : Nat) (rs : List (Nat × Nat)) : Prop :=
  ∀ r ∈ rs, start + n * pageSize ≤ r.1 ∨ r.1 + r.2 * pageSize ≤ start

/-- The search of `kpageframe_free` has found its place. -/
def Freed (start n : Nat) (rs : List (Nat × Nat)) (res : Option State) : Prop :=
  ∃ t ts, res = some t ∧ FreeList t ts ∧ pagesIn ts = pagesIn rs ∪ pagesOf start n

variable {start n : Nat} {s : State}

/-- One round of the search, when all that was passed ends before the range
starts: the range is placed next to `iter`, or lies somewhere behind it. -/
theorem freeLoop_step (hs : IsRegion start n) {pre post : List (Nat × Nat)} {iter m : Nat}
    (fuel : Nat) (h : FreeList s (pre ++ (iter, m) :: post))
    (hfresh : Fresh start n (pre ++ (iter, m) :: post)) (hpre : ∀ r ∈ pre, Before r (start, n)) :
    Freed start n (pre ++ (iter, m) :: post) (freeLoop start n (fuel + 1) iter s) ∨
    ((∀ r ∈ pre ++ [(iter, m)], Before r (start, n)) ∧ freeLoop start n (fuel + 1) iter s =
      if s.pffNext iter = pageNil then some (appendAfter s start n iter)
      else freeLoop start n fuel (s.pffNext iter) s) := by
  have hiter := h.region (iter, m) (by simp)
  have hsize : s.pffSize iter = m := h.size (iter, m) (by simp)
  have hside := hfresh (iter, m) (by simp)
  dsimp only at hside
  rw [freeLoop, frameAdd_eq hs.no_wrap, hsize, frameAdd_eq hiter.no_wrap]
  by_cases hbefore : start + n * pageSize = iter
  · left
    rw [if_pos hbefore]
    refine ⟨_, _, rfl, mergeBefore_spec h hs hpre hbefore, ?_⟩
    simp only [singleton_append, pagesIn_append, pagesIn_cons, pagesOf_add start, hbefore]
    ac_rfl
  rw [if_neg hbefore]
  by_cases hafter : iter + m * pageSize = start
  · left
    rw [if_pos hafter]
    have hpost : ∀ r ∈ post, start + n * pageSize ≤ r.1 := by
      intro r hr
      have hgap := h.around.2 r hr
      refine (hfresh r (by simp [hr])).resolve_right ?_
      omega
    obtain ⟨rs, hrs, hpages⟩ := mergeAfter_spec h hs hpost hafter
    exact ⟨_, rs, rfl, hrs, hpages⟩
  rw [if_neg hafter]
  by_cases hin : start + n * pageSize < iter
  · left
    rw [if_pos hin]
    refine ⟨_, _, rfl, insertBefore_spec h hs hpre hin, ?_⟩
    simp only [cons_append, nil_append, pagesIn_append, pagesIn_cons]
    ac_rfl
  · right
    rw [if_neg hin]
    refine ⟨fun r hr => ?_, rfl⟩
    rcases mem_append.mp hr with hr | hr
    · exact hpre r hr
    · rw [mem_singleton.mp hr]
      dsimp only [Before]
      omega

/-- The search of `kpageframe_free` from any point of the list. -/
theorem freeLoop_spec (hs : IsRegion start n) {post : List (Nat × Nat)} :
    ∀ {pre : List (Nat × Nat)} {iter m : Nat} (fuel : Nat),
    FreeList s (pre ++ (iter, m) :: post) → Fresh start n (pre ++ (iter, m) :: post) →
    (∀ r ∈ pre, Before r (start, n)) → post.length ≤ fuel →
    Freed start n (pre ++ (iter, m) :: post) (freeLoop start n (fuel + 1) iter s) := by
  induction post with
  | nil =>
    intro pre iter m fuel h hfresh hpre _
    rcases freeLoop_step hs fuel h hfresh hpre with hdone | ⟨hpre, hEq⟩
    · exact hdone
    -- Nothing follows: append.
    obtain ⟨-, -, hseg⟩ := h.regionList.at
    rw [hEq, if_pos (isSeg_nil.mp hseg)]
    refine ⟨_, _, rfl, appendAfter_spec h hs hpre, ?_⟩
    simp [Set.union_assoc]
  | cons r post ih =>
    intro pre iter m fuel h hfresh hpre hfuel
    rcases freeLoop_step hs fuel h hfresh hpre with hdone | ⟨hpre, hEq⟩
    · exact hdone
    -- `iter` joins the regions already passed.
    obtain ⟨-, -, hseg⟩ := h.regionList.at
    obtain _ | k := fuel
    · simp at hfuel
    rw [hEq, hseg.1, if_neg hseg.2.1]
    have hshift : pre ++ (iter, m) :: r :: post = (pre ++ [(iter, m)]) ++ (r.1, r.2) :: post := by
      simp
    rw [hshift] at h hfresh ⊢
    exact ih k h hfresh hpre (by simpa using hfuel)

/-- The first region an allocator is given is its whole list. -/
theorem kpageframeFree_nil (h : FreeList s []) (hs : IsRegion start n) :
    ∃ t, kpageframeFree s start n = some t ∧ FreeList t [(start, n)] := by
  refine ⟨_, if_pos (isSeg_nil.mp h.seg),
    FreeList.subAllocated ⟨?_, ?_, ?_, pairwise_singleton _ _⟩ n⟩
  · exact ⟨rfl, hs.ne_pageNil, update_self .., update_self ..⟩
  · simp
  · simpa using hs

/-- **Specification of `kpageframe_free`.** Freeing a range that shares no page
with the free list adds exactly its pages. -/
theorem kpageframeFree_spec {rs : List (Nat × Nat)} (h : FreeList s rs) (hs : IsRegion start n)
    (hdisj : Disjoint (pagesIn rs) (pagesOf start n)) :
    Freed start n rs (kpageframeFree s start n) := by
  cases rs with
  | nil =>
    obtain ⟨t, hcall, ht⟩ := kpageframeFree_nil h hs
    exact ⟨t, [(start, n)], hcall, ht, by simp⟩
  | cons r rs =>
    rw [kpageframeFree]
    have hfirst : s.firstFreePage = r.1 := h.seg.1
    rw [hfirst, if_neg h.seg.2.1]
    have hfresh : Fresh start n (r :: rs) := by
      intro t ht
      have hsub : pagesOf t.1 t.2 ⊆ pagesIn (r :: rs) := fun a ha => ⟨t, ht, ha⟩
      exact IsRegion.ordered hs (h.region t ht) (Set.disjoint_of_subset_left hsub hdisj).symm
    have hlen : rs.length ≤ maxFrames - 1 := by
      have := h.length_le
      rw [length_cons] at this
      omega
    obtain ⟨t, ts, hEq, hts, hpages⟩ :=
      freeLoop_spec hs (maxFrames - 1) (show FreeList s ([] ++ r :: rs) from h) hfresh (by simp)
        hlen
    have hfuel : maxFrames - 1 + 1 = maxFrames := by decide
    rw [hfuel] at hEq
    rw [hEq]
    exact ⟨_, ts, rfl, hts.subAllocated n, hpages⟩

end KosKernel.PageFrame
