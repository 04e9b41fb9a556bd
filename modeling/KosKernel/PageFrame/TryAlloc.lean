import KosKernel.PageFrame.AllocAt

/-!
# KosKernel.PageFrame.TryAlloc

**Best-effort allocation**, `kpageframe_tryalloc`: the `TRYALLOC` variant of
`src/kernel/pageframe-alloc.c.inl`.

The scan is that of `__kpageframe_alloc_many`, but it also remembers the largest
region it passed (`winner`), to hand that one out when no region is large enough.
The fallback jumps back into the loop's body with the winner in `iter`: by then the
lock is released already, and `n_pages` is still the number that was asked for.
-/

namespace KosKernel.PageFrame

open LinkedList List

/-- What a call of `kpageframe_tryalloc` gives. -/
structure TryResult where
  /-- The returned page, or `PAGEFRAME_NIL`. -/
  result : Nat
  /-- `*did_alloc_pages`. -/
  didAllocPages : Nat
  /-- How often the call made `kpagealloc_unlock`. -/
  unlocks : Nat
  state : State

/-- The body of the loop behind `take_iter`: take `n` pages off the front of `iter`.
Unlike in `takeFront` the region may be smaller than that. -/
def takeIter (s : State) (n iter : Nat) : State :=
  if s.pffSize iter = n then
    let s := s.backlinkNext iter (s.pffPrev iter)
    s.forwardPrev iter (s.pffNext iter)
  else
    let split := frameAdd iter n
    let s := takePlace s split iter
    s.setSize split (sizeSub (s.pffSize iter) n)

/-- The scan: the region it stops at (`PAGEFRAME_NIL` at the end of the list), and the
winner so far. -/
def tryallocLoop (s : State) (n : Nat) : Nat → Nat → Nat → Option (Nat × Nat)
  | 0, _, _ => none
  | fuel + 1, iter, winner =>
    if iter = pageNil then some (pageNil, winner)
    else if n ≤ s.pffSize iter then some (iter, winner)
    else
      -- First winner, or better match.
      let better := winner = pageNil ∨ s.pffSize winner < s.pffSize iter
      tryallocLoop s n fuel (s.pffNext iter) (if better then iter else winner)

def kpageframeTryalloc (s : State) (n : Nat) : Option TryResult :=
  (tryallocLoop s n (maxFrames + 1) s.firstFreePage pageNil).map fun (iter, winner) =>
    if iter ≠ pageNil then ⟨iter, n, 1, (takeIter s n iter).addAllocated n⟩
    else if winner ≠ pageNil then
      -- At least something... (the loop's end unlocked, `enditer` does so again)
      ⟨winner, s.pffSize winner, 2, (takeIter s n winner).addAllocated n⟩
    else ⟨pageNil, 0, 1, s⟩

/-- The size of the largest of some regions. -/
def largest (rs : List (Nat × Nat)) : Nat := (rs.map Prod.snd).foldr max 0

variable {rs : List (Nat × Nat)} {n : Nat}

theorem le_largest_iff (h1 : 1 ≤ n) : n ≤ largest rs ↔ ∃ r ∈ rs, n ≤ r.2 := by
  induction rs with
  | nil =>
    simp [largest]
    omega
  | cons r rs ih =>
    have hcons : largest (r :: rs) = max r.2 (largest rs) := rfl
    rw [hcons, le_max_iff, ih]
    simp

variable {s : State}

/-- A region that is large enough is cut as by `__kpageframe_alloc_many`. -/
theorem takeIter_eq {r : Nat × Nat} (h : RegionList s rs) (hr : r ∈ rs) (hn : n ≤ r.2) :
    takeIter s n r.1 = takeFront s n r.1 := by
  have hsize := h.size r hr
  have hsub : sizeSub r.2 n = r.2 - n :=
    sizeSub_eq (Nat.add_sub_of_le hn).symm (h.region r hr).pages_lt
  have hkeep : (takePlace s (frameAdd r.1 n) r.1).pffSize r.1 = r.2 := hsize
  rw [takeIter, takeFront]
  simp only [hkeep, hsub]

/-! ### The scan -/

/-- The scan: either everything was too small and there is a winner unless there is no region,
or it stops at a region that is large enough. -/
theorem tryallocLoop_spec (h : RegionList s rs) :
    (∃ w, tryallocLoop s n (maxFrames + 1) s.firstFreePage pageNil = some (pageNil, w) ∧
      (w = pageNil ↔ rs = []) ∧ ∀ r ∈ rs, r.2 < n) ∨
    ∃ l r ts w, rs = l ++ r :: ts ∧ n ≤ r.2 ∧
      tryallocLoop s n (maxFrames + 1) s.firstFreePage pageNil = some (r.1, w) := by
  refine h.walk (P := fun pre p fuel => ∀ w, (w = pageNil ↔ pre = []) → (∀ r ∈ pre, r.2 < n) →
    (∃ w', tryallocLoop s n fuel p w = some (pageNil, w') ∧ (w' = pageNil ↔ rs = []) ∧
      ∀ r ∈ rs, r.2 < n) ∨
    ∃ l r ts w', rs = l ++ r :: ts ∧ n ≤ r.2 ∧ tryallocLoop s n fuel p w = some (r.1, w'))
    ?_ ?_ pageNil (by simp) (by simp)
  · intro fuel w hw hsmall
    exact .inl ⟨w, by rw [tryallocLoop, if_pos rfl], hw, hsmall⟩
  rintro pre r post fuel rfl hnil ih w hw hsmall
  rw [tryallocLoop, if_neg hnil, h.size r (by simp)]
  by_cases hfit : n ≤ r.2
  · right
    rw [if_pos hfit]
    exact ⟨pre, r, post, w, rfl, hfit, rfl⟩
  rw [if_neg hfit]
  -- The winner is this region, or one passed before.
  have hne : (if w = pageNil ∨ s.pffSize w < r.2 then r.1 else w) ≠ pageNil := by
    split
    · exact hnil
    · rename_i hold
      exact fun hEq => hold (.inl hEq)
  exact ih _ (by simpa using hne) (forall_mem_append.2 ⟨hsmall, by simpa using hfit⟩)

/-- **Specification of `kpageframe_tryalloc`**: with a region that is large enough it is
`__kpageframe_alloc_many`; otherwise it unlocks twice, or has nothing to hand out. -/
theorem kpageframeTryalloc_spec (h : RegionList s rs) :
    (∃ l r ts, rs = l ++ r :: ts ∧ n ≤ r.2 ∧
      kpageframeTryalloc s n = some ⟨r.1, n, 1, (takeFront s n r.1).addAllocated n⟩) ∨
    (rs = [] ∧ kpageframeTryalloc s n = some ⟨pageNil, 0, 1, s⟩) ∨
    (rs ≠ [] ∧ (∀ r ∈ rs, r.2 < n) ∧ ∃ w, kpageframeTryalloc s n =
      some ⟨w, s.pffSize w, 2, (takeIter s n w).addAllocated n⟩) := by
  rcases tryallocLoop_spec (n := n) h with
    ⟨w, hloop, hw, hsmall⟩ | ⟨l, r, ts, w, rfl, hfit, hloop⟩
  · right
    by_cases hnil : w = pageNil
    · left
      refine ⟨hw.mp hnil, ?_⟩
      rw [kpageframeTryalloc, hloop]
      simp [hnil]
    right
    refine ⟨fun hEq => hnil (hw.mpr hEq), hsmall, w, ?_⟩
    rw [kpageframeTryalloc, hloop]
    simp [hnil]
  · left
    have hnil : r.1 ≠ pageNil := (h.region r (by simp)).ne_pageNil
    refine ⟨l, r, ts, rfl, hfit, ?_⟩
    rw [kpageframeTryalloc, hloop]
    simp [hnil, takeIter_eq h (show r ∈ l ++ r :: ts by simp) hfit]

/-! ### The call -/

/-- What `kpageframe_tryalloc(n)` is for: it fails only without any free page, and
otherwise hands out as many pages as it can, up to `n`, says how many, and releases
the lock once. -/
def TryallocRight (s : State) (n : Nat) : Prop :=
  ∃ res, kpageframeTryalloc s n = some res ∧ (res.result = pageNil ↔ regions s = []) ∧
    (regions s ≠ [] →
      res.didAllocPages = min n (largest (regions s)) ∧
      pagesOf res.result res.didAllocPages ⊆ freePages s ∧
      freePages res.state = freePages s \ pagesOf res.result res.didAllocPages ∧
      (∃ ts, RegionList res.state ts) ∧ res.unlocks = 1)

/-- **Best-effort allocation** does what it is for exactly when it need not fall back on
the largest region: the list is empty, or some region is large enough. -/
theorem kpageframeTryalloc_right_iff {s : State} {rs : List (Nat × Nat)} {n : Nat}
    (h : RegionList s rs) (h1 : 1 ≤ n) :
    TryallocRight s n ↔ regions s = [] ∨ n ≤ largest (regions s) := by
  rw [TryallocRight, h.regions_eq, h.freePages_eq]
  rcases kpageframeTryalloc_spec (n := n) h with
    ⟨l, r, ts, rfl, hfit, hcall⟩ | ⟨rfl, hcall⟩ | ⟨hne, hsmall, w, hcall⟩
  · obtain ⟨iter, m⟩ := r
    have hlarge : n ≤ largest (l ++ (iter, m) :: ts) :=
      (le_largest_iff h1).mpr ⟨(iter, m), by simp, hfit⟩
    have hlist := (takeFront_regionList h hfit).addAllocated n
    have hnil : iter ≠ pageNil := (h.region (iter, m) (by simp)).ne_pageNil
    refine ⟨fun _ => .inr hlarge, fun _ => ⟨_, hcall, by simp [hnil], fun _ => ?_⟩⟩
    refine ⟨(Nat.min_eq_left hlarge).symm, pagesOf_subset_cut l ts hfit, ?_, ⟨_, hlist⟩, rfl⟩
    rw [hlist.freePages_eq]
    exact pagesIn_cut h.ascending hfit
  · exact ⟨fun _ => .inl rfl, fun _ => ⟨_, hcall, by simp, fun hne => absurd rfl hne⟩⟩
  · constructor
    · -- The fallback releases the lock a second time.
      rintro ⟨res, hcall', -, hright⟩
      rw [hcall] at hcall'
      cases hcall'
      exact absurd (hright hne).2.2.2.2 (show (2 : Nat) ≠ 1 by decide)
    · rintro (hnil | hlarge)
      · exact absurd hnil hne
      · obtain ⟨r, hr, hfit⟩ := (le_largest_iff h1).mp hlarge
        exact absurd hfit (Nat.not_le_of_lt (hsmall r hr))

/-- One page is free and two are asked for. The page is handed out and reported, but the
lock is released twice, and the free list now starts behind the page that was asked for
and never was free, with as many pages as `size_t` has values but one. -/
theorem kpageframeTryalloc_fallback :
    ∃ s t, kpageframeFree State.empty 4096 1 = some s ∧
      kpageframeTryalloc s 2 = some ⟨4096, 1, 2, t⟩ ∧ t.firstFreePage = 12288 ∧
      t.pffSize 12288 = 4294967295 ∧ ¬ TryallocRight s 2 := by
  have hcall : ∃ s t, kpageframeFree State.empty 4096 1 = some s ∧
      kpageframeTryalloc s 2 = some ⟨4096, 1, 2, t⟩ ∧ t.firstFreePage = 12288 ∧
      t.pffSize 12288 = 4294967295 := ⟨_, _, rfl, rfl, rfl, by decide⟩
  obtain ⟨s, t, hs, hcall, hfirst, hsize⟩ := hcall
  refine ⟨s, t, hs, hcall, hfirst, hsize, ?_⟩
  rintro ⟨res, hcall', -, hright⟩
  rw [hcall] at hcall'
  cases hcall'
  cases hs
  exact absurd (hright (cons_ne_nil _ _)).2.2.2.2 (show (2 : Nat) ≠ 1 by decide)

/-- Two of three free pages are taken. -/
theorem kpageframeTryalloc_right_two :
    ∃ s, kpageframeFree State.empty 4096 3 = some s ∧ TryallocRight s 2 ∧
      largest (regions s) = 3 := by
  have hregion : IsRegion 4096 3 := by constructor <;> decide
  obtain ⟨s, hs, hfree⟩ := kpageframeFree_nil freeList_empty hregion
  have h := hfree.regionList
  have hlarge : largest (regions s) = 3 := by
    rw [h.regions_eq]
    rfl
  exact ⟨s, hs, (kpageframeTryalloc_right_iff h (by decide)).mpr (.inr (by rw [hlarge]; decide)),
    hlarge⟩

end KosKernel.PageFrame
