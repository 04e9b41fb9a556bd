import Mathlib.Data.Set.Card
import Mathlib.Order.CompletePartialOrder
import KosKernel.PageFrame.TryAlloc

/-!
# KosKernel.PageFrame.Info

**Frame accounting**: `kpageframe_getinfo` and the counter `total_allocated_pages`,
over whole runs of the allocator.

`pfi_freepages` is summed up from the free list, `pfi_usedpages` is a counter that
the calls keep on their own. Their sum, as the `size_t` it is, stays the same as long
as every call that moves pages moves the counter with them. `__kpageframe_alloc_one`
never does, and a fallback of `kpageframe_tryalloc` moves it by the wrong number.
-/

namespace KosKernel.PageFrame

open LinkedList

/-- `struct kpageframeinfo`. -/
structure PageFrameInfo where
  pfiMinregion : Nat
  pfiMaxregion : Nat
  pfiFreeregions : Nat
  pfiFreepages : Nat
  pfiUsedpages : Nat

/-- What `kpageframe_getinfo` does with one more region of `size` pages. -/
def PageFrameInfo.count (info : PageFrameInfo) (size : Nat) : PageFrameInfo :=
  let info :=
    if size < info.pfiMinregion then { info with pfiMinregion := size }
    else if info.pfiMaxregion < size then { info with pfiMaxregion := size }
    else info
  { info with
    pfiFreeregions := (info.pfiFreeregions + 1) % addrSpace
    pfiFreepages := (info.pfiFreepages + size) % addrSpace }

/-- The loop of `kpageframe_getinfo`, from the region `iter` on. -/
def getinfoLoop (s : State) : Nat → Nat → PageFrameInfo → Option PageFrameInfo
  | 0, _, _ => none
  | fuel + 1, iter, info =>
    if iter = pageNil then some info
    else getinfoLoop s fuel (s.pffNext iter) (info.count (s.pffSize iter))

/-- `kpageframe_getinfo`. Without a free region the smallest and the largest one are not
set, so they keep what `info` had. -/
def kpageframeGetinfo (s : State) (info : PageFrameInfo) : Option PageFrameInfo :=
  let iter := s.firstFreePage
  let filled :=
    if iter ≠ pageNil then
      let size := s.pffSize iter
      getinfoLoop s maxFrames (s.pffNext iter)
        { info with
          pfiMinregion := size
          pfiMaxregion := size
          pfiFreepages := size
          pfiFreeregions := 1 }
    else some { info with pfiFreeregions := 0, pfiFreepages := 0 }
  filled.map fun info => { info with pfiUsedpages := s.totalAllocatedPages }

/-! ### Counting pages -/

/-- How many pages some regions have. -/
def pageCount (rs : List (Nat × Nat)) : Nat := (rs.map Prod.snd).sum

@[simp] theorem pageCount_cons (r : Nat × Nat) (rs : List (Nat × Nat)) :
    pageCount (r :: rs) = r.2 + pageCount rs := rfl

theorem pagesOf_eq_image (start n : Nat) :
    pagesOf start n = ((Finset.range n).image (fun i => start + i * pageSize) : Finset Nat) := by
  ext a
  simp only [mem_pagesOf, Finset.coe_image, Finset.coe_range, Set.mem_image, Set.mem_Iio]
  exact exists_congr fun i => and_congr_right fun _ => eq_comm

theorem pagesOf_finite (start n : Nat) : (pagesOf start n).Finite := by
  rw [pagesOf_eq_image]
  exact Finset.finite_toSet _

theorem ncard_pagesOf (start n : Nat) : (pagesOf start n).ncard = n := by
  rw [pagesOf_eq_image, Set.ncard_coe_finset, Finset.card_image_of_injective, Finset.card_range]
  intro i j hij
  have hij' : start + i * pageSize = start + j * pageSize := hij
  exact Nat.eq_of_mul_eq_mul_right (by decide) (Nat.add_left_cancel hij')

theorem pagesIn_finite (rs : List (Nat × Nat)) : (pagesIn rs).Finite := by
  induction rs with
  | nil => simp
  | cons r rs ih =>
    rw [pagesIn_cons]
    exact (pagesOf_finite _ _).union ih

variable {rs : List (Nat × Nat)}

/-- The regions of an ascending list share no page, so their sizes add up. -/
theorem ncard_pagesIn (h : rs.Pairwise Below) : (pagesIn rs).ncard = pageCount rs := by
  induction rs with
  | nil => simp [pageCount]
  | cons r rs ih =>
    rw [List.pairwise_cons] at h
    have hdisj : Disjoint (pagesOf r.1 r.2) (pagesIn rs) := by
      rw [Set.disjoint_left]
      rintro a ha ⟨t, ht, hat⟩
      exact Set.disjoint_left.mp (h.1 t ht).disjoint ha hat
    rw [pagesIn_cons, Set.ncard_union_eq hdisj (pagesOf_finite _ _) (pagesIn_finite _),
      ncard_pagesOf, ih h.2, pageCount_cons]

variable {s : State}

theorem RegionList.pageCount_lt (h : RegionList s rs) : pageCount rs < addrSpace := by
  have := sum_mul_le h.region h.ascending (fun _ _ => Nat.le_refl _) 0 (Nat.zero_le _)
    fun _ _ => Nat.zero_le _
  unfold pageCount addrSpace pageSize at *
  omega

/-! ### The report -/

/-- The loop adds up the sizes, which cannot overflow. -/
theorem getinfoLoop_spec : ∀ {b p fuel : Nat}
    (info : PageFrameInfo), IsSeg pageNil s.pffNext s.pffPrev b p (rs.map Prod.fst) pageNil →
    (∀ r ∈ rs, s.pffSize r.1 = r.2) → info.pfiFreepages + pageCount rs < addrSpace →
    rs.length < fuel →
    ∃ info', getinfoLoop s fuel p info = some info' ∧
      info'.pfiFreepages = info.pfiFreepages + pageCount rs := by
  induction rs with
  | nil =>
    intro b p fuel info hseg _ _ hfuel
    obtain _ | fuel := fuel
    · simp at hfuel
    exact ⟨info, if_pos (isSeg_nil.mp hseg), by simp [pageCount]⟩
  | cons r rs ih =>
    intro b p fuel info hseg hsize hsum hfuel
    obtain _ | fuel := fuel
    · simp at hfuel
    obtain ⟨rfl, hnil, -, hseg⟩ := hseg
    rw [pageCount_cons] at hsum
    have hcount : (info.count r.2).pfiFreepages = info.pfiFreepages + r.2 := by
      have hkeep : (info.count r.2).pfiFreepages = (info.pfiFreepages + r.2) % addrSpace := by
        unfold PageFrameInfo.count
        split
        · rfl
        · split <;> rfl
      rw [hkeep, Nat.mod_eq_of_lt (by omega)]
    obtain ⟨info', hloop, hfree⟩ := ih (info.count r.2) hseg
      (fun t ht => hsize t (by simp [ht])) (by rw [hcount]; omega) (by simpa using hfuel)
    refine ⟨info', ?_, ?_⟩
    · rw [getinfoLoop, if_neg hnil, hsize r (by simp), hloop]
    · rw [hfree, hcount, pageCount_cons]
      omega

/-- **Specification of `kpageframe_getinfo`**: it reports how many pages are free, and the
counter. -/
theorem kpageframeGetinfo_spec (h : RegionList s rs) (info : PageFrameInfo) :
    ∃ info', kpageframeGetinfo s info = some info' ∧
      info'.pfiFreepages = (freePages s).ncard ∧ info'.pfiUsedpages = s.totalAllocatedPages := by
  rw [h.freePages_eq, ncard_pagesIn h.ascending]
  have hlt := h.pageCount_lt
  have hlen := h.length_le
  cases rs with
  | nil =>
    have hnil : s.firstFreePage = pageNil := isSeg_nil.mp h.seg
    refine ⟨{ info with
      pfiFreeregions := 0, pfiFreepages := 0, pfiUsedpages := s.totalAllocatedPages },
      ?_, rfl, rfl⟩
    simp [kpageframeGetinfo, hnil]
  | cons r rs =>
    obtain ⟨hfirst, hnil, -, hseg⟩ := h.seg
    have hsize : s.pffSize r.1 = r.2 := h.size r (by simp)
    obtain ⟨info', hloop, hfree⟩ := getinfoLoop_spec
      { info with
        pfiMinregion := r.2, pfiMaxregion := r.2, pfiFreepages := r.2, pfiFreeregions := 1 }
      hseg (fun t ht => h.size t (by simp [ht])) hlt hlen
    refine ⟨{ info' with pfiUsedpages := s.totalAllocatedPages }, ?_, hfree, rfl⟩
    simp [kpageframeGetinfo, hfirst, hnil, hsize, hloop]

/-! ### The counter -/

variable {start n : Nat} {t : State}

/-- The search of `kpageframe_free` leaves the counter to its caller. -/
theorem freeLoop_total : ∀ {fuel iter : Nat} {s : State},
    freeLoop start n fuel iter s = some t → t.totalAllocatedPages = s.totalAllocatedPages := by
  intro fuel
  induction fuel with
  | zero => intro iter s h; cases h
  | succ fuel ih =>
    intro iter s h
    rw [freeLoop] at h
    split at h
    · cases h; rfl
    split at h
    · cases h
      dsimp only [mergeAfter]
      split <;> rfl
    split at h
    · cases h; rfl
    split at h
    · cases h; rfl
    · exact ih h

theorem kpageframeFree_total (h : kpageframeFree s start n = some t) :
    t.totalAllocatedPages = (s.totalAllocatedPages + addrSpace - n % addrSpace) % addrSpace := by
  rw [kpageframeFree] at h
  split at h
  · cases h; rfl
  obtain ⟨u, hloop, rfl⟩ := Option.map_eq_some_iff.mp h
  show (u.totalAllocatedPages + addrSpace - n % addrSpace) % addrSpace = _
  rw [freeLoop_total hloop]

theorem carve_total (s : State) (start n iter : Nat) :
    (carve s start n iter).totalAllocatedPages = s.totalAllocatedPages := by
  unfold carve
  split
  · split <;> rfl
  · rfl

/-! ### Runs -/

/-- The free list is in order, and used and free pages add up to `c`. -/
structure Books (c : Nat) (s : State) : Prop where
  list : ∃ rs, FreeList s rs
  sum : (s.totalAllocatedPages + (freePages s).ncard) % addrSpace = c

variable {c : Nat}

/-- Pages are handed out and counted. -/
theorem Books.out {p : Nat} {ts : List (Nat × Nat)} (h : Books c s) (hrs : FreeList s rs)
    (hts : FreeList t ts) (hsub : pagesOf p n ⊆ pagesIn rs)
    (hpages : pagesIn ts = pagesIn rs \ pagesOf p n)
    (htotal : t.totalAllocatedPages = (s.totalAllocatedPages + n) % addrSpace) : Books c t := by
  refine ⟨⟨ts, hts⟩, ?_⟩
  have hcard := Set.ncard_sdiff_add_ncard_of_subset hsub (pagesIn_finite rs)
  rw [ncard_pagesOf, ← hpages, ← hts.freePages_eq, ← hrs.freePages_eq] at hcard
  rw [← h.sum, htotal, ← hcard, Nat.mod_add_mod]
  congr 1
  omega

/-- Pages come back and are no longer counted. -/
theorem Books.into {ts : List (Nat × Nat)} (h : Books c s) (hs : IsRegion start n)
    (hrs : FreeList s rs) (hts : FreeList t ts) (hdisj : Disjoint (pagesIn rs) (pagesOf start n))
    (hpages : pagesIn ts = pagesIn rs ∪ pagesOf start n) (htotal : t.totalAllocatedPages =
      (s.totalAllocatedPages + addrSpace - n % addrSpace) % addrSpace) : Books c t := by
  refine ⟨⟨ts, hts⟩, ?_⟩
  have hcard := Set.ncard_union_eq hdisj (pagesIn_finite rs) (pagesOf_finite start n)
  rw [ncard_pagesOf, ← hpages, ← hts.freePages_eq, ← hrs.freePages_eq] at hcard
  have hn : n < addrSpace := hs.pages_lt
  rw [← h.sum, htotal, hcard, Nat.mod_eq_of_lt hn, Nat.mod_add_mod,
    show s.totalAllocatedPages + addrSpace - n + ((freePages s).ncard + n) =
      s.totalAllocatedPages + (freePages s).ncard + addrSpace by omega, Nat.add_mod_right]

/-- The states that runs of calls reach from the state `s0` after initialisation. A page
is allocated on its own only when there is none, and the other calls are made where they
do what they promise. -/
inductive AccountRun (s₀ : State) : State → Prop
  | start : AccountRun s₀ s₀
  | free {s t : State} {start n : Nat} : AccountRun s₀ s → IsRegion start n →
      Disjoint (freePages s) (pagesOf start n) → kpageframeFree s start n = some t →
      AccountRun s₀ t
  | allocOne {s t : State} {p : Nat} : AccountRun s₀ s → regions s = [] →
      kpageframeAllocOne s = (p, t) → AccountRun s₀ t
  | allocMany {s t : State} {n p : Nat} : AccountRun s₀ s → 1 ≤ n →
      kpageframeAllocMany s n = some (p, t) → AccountRun s₀ t
  | tryalloc {s : State} {n : Nat} {res : TryResult} : AccountRun s₀ s → 1 ≤ n →
      regions s = [] ∨ n ≤ largest (regions s) → kpageframeTryalloc s n = some res →
      AccountRun s₀ res.state
  | allocat {s t : State} {start n p : Nat} : AccountRun s₀ s → start % pageSize = 0 → 1 ≤ n →
      AllocatOk s start n → kpageframeAllocat s start n = some (p, t) → AccountRun s₀ t

theorem Books.takeFront {l ts : List (Nat × Nat)} {r : Nat × Nat} (h : Books c s)
    (hrs : FreeList s (l ++ r :: ts)) (hfit : n ≤ r.2) :
    Books c ((takeFront s n r.1).addAllocated n) := by
  refine h.out hrs ((takeFront_spec hrs hfit).addAllocated n) (pagesOf_subset_cut l ts hfit)
    (pagesIn_cut hrs.regionList.ascending hfit) ?_
  show (_ + n) % addrSpace = _
  unfold PageFrame.takeFront
  split <;> rfl

theorem Books.allocMany {p : Nat} (h : Books c s)
    (hcall : kpageframeAllocMany s n = some (p, t)) : Books c t := by
  obtain ⟨rs, hrs⟩ := h.list
  rcases kpageframeAllocMany_spec (n := n) hrs with ⟨hfail, -⟩ | ⟨l, r, ts, rfl, -, hfit, hdone⟩
  · rw [hcall] at hfail
    cases hfail
    exact h
  · rw [hcall] at hdone
    cases hdone
    exact h.takeFront hrs hfit

theorem Books.tryalloc {res : TryResult} (h : Books c s) (h1 : 1 ≤ n)
    (hok : regions s = [] ∨ n ≤ largest (regions s)) (hcall : kpageframeTryalloc s n = some res) :
    Books c res.state := by
  obtain ⟨rs, hrs⟩ := h.list
  rw [hrs.regions_eq] at hok
  rcases kpageframeTryalloc_spec (n := n) hrs.regionList with
    ⟨l, r, ts, rfl, hfit, hdone⟩ | ⟨rfl, hdone⟩ | ⟨hne, hsmall, w, -⟩
  · rw [hcall] at hdone
    cases hdone
    exact h.takeFront hrs hfit
  · rw [hcall] at hdone
    cases hdone
    exact h
  · rcases hok with hnil | hlarge
    · exact absurd hnil hne
    · obtain ⟨r, hr, hfit⟩ := (le_largest_iff h1).mp hlarge
      exact absurd hfit (Nat.not_le_of_lt (hsmall r hr))

theorem AccountRun.books {s0 : State} (h : AccountRun s0 s) (h0 : Books c s0) : Books c s := by
  induction h with
  | start => exact h0
  | free _ hs hdisj hcall ih =>
    obtain ⟨rs, hrs⟩ := ih.list
    rw [hrs.freePages_eq] at hdisj
    obtain ⟨t, ts, hcall', hts, hpages⟩ := kpageframeFree_spec hrs hs hdisj
    rw [hcall] at hcall'
    cases hcall'
    exact ih.into hs hrs hts hdisj hpages (kpageframeFree_total hcall)
  | allocOne _ hnone hcall ih =>
    obtain ⟨rs, hrs⟩ := ih.list
    rw [hrs.regions_eq] at hnone
    subst hnone
    rw [kpageframeAllocOne_nil hrs] at hcall
    cases hcall
    exact ih
  | allocMany _ _ hcall ih => exact ih.allocMany hcall
  | tryalloc _ h1 hok hcall ih => exact ih.tryalloc h1 hok hcall
  | allocat _ ha h1 hok hcall ih =>
    obtain ⟨rs, hrs⟩ := ih.list
    rcases hok.freeList hrs ha h1 with hfail | ⟨iter, ts, hdone, hts, hsub, hpages⟩
    · rw [hcall] at hfail
      cases hfail
      exact ih
    rw [hcall] at hdone
    cases hdone
    refine ih.out hrs hts hsub hpages ?_
    show (_ + _) % addrSpace = _
    rw [carve_total]

/-- **Frame accounting.** In every state of every run from a well-formed state, whose
calls all meet their condition, `kpageframe_getinfo` reports as many free pages as there
are in the list, and used and free pages add up to what they did at the start. -/
theorem kpageframe_accounting {s₀ s : State} {rs₀ : List (Nat × Nat)} (h₀ : FreeList s₀ rs₀)
    (h : AccountRun s₀ s) (info : PageFrameInfo) :
    ∃ info₀ info', kpageframeGetinfo s₀ info = some info₀ ∧ kpageframeGetinfo s info = some info' ∧
      info'.pfiFreepages = (freePages s).ncard ∧
      (info'.pfiUsedpages + info'.pfiFreepages) % addrSpace =
        (info₀.pfiUsedpages + info₀.pfiFreepages) % addrSpace := by
  have hbooks := h.books ⟨⟨rs₀, h₀⟩, rfl⟩
  obtain ⟨rs, hrs⟩ := hbooks.list
  obtain ⟨info₀, hcall₀, hfree₀, hused₀⟩ := kpageframeGetinfo_spec h₀.regionList info
  obtain ⟨info', hcall, hfree, hused⟩ := kpageframeGetinfo_spec hrs.regionList info
  refine ⟨info₀, info', hcall₀, hcall, hfree, ?_⟩
  rw [hused, hfree, hused₀, hfree₀]
  exact hbooks.sum

/-- Of two free pages one is allocated with `__kpageframe_alloc_one`: there is one free
page less, but not one used page more. -/
theorem kpageframe_accounting_allocOne :
    ∃ s t info₁ info₂, kpageframeFree State.empty 4096 2 = some s ∧
      kpageframeAllocOne s = (4096, t) ∧ kpageframeGetinfo s ⟨0, 0, 0, 0, 0⟩ = some info₁ ∧
      kpageframeGetinfo t ⟨0, 0, 0, 0, 0⟩ = some info₂ ∧
      info₁.pfiFreepages = 2 ∧ info₂.pfiFreepages = 1 ∧
      info₁.pfiUsedpages = 4294967294 ∧ info₂.pfiUsedpages = 4294967294 ∧
      (info₁.pfiUsedpages + info₁.pfiFreepages) % addrSpace ≠
        (info₂.pfiUsedpages + info₂.pfiFreepages) % addrSpace :=
  ⟨_, _, _, _, rfl, rfl, rfl, rfl, rfl, rfl, rfl, rfl, by decide⟩

/-- Two of three free pages are allocated together, and the sum stays. -/
theorem kpageframe_accounting_allocMany :
    ∃ s p t info₁ info₂, kpageframeFree State.empty 4096 3 = some s ∧
      kpageframeAllocMany s 2 = some (p, t) ∧ kpageframeGetinfo s ⟨0, 0, 0, 0, 0⟩ = some info₁ ∧
      kpageframeGetinfo t ⟨0, 0, 0, 0, 0⟩ = some info₂ ∧
      (info₂.pfiUsedpages + info₂.pfiFreepages) % addrSpace =
        (info₁.pfiUsedpages + info₁.pfiFreepages) % addrSpace := by
  have hregion : IsRegion 4096 3 := by constructor <;> decide
  obtain ⟨s, hs, hlist⟩ := kpageframeFree_nil freeList_empty hregion
  obtain ⟨p, t, hcall, -⟩ := kpageframeAllocMany_allocated (n := 2) hlist
  obtain ⟨info₁, info₂, hinfo₁, hinfo₂, -, hsum⟩ :=
    kpageframe_accounting hlist (AccountRun.start.allocMany (by decide) hcall) ⟨0, 0, 0, 0, 0⟩
  exact ⟨s, p, t, info₁, info₂, hs, hcall, hinfo₁, hinfo₂, hsum⟩

end KosKernel.PageFrame
