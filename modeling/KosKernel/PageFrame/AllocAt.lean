import KosKernel.PageFrame.Runs

/-!
# KosKernel.PageFrame.AllocAt

**Allocation at a fixed address**, `kpageframe_allocat` of `src/kernel/pageframe.c`.

The call looks for the region that holds the requested pages and carves them out.
What it leaves behind is right as far as `pff_next` goes, but the region that
follows keeps its old `pff_prev`: `carve_mended` says that with this one link
redirected the list would be well formed, and from that one equation follow both
when the list is well formed as it stands (nothing follows) and that otherwise it
is not.
-/

namespace KosKernel.PageFrame

open Function LinkedList List

/-- `p-q` for `struct kpageframe *p,*q`, read as a `size_t`: the byte distance is a
signed 32-bit number when it is divided by the page size. -/
def frameDiff (p q : Nat) : Nat :=
  let d := (p + addrSpace - q) % addrSpace
  if d < addrSpace / 2 then d / pageSize else d / pageSize + (addrSpace - maxFrames)

/-- `a-b` on `size_t`. -/
def sizeSub (a b : Nat) : Nat := (a + addrSpace - b % addrSpace) % addrSpace

/-- The splits of `kpageframe_allocat`: take `n` pages at `start` out of the region
`iter`. -/
def carve (s : State) (start n iter : Nat) : State :=
  if start = iter then
    -- Split 1 --> 0/1
    if n = s.pffSize iter then s.forwardPrev iter (s.pffNext iter)
    else
      let split := frameAdd iter n
      let s := s.setPrev split (s.pffPrev iter)
      let s := s.setNext split (s.pffNext iter)
      let s := s.setSize split (sizeSub (s.pffSize iter) n)
      s.forwardPrev split split
  else
    -- Split 1 --> 2
    let newIterSize := frameDiff start iter
    let split := frameAdd start n
    let s := s.setPrev split iter
    let s := s.setNext split (s.pffNext iter)
    let s := s.setSize split (sizeSub (s.pffSize iter) (newIterSize + n))
    let s := s.setNext iter split
    s.setSize iter newIterSize

/-- The search loop of `kpageframe_allocat`. -/
def allocatLoop (start n : Nat) : Nat → Nat → State → Option (Nat × State)
  | 0, _, _ => none
  | fuel + 1, iter, s =>
    if iter = pageNil then some (pageNil, s)
    else if iter ≤ start then
      if frameAdd start n ≤ frameAdd iter (s.pffSize iter) then
        some (start, (carve s start n iter).addAllocated n)
      else allocatLoop start n fuel (s.pffNext iter) s
    else some (pageNil, s)  -- We won't find this region...

def kpageframeAllocat (s : State) (start n : Nat) : Option (Nat × State) :=
  allocatLoop start n (maxFrames + 1) s.firstFreePage s

/-! ### The search -/

/-- The test of the loop on one region: it starts at or below `start`, and the end
of the request, as the 32-bit pointer it is, is not beyond the region's. -/
def Covers (start n : Nat) (r : Nat × Nat) : Prop :=
  r.1 ≤ start ∧ frameAdd start n ≤ r.1 + r.2 * pageSize

variable {s : State} {start n : Nat} {post : List (Nat × Nat)}

variable {rs : List (Nat × Nat)}

/-- **Specification of the search.** It fails when no region covers the request, and
otherwise carves the pages out of one that does. -/
theorem kpageframeAllocat_spec (h : RegionList s rs) (start n : Nat) :
    (kpageframeAllocat s start n = some (pageNil, s) ∧ ∀ r ∈ rs, ¬ Covers start n r) ∨
    ∃ pre r post, rs = pre ++ r :: post ∧ Covers start n r ∧
      kpageframeAllocat s start n = some (start, (carve s start n r.1).addAllocated n) := by
  refine h.walk (P := fun pre p fuel => (∀ r ∈ pre, ¬ Covers start n r) →
    (allocatLoop start n fuel p s = some (pageNil, s) ∧ ∀ r ∈ rs, ¬ Covers start n r) ∨
    ∃ pre r post, rs = pre ++ r :: post ∧ Covers start n r ∧
      allocatLoop start n fuel p s = some (start, (carve s start n r.1).addAllocated n))
    ?_ ?_ (by simp)
  · intro fuel hpre
    exact .inl ⟨by rw [allocatLoop, if_pos rfl], hpre⟩
  rintro pre r post fuel rfl hnil ih hpre
  have hend : frameAdd r.1 r.2 = r.1 + r.2 * pageSize :=
    frameAdd_eq (h.region r (by simp)).no_wrap
  rw [allocatLoop, if_neg hnil, h.size r (by simp), hend]
  by_cases hle : r.1 ≤ start
  · rw [if_pos hle]
    by_cases hfit : frameAdd start n ≤ r.1 + r.2 * pageSize
    · right
      rw [if_pos hfit]
      exact ⟨pre, r, post, rfl, ⟨hle, hfit⟩, rfl⟩
    · rw [if_neg hfit]
      exact ih (forall_mem_append.2 ⟨hpre,
        by simpa using fun hcov : Covers start n r => hfit hcov.2⟩)
  -- The list ascends, so no later region starts low enough either.
  left
  rw [if_neg hle]
  refine ⟨rfl, fun q hq hcov => ?_⟩
  have hlt := h.starts_pairwise
  rw [map_append, map_cons, pairwise_append, pairwise_cons] at hlt
  rcases mem_append.mp hq with hq | hq
  · exact hpre q hq hcov
  rcases mem_cons.mp hq with rfl | hq
  · exact hle hcov.1
  · exact hle (Nat.le_trans (Nat.le_of_lt (hlt.2.1.1 q.1 (mem_map_of_mem hq))) hcov.1)

/-! ### The carving -/

/-- What stays of a region of `k + n + j` pages when `n` pages are taken out behind
the first `k`. -/
def leftOver (iter k n j : Nat) : List (Nat × Nat) :=
  (if k = 0 then [] else [(iter, k)]) ++ (if j = 0 then [] else [(iter + (k + n) * pageSize, j)])

/-- The list with the back link of `q`, if there is such a region, directed at `y`. -/
def mendBack (s : State) (q y : Nat) : State :=
  { s with pffPrev := linkPrev pageNil s.pffPrev q y }

section Carve

variable {s : State} {pre post : List (Nat × Nat)} {iter k n j : Nat}

theorem sizeSub_eq {a b c : Nat} (h : a = b + c) (ha : a < addrSpace) : sizeSub a b = c := by
  unfold sizeSub
  rw [Nat.mod_eq_of_lt (show b < addrSpace by omega), h,
    show b + c + addrSpace - b = c + addrSpace by omega, Nat.add_mod_right]
  exact Nat.mod_eq_of_lt (by omega)

theorem IsRegion.pages_lt {start m : Nat} (h : IsRegion start m) : m < addrSpace := by
  have := h.no_wrap
  unfold pageSize at this
  omega

/-- The pointer difference, by whether it fits the signed type. -/
theorem frameDiff_add {p i : Nat} (h : p + i * pageSize < addrSpace) :
    frameDiff (p + i * pageSize) p =
      if i * pageSize < addrSpace / 2 then i else i + (addrSpace - maxFrames) := by
  have hd : (p + i * pageSize + addrSpace - p) % addrSpace = i * pageSize := by
    rw [show p + i * pageSize + addrSpace - p = i * pageSize + addrSpace by omega,
      Nat.add_mod_right]
    exact Nat.mod_eq_of_lt (by omega)
  unfold frameDiff
  simp only [hd, Nat.mul_div_cancel i (by decide : 0 < pageSize)]

section

variable (h : RegionList s (pre ++ (iter, k + n + j) :: post))

include h

omit h in
/-- Taking the pages off the front is what `__kpageframe_alloc_many` does, up to the
back link of the next region. -/
theorem carve_front (h : RegionList s (pre ++ (iter, n + j) :: post)) (h1 : 1 ≤ n) :
    mendBack (carve s iter n iter) (s.pffNext iter)
      (if j = 0 then s.pffPrev iter else iter + n * pageSize) = takeFront s n iter := by
  have hnext := h.next_ne
  have hiter := h.region (iter, n + j) (by simp)
  have hsize : s.pffSize iter = n + j := h.size (iter, n + j) (by simp)
  by_cases hj : j = 0
  · simp [carve, takeFront, mendBack, hsize, hj, linkPrev_of_ne hnext.symm]
  have hne := h.inside_ne h1 (by omega)
  obtain ⟨hrest, hend⟩ := rest_isRegion hiter (show n < n + j by omega)
  have hfa : frameAdd iter n = iter + n * pageSize := by
    refine frameAdd_eq ?_
    have := hrest.no_wrap
    omega
  have hsub : sizeSub (n + j) n = j := sizeSub_eq rfl hiter.pages_lt
  have hq := h.next_ne_of_forall hne hrest.ne_pageNil
  simp [carve, takeFront, takePlace, mendBack, hsize, hfa, hj, hsub, linkPrev_of_ne hnext.symm,
    linkPrev_update_comm hq]

theorem RegionList.room : iter + (k * pageSize + n * pageSize + j * pageSize) < addrSpace := by
  rw [← Nat.add_mul, ← Nat.add_mul]
  exact (h.region (iter, k + n + j) (by simp)).no_wrap

/-- The state that a split in two leaves. -/
theorem carve_split (hk : 0 < k) :
    carve s (iter + k * pageSize) n iter =
      { s with
        pffPrev := update s.pffPrev (iter + (k + n) * pageSize) iter
        pffNext := update (update s.pffNext (iter + (k + n) * pageSize)
          (s.pffNext iter)) iter (iter + (k + n) * pageSize)
        pffSize := update (update s.pffSize (iter + (k + n) * pageSize)
          (sizeSub (k + n + j) (frameDiff (iter + k * pageSize) iter + n)))
          iter (frameDiff (iter + k * pageSize) iter) } := by
  have hsize : s.pffSize iter = k + n + j := h.size (iter, k + n + j) (by simp)
  have hroom := h.room
  have hkpos := Nat.mul_pos hk (by decide : 0 < pageSize)
  have hself : iter + k * pageSize ≠ iter := by omega
  have hfa : frameAdd (iter + k * pageSize) n = iter + (k + n) * pageSize := by
    rw [frameAdd_eq (by omega), Nat.add_mul]
    omega
  rw [carve, if_neg hself]
  simp [hfa, hsize]

/-- With the two halves within reach of a signed distance, the sizes are right. -/
theorem carve_sizes (hnear : k * pageSize < addrSpace / 2) :
    frameDiff (iter + k * pageSize) iter = k ∧ sizeSub (k + n + j) (k + n) = j := by
  have hroom := h.room
  refine ⟨?_, sizeSub_eq rfl (h.region (iter, k + n + j) (by simp)).pages_lt⟩
  rw [frameDiff_add (by omega), if_pos hnear]

/-- A region is split in two; the back link of the next one is directed at the
second half. -/
theorem carve_middle_mended (hk : 0 < k) (hj : 0 < j) (hnear : k * pageSize < addrSpace / 2) :
    RegionList (mendBack (carve s (iter + k * pageSize) n iter) (s.pffNext iter)
        (iter + (k + n) * pageSize))
      (pre ++ ([(iter, k), (iter + (k + n) * pageSize, j)] ++ post)) := by
  obtain ⟨hsegpre, hprev, hsegpost⟩ := h.at
  have hiter := h.region (iter, k + n + j) (by simp)
  have hne := h.inside_ne (show 0 < k + n by omega) (by omega)
  obtain ⟨hrest, hend⟩ := rest_isRegion hiter (show k + n < k + n + j by omega)
  rw [show (iter, k + n + j).2 - (k + n) = j by dsimp only; omega] at hrest hend
  dsimp only at hrest hend
  have hq := h.next_ne_of_forall hne hrest.ne_pageNil
  have hself : iter ≠ iter + (k + n) * pageSize := hne (iter, k + n + j) (by simp)
  obtain ⟨hdiff, hsub⟩ := carve_sizes h hnear
  rw [carve_split h hk, hdiff, hsub]
  obtain ⟨split, hsplit⟩ : ∃ x, x = iter + (k + n) * pageSize := ⟨_, rfl⟩
  rw [← hsplit] at hrest hend hq hself ⊢
  have hwrap := hrest.no_wrap
  have hsum : (k + n) * pageSize = k * pageSize + n * pageSize := Nat.add_mul ..
  have hregion : ∀ t ∈ [(iter, k), (split, j)], IsRegion t.1 t.2 := by
    simpa using ⟨⟨hiter.aligned, hk, by omega⟩, hrest⟩
  have hlow : ∀ r ∈ pre, ∀ t ∈ [(iter, k), (split, j)], Below r t := by
    intro r hr t ht
    have := h.around.1 r hr
    dsimp only [Below]
    rcases mem_pair.mp ht with rfl | rfl <;> dsimp only <;> omega
  have hhigh : ∀ t ∈ [(iter, k), (split, j)], ∀ r ∈ post, Below t r := by
    intro t ht r hr
    have := h.around.2 r hr
    dsimp only [Below]
    rcases mem_pair.mp ht with rfl | rfl <;> dsimp only <;> omega
  have hne' : ∀ r ∈ pre ++ post, r.1 ≠ iter ∧ r.1 ≠ split := by
    simpa using h.starts_ne [(iter, k + n + j)] _ hregion hlow hhigh
  refine RegionList.splice pre [(iter, k + n + j)] _ iter h ⟨hsegpre, hsegpost,
    ⟨rfl, hiter.ne_pageNil, ?_, ?_⟩, hsegpre.linkHead_self.symm, ?_, ?_, ?_, ?_, hregion⟩ ?_ hlow
    hhigh
  · show linkPrev pageNil (update s.pffPrev split iter) _ _ iter = _
    rw [linkPrev_of_ne h.next_ne.symm, update_of_ne hself, hprev]
  · refine ⟨update_self .., hrest.ne_pageNil, ?_, ?_⟩
    · show linkPrev pageNil (update s.pffPrev split iter) _ _ split = _
      rw [linkPrev_of_ne hq, update_self]
    · show update _ _ _ split = _
      rw [update_of_ne hself.symm, update_self]
  · intro r hr
    obtain ⟨h1, h2⟩ := hne' r hr
    show update _ _ _ r.1 = _
    rw [update_of_ne h1, update_of_ne h2, hsegpre.linkNext_self]
  · intro r hr
    exact linkPrev_update_of_ne (hne' r hr).2
  · intro r hr
    obtain ⟨h1, h2⟩ := hne' r hr
    show update _ _ _ r.1 = _
    rw [update_of_ne h1, update_of_ne h2]
  · simp [mendBack, hself.symm]
  · simp [Below]
    omega

/-- The node that the region behind the carved one should name as its predecessor. -/
def backOf (s : State) (iter k n j : Nat) : Nat :=
  if j = 0 then s.pffPrev iter else iter + (k + n) * pageSize

/-- The carving succeeds in keeping region sizes: it takes from the front, or leaves
something behind and the part in front is within reach of a signed distance. -/
def CleanCut (k j : Nat) : Prop := k = 0 ∨ (0 < j ∧ k * pageSize < addrSpace / 2)

/-- **The carving is right up to one link.** With the back link behind the carved
region redirected, the list is the old one without the pages. -/
theorem carve_mended (h1 : 1 ≤ n) (hcut : CleanCut k j) :
    RegionList (mendBack (carve s (iter + k * pageSize) n iter) (s.pffNext iter)
        (backOf s iter k n j))
      (pre ++ (leftOver iter k n j ++ post)) := by
  by_cases hk : k = 0
  · subst hk
    have hlist : RegionList s (pre ++ (iter, n + j) :: post) := by
      rwa [Nat.zero_add] at h
    have hback : backOf s iter 0 n j = if j = 0 then s.pffPrev iter else iter + n * pageSize := by
      rw [backOf, Nat.zero_add]
    have hleft : leftOver iter 0 n j = cutFront (iter, n + j) n := by
      simp [leftOver, cutFront]
    rw [hback, hleft, Nat.zero_mul, Nat.add_zero, carve_front hlist h1]
    exact takeFront_regionList hlist (by omega)
  · obtain ⟨hj, hnear⟩ := hcut.resolve_left hk
    have hleft : leftOver iter k n j = [(iter, k), (iter + (k + n) * pageSize, j)] := by
      simp [leftOver, hk, Nat.ne_of_gt hj]
    rw [backOf, if_neg (Nat.ne_of_gt hj), hleft]
    exact carve_middle_mended h (Nat.pos_of_ne_zero hk) hj hnear

omit h in
theorem carve_last (h : RegionList s (pre ++ [(iter, k + n + j)])) (h1 : 1 ≤ n)
    (hcut : CleanCut k j) :
    RegionList (carve s (iter + k * pageSize) n iter) (pre ++ (leftOver iter k n j ++ [])) := by
  have hnext : s.pffNext iter = pageNil := isSeg_nil.mp h.at.2.2
  have hmend := carve_mended h h1 hcut
  rwa [hnext, mendBack, linkPrev, if_pos rfl] at hmend

omit h in
/-- The link that should be redirected is not: the region behind still names `iter`. -/
theorem carve_stale {r : Nat × Nat} (h : RegionList s (pre ++ (iter, k + n + j) :: r :: post))
    (h1 : 1 ≤ n) (hcut : CleanCut k j) :
    (carve s (iter + k * pageSize) n iter).pffPrev r.1 = iter ∧ backOf s iter k n j ≠ iter := by
  obtain ⟨hsegpre, hprev, hsegpost⟩ := h.at
  have hnd := h.starts_nodup
  simp only [map_append, map_cons, nodup_append, mem_cons] at hnd
  have hlast : iter ≠ (pre.map Prod.fst).getLastD pageNil := by
    refine getLastD_ne (fun hmem => ?_) (h.region (iter, k + n + j) (by simp)).ne_pageNil
    exact hnd.2.2 _ hmem _ (.inl rfl) rfl
  by_cases hj : j = 0
  · subst hj
    have hk : k = 0 := hcut.resolve_right (fun hc => absurd hc.1 (Nat.lt_irrefl 0))
    subst hk
    have hsize : s.pffSize iter = n := by
      simpa using h.size (iter, 0 + n + 0) (by simp)
    rw [backOf, if_pos rfl, hprev]
    refine ⟨?_, hlast.symm⟩
    simp [carve, hsize, hsegpost.2.2.1]
  have hne := h.inside_ne (show 0 < k + n by omega) (by omega)
  have hself := hne (iter, k + n + j) (by simp)
  have hbehind := hne r (by simp)
  rw [backOf, if_neg hj]
  refine ⟨Eq.trans ?_ hsegpost.2.2.1, hself.symm⟩
  by_cases hk : k = 0
  · subst hk
    have hsize : s.pffSize iter = n + j := by
      simpa using h.size (iter, 0 + n + j) (by simp)
    have hwrap := (h.region (iter, 0 + n + j) (by simp)).no_wrap
    have hsum : (0 + n + j) * pageSize = n * pageSize + j * pageSize := by ring
    have hfa : frameAdd iter n = iter + n * pageSize := by
      refine frameAdd_eq ?_
      dsimp only at hwrap
      omega
    rw [Nat.zero_add] at hbehind
    simp [carve, hsize, hj, hfa, hbehind]
  · rw [carve_split h (Nat.pos_of_ne_zero hk)]
    exact update_of_ne hbehind _ _

/-- A part in front of the request stays in the list, with the size that was written. -/
theorem carve_front_listed (hk : 0 < k) {ts : List (Nat × Nat)}
    (hts : RegionList (carve s (iter + k * pageSize) n iter) ts) :
    (iter, frameDiff (iter + k * pageSize) iter) ∈ ts ∧
      (iter + (k + n) * pageSize,
        sizeSub (k + n + j) (frameDiff (iter + k * pageSize) iter + n)) ∈ ts := by
  obtain ⟨hsegpre, hprev, -⟩ := h.at
  have hiter := h.region (iter, k + n + j) (by simp)
  have hpos := Nat.mul_pos (show 0 < k + n by omega) (by decide : 0 < pageSize)
  have hself : iter + (k + n) * pageSize ≠ iter := by omega
  have hnil := hiter.page_ne_nil (k + n)
  -- The links up to the carved region are the old ones.
  have hlow : ∀ x ∈ pre.map Prod.fst, x ≠ iter ∧ x ≠ iter + (k + n) * pageSize := by
    intro x hx
    obtain ⟨r, hr, rfl⟩ := mem_map.mp hx
    have hbelow := h.around.1 r hr
    have hr1 := (h.region r (by simp [hr])).lt_end
    omega
  have hcarve := carve_split h hk
  rw [hcarve] at hts
  have hwalk := hsegpre.congr (fun x hx =>
    show update (update s.pffNext (iter + (k + n) * pageSize) (s.pffNext iter))
      iter (iter + (k + n) * pageSize) x = s.pffNext x by
    rw [update_of_ne (hlow x hx).1, update_of_ne (hlow x hx).2])
    (fun x _ => rfl)
  have hwalk' : IsSeg pageNil _ s.pffPrev pageNil s.firstFreePage (pre.map Prod.fst ++ [iter])
      (iter + (k + n) * pageSize) :=
    isSeg_append.mpr ⟨iter, hwalk, rfl, hiter.ne_pageNil, hprev, update_self ..⟩
  have hmem := (hts.seg.passes hwalk hiter.ne_pageNil).1
  have hmem' := (hts.seg.passes hwalk' hnil).1
  have hsizeOf := hts.size_of_mem hmem
  have hsizeOf' := hts.size_of_mem hmem'
  dsimp only at hsizeOf hsizeOf'
  rw [update_self] at hsizeOf
  rw [update_of_ne hself, update_self] at hsizeOf'
  exact ⟨hsizeOf, hsizeOf'⟩

/-- **When the carving keeps the list well formed** nothing follows the region, and the cut
is clean. -/
theorem clean_of_carve_regionList (h1 : 1 ≤ n) {ts : List (Nat × Nat)}
    (hts : RegionList (carve s (iter + k * pageSize) n iter) ts) : post = [] ∧ CleanCut k j := by
  have hcut : CleanCut k j := by
    by_contra hbad
    rw [CleanCut, not_or] at hbad
    have hk := Nat.pos_of_ne_zero hbad.1
    obtain ⟨hfirst, hsecond⟩ := carve_front_listed h hk hts
    have hroom := h.room
    by_cases hnear : k * pageSize < addrSpace / 2
    · -- Nothing is left behind: the second half has size zero.
      obtain ⟨hdiff, hsub⟩ := carve_sizes h hnear
      rw [hdiff, hsub] at hsecond
      exact hbad.2 ⟨(hts.region _ hsecond).nonempty, hnear⟩
    -- The distance is negative: the first half is larger than memory.
    rw [frameDiff_add (by omega), if_neg hnear] at hfirst
    have hbig := (hts.region _ hfirst).no_wrap
    unfold maxFrames addrSpace pageSize at hbig
    omega
  refine ⟨?_, hcut⟩
  cases post with
  | nil => rfl
  | cons r post =>
    exfalso
    obtain ⟨hstale, hback⟩ := carve_stale h h1 hcut
    have hmend := carve_mended h h1 hcut
    obtain ⟨-, -, hsegpost⟩ := h.at
    have hseg := hmend.seg
    rw [← append_assoc, map_append, map_cons, isSeg_append] at hseg
    obtain ⟨x, hwalk, rfl, hnil, hprev, -⟩ := hseg
    -- The list's own back link of the next region, and the one it should have.
    have hown := (hts.seg.passes hwalk hnil).2
    have hshould : (mendBack (carve s (iter + k * pageSize) n iter) (s.pffNext iter)
        (backOf s iter k n j)).pffPrev r.1 = backOf s iter k n j := by
      show linkPrev pageNil _ _ _ r.1 = _
      rw [hsegpost.1, linkPrev, if_neg hnil, update_self]
    exact hback (hshould.symm.trans (hprev.trans (hown.symm.trans hstale)))

end

theorem pagesIn_ite (p m : Nat) : pagesIn (if m = 0 then [] else [(p, m)]) = pagesOf p m := by
  split_ifs with hm
  · ext a
    simp [hm, mem_pagesOf]
  · simp

/-- The pages that stay, with those that are taken, are the region. -/
theorem pagesIn_leftOver (iter k n j : Nat) :
    pagesOf (iter + k * pageSize) n ∪ pagesIn (leftOver iter k n j) = pagesOf iter (k + n + j) ∧
      Disjoint (pagesIn (leftOver iter k n j)) (pagesOf (iter + k * pageSize) n) := by
  have hmid : (k + n) * pageSize = k * pageSize + n * pageSize := Nat.add_mul ..
  rw [leftOver, pagesIn_append, pagesIn_ite, pagesIn_ite]
  constructor
  · rw [pagesOf_add, pagesOf_add, Set.union_left_comm, Set.union_assoc]
  · rw [Set.disjoint_union_left]
    constructor
    · refine Below.disjoint (r := (iter, k)) (t := (iter + k * pageSize, n)) ?_
      exact Nat.le_refl _
    · refine (Below.disjoint (r := (iter + k * pageSize, n))
        (t := (iter + (k + n) * pageSize, j)) ?_).symm
      show iter + k * pageSize + n * pageSize ≤ iter + (k + n) * pageSize
      omega

end Carve

/-! ### The call -/

/-- What the header promises of `kpageframe_allocat(start,n)`: it succeeds exactly when
all the pages are free; then the free set loses just those and the list is well formed,
and otherwise nothing changes. -/
def AllocatRight (s : State) (start n : Nat) : Prop :=
  ∃ p t, kpageframeAllocat s start n = some (p, t) ∧
    (p ≠ pageNil ↔ pagesOf start n ⊆ freePages s) ∧
    (p ≠ pageNil → p = start ∧ (∃ ts, RegionList t ts) ∧
      freePages t = freePages s \ pagesOf start n) ∧
    (p = pageNil → t = s)

/-- The requests that `kpageframe_allocat` serves as promised. -/
structure AllocatOk (s : State) (start n : Nat) : Prop where
  /-- Free pages must lie in the last region of the list, and be taken from its front,
  or from its middle at a distance that fits a signed number. -/
  taken : pagesOf start n ⊆ freePages s → ∃ pre r, regions s = pre ++ [r] ∧ r.1 ≤ start ∧
    start + n * pageSize ≤ r.1 + r.2 * pageSize ∧
    (start = r.1 ∨
      (start + n * pageSize < r.1 + r.2 * pageSize ∧ start - r.1 < addrSpace / 2))
  /-- Pages that are not all free must not be mistaken for free ones, which happens
  when the end of the request wraps around. -/
  refused : ¬ pagesOf start n ⊆ freePages s → ∀ r ∈ regions s, r.1 ≤ start →
    r.1 + r.2 * pageSize < frameAdd start n

/-- No free page reaches the end of the address space. -/
theorem RegionList.page_lt (h : RegionList s rs) {a : Nat} (ha : a ∈ freePages s) :
    a + pageSize < addrSpace := by
  rw [h.freePages_eq] at ha
  obtain ⟨r, hr, i, hi, rfl⟩ := ha
  have hwrap := (h.region r hr).no_wrap
  have hle := Nat.mul_le_mul_right pageSize (show i + 1 ≤ r.2 from hi)
  rw [Nat.add_mul] at hle
  omega

/-- A request that covers a region without lying inside wraps around, so it is not
free. -/
theorem Covers.not_free {r : Nat × Nat} (hcov : Covers start n r) (h : RegionList s rs) (h1 : 1 ≤ n)
    (hout : ¬ start + n * pageSize ≤ r.1 + r.2 * pageSize) : ¬ pagesOf start n ⊆ freePages s := by
  intro hsub
  have hlast := h.page_lt (hsub ⟨n - 1, by omega, rfl⟩)
  have hstep : n * pageSize = (n - 1) * pageSize + pageSize := by
    rw [← Nat.succ_mul, Nat.succ_eq_add_one, Nat.sub_add_cancel h1]
  have hfa := frameAdd_eq (p := start) (n := n) (by omega)
  exact hout (hfa ▸ hcov.2)

variable {iter : Nat}

/-- The place of a request inside a region: so many pages in front, so many behind. -/
theorem IsRegion.split_at {m : Nat} (h : IsRegion iter m) (ha : start % pageSize = 0)
    (hlo : iter ≤ start) (hhi : start + n * pageSize ≤ iter + m * pageSize) :
    ∃ k j, start = iter + k * pageSize ∧ m = k + n + j := by
  have hal := h.aligned
  unfold pageSize at *
  exact ⟨(start - iter) / 4096, m - ((start - iter) / 4096 + n), by omega, by omega⟩

variable {pre : List (Nat × Nat)} {k j : Nat}

/-- **The carved call.** When the pages lie in a listed region, the call is right
exactly when nothing follows the region and the cut is clean. -/
theorem allocatRight_of_inside (h : RegionList s (pre ++ (iter, k + n + j) :: post)) (h1 : 1 ≤ n)
    (hcall : kpageframeAllocat s (iter + k * pageSize) n =
      some (iter + k * pageSize, (carve s (iter + k * pageSize) n iter).addAllocated n)) :
    pagesOf (iter + k * pageSize) n ⊆ freePages s ∧
      (AllocatRight s (iter + k * pageSize) n ↔ post = [] ∧ CleanCut k j) := by
  obtain ⟨hall, hrest⟩ := pagesIn_leftOver iter k n j
  have hsub : pagesOf (iter + k * pageSize) n ⊆ freePages s := by
    rw [h.freePages_eq, pagesIn_append, pagesIn_cons, ← hall]
    intro a ha
    exact .inr (.inl (.inl ha))
  have hiter := h.region (iter, k + n + j) (by simp)
  have hnil := hiter.page_ne_nil k
  refine ⟨hsub, ?_, ?_⟩
  · rintro ⟨p, t, hcall', -, hright, -⟩
    rw [hcall] at hcall'
    cases hcall'
    obtain ⟨-, ⟨ts, hts⟩, -⟩ := hright hnil
    exact clean_of_carve_regionList h h1 (hts.congr rfl rfl rfl rfl)
  · rintro ⟨rfl, hcut⟩
    have hlist := (carve_last h h1 hcut).addAllocated n
    refine ⟨_, _, hcall, ⟨fun _ => hsub, fun _ => hnil⟩, fun _ => ⟨rfl, ⟨_, hlist⟩, ?_⟩,
      fun hEq => absurd hEq hnil⟩
    rw [hlist.freePages_eq, h.freePages_eq]
    exact pagesIn_remove h.ascending hall hrest

/-- The condition on a request that lies in a listed region. -/
theorem allocatOk_inside_iff (h : RegionList s (pre ++ (iter, k + n + j) :: post)) (h1 : 1 ≤ n)
    (hsub : pagesOf (iter + k * pageSize) n ⊆ freePages s) :
    AllocatOk s (iter + k * pageSize) n ↔ post = [] ∧ CleanCut k j := by
  have hps : 0 < pageSize := by decide
  have hsum : (k + n + j) * pageSize = k * pageSize + n * pageSize + j * pageSize := by ring
  have hn := Nat.mul_pos (show 0 < n from h1) hps
  constructor
  · intro hok
    obtain ⟨pre', r, hrs, hle, hend, hcut⟩ := hok.taken hsub
    rw [h.regions_eq] at hrs
    have hpost : post = [] := by
      rcases eq_nil_or_concat post with hnil | ⟨post', q, rfl⟩
      · exact hnil
      -- A later region would have to hold the pages as well.
      exfalso
      have hbelow := h.around.2 q (by simp)
      rw [concat_eq_append, ← cons_append, ← append_assoc] at hrs
      have hq : [q] = [r] := append_inj_right' hrs rfl
      rw [singleton_inj] at hq
      subst hq
      omega
    subst hpost
    have hr : [(iter, k + n + j)] = [r] := append_inj_right' hrs rfl
    rw [singleton_inj] at hr
    subst hr
    dsimp only at hcut
    refine ⟨rfl, ?_⟩
    rcases hcut with hcut | ⟨hlt, hnear⟩
    · left
      exact (Nat.mul_eq_zero.mp (show k * pageSize = 0 by omega)).resolve_right (by decide)
    · right
      exact ⟨Nat.pos_of_mul_pos_right (show 0 < j * pageSize by omega), by omega⟩
  · rintro ⟨rfl, hcut⟩
    refine ⟨fun _ => ⟨pre, (iter, k + n + j), h.regions_eq, ?_, ?_, ?_⟩,
      fun hnot => absurd hsub hnot⟩
    · exact Nat.le_add_right ..
    · dsimp only
      omega
    · rcases hcut with rfl | ⟨hj, hnear⟩
      · left
        simp
      right
      have := Nat.mul_pos hj hps
      dsimp only
      omega

theorem pairwise_leftOver (h : (pre ++ (iter, k + n + j) :: post).Pairwise Before) (h1 : 1 ≤ n) :
    (pre ++ (leftOver iter k n j ++ post)).Pairwise Before := by
  have hn := Nat.mul_pos (show 0 < n from h1) (by decide : 0 < pageSize)
  have hmid : (k + n) * pageSize = k * pageSize + n * pageSize := Nat.add_mul ..
  have hsum : (k + n + j) * pageSize = k * pageSize + n * pageSize + j * pageSize := by ring
  -- Every part lies within the bounds of the region.
  have hpart : ∀ t ∈ leftOver iter k n j,
      iter ≤ t.1 ∧ t.1 + t.2 * pageSize ≤ iter + (k + n + j) * pageSize := by
    intro t ht
    simp only [leftOver, mem_append, mem_ite_nil_left, mem_singleton] at ht
    rcases ht with ⟨-, rfl⟩ | ⟨-, rfl⟩ <;> dsimp only <;> omega
  refine pairwise_parts h ?_ hpart
  rw [leftOver]
  split <;> split <;> simp [Before]
  omega

/-- A request that meets the condition keeps the list coalesced as well. -/
theorem AllocatOk.freeList (hok : AllocatOk s start n) (h : FreeList s rs)
    (ha : start % pageSize = 0) (h1 : 1 ≤ n) :
    kpageframeAllocat s start n = some (pageNil, s) ∨
    ∃ iter ts, kpageframeAllocat s start n =
        some (start, (carve s start n iter).addAllocated n) ∧
      FreeList ((carve s start n iter).addAllocated n) ts ∧
      pagesOf start n ⊆ pagesIn rs ∧ pagesIn ts = pagesIn rs \ pagesOf start n := by
  rcases kpageframeAllocat_spec h.regionList start n with
    ⟨hcall, -⟩ | ⟨pre, r, post, rfl, hcov, hcall⟩
  · exact .inl hcall
  right
  have hin : start + n * pageSize ≤ r.1 + r.2 * pageSize := by
    by_contra hout
    have hsub := hcov.not_free h.regionList h1 hout
    have := hok.refused hsub r (by rw [h.regions_eq]; simp) hcov.1
    exact absurd hcov.2 (Nat.not_le_of_lt this)
  obtain ⟨k, j, rfl, hm⟩ := (h.region r (by simp)).split_at ha hcov.1 hin
  obtain ⟨iter, m⟩ := r
  subst hm
  obtain ⟨hsub, -⟩ := allocatRight_of_inside h.regionList h1 hcall
  obtain ⟨rfl, hcut⟩ := (allocatOk_inside_iff h.regionList h1 hsub).mp hok
  have hlist := carve_last h.regionList h1 hcut
  obtain ⟨hall, hrest⟩ := pagesIn_leftOver iter k n j
  rw [h.freePages_eq] at hsub
  exact ⟨iter, _, hcall, (hlist.freeList (pairwise_leftOver h.apart h1)).addAllocated n, hsub,
    pagesIn_remove h.regionList.ascending hall hrest⟩

/-- **Allocation at a fixed address**: for every well-formed list, aligned address and
page count, the call is right exactly under `AllocatOk`. -/
theorem kpageframeAllocat_right_iff {s : State} {rs : List (Nat × Nat)} {start n : Nat}
    (h : RegionList s rs) (ha : start % pageSize = 0) (h1 : 1 ≤ n) :
    AllocatRight s start n ↔ AllocatOk s start n := by
  rcases kpageframeAllocat_spec h start n with ⟨hcall, hnone⟩ | ⟨pre, r, post, rfl, hcov, hcall⟩
  · -- Nothing covers the request: the call fails and changes nothing.
    have hright : AllocatRight s start n ↔ ¬ pagesOf start n ⊆ freePages s := by
      constructor
      · rintro ⟨p, t, hcall', hiff, -, -⟩ hsub
        rw [hcall] at hcall'
        cases hcall'
        exact hiff.mpr hsub rfl
      · intro hsub
        exact ⟨_, _, hcall, ⟨fun hne => absurd rfl hne, fun hs => absurd hs hsub⟩,
          fun hne => absurd rfl hne, fun _ => rfl⟩
    rw [hright]
    constructor
    · intro hsub
      refine ⟨fun hs => absurd hs hsub, fun _ r hr hle => ?_⟩
      rw [h.regions_eq] at hr
      exact Nat.lt_of_not_le fun hge => hnone r hr ⟨hle, hge⟩
    · intro hok hsub
      obtain ⟨pre, r, hrs, hle, hend, -⟩ := hok.taken hsub
      rw [h.regions_eq] at hrs
      have hmem : r ∈ rs := by simp [hrs]
      refine hnone r hmem ⟨hle, ?_⟩
      rw [frameAdd_eq (Nat.lt_of_le_of_lt hend (h.region r hmem).no_wrap)]
      exact hend
  · by_cases hin : start + n * pageSize ≤ r.1 + r.2 * pageSize
    · -- The pages are free and get carved out of `r`.
      obtain ⟨k, j, rfl, hm⟩ := (h.region r (by simp)).split_at ha hcov.1 hin
      obtain ⟨iter, m⟩ := r
      subst hm
      obtain ⟨hsub, hiff⟩ := allocatRight_of_inside h h1 hcall
      rw [hiff, allocatOk_inside_iff h h1 hsub]
    -- The request wraps around: it is not free, but the call hands it out.
    have hsub := hcov.not_free h h1 hin
    have hnil := ne_pageNil_of_aligned ha
    constructor
    · rintro ⟨p, t, hcall', hiff, -, -⟩
      rw [hcall] at hcall'
      cases hcall'
      exact absurd (hiff.mp hnil) hsub
    · intro hok
      have := hok.refused hsub r (by rw [h.regions_eq]; simp) hcov.1
      exact absurd hcov.2 (Nat.not_le_of_lt this)

/-- Two regions of one page each; the first one is asked for. The second one becomes
the head of the list, but still names the first as its predecessor. -/
theorem kpageframeAllocat_stale :
    ∃ s₁ s t, kpageframeFree State.empty 4096 1 = some s₁ ∧ kpageframeFree s₁ 20480 1 = some s ∧
      kpageframeAllocat s 4096 1 = some (4096, t) ∧ t.firstFreePage = 20480 ∧
      t.pffPrev 20480 = 4096 ∧ ¬ AllocatRight s 4096 1 := by
  have hcall : ∃ s₁ s, kpageframeFree State.empty 4096 1 = some s₁ ∧
      kpageframeFree s₁ 20480 1 = some s ∧ s.firstFreePage = 4096 ∧ s.pffSize 4096 = 1 ∧
      s.pffNext 4096 = 20480 ∧ s.pffPrev 4096 = pageNil ∧ s.pffPrev 20480 = 4096 :=
    ⟨_, _, rfl, rfl, rfl, rfl, rfl, rfl, rfl⟩
  obtain ⟨s₁, s, hfree₁, hfree, hfirst, hsize, hnext, hprev, hprev'⟩ := hcall
  have hnil : (4096 : Nat) ≠ pageNil := by decide
  obtain ⟨t, ht⟩ : ∃ t, t = (s.setFirst 20480).addAllocated 1 := ⟨_, rfl⟩
  have hres : kpageframeAllocat s 4096 1 = some (4096, t) := by
    rw [kpageframeAllocat, allocatLoop, hfirst, if_neg hnil, if_pos le_rfl, hsize,
      if_pos le_rfl, ht]
    simp [carve, hsize, hnext, hprev, linkHead, linkNext]
  refine ⟨s₁, s, t, hfree₁, hfree, hres, by rw [ht]; rfl, by rw [ht]; exact hprev', ?_⟩
  rintro ⟨p, t', hcall, -, hright, -⟩
  rw [hres] at hcall
  cases hcall
  obtain ⟨-, ⟨ts, hts⟩, -⟩ := hright hnil
  have hseg := hts.seg
  rw [show t.firstFreePage = 20480 by rw [ht]; rfl] at hseg
  cases ts with
  | nil => exact absurd (isSeg_nil.mp hseg) (by decide)
  | cons r ts =>
    obtain ⟨hr, -, hback, -⟩ := hseg
    rw [← hr, show t.pffPrev 20480 = 4096 by rw [ht]; exact hprev'] at hback
    exact hnil hback

/-- The middle one of three free pages is taken. -/
theorem kpageframeAllocat_right_middle :
    ∃ s, kpageframeFree State.empty 4096 3 = some s ∧ AllocatRight s 8192 1 ∧
      pagesOf 8192 1 ⊆ freePages s := by
  have hregion : IsRegion 4096 3 := by constructor <;> decide
  obtain ⟨s, hs, hfree⟩ := kpageframeFree_nil freeList_empty hregion
  have h := hfree.regionList
  have hsub : pagesOf 8192 1 ⊆ freePages s := by
    rw [h.freePages_eq]
    rintro a ⟨i, hi, rfl⟩
    obtain rfl : i = 0 := by omega
    exact ⟨(4096, 3), by simp, 1, by decide, rfl⟩
  have hok : AllocatOk s 8192 1 :=
    ⟨fun _ => ⟨[], (4096, 3), h.regions_eq, by decide, by decide, .inr (by decide)⟩,
      fun hnot => absurd hsub hnot⟩
  exact ⟨s, hs, (kpageframeAllocat_right_iff h (by decide) (by decide)).mpr hok, hsub⟩

end KosKernel.PageFrame
