import KosKernel.PageFrame.Untouched

/-!
# KosKernel.PageFrame.Realloc

**Reallocation of page frames**: `kpageframe_realloc`, `kpageframe_realloc_inplace` and
`kpageframe_isfreepage` of `src/kernel/pageframe.c`.

These calls are about the contents of pages, so the state is a whole memory here: the
words of every page that a descriptor occupies while the page is free (`frames`), and
the rest of the page. A copy moves both. The flag `ndebug` tells whether assertions are
compiled out; the one at the top of `kpageframe_realloc_inplace` asks for the old range
to be *free*, and so fails for every range a caller can own.
-/

namespace KosKernel.PageFrame

open Function LinkedList List

/-- Memory by pages; `B` is what a page holds behind the words of a descriptor. -/
structure Memory (B : Type) where
  frames : State
  rest : Nat → B

/-- How a call can stop without returning. -/
inductive Stop
  | assertion
  /-- A walk over the free list did not end within the pages there are. -/
  | endless
  deriving DecidableEq

variable {B : Type}

/-- The contents of a page. -/
def Memory.page (m : Memory B) (p : Nat) : Nat × Nat × Nat × B :=
  (m.frames.pffPrev p, m.frames.pffNext p, m.frames.pffSize p, m.rest p)

/-- Where page `p` comes from when `n` pages are copied from `src` to `dst`. -/
def copySource (dst src n p : Nat) : Nat :=
  let off := (p + addrSpace - dst) % addrSpace
  if p < addrSpace ∧ off % pageSize = 0 ∧ off < n * pageSize then (src + off) % addrSpace else p

/-- `memmove(dst,src,n*PAGESIZE)`, and `kpageframe_memcpy` on ranges that do not overlap. -/
def copyPages (m : Memory B) (dst src n : Nat) : Memory B where
  frames :=
    { m.frames with
      pffPrev := fun p => m.frames.pffPrev (copySource dst src n p)
      pffNext := fun p => m.frames.pffNext (copySource dst src n p)
      pffSize := fun p => m.frames.pffSize (copySource dst src n p) }
  rest := fun p => m.rest (copySource dst src n p)

/-- `p-n` for `struct kpageframe *p`. -/
def frameSub (p n : Nat) : Nat := (p + addrSpace - n * pageSize % addrSpace) % addrSpace

/-- The loop of `kpageframe_isfreepage`. -/
def isfreepageLoop (s : State) (first last : Nat) : Nat → Nat → Option Bool
  | 0, _ => none
  | fuel + 1, iter =>
    if iter = pageNil then some false
    else if iter < last ∧ first < frameAdd iter (s.pffSize iter) then some true
    else isfreepageLoop s first last fuel (s.pffNext iter)

/-- `kpageframe_isfreepage`: is any of `size` bytes from `p` on part of a free region? -/
def kpageframeIsfreepage (s : State) (p size : Nat) : Option Bool :=
  isfreepageLoop s p ((p + size) % addrSpace) (maxFrames + 1) s.firstFreePage

/-- `kpageframe_realloc_inplace` behind its assertion. -/
def reallocInplaceBody (m : Memory B) (oldStart oldPages newPages : Nat) :
    Except Stop (Nat × Memory B) :=
  if newPages ≤ oldPages then
    if newPages ≠ oldPages then
      -- Free upper parts of old_start.
      match kpageframeFree m.frames (frameAdd oldStart newPages) (oldPages - newPages) with
      | none => .error .endless
      | some s => .ok (oldStart, { m with frames := s })
    else .ok (oldStart, m)
  else
    -- Must allocate more memory above.
    match kpageframeAllocat m.frames (frameAdd oldStart oldPages) (newPages - oldPages) with
    | none => .error .endless
    | some (p, s) =>
      if p = pageNil then .ok (pageNil, { m with frames := s })
      else .ok (oldStart, { m with frames := s })

def kpageframeReallocInplace (ndebug : Bool) (m : Memory B) (oldStart oldPages newPages : Nat) :
    Except Stop (Nat × Memory B) :=
  if ndebug then reallocInplaceBody m oldStart oldPages newPages
  else
    -- assert(kpageframe_isfreepage(old_start,old_pages));
    match kpageframeIsfreepage m.frames oldStart oldPages with
    | none => .error .endless
    | some false => .error .assertion
    | some true => reallocInplaceBody m oldStart oldPages newPages

/-- The last resort of `kpageframe_realloc`: a new region, a copy, and the old range is
freed. -/
def reallocFresh (m : Memory B) (oldStart oldPages newPages : Nat) :
    Except Stop (Nat × Memory B) :=
  match kpageframeAllocMany m.frames newPages with
  | none => .error .endless
  | some (result, s) =>
    if result = pageNil then .ok (pageNil, { m with frames := s })
    else
      let m := copyPages { m with frames := s } result oldStart oldPages
      match kpageframeFree m.frames oldStart oldPages with
      | none => .error .endless
      | some s => .ok (result, { m with frames := s })

/-- `kpageframe_realloc` once growing upwards has failed: check to expand memory
downwards. -/
def reallocDown (m : Memory B) (oldStart oldPages newPages : Nat) :
    Except Stop (Nat × Memory B) :=
  let morePages := newPages - oldPages
  match kpageframeAllocat m.frames (frameSub oldStart morePages) morePages with
  | none => .error .endless
  | some (result, s) =>
    if result = pageNil then reallocFresh { m with frames := s } oldStart oldPages newPages
    else .ok (result, copyPages { m with frames := s } result oldStart oldPages)

def kpageframeRealloc (ndebug : Bool) (m : Memory B) (oldStart oldPages newPages : Nat) :
    Except Stop (Nat × Memory B) :=
  match kpageframeReallocInplace ndebug m oldStart oldPages newPages with
  | .error e => .error e
  | .ok (p, m) =>
    if p = pageNil then reallocDown m oldStart oldPages newPages else .ok (oldStart, m)

/-! ### What the calls are for -/

/-- The range at `oldStart` has become the range of `newPages` pages at `p`: those pages
were its own or free, no others changed hands, and the contents moved along. -/
structure Moved (m m' : Memory B) (oldStart oldPages p newPages : Nat) : Prop where
  owned : pagesOf p newPages ⊆ freePages m.frames ∪ pagesOf oldStart oldPages
  free : freePages m'.frames =
    (freePages m.frames ∪ pagesOf oldStart oldPages) \ pagesOf p newPages
  contents : ∀ i < min oldPages newPages,
    m'.page (p + i * pageSize) = m.page (oldStart + i * pageSize)

/-- Nothing has changed hands, and the range keeps its contents. -/
structure Kept (m m' : Memory B) (oldStart oldPages : Nat) : Prop where
  free : freePages m'.frames = freePages m.frames
  contents : ∀ i < oldPages, m'.page (oldStart + i * pageSize) = m.page (oldStart + i * pageSize)

/-- A reallocation returned, and did what its result says. -/
def ReallocRight (m : Memory B) (oldStart oldPages newPages : Nat)
    (out : Except Stop (Nat × Memory B)) : Prop :=
  ∃ p m', out = .ok (p, m') ∧ (p ≠ pageNil → Moved m m' oldStart oldPages p newPages) ∧
    (p = pageNil → Kept m m' oldStart oldPages)

/-! ### Copies and queries -/

variable {m : Memory B} {s : State}

theorem Untouched.page {x : Nat} (h : Untouched x m.frames s) :
    Memory.page { m with frames := s } x = m.page x := by
  simp only [Memory.page, h.prev, h.next, h.size]

@[simp] theorem page_copyPages (m : Memory B) (dst src n p : Nat) :
    (copyPages m dst src n).page p = m.page (copySource dst src n p) := rfl

variable {p : Nat}

theorem size_of_page_eq {m' : Memory B} {q : Nat} (h : m'.page p = m.page q) :
    m'.frames.pffSize p = m.frames.pffSize q := congrArg (fun c => c.2.2.1) h

variable {dst src n : Nat}

/-- Inside the destination the contents are those of the source. -/
theorem copySource_of_mem {i : Nat} (hd : dst + n * pageSize ≤ addrSpace)
    (hs : src + n * pageSize ≤ addrSpace) (hi : i < n) :
    copySource dst src n (dst + i * pageSize) = src + i * pageSize := by
  have hlt := Nat.mul_lt_mul_of_pos_right hi (by decide : 0 < pageSize)
  have hoff : (dst + i * pageSize + addrSpace - dst) % addrSpace = i * pageSize := by
    rw [show dst + i * pageSize + addrSpace - dst = i * pageSize + addrSpace by omega,
      Nat.add_mod_right, Nat.mod_eq_of_lt (by omega)]
  have hin : dst + i * pageSize < addrSpace ∧ i * pageSize % pageSize = 0 ∧
      i * pageSize < n * pageSize := ⟨by omega, Nat.mul_mod_left .., hlt⟩
  rw [copySource]
  simp only [hoff]
  rw [if_pos hin, Nat.mod_eq_of_lt (by omega)]

theorem copySource_of_not_mem (hd : dst + n * pageSize ≤ addrSpace) (hp : p ∉ pagesOf dst n) :
    copySource dst src n p = p := by
  refine if_neg ?_
  rintro ⟨hlt, haligned, hoff⟩
  refine hp ⟨(p + addrSpace - dst) % addrSpace / pageSize, ?_, ?_⟩
  · exact (Nat.div_lt_iff_lt_mul (by decide)).mpr hoff
  · rw [Nat.div_mul_cancel (Nat.dvd_of_mod_eq_zero haligned)]
    by_cases hle : dst ≤ p
    · rw [show p + addrSpace - dst = p - dst + addrSpace by omega, Nat.add_mod_right,
        Nat.mod_eq_of_lt (by omega)]
      omega
    -- Below the destination the distance wraps, and is too large.
    rw [Nat.mod_eq_of_lt (by omega)] at hoff
    omega

theorem freePages_congr {t : State} (hf : t.firstFreePage = s.firstFreePage)
    (hn : t.pffNext = s.pffNext) (hz : t.pffSize = s.pffSize) : freePages t = freePages s := by
  have hfrom : ∀ fuel p, regionsFrom t fuel p = regionsFrom s fuel p := by
    intro fuel
    induction fuel with
    | zero => intro p; rfl
    | succ fuel ih =>
      intro p
      rw [regionsFrom, regionsFrom, hn, hz, ih]
  rw [freePages, freePages, regions, regions, hf, hfrom]

theorem RegionList.copyPages {rs : List (Nat × Nat)} (h : RegionList m.frames rs)
    (hd : dst + n * pageSize ≤ addrSpace) (hout : Disjoint (pagesIn rs) (pagesOf dst n)) :
    RegionList (copyPages m dst src n).frames rs := by
  have hsame : ∀ x ∈ rs.map Prod.fst, copySource dst src n x = x := by
    intro x hx
    obtain ⟨r, hr, rfl⟩ := mem_map.mp hx
    refine copySource_of_not_mem hd ?_
    exact Set.disjoint_left.mp hout ⟨r, hr, 0, (h.region r hr).nonempty, by simp⟩
  refine ⟨h.seg.congr (fun x hx => ?_) (fun x hx => ?_), fun r hr => ?_, h.region, h.ascending⟩
  · exact congrArg m.frames.pffNext (hsame x hx)
  · exact congrArg m.frames.pffPrev (hsame x hx)
  · rw [← h.size r hr]
    exact congrArg m.frames.pffSize (hsame r.1 (mem_map_of_mem hr))

/-! ### An allocated range -/

/-- The free list of `m` is `rs`, and none of the pages at `oldStart` is free. -/
structure Owned (m : Memory B) (rs : List (Nat × Nat)) (oldStart oldPages : Nat) : Prop where
  list : FreeList m.frames rs
  region : IsRegion oldStart oldPages
  used : Disjoint (pagesIn rs) (pagesOf oldStart oldPages)

/-- Taking `up` from the free pages, seen from the owner of the pages `used`. -/
theorem sdiff_of_used {free used up : Set Nat} (h : Disjoint free used) :
    free \ up = (free ∪ used) \ (used ∪ up) := by
  rw [Set.disjoint_left] at h
  ext a
  simp only [Set.mem_union, Set.mem_sdiff]
  tauto

/-- Exchanging the pages `used` for free ones. -/
theorem sdiff_union_of_used {free used new : Set Nat} (h : Disjoint free used)
    (hnew : new ⊆ free) : free \ new ∪ used = (free ∪ used) \ new := by
  rw [Set.disjoint_left] at h
  ext a
  simp only [Set.mem_union, Set.mem_sdiff]
  tauto

section Range

variable {m : Memory B} {rs : List (Nat × Nat)} {oldStart oldPages newPages more : Nat}

section

variable (h : Owned m rs oldStart oldPages)

include h

theorem Owned.not_free {i : Nat} (hi : i < oldPages) : oldStart + i * pageSize ∉ pagesIn rs :=
  fun hmem => Set.disjoint_left.mp h.used hmem ⟨i, hi, rfl⟩

theorem Owned.apart : ∀ r ∈ rs,
    oldStart + oldPages * pageSize ≤ r.1 ∨ r.1 + r.2 * pageSize ≤ oldStart := by
  intro r hr
  have hsub : pagesOf r.1 r.2 ⊆ pagesIn rs := fun a ha => ⟨r, hr, ha⟩
  exact h.region.ordered (h.list.region r hr) (Set.disjoint_of_subset_left hsub h.used).symm

/-- **The assertion fails**: an allocated range is not free. -/
theorem Owned.isfreepage : kpageframeIsfreepage m.frames oldStart oldPages = some false := by
  have hwrap := h.region.no_wrap
  have hbytes : oldPages ≤ oldPages * pageSize := Nat.le_mul_of_pos_right _ (by decide)
  rw [kpageframeIsfreepage, Nat.mod_eq_of_lt (by omega)]
  refine h.list.regionList.walk (P := fun _ p fuel => isfreepageLoop _ _ _ fuel p = some false)
    (fun _ => if_pos rfl) ?_
  rintro pre r post fuel rfl hnil ih
  have hr : r ∈ pre ++ r :: post := by simp
  have hapart := h.apart r hr
  rw [isfreepageLoop, if_neg hnil, h.list.size r hr, frameAdd_eq (h.list.region r hr).no_wrap,
    if_neg (by omega), ih]

theorem Owned.shrink (hle : newPages ≤ oldPages) :
    ∃ m', reallocInplaceBody m oldStart oldPages newPages = .ok (oldStart, m') ∧
      Moved m m' oldStart oldPages oldStart newPages := by
  have hsplit : pagesOf oldStart oldPages =
      pagesOf oldStart newPages ∪
        pagesOf (oldStart + newPages * pageSize) (oldPages - newPages) := by
    rw [← pagesOf_add, Nat.add_sub_of_le hle]
  have howned : pagesOf oldStart newPages ⊆ freePages m.frames ∪ pagesOf oldStart oldPages := by
    rw [hsplit]
    intro a ha
    exact .inr (.inl ha)
  have hused := h.used
  rw [Set.disjoint_left] at hused
  rw [reallocInplaceBody, if_pos hle]
  by_cases hEq : newPages = oldPages
  · rw [if_neg (not_not_intro hEq)]
    refine ⟨m, rfl, howned, ?_, fun _ _ => rfl⟩
    rw [h.list.freePages_eq, hEq]
    ext a
    simp only [Set.mem_union, Set.mem_sdiff]
    tauto
  obtain ⟨hrest, -⟩ := rest_isRegion h.region (show newPages < oldPages by omega)
  have hlow : Disjoint (pagesOf oldStart newPages)
      (pagesOf (oldStart + newPages * pageSize) (oldPages - newPages)) :=
    Below.disjoint (r := (oldStart, newPages))
      (t := (oldStart + newPages * pageSize, oldPages - newPages)) le_rfl
  rw [Set.disjoint_left] at hlow
  have hfa : frameAdd oldStart newPages = oldStart + newPages * pageSize := by
    refine frameAdd_eq ?_
    have := hrest.no_wrap
    omega
  obtain ⟨s, ts, hcall, hts, hpages⟩ := kpageframeFree_spec h.list hrest
    (Set.disjoint_of_subset_right (by rw [hsplit]; exact Set.subset_union_right) h.used)
  rw [if_pos hEq, hfa, hcall]
  refine ⟨_, rfl, howned, ?_, fun i hi => ?_⟩
  · rw [hts.freePages_eq, hpages, h.list.freePages_eq, hsplit]
    ext a
    have h1 := @hused a
    rw [hsplit] at h1
    simp only [Set.mem_union, Set.mem_sdiff] at h1 ⊢
    tauto
  · have hin : i < newPages := (Nat.lt_min.mp hi).2
    refine (kpageframeFree_untouched h.list.regionList hcall (h.not_free (by omega))
      (h.region.page_ne_nil i) ?_).page
    have := Nat.mul_lt_mul_of_pos_right hin (by decide : 0 < pageSize)
    omega

end

variable {s : State} {pre post : List (Nat × Nat)}

/-- Pages taken off the front of a region, by `kpageframe_allocat`: what that does to the
free set, and that it writes to free pages only. -/
theorem carve_front_effect {iter n j : Nat} (h : RegionList s (pre ++ (iter, n + j) :: post))
    (h1 : 1 ≤ n) :
    freePages ((carve s iter n iter).addAllocated n) =
        pagesIn (pre ++ (iter, n + j) :: post) \ pagesOf iter n ∧
      ∀ x, x ∉ pagesIn (pre ++ (iter, n + j) :: post) → x ≠ pageNil →
        Untouched x s ((carve s iter n iter).addAllocated n) := by
  have hfront := carve_front h h1
  have hlist := takeFront_regionList h (show n ≤ n + j by omega)
  constructor
  · rw [← pagesIn_cut h.ascending (show n ≤ n + j by omega), ← hlist.freePages_eq, ← hfront]
    exact freePages_congr rfl rfl rfl
  · intro x hx hnil
    obtain ⟨hnext, -⟩ := h.link_ne (not_mem_starts h hx) hnil
      (show iter ∈ (pre ++ (iter, n + j) :: post).map Prod.fst by simp)
    obtain ⟨hp, hn, hz⟩ := takeFront_untouched h (show n ≤ n + j by omega) hx hnil
    rw [← hfront] at hp hn hz
    refine ⟨?_, hn, hz⟩
    rw [← hp]
    exact (linkPrev_of_ne hnext).symm

section

variable (h : Owned m rs oldStart oldPages) (hmore : 0 < more)

include h hmore

theorem grow_none
    (hcall : kpageframeAllocat m.frames (oldStart + oldPages * pageSize) more =
      some (pageNil, m.frames)) :
    reallocInplaceBody m oldStart oldPages (oldPages + more) = .ok (pageNil, m) := by
  rw [reallocInplaceBody, if_neg (by omega), frameAdd_eq h.region.no_wrap, Nat.add_sub_cancel_left,
    hcall]
  rfl

/-- Growing upwards takes pages, or believes so. -/
theorem grow_some
    (hcall : kpageframeAllocat m.frames (oldStart + oldPages * pageSize) more =
      some (oldStart + oldPages * pageSize, s)) :
    reallocInplaceBody m oldStart oldPages (oldPages + more) =
      .ok (oldStart, { m with frames := s }) := by
  rw [reallocInplaceBody, if_neg (by omega), frameAdd_eq h.region.no_wrap, Nat.add_sub_cancel_left,
    hcall]
  exact if_neg (h.region.page_ne_nil oldPages)

/-- The pages above the range are free: they start a region and are taken off it. -/
theorem Owned.grow {r : Nat × Nat} (hrs : rs = pre ++ r :: post)
    (hcov : Covers (oldStart + oldPages * pageSize) more r)
    (hin : oldStart + oldPages * pageSize + more * pageSize ≤ r.1 + r.2 * pageSize) :
    Moved m { m with
        frames := (carve m.frames (oldStart + oldPages * pageSize) more r.1).addAllocated more }
      oldStart oldPages oldStart (oldPages + more) := by
  have hpos := Nat.mul_pos hmore (by decide : 0 < pageSize)
  -- The region cannot start below, where the range is.
  have hstart : r.1 = oldStart + oldPages * pageSize := by
    have hle := hcov.1
    rcases h.apart r (by simp [hrs]) with hge | hlow <;> omega
  obtain ⟨iter, k⟩ := r
  dsimp only at hstart hin
  subst hstart
  obtain ⟨j, rfl⟩ : ∃ j, k = more + j := by
    refine ⟨k - more, ?_⟩
    have : more * pageSize ≤ k * pageSize := by omega
    have := Nat.le_of_mul_le_mul_right this (by decide)
    omega
  have hlist := h.list.regionList
  rw [hrs] at hlist
  obtain ⟨hfree, huntouched⟩ := carve_front_effect hlist hmore
  have hsub : pagesOf (oldStart + oldPages * pageSize) more ⊆ pagesIn rs := by
    rw [hrs]
    exact pagesOf_subset_cut pre post (by omega)
  rw [← hrs] at hfree huntouched
  refine ⟨?_, ?_, fun i hi => (huntouched _ (h.not_free ?_) (h.region.page_ne_nil i)).page⟩
  · rw [pagesOf_add, h.list.freePages_eq]
    rintro a (ha | ha)
    · exact .inr ha
    · exact .inl (hsub ha)
  · rw [pagesOf_add, h.list.freePages_eq]
    exact hfree.trans (sdiff_of_used h.used)
  · exact (Nat.lt_min.mp hi).1

/-- A request above the range that wraps around was not free, so its pages are not the
caller's to have. -/
theorem Owned.not_moved_up {r : Nat × Nat} (hcov : Covers (oldStart + oldPages * pageSize) more r)
    (hout : ¬ oldStart + oldPages * pageSize + more * pageSize ≤ r.1 + r.2 * pageSize)
    (m' : Memory B) : ¬ Moved m m' oldStart oldPages oldStart (oldPages + more) := by
  intro hmoved
  refine hcov.not_free h.list.regionList hmore hout fun a ha => ?_
  refine (hmoved.owned ?_).resolve_right ?_
  · rw [pagesOf_add]
    exact .inr ha
  · rintro ⟨i, hi, rfl⟩
    obtain ⟨j, -, hEq⟩ := ha
    have := Nat.mul_lt_mul_of_pos_right hi (by decide : 0 < pageSize)
    omega

omit hmore in
/-- The last resort is always right: it fails and changes nothing, or moves the range into
a region of its own. -/
theorem Owned.fresh :
    ReallocRight m oldStart oldPages (oldPages + more)
      (reallocFresh m oldStart oldPages (oldPages + more)) := by
  rw [reallocFresh]
  rcases kpageframeAllocMany_spec (n := oldPages + more) h.list with
    ⟨hcall, -⟩ | ⟨pre, r, post, rfl, -, hfit, hcall⟩
  · rw [hcall]
    exact ⟨pageNil, m, rfl, fun hne => absurd rfl hne, fun _ => ⟨rfl, fun _ _ => rfl⟩⟩
  obtain ⟨q, k⟩ := r
  have ht := (takeFront_spec h.list hfit).addAllocated (oldPages + more)
  dsimp only at hcall hfit
  generalize htaken : (takeFront m.frames (oldPages + more) q).addAllocated _ = t at hcall ht
  have hq := h.list.region (q, k) (by simp)
  have hqnil : q ≠ pageNil := hq.ne_pageNil
  have hwrap := hq.no_wrap
  have hle := Nat.mul_le_mul_right pageSize hfit
  have hsum : (oldPages + more) * pageSize = oldPages * pageSize + more * pageSize :=
    Nat.add_mul ..
  dsimp only at hwrap
  have hroom : q + oldPages * pageSize ≤ addrSpace := by omega
  have hnew : pagesOf q (oldPages + more) ⊆ pagesIn (pre ++ (q, k) :: post) :=
    pagesOf_subset_cut pre post hfit
  have hpart : pagesOf q oldPages ⊆ pagesOf q (oldPages + more) := by
    rw [pagesOf_add]
    exact Set.subset_union_left
  have hcut := pagesIn_cut h.list.regionList.ascending hfit
  -- The copy goes into pages that are no longer free.
  have hcopied : FreeList (copyPages { m with frames := t } q oldStart oldPages).frames
      (pre ++ (cutFront (q, k) (oldPages + more) ++ post)) := by
    refine (RegionList.copyPages (m := { m with frames := t }) ht.regionList hroom ?_).freeList
      ht.apart
    rw [hcut]
    exact Set.disjoint_of_subset_right hpart Set.disjoint_sdiff_left
  have hused : Disjoint (pagesIn (pre ++ (cutFront (q, k) (oldPages + more) ++ post)))
      (pagesOf oldStart oldPages) := by
    rw [hcut]
    exact Set.disjoint_of_subset_left Set.sdiff_subset h.used
  obtain ⟨u, us, hfree, hus, hpages⟩ := kpageframeFree_spec hcopied h.region hused
  rw [hcall]
  dsimp only
  rw [if_neg hqnil, hfree]
  refine ⟨q, _, rfl, fun _ => ⟨fun a ha => ?_, ?_, fun i hi => ?_⟩, fun hnil => absurd hnil hqnil⟩
  · rw [h.list.freePages_eq]
    exact .inl (hnew ha)
  · have hset := sdiff_union_of_used h.used hnew
    rw [h.list.freePages_eq, ← hset, ← hcut, ← hpages]
    exact hus.freePages_eq
  · have hi' : i < oldPages := (Nat.lt_min.mp hi).1
    have hmem : q + i * pageSize ∈ pagesOf q oldPages := ⟨i, hi', rfl⟩
    have hnotfree :
        q + i * pageSize ∉ pagesIn (pre ++ (cutFront (q, k) (oldPages + more) ++ post)) := by
      rw [hcut]
      exact fun hin => hin.2 (hpart hmem)
    have hne : q + i * pageSize ≠ oldStart := by
      intro hEq
      refine h.not_free (i := 0) (by omega) ?_
      rw [Nat.zero_mul, Nat.add_zero, ← hEq]
      exact hnew (hpart hmem)
    have huntouched : Untouched (oldStart + i * pageSize) m.frames t := by
      rw [← htaken]
      obtain ⟨hp, hn, hz⟩ := takeFront_untouched h.list.regionList hfit (h.not_free hi')
        (h.region.page_ne_nil i)
      exact ⟨hp, hn, hz⟩
    calc Memory.page _ (q + i * pageSize)
        = (copyPages { m with frames := t } q oldStart oldPages).page (q + i * pageSize) :=
          (kpageframeFree_untouched hcopied.regionList hfree hnotfree (hq.page_ne_nil i) hne).page
      _ = Memory.page { m with frames := t } (oldStart + i * pageSize) := by
          rw [page_copyPages,
            copySource_of_mem hroom (Nat.le_of_lt h.region.no_wrap) hi']
      _ = m.page (oldStart + i * pageSize) := huntouched.page

end

/-- Where growing downwards looks: the pages that end at the range, modulo the size of the
address space. -/
theorem frameSub_spec (h : IsRegion oldStart oldPages) (more : Nat) :
    frameSub oldStart more % pageSize = 0 ∧ frameAdd (frameSub oldStart more) more = oldStart ∧
      (more * pageSize ≤ oldStart → frameSub oldStart more = oldStart - more * pageSize) := by
  have hal := h.aligned
  have hwrap := h.no_wrap
  unfold frameSub frameAdd addrSpace pageSize at *
  refine ⟨by omega, by omega, fun hle => by omega⟩

/-- Growing downwards takes pages, or believes so, and moves the contents. -/
theorem down_some (h : Owned m rs oldStart oldPages)
    (hcall : kpageframeAllocat m.frames (frameSub oldStart more) more =
      some (frameSub oldStart more, s)) :
    reallocDown m oldStart oldPages (oldPages + more) =
      .ok (frameSub oldStart more,
        copyPages { m with frames := s } (frameSub oldStart more) oldStart oldPages) := by
  have hnil := ne_pageNil_of_aligned (frameSub_spec h.region more).1
  rw [reallocDown, Nat.add_sub_cancel_left]
  simp only [hcall]
  exact if_neg hnil

/-- The pages below the range are exactly one free region. -/
theorem Owned.down (h : Owned m rs oldStart oldPages) (hmore : 0 < more) {iter : Nat}
    (hrs : rs = pre ++ (iter, more) :: post) (hend : iter + more * pageSize = oldStart) :
    Moved m (copyPages { m with frames := (carve m.frames iter more iter).addAllocated more }
        iter oldStart oldPages) oldStart oldPages iter (oldPages + more) := by
  subst hrs
  have hlist := h.list.regionList
  have hwrap := h.region.no_wrap
  have hroom : iter + oldPages * pageSize ≤ addrSpace := by omega
  have hpages : pagesOf iter (oldPages + more) =
      pagesOf oldStart oldPages ∪ pagesOf iter more := by
    rw [Nat.add_comm, pagesOf_add, hend, Set.union_comm]
  obtain ⟨hfree, huntouched⟩ := carve_front_effect (j := 0) hlist hmore
  have hsub : pagesOf iter more ⊆ pagesIn (pre ++ (iter, more) :: post) :=
    pagesOf_subset_cut pre post le_rfl
  have hcut := pagesIn_cut hlist.ascending (Nat.le_refl more)
  have hfront := carve_front (j := 0) hlist hmore
  -- The list without the region, which the copy leaves alone.
  have hcopied : RegionList
      (copyPages { m with frames := takeFront m.frames more iter } iter oldStart oldPages).frames
      (pre ++ (cutFront (iter, more) more ++ post)) := by
    refine RegionList.copyPages (takeFront_regionList hlist (Nat.le_refl more)) hroom ?_
    have hpart : pagesOf iter oldPages ⊆ pagesOf oldStart oldPages ∪ pagesOf iter more := by
      rw [← hpages, pagesOf_add]
      exact Set.subset_union_left
    refine Set.disjoint_of_subset_right hpart (Set.disjoint_union_right.mpr ⟨?_, ?_⟩)
    · rw [hcut]
      exact Set.disjoint_of_subset_left Set.sdiff_subset h.used
    · rw [hcut]
      exact Set.disjoint_sdiff_left
  refine ⟨?_, ?_, fun i hi => ?_⟩
  · rw [hpages, h.list.freePages_eq]
    exact Set.union_subset Set.subset_union_right (hsub.trans Set.subset_union_left)
  · rw [hpages, h.list.freePages_eq, ← sdiff_of_used h.used, ← hcut, ← hcopied.freePages_eq,
      ← hfront]
    exact freePages_congr rfl rfl rfl
  · have hi' : i < oldPages := (Nat.lt_min.mp hi).1
    rw [page_copyPages, copySource_of_mem hroom (Nat.le_of_lt hwrap) hi']
    exact (huntouched _ (h.not_free hi') (h.region.page_ne_nil i)).page

/-- Pages that wrap around below the range are not the caller's to have. -/
theorem Owned.not_moved_wrapped (h : Owned m rs oldStart oldPages)
    (hwrap : frameSub oldStart more + more * pageSize ≠ oldStart) (m' : Memory B) :
    ¬ Moved m m' oldStart oldPages (frameSub oldStart more) (oldPages + more) := by
  intro hmoved
  have hadd := (frameSub_spec h.region more).2.1
  have hone := h.region.nonempty
  have hbig : addrSpace ≤ frameSub oldStart more + more * pageSize := by
    by_contra hlt
    exact hwrap (by rw [← frameAdd_eq (Nat.lt_of_not_le hlt), hadd])
  have hmem : frameSub oldStart more + more * pageSize ∈
      pagesOf (frameSub oldStart more) (oldPages + more) := ⟨more, by omega, rfl⟩
  rcases hmoved.owned hmem with hfree | ⟨i, hi, hEq⟩
  · have := h.list.regionList.page_lt hfree
    omega
  have hlt := Nat.mul_lt_mul_of_pos_right hi (by decide : 0 < pageSize)
  have := h.region.no_wrap
  omega

/-- What `kpageframe_allocat` writes into the first page of the range, when it takes the
end of a region below: the descriptor of a region without pages (or, with a negative
distance, of all memory). -/
theorem carve_end_size {pre post : List (Nat × Nat)} {iter k : Nat}
    (h : RegionList s (pre ++ (iter, k + n + 0) :: post)) (hk : 0 < k) :
    (carve s (iter + k * pageSize) n iter).pffSize (iter + (k + n) * pageSize) ≠ 1 := by
  have hpos := Nat.mul_pos (show 0 < k + n by omega) (by decide : 0 < pageSize)
  have hroom := h.room
  have hself : iter + (k + n) * pageSize ≠ iter := by omega
  rw [carve_split h hk]
  show update _ _ _ _ ≠ 1
  rw [update_of_ne hself, update_self, frameDiff_add (by omega)]
  unfold sizeSub maxFrames addrSpace pageSize at *
  split <;> omega

/-! ### The calls -/

/-- When `kpageframe_realloc_inplace` is right without its assertion: the range shrinks,
or every region that `kpageframe_allocat` takes for one with the pages above has them. -/
def InplaceOk (rs : List (Nat × Nat)) (oldStart oldPages newPages : Nat) : Prop :=
  newPages ≤ oldPages ∨
    ∀ r ∈ rs, Covers (oldStart + oldPages * pageSize) (newPages - oldPages) r →
      oldStart + oldPages * pageSize + (newPages - oldPages) * pageSize ≤ r.1 + r.2 * pageSize

/-- When `kpageframe_realloc` is right without that assertion: growing in place is, and if
it finds nothing, what it takes for pages below is a free region of just that many. -/
def ReallocOk (rs : List (Nat × Nat)) (oldStart oldPages newPages : Nat) : Prop :=
  newPages ≤ oldPages ∨
    (InplaceOk rs oldStart oldPages newPages ∧
      ((∃ r ∈ rs, Covers (oldStart + oldPages * pageSize) (newPages - oldPages) r) ∨
        ∀ r ∈ rs, Covers (frameSub oldStart (newPages - oldPages)) (newPages - oldPages) r →
          r.1 + (newPages - oldPages) * pageSize = oldStart ∧ r.2 = newPages - oldPages))

/-- What a call did, if it returned a page. -/
theorem reallocRight_ok {m' : Memory B} (hnil : p ≠ pageNil) :
    ReallocRight m oldStart oldPages newPages (.ok (p, m')) ↔
      Moved m m' oldStart oldPages p newPages := by
  constructor
  · rintro ⟨q, m'', hEq, hmoved, -⟩
    cases hEq
    exact hmoved hnil
  · exact fun hmoved => ⟨p, m', rfl, fun _ => hmoved, fun hEq => absurd hEq hnil⟩

section

variable (h : Owned m rs oldStart oldPages)

include h

/-- **In place, without the assertion.** -/
theorem Owned.inplace_iff (newPages : Nat) :
    ReallocRight m oldStart oldPages newPages (reallocInplaceBody m oldStart oldPages newPages) ↔
      InplaceOk rs oldStart oldPages newPages := by
  have hstart : oldStart ≠ pageNil := h.region.ne_pageNil
  by_cases hle : newPages ≤ oldPages
  · obtain ⟨m', hbody, hmoved⟩ := h.shrink hle
    rw [hbody, reallocRight_ok hstart]
    exact ⟨fun _ => .inl hle, fun _ => hmoved⟩
  obtain ⟨more, hmore, rfl⟩ : ∃ k, 0 < k ∧ newPages = oldPages + k :=
    ⟨newPages - oldPages, by omega, by omega⟩
  rw [InplaceOk, or_iff_right hle, Nat.add_sub_cancel_left]
  rcases kpageframeAllocat_spec h.list.regionList (oldStart + oldPages * pageSize) more with
    ⟨hcall, hnone⟩ | ⟨pre, r, post, hrs, hcov, hcall⟩
  · rw [grow_none h hmore hcall]
    exact ⟨fun _ r hr hcov => absurd hcov (hnone r hr),
      fun _ => ⟨pageNil, m, rfl, fun hne => absurd rfl hne, fun _ => ⟨rfl, fun _ _ => rfl⟩⟩⟩
  have hr : r ∈ rs := by simp [hrs]
  rw [grow_some h hmore hcall, reallocRight_ok hstart]
  constructor
  · intro hmoved q hq hcovq
    by_contra hout
    exact h.not_moved_up hmore hcovq hout _ hmoved
  · exact fun hok => h.grow hmore hrs hcov (hok r hr hcov)

/-- **Moving, without the assertion**, when the pages above are not to be had. -/
theorem Owned.down_right (hmore : 0 < more)
    (hok : ∀ r ∈ rs, Covers (frameSub oldStart more) more r →
      r.1 + more * pageSize = oldStart ∧ r.2 = more) :
    ReallocRight m oldStart oldPages (oldPages + more)
      (reallocDown m oldStart oldPages (oldPages + more)) := by
  rcases kpageframeAllocat_spec h.list.regionList (frameSub oldStart more) more with
    ⟨hcall, -⟩ | ⟨pre, r, post, hrs, hcov, hcall⟩
  · rw [reallocDown, Nat.add_sub_cancel_left]
    simp only [hcall]
    exact h.fresh
  obtain ⟨hend, hsize⟩ := hok r (by simp [hrs]) hcov
  obtain ⟨iter, k⟩ := r
  dsimp only at hend hsize hcall
  subst hsize
  have hsub : frameSub oldStart k = iter := by
    rw [(frameSub_spec h.region k).2.2 (by omega)]
    omega
  have hnil : iter ≠ pageNil := (h.list.region (iter, k) (by simp [hrs])).ne_pageNil
  rw [down_some h hcall, hsub, reallocRight_ok hnil]
  exact h.down hmore hrs hend

/-- Taking the end of a region below the range overwrites the first page of the range
before it is moved. -/
theorem Owned.down_wrong (hmore : 0 < more) (hword : m.frames.pffSize oldStart = 1)
    {r : Nat × Nat} (hr : r ∈ rs) (hcov : Covers (frameSub oldStart more) more r)
    (hbad : ¬ (r.1 + more * pageSize = oldStart ∧ r.2 = more)) :
    ¬ ReallocRight m oldStart oldPages (oldPages + more)
      (reallocDown m oldStart oldPages (oldPages + more)) := by
  obtain ⟨haligned, hadd, -⟩ := frameSub_spec h.region more
  have hpos := Nat.mul_pos hmore (by decide : 0 < pageSize)
  have hwrap := h.region.no_wrap
  have hone := h.region.nonempty
  have hnil := ne_pageNil_of_aligned haligned
  rcases kpageframeAllocat_spec h.list.regionList (frameSub oldStart more) more with
    ⟨-, hnone⟩ | ⟨pre, q, post, hrs, hcov', hcall⟩
  · exact absurd hcov (hnone r hr)
  rw [down_some h hcall, reallocRight_ok hnil]
  by_cases hEq : frameSub oldStart more + more * pageSize = oldStart
  swap
  · exact h.not_moved_wrapped hEq _
  -- Both regions end where the range starts, so they are the same.
  have hends : ∀ t ∈ rs, Covers (frameSub oldStart more) more t →
      t.1 + t.2 * pageSize = oldStart := by
    intro t ht hcovt
    have h1 := hcovt.1
    have h2 := hcovt.2
    rcases h.apart t ht with hge | hle <;> omega
  have hendr := hends r hr hcov
  have hendq := hends q (by simp [hrs]) hcov'
  have hqr : r = q := by
    obtain ⟨hbelow, habove⟩ := RegionList.around (hrs ▸ h.list.regionList)
    rw [hrs] at hr
    have hle := hcov.1
    have hle' := hcov'.1
    rcases mem_append.mp hr with hr | hr
    · have := hbelow r hr
      omega
    rcases mem_cons.mp hr with hr | hr
    · exact hr
    · have := habove r hr
      omega
  subst hqr
  obtain ⟨k, j, hk, hm⟩ := (h.list.region r (by simp [hrs])).split_at haligned hcov.1
    (show frameSub oldStart more + more * pageSize ≤ _ by omega)
  obtain ⟨iter, l⟩ := r
  dsimp only at hk hm hendr hbad hcall
  subst hm
  have hsum : (k + more + j) * pageSize = k * pageSize + more * pageSize + j * pageSize := by ring
  have hj : j = 0 := by
    refine (Nat.mul_eq_zero.mp (show j * pageSize = 0 by omega)).resolve_right (by decide)
  subst hj
  have hkpos : 0 < k := by
    refine Nat.pos_of_ne_zero fun hk0 => hbad ?_
    subst hk0
    exact ⟨by omega, by omega⟩
  have hlist := h.list.regionList
  rw [hrs] at hlist
  have hsize := carve_end_size hlist hkpos
  intro hmoved
  have hpage := hmoved.contents 0 (by omega)
  rw [page_copyPages, copySource_of_mem (by omega) (Nat.le_of_lt hwrap) hone] at hpage
  have hword' := size_of_page_eq hpage
  rw [Nat.zero_mul, Nat.add_zero oldStart, hword, hk] at hword'
  rw [show iter + (k + more) * pageSize = oldStart by omega] at hsize
  exact hsize hword'

/-- The words of a page in use are the caller's to choose. -/
theorem Owned.setSize (v : Nat) :
    Owned { m with frames := m.frames.setSize oldStart v } rs oldStart oldPages := by
  have hne : ∀ r ∈ rs, r.1 ≠ oldStart := by
    intro r hr hEq
    refine h.not_free h.region.nonempty ⟨r, hr, 0, (h.list.region r hr).nonempty, ?_⟩
    simp [hEq]
  refine ⟨⟨h.list.seg, fun r hr => ?_, h.list.region, h.list.apart⟩, h.region, h.used⟩
  rw [← h.list.size r hr]
  exact update_of_ne (hne r hr) _ _

/-- **Moving, without the assertion**: exact over all contents of the range. -/
theorem Owned.realloc_iff (newPages : Nat) :
    (∀ m : Memory B, Owned m rs oldStart oldPages → ReallocRight m oldStart oldPages newPages
        (kpageframeRealloc true m oldStart oldPages newPages)) ↔
      ReallocOk rs oldStart oldPages newPages := by
  have hstart : oldStart ≠ pageNil := h.region.ne_pageNil
  by_cases hle : newPages ≤ oldPages
  · refine ⟨fun _ => .inl hle, fun _ m hm => ?_⟩
    obtain ⟨m', hbody, hmoved⟩ := hm.shrink hle
    rw [kpageframeRealloc, kpageframeReallocInplace, if_pos rfl, hbody]
    dsimp only
    rw [if_neg hstart]
    exact (reallocRight_ok hstart).mpr hmoved
  obtain ⟨more, hmore, rfl⟩ : ∃ k, 0 < k ∧ newPages = oldPages + k :=
    ⟨newPages - oldPages, by omega, by omega⟩
  rw [ReallocOk, or_iff_right hle, Nat.add_sub_cancel_left]
  by_cases hup : ∃ r ∈ rs, Covers (oldStart + oldPages * pageSize) more r
  · -- The call ends in place.
    have hsame : ∀ m : Memory B, Owned m rs oldStart oldPages →
        kpageframeRealloc true m oldStart oldPages (oldPages + more) =
          reallocInplaceBody m oldStart oldPages (oldPages + more) := by
      intro m hm
      obtain ⟨q, hq, hcovq⟩ := hup
      rcases kpageframeAllocat_spec hm.list.regionList (oldStart + oldPages * pageSize) more with
        ⟨-, hnone⟩ | ⟨pre, r, post, -, -, hcall⟩
      · exact absurd hcovq (hnone q hq)
      · rw [kpageframeRealloc, kpageframeReallocInplace, if_pos rfl, grow_some hm hmore hcall]
        exact if_neg hstart
    constructor
    · intro hall
      have hright := hall m h
      rw [hsame m h] at hright
      exact ⟨(h.inplace_iff _).mp hright, .inl hup⟩
    · rintro ⟨hok, -⟩ m hm
      rw [hsame m hm]
      exact (hm.inplace_iff _).mpr hok
  · -- Nothing above: the range has to move.
    have hdown : ∀ m : Memory B, Owned m rs oldStart oldPages →
        kpageframeRealloc true m oldStart oldPages (oldPages + more) =
          reallocDown m oldStart oldPages (oldPages + more) := by
      intro m hm
      rcases kpageframeAllocat_spec hm.list.regionList (oldStart + oldPages * pageSize) more with
        ⟨hcall, -⟩ | ⟨pre, r, post, hrs, hcov, -⟩
      · rw [kpageframeRealloc, kpageframeReallocInplace, if_pos rfl, grow_none hm hmore hcall]
        exact if_pos rfl
      · exact absurd ⟨r, by simp [hrs], hcov⟩ hup
    constructor
    · intro hall
      refine ⟨.inr fun r hr hcov => ?_, .inr fun r hr hcov => ?_⟩
      · rw [Nat.add_sub_cancel_left] at hcov
        exact absurd ⟨r, hr, hcov⟩ hup
      · by_contra hbad
        have hright := hall _ (h.setSize 1)
        rw [hdown _ (h.setSize 1)] at hright
        exact (h.setSize 1).down_wrong hmore (update_self ..) hr hcov hbad hright
    · rintro ⟨-, hfound | hok⟩ m hm
      · exact absurd hfound hup
      · rw [hdown m hm]
        exact hm.down_right hmore hok

end

end Range

/-- **Frame reallocation.** For every free list, allocated range and page count, the two
calls do what they promise, whatever the range holds, exactly when assertions are compiled
out and the respective condition holds. -/
theorem kpageframeRealloc_right_iff {m₀ : Memory B} {rs : List (Nat × Nat)}
    {oldStart oldPages : Nat} (h : Owned m₀ rs oldStart oldPages) (ndebug : Bool)
    (newPages : Nat) :
    ((∀ m : Memory B, Owned m rs oldStart oldPages → ReallocRight m oldStart oldPages newPages
        (kpageframeReallocInplace ndebug m oldStart oldPages newPages)) ↔
      ndebug = true ∧ InplaceOk rs oldStart oldPages newPages) ∧
    ((∀ m : Memory B, Owned m rs oldStart oldPages → ReallocRight m oldStart oldPages newPages
        (kpageframeRealloc ndebug m oldStart oldPages newPages)) ↔
      ndebug = true ∧ ReallocOk rs oldStart oldPages newPages) := by
  cases ndebug with
  | false =>
    -- both calls stop at the assertion
    have hinplace : kpageframeReallocInplace false m₀ oldStart oldPages newPages =
        .error .assertion := by
      rw [kpageframeReallocInplace, h.isfreepage]
      rfl
    have hrealloc : kpageframeRealloc false m₀ oldStart oldPages newPages = .error .assertion := by
      rw [kpageframeRealloc, hinplace]
    have hwrong : ¬ReallocRight m₀ oldStart oldPages newPages (.error .assertion) := by
      rintro ⟨p, m', hout, -⟩
      cases hout
    constructor
    · exact ⟨fun hall => absurd (hinplace ▸ hall m₀ h) hwrong, fun hok => absurd hok.1 (by decide)⟩
    · exact ⟨fun hall => absurd (hrealloc ▸ hall m₀ h) hwrong, fun hok => absurd hok.1 (by decide)⟩
  | true =>
    constructor
    · refine ⟨fun hall => ⟨rfl, (h.inplace_iff newPages).mp (hall m₀ h)⟩, fun hok m hm => ?_⟩
      exact (hm.inplace_iff newPages).mpr hok.2
    · rw [h.realloc_iff newPages]
      exact ⟨fun hok => ⟨rfl, hok⟩, fun hok => hok.2⟩

/-- A range is free, and one behind it is in use. -/
theorem owned_behind (addr n start pages : Nat) (hfree : IsRegion addr n)
    (hrange : IsRegion start pages) (hle : addr + n * pageSize ≤ start) :
    ∃ s, kpageframeFree State.empty addr n = some s ∧
      Owned (⟨s, fun _ => ()⟩ : Memory Unit) [(addr, n)] start pages := by
  obtain ⟨s, hs, hlist⟩ := kpageframeFree_nil freeList_empty hfree
  refine ⟨s, hs, hlist, hrange, ?_⟩
  rw [pagesIn_cons, pagesIn_nil, Set.union_empty]
  exact Below.disjoint (r := (addr, n)) (t := (start, pages)) hle

/-- Two pages are free, the one behind them is in use and starts with the words 0, 0, 7;
its owner asks for two pages. With assertions the call stops. Without them it takes the
second free page, after it has written the descriptor of an empty region over the words:
the moved page starts with a 0 where the 7 was. -/
theorem kpageframeRealloc_wrong :
    ∃ (s : State) (m : Memory Unit), kpageframeFree State.empty 4096 2 = some s ∧
      m = ⟨s.setSize 12288 7, fun _ => ()⟩ ∧ Owned m [(4096, 2)] 12288 1 ∧
      kpageframeRealloc false m 12288 1 2 = .error .assertion ∧
      ∃ m', kpageframeRealloc true m 12288 1 2 = .ok (8192, m') ∧ m.frames.pffSize 12288 = 7 ∧
        m'.frames.pffSize 8192 = 0 := by
  obtain ⟨s, hs, hown⟩ := owned_behind 4096 2 12288 1
    (by constructor <;> decide) (by constructor <;> decide) (by decide)
  cases hs
  -- The word that is moved is the size of the empty region.
  exact ⟨_, _, rfl, rfl, hown.setSize 7, rfl, _, rfl, rfl, rfl⟩

/-- One page is free, and the owner of the page behind it asks for two: the call moves
the contents down. -/
theorem kpageframeRealloc_right_down :
    ∃ (s : State) (m : Memory Unit), kpageframeFree State.empty 8192 1 = some s ∧
      m = ⟨s, fun _ => ()⟩ ∧
      ReallocRight m 12288 1 2 (kpageframeRealloc true m 12288 1 2) := by
  obtain ⟨s, hs, hown⟩ := owned_behind 8192 1 12288 1
    (by constructor <;> decide) (by constructor <;> decide) (by decide)
  have hok : ReallocOk [(8192, 1)] 12288 1 2 := by
    refine .inr ⟨.inr fun r hr hcov => ?_, .inr fun r hr _ => ?_⟩
    · rw [mem_singleton.mp hr] at hcov
      exact absurd hcov.2 (by decide)
    · rw [mem_singleton.mp hr]
      decide
  exact ⟨s, _, hs, rfl, (kpageframeRealloc_right_iff hown true 2).2.mpr ⟨rfl, hok⟩ _ hown⟩

end KosKernel.PageFrame
