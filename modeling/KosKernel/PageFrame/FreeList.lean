import KosKernel.PageFrame.Basic
import Mathlib.Data.List.Pairwise
import Mathlib.Data.Set.Lattice
import Mathlib.Order.CompletePartialOrder
import Mathlib.Tactic.Ring

/-!
# KosKernel.PageFrame.FreeList

The **free list invariant** and one specification lemma per allocator function.

`FreeList s rs` says that the memory of `s` holds exactly the regions `rs`: the
links form a doubly linked list over their first pages, every region is a
non-empty, aligned range that does not reach the end of the address space, and
consecutive regions leave a gap, so they are ascending and maximally coalesced.
The lemmas below say which region list each call leaves behind; everything about
free pages is then read off that list.
-/

namespace KosKernel.PageFrame

open LinkedList List

/-! ### Regions -/

/-- A range of pages the allocator can hold: page aligned, not empty, and ending
inside the address space. (`kpageframe_free` also asserts that it does not start
at address zero; nothing below needs that.) -/
structure IsRegion (start n : Nat) : Prop where
  aligned : start % pageSize = 0
  nonempty : 1 ≤ n
  no_wrap : start + n * pageSize < addrSpace

/-- The first region ends before the second starts, and the two do not touch. -/
def Before (r t : Nat × Nat) : Prop := r.1 + r.2 * pageSize < t.1

/-- The pages of a list of regions. -/
def pagesIn (rs : List (Nat × Nat)) : Set Nat := {a | ∃ r ∈ rs, a ∈ pagesOf r.1 r.2}

variable {n : Nat}

theorem mem_pagesOf {a start : Nat} :
    a ∈ pagesOf start n ↔ ∃ i < n, a = start + i * pageSize := Iff.rfl

@[simp] theorem pagesIn_nil : pagesIn [] = ∅ := by
  ext a; simp [pagesIn]

@[simp] theorem pagesIn_cons (r : Nat × Nat) (rs : List (Nat × Nat)) :
    pagesIn (r :: rs) = pagesOf r.1 r.2 ∪ pagesIn rs := by
  ext a; simp [pagesIn]

@[simp] theorem pagesIn_append (rs ts : List (Nat × Nat)) :
    pagesIn (rs ++ ts) = pagesIn rs ∪ pagesIn ts := by
  ext a
  simp [pagesIn, or_and_right, exists_or]

theorem pagesOf_add (start m n : Nat) :
    pagesOf start (m + n) = pagesOf start m ∪ pagesOf (start + m * pageSize) n := by
  ext a
  constructor
  · rintro ⟨i, hi, rfl⟩
    by_cases him : i < m
    · exact .inl ⟨i, him, rfl⟩
    refine .inr ⟨i - m, by omega, ?_⟩
    obtain ⟨j, rfl⟩ := Nat.exists_eq_add_of_le (Nat.le_of_not_lt him)
    rw [Nat.add_sub_cancel_left]
    ring
  · rintro (⟨i, hi, rfl⟩ | ⟨i, hi, rfl⟩)
    · exact ⟨i, by omega, rfl⟩
    · exact ⟨m + i, by omega, by ring⟩

/-- Inside the address space, pointer arithmetic does not wrap. -/
theorem frameAdd_eq {p : Nat} (h : p + n * pageSize < addrSpace) :
    frameAdd p n = p + n * pageSize := Nat.mod_eq_of_lt h

theorem ne_pageNil_of_aligned {p : Nat} (h : p % pageSize = 0) : p ≠ pageNil := by
  unfold pageNil addrSpace pageSize at *
  omega

theorem IsRegion.ne_pageNil {start : Nat} (h : IsRegion start n) : start ≠ pageNil :=
  ne_pageNil_of_aligned h.aligned

theorem IsRegion.lt_end {start : Nat} (h : IsRegion start n) : start < start + n * pageSize :=
  Nat.lt_add_of_pos_right (Nat.mul_pos h.nonempty (by decide))

theorem IsRegion.page_ne_nil {start : Nat} (h : IsRegion start n) (i : Nat) :
    start + i * pageSize ≠ pageNil :=
  ne_pageNil_of_aligned (by rw [Nat.add_mul_mod_self_right, h.aligned])

variable {m b : Nat}

/-- Two aligned regions without a common page are ordered, one way or the other. -/
theorem IsRegion.ordered {a : Nat} (ha : IsRegion a m) (hb : IsRegion b n)
    (hdisj : Disjoint (pagesOf a m) (pagesOf b n)) :
    a + m * pageSize ≤ b ∨ b + n * pageSize ≤ a := by
  by_contra hcon
  push Not at hcon
  obtain ⟨h1, h2⟩ := hcon
  -- The larger of the two start addresses is a page of both.
  rw [Set.disjoint_left] at hdisj
  have ha0 := ha.aligned
  have hb0 := hb.aligned
  have ha1 := ha.nonempty
  have hb1 := hb.nonempty
  unfold pageSize at h1 h2 ha0 hb0
  rcases Nat.le_total a b with hab | hab
  · have hmem : b ∈ pagesOf a m := ⟨(b - a) / 4096, by omega, by unfold pageSize; omega⟩
    exact hdisj hmem ⟨0, by omega, by simp⟩
  · have hmem : a ∈ pagesOf b n := ⟨(a - b) / 4096, by omega, by unfold pageSize; omega⟩
    exact hdisj ⟨0, by omega, by simp⟩ hmem

/-! ### The invariant -/

/-- The free list of `s` is `rs`. -/
structure FreeList (s : State) (rs : List (Nat × Nat)) : Prop where
  seg : IsSeg pageNil s.pffNext s.pffPrev pageNil s.firstFreePage (rs.map Prod.fst) pageNil
  size : ∀ r ∈ rs, s.pffSize r.1 = r.2
  region : ∀ r ∈ rs, IsRegion r.1 r.2
  apart : rs.Pairwise Before

/-- The first region ends where the second starts, or before. -/
def Below (r t : Nat × Nat) : Prop := r.1 + r.2 * pageSize ≤ t.1

theorem Before.below {r t : Nat × Nat} (h : Before r t) : Below r t := Nat.le_of_lt h

/-- A free list that need not be coalesced: the regions ascend and do not overlap,
but neighbours may touch. List surgery is proved here; `FreeList` only adds gaps. -/
structure RegionList (s : State) (rs : List (Nat × Nat)) : Prop where
  seg : IsSeg pageNil s.pffNext s.pffPrev pageNil s.firstFreePage (rs.map Prod.fst) pageNil
  size : ∀ r ∈ rs, s.pffSize r.1 = r.2
  region : ∀ r ∈ rs, IsRegion r.1 r.2
  ascending : rs.Pairwise Below

variable {s : State} {rs : List (Nat × Nat)}

theorem FreeList.regionList (h : FreeList s rs) :
    RegionList s rs := ⟨h.seg, h.size, h.region, h.apart.imp Before.below⟩

section

variable (h : RegionList s rs)

include h

theorem RegionList.freeList (hapart : rs.Pairwise Before) :
    FreeList s rs := ⟨h.seg, h.size, h.region, hapart⟩

omit h in
theorem freeList_empty : FreeList State.empty [] where
  seg := by simp [State.empty]
  size := by simp
  region := by simp
  apart := List.Pairwise.nil

variable {t : State}

theorem RegionList.congr (hf : t.firstFreePage = s.firstFreePage) (hn : t.pffNext = s.pffNext)
    (hp : t.pffPrev = s.pffPrev) (hz : t.pffSize = s.pffSize) : RegionList t rs :=
  { h with
    seg := by rw [hf, hn, hp]; exact h.seg
    size := by rw [hz]; exact h.size }

theorem RegionList.addAllocated (n : Nat) : RegionList (s.addAllocated n) rs := by
  cases s
  exact h.congr rfl rfl rfl rfl

theorem RegionList.subAllocated (n : Nat) : RegionList (s.subAllocated n) rs := by
  cases s
  exact h.congr rfl rfl rfl rfl

omit h in
theorem FreeList.subAllocated (h : FreeList s rs) (n : Nat) :
    FreeList (s.subAllocated n) rs := (h.regionList.subAllocated n).freeList h.apart

omit h in
theorem FreeList.addAllocated (h : FreeList s rs) (n : Nat) :
    FreeList (s.addAllocated n) rs := (h.regionList.addAllocated n).freeList h.apart

theorem RegionList.starts_pairwise : (rs.map Prod.fst).Pairwise (· < ·) := by
  rw [pairwise_map]
  exact h.ascending.imp_of_mem fun hr _ hrt => Nat.lt_of_lt_of_le (h.region _ hr).lt_end hrt

theorem RegionList.starts_nodup :
    (rs.map Prod.fst).Nodup := h.starts_pairwise.imp (fun h => Nat.ne_of_lt h)

omit h in
/-- The regions fit the address space one behind the other. -/
theorem sum_mul_le (hreg : ∀ r ∈ rs, IsRegion r.1 r.2) (hasc : rs.Pairwise Below)
    {f : Nat × Nat → Nat} (hf : ∀ r ∈ rs, f r ≤ r.2) :
    ∀ lo ≤ addrSpace, (∀ r ∈ rs, lo ≤ r.1) → lo + (rs.map f).sum * pageSize ≤ addrSpace := by
  induction rs with
  | nil => intro lo hlo _; simpa using hlo
  | cons r rs ih =>
    intro lo _ hge
    rw [pairwise_cons] at hasc
    have hlo := hge r (by simp)
    have hle := Nat.mul_le_mul_right pageSize (hf r (by simp))
    have := ih (fun t ht => hreg t (by simp [ht])) hasc.2 (fun t ht => hf t (by simp [ht]))
      (r.1 + r.2 * pageSize) (Nat.le_of_lt (hreg r (by simp)).no_wrap) hasc.1
    rw [map_cons, sum_cons, Nat.add_mul]
    omega

theorem RegionList.length_le : rs.length ≤ maxFrames := by
  have hsum := sum_mul_le h.region h.ascending (fun r hr => (h.region r hr).nonempty) 0
    (Nat.zero_le _) fun _ _ => Nat.zero_le _
  rw [map_const', sum_replicate_nat, Nat.mul_one] at hsum
  unfold maxFrames
  rw [Nat.le_div_iff_mul_le (by decide)]
  omega

omit h in
theorem FreeList.length_le (h : FreeList s rs) :
    rs.length ≤ maxFrames := h.regionList.length_le

/-- **A loop over the list**: what holds at its end, and at each region if it holds behind it,
holds at its beginning. `P` speaks of the regions passed so far. -/
theorem RegionList.walk {P : List (Nat × Nat) → Nat → Nat → Prop}
    (hend : ∀ fuel, P rs pageNil (fuel + 1))
    (hstep : ∀ pre r post fuel, rs = pre ++ r :: post → r.1 ≠ pageNil →
      P (pre ++ [r]) (s.pffNext r.1) fuel → P pre r.1 (fuel + 1)) :
    P [] s.firstFreePage (maxFrames + 1) := by
  have hwalk : ∀ (post pre : List (Nat × Nat)) (b p fuel : Nat), rs = pre ++ post →
      IsSeg pageNil s.pffNext s.pffPrev b p (post.map Prod.fst) pageNil →
      post.length < fuel → P pre p fuel := by
    intro post
    induction post with
    | nil =>
      rintro pre b p (_ | fuel) rfl hseg hfuel
      · simp at hfuel
      · rw [isSeg_nil.mp hseg]
        simpa using hend fuel
    | cons r post ih =>
      rintro pre b p (_ | fuel) hrs hseg hfuel
      · simp at hfuel
      · obtain ⟨rfl, hnil, -, hseg⟩ := hseg
        refine hstep pre r post fuel hrs hnil (ih _ _ _ _ ?_ hseg (by simpa using hfuel))
        rw [hrs, append_assoc, singleton_append]
  exact hwalk rs [] _ _ _ rfl h.seg (Nat.lt_succ_of_le h.length_le)

omit h in
theorem regionsFrom_eq : ∀ {b p fuel : Nat},
    IsSeg pageNil s.pffNext s.pffPrev b p (rs.map Prod.fst) pageNil →
    (∀ r ∈ rs, s.pffSize r.1 = r.2) → rs.length ≤ fuel → regionsFrom s fuel p = rs := by
  induction rs with
  | nil =>
    intro b p fuel hseg _ _
    cases fuel with
    | zero => rfl
    | succ fuel => rw [regionsFrom, if_pos (isSeg_nil.mp hseg)]
  | cons r rs ih =>
    intro b p fuel hseg hsize hfuel
    obtain ⟨rfl, hnil, -, hseg⟩ := hseg
    obtain _ | fuel := fuel
    · simp at hfuel
    rw [regionsFrom, if_neg hnil, hsize r (by simp),
      ih hseg (fun t ht => hsize t (by simp [ht])) (by simpa using hfuel)]

theorem RegionList.regions_eq :
    regions s = rs := regionsFrom_eq h.seg h.size h.length_le

theorem RegionList.freePages_eq : freePages s = pagesIn rs := by
  rw [freePages, h.regions_eq]; rfl

theorem RegionList.size_of_mem {x : Nat} (hx : x ∈ rs.map Prod.fst) : (x, s.pffSize x) ∈ rs := by
  obtain ⟨r, hr, rfl⟩ := mem_map.mp hx
  rw [h.size r hr]
  exact hr

end

theorem FreeList.regions_eq (h : FreeList s rs) :
    regions s = rs := h.regionList.regions_eq

theorem FreeList.freePages_eq (h : FreeList s rs) :
    freePages s = pagesIn rs := h.regionList.freePages_eq

variable {pre post : List (Nat × Nat)}

/-- Where a region sits in the list: the links around it. -/
theorem RegionList.at {iter : Nat} (h : RegionList s (pre ++ (iter, m) :: post)) :
    IsSeg pageNil s.pffNext s.pffPrev pageNil s.firstFreePage (pre.map Prod.fst) iter ∧
    s.pffPrev iter = (pre.map Prod.fst).getLastD pageNil ∧
    IsSeg pageNil s.pffNext s.pffPrev iter (s.pffNext iter) (post.map Prod.fst) pageNil := by
  have hseg := h.seg
  rw [map_append, isSeg_append] at hseg
  obtain ⟨p, hpre, rfl, -, hprev, hpost⟩ := hseg
  exact ⟨hpre, hprev, hpost⟩

/-- What is listed before a region ends before it, and what is listed behind starts behind. -/
theorem RegionList.around {iter : Nat} (h : RegionList s (pre ++ (iter, m) :: post)) :
    (∀ r ∈ pre, r.1 + r.2 * pageSize ≤ iter) ∧ ∀ r ∈ post, iter + m * pageSize ≤ r.1 := by
  have hasc := h.ascending
  rw [pairwise_append, pairwise_cons] at hasc
  exact ⟨fun r hr => hasc.2.2 r hr _ (mem_cons_self ..), hasc.2.1.1⟩

theorem FreeList.around {iter : Nat} (h : FreeList s (pre ++ (iter, m) :: post)) :
    (∀ r ∈ pre, r.1 + r.2 * pageSize < iter) ∧ ∀ r ∈ post, iter + m * pageSize < r.1 := by
  have hapart := h.apart
  rw [pairwise_append, pairwise_cons] at hapart
  exact ⟨fun r hr => hapart.2.2 r hr _ (mem_cons_self ..), hapart.2.1.1⟩

/-- Replacing the middle of a list of regions keeps it ordered when the new middle
fits the gap. -/
theorem pairwise_replace {R : Nat × Nat → Nat × Nat → Prop} (mid : List (Nat × Nat))
    {mid' : List (Nat × Nat)} (h : (pre ++ (mid ++ post)).Pairwise R) (hmid : mid'.Pairwise R)
    (hl : ∀ r ∈ pre, ∀ t ∈ mid', R r t) (hr : ∀ t ∈ mid', ∀ r ∈ post, R t r) :
    (pre ++ (mid' ++ post)).Pairwise R := by
  simp only [pairwise_append, mem_append] at h ⊢
  obtain ⟨hpre, ⟨-, hpost, -⟩, hcross⟩ := h
  refine ⟨hpre, ⟨hmid, hpost, hr⟩, ?_⟩
  rintro r hrmem t (ht | ht)
  · exact hl r hrmem t ht
  · exact hcross r hrmem t (.inr ht)

/-- Regions that fit between others start elsewhere. -/
theorem RegionList.starts_ne (mid mid' : List (Nat × Nat))
    (h : RegionList s (pre ++ (mid ++ post))) (hregion : ∀ t ∈ mid', IsRegion t.1 t.2)
    (hl : ∀ r ∈ pre, ∀ t ∈ mid', Below r t) (hr : ∀ t ∈ mid', ∀ r ∈ post, Below t r) :
    ∀ r ∈ pre ++ post, ∀ t ∈ mid', r.1 ≠ t.1 := by
  intro r hmem t ht
  rcases mem_append.mp hmem with hmem | hmem
  · exact Nat.ne_of_lt (Nat.lt_of_lt_of_le (h.region r (by simp [hmem])).lt_end (hl r hmem t ht))
  · exact Nat.ne_of_gt (Nat.lt_of_lt_of_le (hregion t ht).lt_end (hr t ht r hmem))

/-- The links of `t` differ from those of `s` as the splice rule allows, with the regions `mid'`
between `pre` and `post`. -/
structure Spliced (s t : State) (pre mid' post : List (Nat × Nat)) (m b q p' : Nat) : Prop where
  hpre : IsSeg pageNil s.pffNext s.pffPrev pageNil s.firstFreePage (pre.map Prod.fst) m
  hpost : IsSeg pageNil s.pffNext s.pffPrev b q (post.map Prod.fst) pageNil
  hmid : IsSeg pageNil t.pffNext t.pffPrev ((pre.map Prod.fst).getLastD pageNil) p'
    (mid'.map Prod.fst) q
  hfirst : t.firstFreePage =
    linkHead pageNil s.firstFreePage ((pre.map Prod.fst).getLastD pageNil) p'
  hnext : ∀ r ∈ pre ++ post, t.pffNext r.1 =
    linkNext pageNil s.pffNext ((pre.map Prod.fst).getLastD pageNil) p' r.1
  hprev : ∀ r ∈ pre ++ post, t.pffPrev r.1 = linkPrev pageNil s.pffPrev q
    ((mid'.map Prod.fst).getLastD ((pre.map Prod.fst).getLastD pageNil)) r.1
  hsize : ∀ r ∈ pre ++ post, t.pffSize r.1 = s.pffSize r.1
  hsize' : ∀ r ∈ mid', t.pffSize r.1 = r.2
  hregion : ∀ r ∈ mid', IsRegion r.1 r.2

/-- **Surgery on the free list.** A state whose links differ from `s` as the
splice rule allows, and whose regions in the middle are `mid'`, holds the list
with `mid` replaced by `mid'`. -/
theorem RegionList.splice (pre mid mid' : List (Nat × Nat)) {q : Nat} (p' : Nat)
    (h : RegionList s (pre ++ (mid ++ post))) (hs : Spliced s t pre mid' post m b q p')
    (hpw : mid'.Pairwise Below) (hl : ∀ r ∈ pre, ∀ t ∈ mid', Below r t)
    (hr : ∀ t ∈ mid', ∀ r ∈ post, Below t r) : RegionList t (pre ++ (mid' ++ post)) := by
  obtain ⟨hpre, hpost, hmid, hfirst, hnext, hprev, hsize, hsize', hregion⟩ := hs
  have hnd := h.starts_nodup
  simp only [map_append, nodup_append, mem_append] at hnd
  obtain ⟨hndpre, ⟨-, hndpost, -⟩, hcross⟩ := hnd
  -- The arriving link belongs to the prefix, the back link to the suffix.
  have hlast : ∀ x ∈ post.map Prod.fst, x ≠ (pre.map Prod.fst).getLastD pageNil := by
    intro x hx hEq
    by_cases hempty : pre.map Prod.fst = []
    · rw [hempty] at hEq
      exact hpost.ne_nil x hx hEq
    · exact hcross _ (getLastD_mem hempty) x (.inr hx) hEq.symm
  have hq : ∀ x ∈ pre.map Prod.fst, x ≠ q := by
    intro x hx hEq
    cases post with
    | nil => exact hpre.ne_nil x hx (hEq.trans hpost)
    | cons r post =>
      exact hcross x hx r.1 (.inr (by simp)) (hEq.trans hpost.1)
  refine ⟨?_, ?_, ?_, pairwise_replace mid h.ascending hpw hl hr⟩
  · rw [map_append, map_append]
    refine hpre.splice _ hpost hndpre hndpost hmid hfirst ?_ ?_ ?_ ?_ <;>
      refine forall_mem_map.2 fun r hr => ?_
    · exact hnext r (by simp [hr])
    · rw [hprev r (by simp [hr]), linkPrev_of_ne (hq _ (mem_map_of_mem hr))]
    · rw [hnext r (by simp [hr]), linkNext_of_ne (hlast _ (mem_map_of_mem hr))]
    · exact hprev r (by simp [hr])
  · have hold : ∀ r ∈ pre ++ post, t.pffSize r.1 = r.2 := fun r hr => by
      rw [hsize r hr]
      exact h.size r (by grind)
    rw [forall_mem_append] at hold
    exact forall_mem_append.2 ⟨hold.1, forall_mem_append.2 ⟨hsize', hold.2⟩⟩
  · have hold := h.region
    simp only [forall_mem_append] at hold ⊢
    exact ⟨hold.1, hregion, hold.2.2⟩

theorem FreeList.splice (pre mid mid' : List (Nat × Nat)) {q : Nat} (p' : Nat)
    (h : FreeList s (pre ++ (mid ++ post))) (hs : Spliced s t pre mid' post m b q p')
    (hpw : mid'.Pairwise Before) (hl : ∀ r ∈ pre, ∀ t ∈ mid', Before r t)
    (hr : ∀ t ∈ mid', ∀ r ∈ post, Before t r) : FreeList t (pre ++ (mid' ++ post)) :=
  (h.regionList.splice pre mid mid' p' hs (hpw.imp Before.below)
    (fun r hr t ht => (hl r hr t ht).below) (fun t ht r hr' => (hr t ht r hr').below)).freeList
    (pairwise_replace mid h.apart hpw hl hr)

end KosKernel.PageFrame
