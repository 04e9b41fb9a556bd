import KosKernel.Shm.Ledger

/-!
# KosKernel.Shm.Trim

What **trimming and splitting one branch** does to it and to the counters: the pages
that stay are mapped to the same pages of the region, and the branch gives up the
clusters that it has no pages of any more. A branch that is trimmed at the back may
keep one cluster too many.
-/

namespace KosKernel.Shm

open Function WindowTree PageFrame

variable {α : Type} {m m' : Mem α} {b : Branch} {bs : List Branch}

/-- A branch that maps a range of pages of a region, and owns references to a range of
clusters that has them. -/
structure BranchOk (m : Mem α) (b : Branch) : Prop where
  leaf : Leaf b
  space : b.sbMapMax < addrSpace
  size : b.sbMapMax + 1 = b.sbMapMin + b.sbRpages * pageSize
  region : ∃ r, m.regions b.sbRegion = some r ∧ b.sbRstart + b.sbRpages ≤ r.scPages ∧
    b.sbClusterMax < r.sreClusterc
  clusterMin : b.sbClusterMin = getcluster b.sbRstart
  clusterMax : getcluster (b.sbRstart + b.sbRpages - 1) ≤ b.sbClusterMax

/-- The branch without its first pages. -/
def cutFront (b : Branch) (pages : Nat) : Branch :=
  { b with
    sbMapMin := b.sbMapMin + pages * pageSize
    sbRstart := b.sbRstart + pages
    sbRpages := b.sbRpages - pages
    sbClusterMin := getcluster (b.sbRstart + pages) }

/-- The first pages of the branch, with the cluster that the source gives them. -/
def cutBack (b : Branch) (pages : Nat) : Branch :=
  { b with
    sbMapMax := b.sbMapMin + pages * pageSize - 1
    sbRpages := pages
    sbClusterMax := getcluster (b.sbRstart + pages) }

namespace BranchOk

section

variable (h : BranchOk m b)

include h

theorem rpages_pos : 0 < b.sbRpages := by
  have hs := h.size
  have ho := h.leaf.ordered
  by_contra h0
  rw [Nat.eq_zero_of_not_pos h0, Nat.zero_mul] at hs
  omega

theorem cluster_le : b.sbClusterMin ≤ b.sbClusterMax := by
  have hc := h.clusterMax
  have hp := h.rpages_pos
  rw [h.clusterMin]
  refine Nat.le_trans (Nat.div_le_div_right ?_) hc
  omega

theorem evolves (hev : Evolves m m') (hlive : ∃ r, m'.regions b.sbRegion = some r) :
    BranchOk m' b := by
  obtain ⟨r', hr'⟩ := hlive
  obtain ⟨r, hr, hpages, hcl⟩ := h.region
  obtain ⟨r1, hr1, hshape⟩ := hev.regions _ r' hr'
  rw [hr] at hr1
  obtain rfl := Option.some.inj hr1
  exact ⟨h.leaf, h.space, h.size,
    ⟨r', hr', hshape.scPages.symm ▸ hpages, hshape.sreClusterc.symm ▸ hcl⟩, h.clusterMin,
    h.clusterMax⟩

theorem cutFront {pages : Nat} (hlt : pages < b.sbRpages) : BranchOk m (cutFront b pages) := by
  obtain ⟨⟨ha, ha', ho⟩, hspace, hsize, ⟨r, hr, hpages, hcl⟩, hcmin, hcmax⟩ := h
  simp only [pageSize] at ha ha' hsize
  refine ⟨⟨?_, ha', ?_⟩, hspace, ?_, ⟨r, hr, ?_, hcl⟩, rfl, ?_⟩
  all_goals simp only [Shm.cutFront, pageSize]
  · omega
  · omega
  · omega
  · omega
  · rwa [show b.sbRstart + pages + (b.sbRpages - pages) - 1 = b.sbRstart + b.sbRpages - 1 by omega]

theorem front {pages c : Nat} (hpos : 0 < pages) (hlt : pages < b.sbRpages)
    (hc : getcluster (b.sbRstart + pages - 1) ≤ c) (hc' : c ≤ b.sbClusterMax) :
    BranchOk m { b with
      sbMapMax := b.sbMapMin + pages * pageSize - 1
      sbRpages := pages
      sbClusterMax := c } := by
  obtain ⟨⟨ha, ha', ho⟩, hspace, hsize, ⟨r, hr, hpages, hcl⟩, hcmin, hcmax⟩ := h
  simp only [pageSize] at ha ha' hsize
  refine ⟨⟨ha, ?_, ?_⟩, ?_, ?_, ⟨r, hr, ?_, Nat.lt_of_le_of_lt hc' hcl⟩, hcmin, hc⟩
  all_goals
    simp only [pageSize, addrSpace] at hspace ⊢
    omega

theorem covers {page : Nat} (hlo : b.sbRstart ≤ page) (hhi : page < b.sbRstart + b.sbRpages) :
    Covers b b.sbRegion (getcluster page) := by
  refine ⟨rfl, ?_, Nat.le_trans (Nat.div_le_div_right (by omega)) h.clusterMax⟩
  rw [h.clusterMin]
  exact Nat.div_le_div_right hlo

theorem cutBack {pages : Nat} (hpos : 0 < pages) (hlt : pages < b.sbRpages) :
    BranchOk m (cutBack b pages) :=
  h.front hpos hlt (Nat.div_le_div_right (by omega)) (h.covers (by omega) (by omega)).2.2

end

end BranchOk

/-! ### Trimming -/

/-- **Trimming at the front.** -/
theorem trimFront_spec (h : Ledger m (b :: bs)) (hb : BranchOk m b) {pages : Nat}
    (hlt : pages < b.sbRpages) :
    ∃ m', trimFront m b b.sbRstart pages = .ok (m', cutFront b pages) ∧
      Ledger m' (cutFront b pages :: bs) ∧ Evolves m m' := by
  obtain ⟨-, hle, hmax⟩ := hb.covers (show b.sbRstart ≤ b.sbRstart + pages by omega) (by omega)
  have hok : ¬getcluster (b.sbRstart + pages) < b.sbClusterMin := by omega
  have hpos : ¬b.sbRpages - pages = 0 := by omega
  by_cases hsame : b.sbClusterMin = getcluster (b.sbRstart + pages)
  · refine ⟨m, ?_, h.congr rfl hsame.symm rfl, .refl m⟩
    simp only [trimFront, if_neg hok, if_neg hpos]
    simp only [hsame, ne_eq, not_true, if_false, bind, Except.bind]
    rfl
  obtain ⟨m', hval, hled, hev⟩ := h.narrow (cutFront b pages) b.sbClusterMin
    (getcluster (b.sbRstart + pages) - 1) (by omega) rfl
    (fun c => by simp only [Covers, cutFront, true_and]; omega)
    (fun c => by simp only [Covers, cutFront, true_and]; omega)
  refine ⟨m', ?_, hled, hev⟩
  simp only [trimFront, if_neg hok, if_neg hpos, if_pos hsame, hval, bind, Except.bind]
  rfl

/-- **Trimming at the back.** -/
theorem trimBack_spec (h : Ledger m (b :: bs)) (hb : BranchOk m b) {pages : Nat}
    (hlt : pages < b.sbRpages) (hpos : 0 < pages) :
    ∃ m', trimBack m b (b.sbRstart + pages) (b.sbRpages - pages) = .ok (m', cutBack b pages) ∧
      Ledger m' (cutBack b pages :: bs) ∧ Evolves m m' := by
  obtain ⟨-, hmin, hmax⟩ := hb.covers (show b.sbRstart ≤ b.sbRstart + pages by omega) (by omega)
  have hok : ¬(getcluster (b.sbRstart + pages) < b.sbClusterMin ∨
      b.sbClusterMax < getcluster (b.sbRstart + pages)) := by omega
  have hne : ¬b.sbRpages - (b.sbRpages - pages) = 0 := by omega
  have hcut : ({ b with
      sbClusterMax := getcluster (b.sbRstart + pages)
      sbMapMax := b.sbMapMax - (b.sbRpages - pages) * pageSize
      sbRpages := b.sbRpages - (b.sbRpages - pages) } : Branch) = cutBack b pages := by
    have hsize := hb.size
    have e1 : b.sbMapMax - (b.sbRpages - pages) * pageSize =
        b.sbMapMin + pages * pageSize - 1 := by
      rw [Nat.sub_mul]
      have : pages * pageSize ≤ b.sbRpages * pageSize := Nat.mul_le_mul_right _ (Nat.le_of_lt hlt)
      omega
    have e2 : b.sbRpages - (b.sbRpages - pages) = pages := by omega
    rw [cutBack, e1, e2]
  by_cases hsame : b.sbClusterMax = getcluster (b.sbRstart + pages)
  · refine ⟨m, ?_, h.congr rfl rfl hsame.symm, .refl m⟩
    simp only [trimBack, if_neg hok, if_neg hne]
    simp only [hsame, ne_eq, not_true, if_false, bind, Except.bind]
    rw [hcut]
  obtain ⟨m', hval, hled, hev⟩ := h.narrow (cutBack b pages)
    (getcluster (b.sbRstart + pages) + 1) b.sbClusterMax (by omega) rfl
    (fun c => by simp only [Covers, cutBack, true_and]; omega)
    (fun c => by simp only [Covers, cutBack, true_and]; omega)
  refine ⟨m', ?_, hled, hev⟩
  simp only [trimBack, if_neg hok, if_neg hne, if_pos hsame, hval, bind, Except.bind]
  rw [hcut]

/-! ### Splitting -/

theorem splitMin_eq (b : Branch) {page : Nat} (hpage : b.sbRstart < page) :
    splitMin b page = { b with
      sbMapMax := b.sbMapMin + (page - b.sbRstart) * pageSize - 1
      sbRpages := page - b.sbRstart
      sbClusterMax := getcluster (page - 1) } := by
  rw [splitMin, show b.sbRstart + (page - b.sbRstart - 1) = page - 1 by omega]

theorem splitMax_eq (b : Branch) {page : Nat} (hpage : b.sbRstart ≤ page) :
    splitMax b page = cutFront b (page - b.sbRstart) := by
  rw [splitMax, cutFront, Nat.add_sub_of_le hpage]

section Split

variable {page : Nat} (hb : BranchOk m b) (hlo : b.sbRstart < page)
  (hhi : page < b.sbRstart + b.sbRpages)

include hb hlo hhi

theorem BranchOk.splitMin : BranchOk m (splitMin b page) := by
  rw [splitMin_eq b hlo]
  refine hb.front (by omega) (by omega) ?_ ?_
  · rw [Nat.add_sub_of_le (Nat.le_of_lt hlo)]
  · exact (hb.covers (by omega) (by omega)).2.2

theorem BranchOk.splitMax : BranchOk m (splitMax b page) := by
  rw [splitMax_eq b (Nat.le_of_lt hlo)]
  exact hb.cutFront (by omega)

/-- The halves cover what the branch covered, and the cluster between them once more if both
have pages of it. -/
theorem coverCount_split (bs : List Branch) :
    coverCount (splitMin b page :: splitMax b page :: bs) =
      if getcluster (page - 1) = getcluster page then
        incrRange (coverCount (b :: bs)) b.sbRegion (getcluster page) 1
      else coverCount (b :: bs) := by
  obtain ⟨-, hmin, -⟩ := hb.covers (show b.sbRstart ≤ page - 1 by omega) (by omega)
  obtain ⟨-, -, hmax⟩ := hb.covers (Nat.le_of_lt hlo) hhi
  have hnext : getcluster page = getcluster (page - 1) ∨
      getcluster page = getcluster (page - 1) + 1 := by
    simp only [getcluster, clusterSize]
    omega
  have hcmin : (splitMin b page).sbClusterMax = getcluster (page - 1) := by
    rw [splitMin_eq b hlo]
  funext i j
  rw [coverCount_cons, coverCount_cons]
  by_cases hi : b.sbRegion = i
  · have h1 : Covers (splitMin b page) i j ↔ b.sbClusterMin ≤ j ∧ j ≤ getcluster (page - 1) := by
      simp only [Covers, hcmin]
      exact ⟨fun h => h.2, fun h => ⟨hi, h⟩⟩
    have h2 : Covers (splitMax b page) i j ↔ getcluster page ≤ j ∧ j ≤ b.sbClusterMax :=
      ⟨fun h => h.2, fun h => ⟨hi, h⟩⟩
    have h3 : Covers b i j ↔ b.sbClusterMin ≤ j ∧ j ≤ b.sbClusterMax :=
      ⟨fun h => h.2, fun h => ⟨hi, h⟩⟩
    simp only [h1, h2]
    split_ifs <;> simp only [incrRange, coverCount_cons, h3] <;> split_ifs <;> omega
  · have hne : ∀ c : Branch, c.sbRegion = b.sbRegion → ¬Covers c i j :=
      fun c hc hcov => hi (hc.symm.trans hcov.1)
    rw [if_neg (hne (splitMax b page) rfl), if_neg (hne (splitMin b page) rfl), Nat.add_zero]
    have hcount : coverCount (b :: bs) i j = coverCount bs i j := by
      rw [coverCount_cons, if_neg (hne _ rfl), Nat.add_zero]
    split_ifs
    · rw [incrRange, if_neg (fun h => hi h.1.symm), hcount]
    · exact hcount.symm

/-- **The counters of a split.** -/
theorem splitCounters_spec (h : Ledger m (b :: bs)) (hroom : bs.length + 2 < 4294967295) :
    ∃ m', splitCounters m b page = .ok m' ∧
      Ledger m' (splitMin b page :: splitMax b page :: bs) ∧ Evolves m m' := by
  have hcount := coverCount_split hb hlo hhi bs
  have hbrs : update (branchCount (b :: bs)) b.sbRegion
      (branchCount (b :: bs) b.sbRegion + 1) =
        branchCount (splitMin b page :: splitMax b page :: bs) := by
    funext i
    have hreg : (splitMin b page).sbRegion = b.sbRegion ∧
        (splitMax b page).sbRegion = b.sbRegion := ⟨rfl, rfl⟩
    by_cases hi : i = b.sbRegion
    · subst hi
      simp only [update_self, branchCount_cons, hreg, if_true]
    · have hi' : ¬b.sbRegion = i := fun hh => hi hh.symm
      simp only [update_of_ne hi, branchCount_cons, hreg, if_neg hi']
  obtain ⟨m1, hval1, h1, hev1⟩ := h.tally.increfBranches
    (branchCount_pos (List.mem_cons_self ..))
  rw [hbrs] at h1
  obtain ⟨r, hr⟩ := h1.brs_live b.sbRegion (branchCount_pos (b := splitMin b page) (by simp))
  have hcmin : (splitMin b page).sbClusterMax = getcluster (page - 1) := by
    rw [splitMin_eq b hlo]
  simp only [splitCounters, hval1, Mem.region_of hr, hcmin, bind, Except.bind]
  by_cases hsame : getcluster (page - 1) = getcluster page
  · have hpos := coverCount_pos (List.mem_cons_self (l := bs)) (hb.covers (Nat.le_of_lt hlo) hhi)
    obtain ⟨r1, hr1, hlt⟩ := h1.cnt_live _ _ hpos
    obtain rfl := Option.some.inj (hr.symm.trans hr1)
    have href := h1.refcnt _ r hr _ hlt
    have hle : coverCount (b :: bs) b.sbRegion (getcluster page) ≤ _ := List.countP_le_length
    have hfew := h.few
    have hnz : r.scRefcnt (getcluster page) ≠ 0 := by omega
    rw [if_pos hsame, if_neg hnz, if_neg (by omega)]
    obtain ⟨h2, hev2⟩ := h1.increment hr hlt hnz rfl
    refine ⟨_, rfl, ⟨?_, by simpa using hroom⟩, hev1.trans hev2⟩
    rw [hcount, if_pos hsame]
    exact h2
  · rw [if_neg hsame]
    refine ⟨m1, rfl, ⟨?_, by simpa using hroom⟩, hev1⟩
    rw [hcount, if_neg hsame]
    exact h1

end Split

end KosKernel.Shm
