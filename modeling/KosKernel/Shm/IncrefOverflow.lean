import KosKernel.Shm.Region

/-!
# KosKernel.Shm.IncrefOverflow

**A reference counter at its maximum** (`kshmregion_incref` in `src/kernel/shm.c`).

`kshmregion_incref_clusters` takes back the references that it took before it met the counter,
with `kshmregion_decref`. This takes a branch away as well, which `kshmregion_incref` takes away
once more: if the first cluster is not the one with the full counter, `sre_branches` is one less
than before the call, or the last of two assertions fails.
-/

namespace KosKernel.Shm

open Function

variable {α : Type}

/-! ### What a failed call should leave -/

/-- The counters of a region, and the frames that are held, are as before. -/
def CountersKept (m m' : Mem α) (rid : Nat) (r : Region) : Prop :=
  (∃ r', m'.regions rid = some r' ∧ (∀ c, r'.scRefcnt c = r.scRefcnt c) ∧
    r'.sreBranches = r.sreBranches ∧ r'.sreClustera = r.sreClustera) ∧ m'.held = m.held

/-- The call returns, and nothing has changed if it returns `KE_OVERFLOW`. -/
def RollsBack (m : Mem α) (rid : Nat) (r : Region) (result : Except Fault (Errno × Mem α)) :
    Prop :=
  ∃ error m', result = .ok (error, m') ∧ (error = .keOverflow → CountersKept m m' rid r)

/-- If a counter of the range is full, then the first one is. -/
def FirstIsFull (r : Region) (clsMin clsMax : Nat) : Prop :=
  (∃ c, clsMin ≤ c ∧ c ≤ clsMax ∧ r.scRefcnt c = 4294967295) → r.scRefcnt clsMin = 4294967295

/-! ### References to some clusters -/

/-- The region with one more reference to each of some clusters. -/
def Region.bump (r : Region) (first count : Nat) : Region :=
  { r with scRefcnt := fun c =>
      if first ≤ c ∧ c < first + count then r.scRefcnt c + 1 else r.scRefcnt c }

theorem Region.bump_zero (r : Region) (first : Nat) : r.bump first 0 = r := by
  have hnone : ∀ c, ¬(first ≤ c ∧ c < first + 0) := fun c => by omega
  simp only [bump, hnone, if_false]

theorem Region.bump_succ (r : Region) (first count : Nat) :
    ({ r with scRefcnt := update r.scRefcnt first (r.scRefcnt first + 1) } : Region).bump
      (first + 1) count = r.bump first (count + 1) := by
  simp only [bump]
  congr 1
  funext c
  by_cases hc : c = first
  · subst hc
    rw [if_neg (by omega), if_pos (by omega), update_self]
  · rw [update_of_ne hc]
    exact if_congr (by omega) rfl rfl

theorem Mem.setRegion_setRegion (m : Mem α) (rid : Nat) (r r' : Region) :
    (m.setRegion rid r).setRegion rid r' = m.setRegion rid r' := by
  simp only [setRegion, update_idem]

/-- **The loop of `kshmregion_incref_clusters`** counts the clusters up to the first one whose
counter is full. -/
theorem increfLoop_eq {rid : Nat} (count : Nat) : ∀ (first : Nat) {m : Mem α} {r : Region},
    m.regions rid = some r → first + count ≤ r.sreClusterc →
    (∀ c, first ≤ c → c < first + count → r.scRefcnt c ≠ 0) →
    ((∀ c, first ≤ c → c < first + count → r.scRefcnt c ≠ 4294967295) ∧
      ∃ m', increfLoop rid count m first = .ok (none, m')) ∨
    ∃ k, first ≤ k ∧ k < first + count ∧ r.scRefcnt k = 4294967295 ∧
      (∀ c, first ≤ c → c < k → r.scRefcnt c ≠ 4294967295) ∧
      increfLoop rid count m first =
        .ok (some k, m.setRegion rid (r.bump first (k - first))) := by
  induction count with
  | zero => exact fun _ _ _ _ _ _ => .inl ⟨fun c h1 h2 => by omega, _, rfl⟩
  | succ count ih =>
    intro first m r hr hend hlive
    have hok : ¬(r.sreClusterc ≤ first ∨ r.scRefcnt first = 0) := by
      have := hlive first (by omega) (by omega)
      omega
    simp only [increfLoop, Mem.region_of hr, bind, Except.bind, if_neg hok]
    by_cases hfull : r.scRefcnt first = 4294967295
    · refine .inr ⟨first, by omega, by omega, hfull, fun c h1 h2 => by omega, ?_⟩
      have hsame : m.setRegion rid r = m := by
        simp only [Mem.setRegion, ← hr, update_eq_self]
      rw [if_pos hfull, Nat.sub_self, Region.bump_zero, hsame]
    rw [if_neg hfull]
    obtain ⟨r1, hr1⟩ : ∃ r1 : Region, r1 = { r with
        scRefcnt := update r.scRefcnt first (r.scRefcnt first + 1) } := ⟨_, rfl⟩
    rw [← hr1]
    -- the other counters are what they were
    have hother : ∀ c, first + 1 ≤ c → r1.scRefcnt c = r.scRefcnt c := fun c hc => by
      rw [hr1]
      exact update_of_ne (by omega) ..
    have hend1 : first + 1 + count ≤ r1.sreClusterc := by
      rw [hr1]
      show _ ≤ r.sreClusterc
      omega
    have hlive1 : ∀ c, first + 1 ≤ c → c < first + 1 + count → r1.scRefcnt c ≠ 0 := by
      intro c h1 h2
      rw [hother c h1]
      exact hlive c (by omega) (by omega)
    rcases ih (first + 1) (Mem.setRegion_self m rid r1) hend1 hlive1 with
      ⟨hnone, m', hrun⟩ | ⟨k, hk1, hk2, hk, hbefore, hrun⟩
    · refine .inl ⟨fun c h1 h2 => ?_, m', hrun⟩
      rcases Nat.eq_or_lt_of_le h1 with rfl | hlt
      · exact hfull
      · have := hnone c hlt (by omega)
        rwa [hother c hlt] at this
    refine .inr ⟨k, by omega, by omega, by rwa [← hother k hk1], fun c h1 h2 => ?_, ?_⟩
    · rcases Nat.eq_or_lt_of_le h1 with rfl | hlt
      · exact hfull
      · have := hbefore c hlt h2
        rwa [hother c hlt] at this
    · rw [hrun, Mem.setRegion_setRegion, hr1, Region.bump_succ,
        show k - (first + 1) + 1 = k - first by omega]

/-- Taking back references that were just taken frees nothing. -/
theorem decrefLoop_bump {rid : Nat} {m : Mem α} {r : Region} (count : Nat) : ∀ first : Nat,
    first + count ≤ r.sreClusterc →
    (∀ c, first ≤ c → c < first + count → r.scRefcnt c ≠ 0) →
    decrefLoop rid count (m.setRegion rid (r.bump first count)) first =
      .ok (m.setRegion rid r) := by
  induction count with
  | zero =>
    intro first _ _
    rw [Region.bump_zero]
    rfl
  | succ count ih =>
    intro first hend hlive
    have hfirst := hlive first (by omega) (by omega)
    have hcount : (r.bump first (count + 1)).scRefcnt first = r.scRefcnt first + 1 :=
      if_pos (by omega)
    have hok : ¬((r.bump first (count + 1)).sreClusterc ≤ first ∨
        (r.bump first (count + 1)).scRefcnt first = 0) := by
      show ¬(r.sreClusterc ≤ first ∨ _)
      omega
    -- without the reference to the first cluster, the others are left
    have hrest : ({ r.bump first (count + 1) with
        scRefcnt := update (r.bump first (count + 1)).scRefcnt first (r.scRefcnt first) } :
          Region) = r.bump (first + 1) count := by
      simp only [Region.bump]
      congr 1
      funext c
      by_cases hc : c = first
      · subst hc
        rw [update_self, if_neg (by omega)]
      · rw [update_of_ne hc]
        exact if_congr (by omega) rfl rfl
    rw [decrefLoop, decrefCluster, Mem.region_of (Mem.setRegion_self ..)]
    simp only [bind, Except.bind]
    rw [if_neg hok]
    simp only [hcount, Nat.add_sub_cancel, if_neg hfirst, hrest, Mem.setRegion_setRegion]
    exact ih (first + 1) (by omega) fun c h1 h2 => hlive c (by omega) (by omega)

/-! ### The call -/

section

variable {m : Mem α} {rid clsMin clsMax : Nat} {r : Region}

theorem kshmregionIncrefClusters_overflow {k : Nat} (hr : m.regions rid = some r)
    (hmax : clsMax < r.sreClusterc) (hlive : ∀ c, clsMin ≤ c → c ≤ clsMax → r.scRefcnt c ≠ 0)
    (hk1 : clsMin ≤ k) (hk2 : k ≤ clsMax) (hk : r.scRefcnt k = 4294967295) :
    r.scRefcnt clsMin = 4294967295 ∧
        kshmregionIncrefClusters m rid clsMin clsMax = .ok (.keOverflow, m) ∨
      r.scRefcnt clsMin ≠ 4294967295 ∧
        kshmregionIncrefClusters m rid clsMin clsMax =
          (decrefBranches m rid).map fun m' => (.keOverflow, m') := by
  have hsame : m.setRegion rid r = m := by
    simp only [Mem.setRegion, ← hr, update_eq_self]
  rcases increfLoop_eq (clsMax - clsMin + 1) clsMin hr (by omega)
      (fun c h1 h2 => hlive c h1 (by omega)) with
    ⟨hnone, -⟩ | ⟨j, hj1, hj2, hj, hbefore, hrun⟩
  · exact absurd hk (hnone k hk1 (by omega))
  rw [kshmregionIncrefClusters, if_pos (by omega)]
  simp only [hrun, bind, Except.bind]
  by_cases hfirst : j = clsMin
  · subst hfirst
    rw [if_pos rfl, Nat.sub_self, Region.bump_zero, hsame]
    exact .inl ⟨hj, rfl⟩
  have hdecref : kshmregionDecref (m.setRegion rid (r.bump clsMin (j - clsMin))) rid clsMin
      (j - 1) = decrefBranches m rid := by
    rw [kshmregionDecref, kshmregionDecrefClusters, if_pos (by omega),
      show j - 1 - clsMin + 1 = j - clsMin by omega,
      decrefLoop_bump _ _ (by omega) fun c h1 h2 => hlive c h1 (by omega), hsame]
    rfl
  refine .inr ⟨hbefore clsMin (by omega) (by omega), ?_⟩
  rw [if_neg hfirst, hdecref]
  cases decrefBranches m rid with
  | error fault => rfl
  | ok m' => rfl

/-- **Overflowing references**: nothing is left of the call if and only if the first cluster is
one whose counter is full. -/
theorem kshmregionIncref_rollsBack_iff (hr : m.regions rid = some r) (hle : clsMin ≤ clsMax)
    (hmax : clsMax < r.sreClusterc) (hlive : ∀ c, clsMin ≤ c → c ≤ clsMax → r.scRefcnt c ≠ 0)
    (hbranches : r.sreBranches ≠ 0) :
    RollsBack m rid r (kshmregionIncref m rid clsMin clsMax) ↔ FirstIsFull r clsMin clsMax := by
  obtain ⟨r₁, hr₁⟩ : ∃ r₁ : Region, r₁ = { r with sreBranches := r.sreBranches + 1 } := ⟨_, rfl⟩
  have hself : (m.setRegion rid r₁).regions rid = some r₁ := Mem.setRegion_self ..
  have hrefcnt : r₁.scRefcnt = r.scRefcnt := by rw [hr₁]
  have hclusterc : r₁.sreClusterc = r.sreClusterc := by rw [hr₁]
  have hcount : r₁.sreBranches = r.sreBranches + 1 := by rw [hr₁]
  have hincref : increfBranches m rid = .ok (m.setRegion rid r₁) := by
    rw [increfBranches, Mem.region_of hr, hr₁]
    exact if_neg hbranches
  rw [kshmregionIncref, hincref]
  simp only [bind, Except.bind]
  by_cases hfull : ∃ k, clsMin ≤ k ∧ k ≤ clsMax ∧ r.scRefcnt k = 4294967295
  · obtain ⟨k, hk₁, hk₂, hk⟩ := hfull
    rcases kshmregionIncrefClusters_overflow hself (hclusterc ▸ hmax) (hrefcnt ▸ hlive) hk₁ hk₂
        (hrefcnt ▸ hk) with ⟨hfirst, hcall⟩ | ⟨hfirst, hcall⟩
    · -- only the branch was counted, and it is taken away again
      rw [hrefcnt] at hfirst
      refine iff_of_true ?_ fun _ => hfirst
      simp only [hcall, Mem.region_of hself, if_neg (show ¬r₁.sreBranches ≤ 1 by omega)]
      refine ⟨_, _, rfl, fun _ => ⟨⟨_, Mem.setRegion_self .., ?_, ?_, ?_⟩, rfl⟩⟩
      · exact fun c => by rw [hrefcnt]
      · show r₁.sreBranches - 1 = _
        omega
      · show r₁.sreClustera = _
        rw [hr₁]
    · -- the branch is taken away twice
      rw [hrefcnt] at hfirst
      refine iff_of_false ?_ fun h => hfirst (h ⟨k, hk₁, hk₂, hk⟩)
      rintro ⟨error, m', hval, hkept⟩
      have hdecref : decrefBranches (m.setRegion rid r₁) rid = .ok (m.setRegion rid r) := by
        rw [decrefBranches, Mem.region_of hself]
        simp only [bind, Except.bind, if_neg (show ¬r₁.sreBranches = 0 by omega),
          if_neg (show ¬r₁.sreBranches = 1 by omega), Mem.setRegion_setRegion]
        rw [hr₁]
        rfl
      rw [hcall, hdecref] at hval
      simp only [Except.map, Mem.region_of (Mem.setRegion_self m rid r)] at hval
      by_cases hone : r.sreBranches ≤ 1
      · rw [if_pos hone] at hval
        cases hval
      rw [if_neg hone] at hval
      cases hval
      obtain ⟨⟨r', hr', -, hsame, -⟩, -⟩ := hkept rfl
      rw [Mem.setRegion_self] at hr'
      cases hr'
      dsimp only at hsame
      omega
  · refine iff_of_true ?_ fun h => absurd h hfull
    rcases increfLoop_eq (clsMax - clsMin + 1) clsMin hself (by omega)
        (fun c h₁ h₂ => by rw [hrefcnt]; exact hlive c h₁ (by omega)) with
      ⟨-, m', hrun⟩ | ⟨k, hk₁, hk₂, hk, -⟩
    · rw [kshmregionIncrefClusters, if_pos hle]
      simp only [hrun, bind, Except.bind]
      exact ⟨.keOk, m', rfl, fun h => by cases h⟩
    · exact absurd ⟨k, hk₁, by omega, hrefcnt ▸ hk⟩ hfull

end

/-- A region of two clusters; the counter of the second one is full. -/
def fullRegion : Region where
  scFlags := ⟨false, true, true, true, false, false, false, false⟩
  scPages := 32
  scPartv := [⟨256, 0, 32⟩]
  sreOrigin := none
  sreBranches := 4294967295
  sreClustera := 2
  sreClusterc := 2
  scRefcnt := fun c => if c = 0 then 7 else 4294967295
  scPart := fun _ => 0

/-- Memory with this region. -/
def fullMem : Mem Unit :=
  ⟨fun rid => if rid = 0 then some fullRegion else none, 1,
    fun f => decide (256 ≤ f ∧ f < 288), fun _ => false, fun _ => ()⟩

/-- References to both clusters cannot be had, and the call takes a branch away. -/
theorem kshmregionIncref_loses_branch :
    (∃ m', kshmregionIncref fullMem 0 0 1 = .ok (.keOverflow, m') ∧
      (m'.regions 0).map Region.sreBranches = some 4294967294) ∧
    (fullMem.regions 0).map Region.sreBranches = some 4294967295 ∧
    ¬RollsBack fullMem 0 fullRegion (kshmregionIncref fullMem 0 0 1) := by
  have hcall : ∃ m', kshmregionIncref fullMem 0 0 1 = .ok (.keOverflow, m') ∧
      (m'.regions 0).map Region.sreBranches = some 4294967294 := ⟨_, rfl, rfl⟩
  refine ⟨hcall, rfl, ?_⟩
  obtain ⟨m', hval, hbranches⟩ := hcall
  rintro ⟨error, m'', hval', hkept⟩
  rw [hval] at hval'
  cases hval'
  obtain ⟨⟨r', hr', -, hsame, -⟩, -⟩ := hkept rfl
  rw [hr', Option.map_some, hsame] at hbranches
  exact absurd (Option.some.inj hbranches) (by decide)

/-- References to the second cluster alone cannot be had either, and nothing is left of the
call. -/
theorem kshmregionIncref_rollsBack_single :
    FirstIsFull fullRegion 1 1 ∧
      RollsBack fullMem 0 fullRegion (kshmregionIncref fullMem 0 1 1) := by
  have hfirst : FirstIsFull fullRegion 1 1 := fun _ => rfl
  refine ⟨hfirst, (kshmregionIncref_rollsBack_iff rfl (Nat.le_refl 1) (by decide) ?_
    (by decide)).mpr hfirst⟩
  intro c h₁ h₂
  obtain rfl : c = 1 := by omega
  decide

end KosKernel.Shm
