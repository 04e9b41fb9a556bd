import KosKernel.Shm.Tally
import KosKernel.Shm.Unmap
import KosKernel.Shm.BranchTree

/-!
# KosKernel.Shm.Ledger

The **branches that the counters count**: a cluster has as many references as there are
branches whose cluster range has it, a region as many as there are branches of it, in
all address spaces together.

A branch that is trimmed, split or dropped changes the counters by what it covers less.
-/

namespace KosKernel.Shm

open Function WindowTree PageFrame List

variable {α : Type} {m m' : Mem α} {b b' : Branch} {bs bs' : List Branch} {rid c : Nat}

/-- The cluster range of the branch has the cluster. -/
def Covers (b : Branch) (rid c : Nat) : Prop :=
  b.sbRegion = rid ∧ b.sbClusterMin ≤ c ∧ c ≤ b.sbClusterMax

instance (b : Branch) (rid c : Nat) : Decidable (Covers b rid c) :=
  inferInstanceAs (Decidable (_ ∧ _))

/-- The number of branches that cover a cluster. -/
def coverCount (bs : List Branch) (rid c : Nat) : Nat := bs.countP fun b => Covers b rid c

/-- The number of branches of a region. -/
def branchCount (bs : List Branch) (rid : Nat) : Nat := bs.countP fun b => b.sbRegion = rid

/-- The counters count these branches. A branch takes up memory of its own, so there are
fewer of them than a counter can count. -/
structure Ledger (m : Mem α) (bs : List Branch) : Prop where
  tally : Tally m (coverCount bs) (branchCount bs)
  few : bs.length < 4294967295

theorem coverCount_cons (b : Branch) (bs : List Branch) (rid c : Nat) :
    coverCount (b :: bs) rid c = coverCount bs rid c + if Covers b rid c then 1 else 0 := by
  simp [coverCount, countP_cons]

theorem branchCount_cons (b : Branch) (bs : List Branch) (rid : Nat) :
    branchCount (b :: bs) rid = branchCount bs rid + if b.sbRegion = rid then 1 else 0 := by
  simp [branchCount, countP_cons]

/-- A cluster that is covered belongs to a region that has a branch. -/
theorem coverCount_eq_zero (h : branchCount bs rid = 0) (c : Nat) : coverCount bs rid c = 0 := by
  rw [branchCount, countP_eq_zero] at h
  rw [coverCount, countP_eq_zero]
  intro b hb hc
  have hcov : Covers b rid c := by simpa using hc
  exact h b hb (by simpa using hcov.1)

theorem coverCount_pos (hb : b ∈ bs) (hc : Covers b rid c) : coverCount bs rid c ≠ 0 := by
  have : 0 < coverCount bs rid c := countP_pos_iff.mpr ⟨b, hb, by simpa using hc⟩
  omega

theorem branchCount_pos (hb : b ∈ bs) : branchCount bs b.sbRegion ≠ 0 := by
  have : 0 < branchCount bs b.sbRegion := countP_pos_iff.mpr ⟨b, hb, by simp⟩
  omega

namespace Ledger

theorem perm (h : Ledger m bs) (hp : bs.Perm bs') : Ledger m bs' := by
  have hc : coverCount bs' = coverCount bs := by
    funext rid c
    exact (hp.countP_eq _).symm
  have hb : branchCount bs' = branchCount bs := by
    funext rid
    exact (hp.countP_eq _).symm
  exact ⟨by rw [hc, hb]; exact h.tally, hp.length_eq ▸ h.few⟩

theorem region (h : Ledger m bs) (hb : b ∈ bs) : ∃ r, m.regions b.sbRegion = some r :=
  h.tally.brs_live _ (branchCount_pos hb)

theorem decref (h : Ledger m (b :: bs)) (hle : b.sbClusterMin ≤ b.sbClusterMax) :
    ∃ m', kshmregionDecref m b.sbRegion b.sbClusterMin b.sbClusterMax = .ok m' ∧ Ledger m' bs ∧
      Evolves m m' := by
  obtain ⟨m1, hval1, h1, hev1⟩ := h.tally.kshmregionDecrefClusters hle
    fun c hlo hhi => coverCount_pos (mem_cons_self ..) ⟨rfl, hlo, hhi⟩
  have hcnt : decrRange (coverCount (b :: bs)) b.sbRegion b.sbClusterMin
      (b.sbClusterMax - b.sbClusterMin + 1) = coverCount bs := by
    funext i j
    unfold decrRange
    rw [coverCount_cons]
    by_cases hcov : Covers b i j
    · obtain ⟨rfl, hlo, hhi⟩ := id hcov
      rw [if_pos hcov, if_pos (by omega)]
      omega
    rw [if_neg hcov, if_neg]
    · rfl
    · rintro ⟨rfl, hlo, hhi⟩
      exact hcov ⟨rfl, hlo, by omega⟩
  rw [hcnt] at h1
  have hbr : branchCount (b :: bs) b.sbRegion = branchCount bs b.sbRegion + 1 := by
    rw [branchCount_cons, if_pos rfl]
  obtain ⟨m2, hval2, h2, hev2⟩ := h1.decrefBranches
    (branchCount_pos (mem_cons_self ..))
    fun hone => coverCount_eq_zero (by omega)
  have hbrs : update (branchCount (b :: bs)) b.sbRegion
      (branchCount (b :: bs) b.sbRegion - 1) = branchCount bs := by
    funext i
    by_cases hi : i = b.sbRegion
    · rw [hi, update_self]
      omega
    · rw [update_of_ne hi, branchCount_cons, if_neg (Ne.symm hi), Nat.add_zero]
  rw [hbrs] at h2
  have hfew := h.few
  rw [length_cons] at hfew
  refine ⟨m2, ?_, ⟨h2, by omega⟩, hev1.trans hev2⟩
  rw [Shm.kshmregionDecref, hval1]
  exact hval2

theorem narrow (h : Ledger m (b :: bs)) (b' : Branch) (lo hi : Nat) (hle : lo ≤ hi)
    (hregion : b'.sbRegion = b.sbRegion)
    (hcov : ∀ c, Covers b b.sbRegion c ↔ Covers b' b.sbRegion c ∨ lo ≤ c ∧ c ≤ hi)
    (hapart : ∀ c, Covers b' b.sbRegion c → ¬(lo ≤ c ∧ c ≤ hi)) :
    ∃ m', kshmregionDecrefClusters m b.sbRegion lo hi = .ok m' ∧ Ledger m' (b' :: bs) ∧
      Evolves m m' := by
  obtain ⟨m1, hval, h₁, hev⟩ := h.tally.kshmregionDecrefClusters hle
    fun c hlo hhi => coverCount_pos (mem_cons_self ..) ((hcov c).mpr (.inr ⟨hlo, hhi⟩))
  have hcnt : decrRange (coverCount (b :: bs)) b.sbRegion lo (hi - lo + 1) =
      coverCount (b' :: bs) := by
    funext i j
    unfold decrRange
    rw [coverCount_cons, coverCount_cons]
    by_cases hi : i = b.sbRegion
    · subst hi
      have h1 := hcov j
      have h2 := hapart j
      by_cases hr : lo ≤ j ∧ j ≤ hi
      · rw [if_pos (by omega), if_pos (h1.mpr (.inr hr)), if_neg fun hc => h2 hc hr]
        omega
      · rw [if_neg (by omega)]
        simp only [h1, hr, or_false]
    · rw [if_neg fun hh => hi hh.1, if_neg fun hh => hi hh.1.symm,
        if_neg fun hh => hi (hregion ▸ hh.1.symm)]
  have hbrs : branchCount (b :: bs) = branchCount (b' :: bs) := by
    funext i
    rw [branchCount_cons, branchCount_cons, hregion]
  rw [hcnt, hbrs] at h₁
  exact ⟨m1, hval, ⟨h₁, h.few⟩, hev⟩

theorem congr (h : Ledger m (b :: bs)) (hregion : b'.sbRegion = b.sbRegion)
    (hmin : b'.sbClusterMin = b.sbClusterMin) (hmax : b'.sbClusterMax = b.sbClusterMax) :
    Ledger m (b' :: bs) := by
  have hcov : ∀ i j, Covers b' i j ↔ Covers b i j := fun i j => by
    rw [Covers, Covers, hregion, hmin, hmax]
  have hcnt : coverCount (b' :: bs) = coverCount (b :: bs) := by
    funext i j
    rw [coverCount_cons, coverCount_cons]
    simp only [hcov]
  have hbrs : branchCount (b' :: bs) = branchCount (b :: bs) := by
    funext i
    rw [branchCount_cons, branchCount_cons, hregion]
  exact ⟨by rw [hcnt, hbrs]; exact h.tally, h.few⟩

end Ledger

end KosKernel.Shm
