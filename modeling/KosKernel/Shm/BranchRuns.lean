import KosKernel.Shm.BranchTree

/-!
# KosKernel.Shm.BranchRuns

**Whole runs on a branch tree.** What the tree is for is a set of disjoint leaves
with a lookup by address. `Run t leaves` is every tree reached from the empty one
by inserting disjoint leaves, removing by address and popping by position, next
to the leaves it should hold.
-/

namespace KosKernel.Shm

open WindowTree PageFrame List

/-- Every branch lies in the window of the semi-address and level it is stored
at, and its level leaves room for a further descent. -/
def InWindows : Tree Branch → Nat → Nat → Prop
  | .nil, _, _ => True
  | .node b mn mx, semi, level =>
    mapMin semi level ≤ b.sbMapMin ∧ b.sbMapMax ≤ mapMax semi level ∧ 11 ≤ level ∧
      InWindows mn (walkMin semi level) (level - 1) ∧
      InWindows mx (walkMax semi level) (level - 1)

/-- The trees of all runs, each with the leaves inserted and not yet removed. -/
inductive Run : Tree Branch → List Branch → Prop
  | start : Run .nil []
  | insert {t t' : Tree Branch} {leaves : List Branch} {b : Branch} : Run t leaves →
      Leaf b → b.sbMapMax < addrSpace → (∀ c ∈ leaves, Disj b c) →
      kshmbranchInsert t b addrSemiInit addrLevelInit = .ok t' → Run t' (b :: leaves)
  | remove {t t' : Tree Branch} {leaves : List Branch} {addr : Nat} {r : Option Branch} :
      Run t leaves → addr < addrSpace → kshmbranchRemove t addr = .ok (r, t') →
      Run t' (leaves.filter (fun b => ¬Maps b addr))
  | popone {t t' : Tree Branch} {leaves : List Branch} {path : List Side} {b r : Branch} :
      Run t leaves → branchAt path t = some b →
      poponeAt path t addrSemiInit addrLevelInit = .ok (r, t') → Run t' (leaves.erase b)

/-! ### The invariant -/

/-- A whole tree: stored at the window of all addresses, over the given leaves. -/
structure Holds (t : Tree Branch) (leaves : List Branch) : Prop where
  stored : StoredAt 0 addrLevelInit t
  disj : Leaves t
  perm : t.toList.Perm leaves

variable {b : Branch}

theorem inWindow_init (h : b.sbMapMax < addrSpace) : InWindow 0 addrLevelInit b :=
  ⟨Nat.zero_le _, by simpa [addrLevelInit, addrSpace] using h⟩

variable {t : Tree Branch} {leaves : List Branch}

theorem Holds.insert (h : Holds t leaves) (hb : Leaf b) (hmax : b.sbMapMax < addrSpace)
    (hapart : ∀ c ∈ leaves, Disj b c) :
    ∃ t', kshmbranchInsert t b addrSemiInit addrLevelInit = .ok t' ∧ Holds t' (b :: leaves) := by
  obtain ⟨t', hEq, hst', hlv', hperm⟩ := kshmbranchInsert_spec window_init h.stored h.disj hb
    (inWindow_init hmax) (fun c hc => hapart c (h.perm.mem_iff.mp hc))
  exact ⟨t', hEq, hst', hlv', hperm.trans (h.perm.cons b)⟩

theorem Leaves.of_cons {t' : Tree Branch} (h : t.toList.Perm (b :: t'.toList)) (hlv : Leaves t) :
    Leaves t' := by
  have hapart := h.pairwise hlv.apart (fun h => h.symm)
  exact ⟨fun c hc => hlv.leaf c (h.mem_iff.mpr (by simp [hc])), (pairwise_cons.mp hapart).2⟩

/-- The leaf that maps an address is the only one the filter drops. -/
theorem filter_maps_perm {t' : Tree Branch} {addr : Nat} (h : Holds t leaves) (hb : Maps b addr)
    (hw : t.toList.Perm (b :: t'.toList)) :
    t'.toList.Perm (leaves.filter (fun c => ¬Maps c addr)) := by
  have hapart := pairwise_cons.mp (hw.pairwise h.disj.apart (fun h => h.symm))
  have hkeep : t'.toList.filter (fun c => ¬Maps c addr) = t'.toList := by
    rw [filter_eq_self]
    intro c hc
    have := hapart.1 c hc
    refine decide_eq_true fun hm => ?_
    simp only [Disj, Apart, Maps] at this hb hm
    omega
  have hperm := (h.perm.symm.trans hw).filter (fun c => ¬Maps c addr)
  rw [filter_cons_of_neg (by simp [hb]), hkeep] at hperm
  exact hperm.symm

theorem Holds.remove {addr : Nat} (h : Holds t leaves) (haddr : addr < addrSpace) :
    ∃ r t', kshmbranchRemove t addr = .ok (r, t') ∧ Found t addr r ∧
      Holds t' (leaves.filter (fun b => ¬Maps b addr)) := by
  obtain ⟨r, t', hEq, hr, hw, hst'⟩ := removeLoop_spec window_init h.stored h.disj
    (Nat.zero_le addr) (by simpa [addrLevelInit, addrSpace] using haddr)
  refine ⟨r, t', hEq, hr, hst', ?_, ?_⟩
  · cases r with
    | none => exact hw ▸ h.disj
    | some b => exact Leaves.of_cons hw h.disj
  · cases r with
    | none =>
      have hall : leaves.filter (fun b => ¬Maps b addr) = leaves := by
        rw [filter_eq_self]
        intro b hb
        simpa using hr b (h.perm.mem_iff.mpr hb)
      rw [hall]
      exact hw ▸ h.perm
    | some b => exact filter_maps_perm h hr.2 hw

theorem Holds.popone {path : List Side} (h : Holds t leaves) (hat : branchAt path t = some b) :
    ∃ t', poponeAt path t addrSemiInit addrLevelInit = .ok (b, t') ∧
      Holds t' (leaves.erase b) := by
  obtain ⟨t', hEq, hst', hperm⟩ := poponeAt_spec window_init h.stored h.disj hat
  refine ⟨t', hEq, hst', Leaves.of_cons hperm h.disj, ?_⟩
  have := (h.perm.symm.trans hperm).erase b
  rw [erase_cons_head] at this
  exact this.symm

theorem Run.holds (h : Run t leaves) : Holds t leaves := by
  induction h with
  | start => exact ⟨fits_nil, leaves_nil, List.Perm.refl _⟩
  | insert _ hb hmax hapart hEq ih =>
    obtain ⟨t', hEq', ht'⟩ := ih.insert hb hmax hapart
    rw [hEq] at hEq'
    cases hEq'
    exact ht'
  | remove _ haddr hEq ih =>
    obtain ⟨r, t', hEq', -, ht'⟩ := ih.remove haddr
    rw [hEq] at hEq'
    cases hEq'
    exact ht'
  | popone _ hat hEq ih =>
    obtain ⟨t', hEq', ht'⟩ := ih.popone hat
    rw [hEq] at hEq'
    cases hEq'
    exact ht'

theorem inWindows_of_stored : ∀ {semi level base : Nat}, Window semi level base →
    StoredAt base level t → Leaves t → InWindows t semi level := by
  induction t with
  | nil => exact fun _ _ _ => trivial
  | node b mn mx ihmn ihmx =>
    intro semi level base hwin hst hlv
    obtain ⟨hlo, hhi⟩ := hst.bounds b (by simp)
    obtain ⟨l, rfl, hl⟩ := exists_level hst hlv
    refine ⟨?_, ?_, by omega, ihmn hwin.walkMin hst.2.2.1 hlv.min,
      ihmx hwin.walkMax hst.2.2.2 hlv.max⟩
    · rw [hwin.mapMin_eq]
      exact hlo
    · rw [hwin.mapMax_eq]
      omega

/-- **The branch tree is a set of leaves with lookup by address.** In every run:
the tree holds exactly the leaves inserted and not yet removed, each in the window
it is stored at; `kshmbranch_locate` finds the one leaf that maps an address, or
none; and every further call succeeds, so no descent runs out of levels. -/
theorem kshmbranch_run {t : Tree Branch} {leaves : List Branch} (h : Run t leaves) :
    t.toList.Perm leaves ∧ InWindows t addrSemiInit addrLevelInit ∧
    (∀ addr < addrSpace,
      (∃ b, kshmbranchLocate t addr = .ok (some b) ∧ b ∈ leaves ∧ Maps b addr ∧
        ∀ c ∈ leaves, Maps c addr → c = b) ∨
      (kshmbranchLocate t addr = .ok none ∧ ∀ c ∈ leaves, ¬Maps c addr)) ∧
    (∀ b, Leaf b → b.sbMapMax < addrSpace → (∀ c ∈ leaves, Disj b c) →
      ∃ t', kshmbranchInsert t b addrSemiInit addrLevelInit = .ok t') ∧
    (∀ addr < addrSpace, ∃ r t', kshmbranchRemove t addr = .ok (r, t') ∧
      kshmbranchLocate t addr = .ok r) ∧
    ∀ path b, branchAt path t = some b →
      ∃ t', poponeAt path t addrSemiInit addrLevelInit = .ok (b, t') := by
  have hh := h.holds
  have huniq : ∀ {b c : Branch} {addr : Nat}, b ∈ t.toList → c ∈ t.toList → Maps b addr →
      Maps c addr → c = b :=
    fun hb hc hmb hmc => unique_of_apart hh.disj.apart hc hb hmc hmb
  refine ⟨hh.perm, inWindows_of_stored window_init hh.stored hh.disj, ?_, ?_, ?_, ?_⟩
  · intro addr _
    obtain ⟨r, hEq, hr⟩ := locateLoop_spec window_init hh.stored hh.disj
    cases r with
    | none => exact .inr ⟨hEq, fun c hc => hr c (hh.perm.mem_iff.mpr hc)⟩
    | some b =>
      exact .inl ⟨b, hEq, hh.perm.mem_iff.mp hr.1, hr.2,
        fun c hc hm => huniq hr.1 (hh.perm.mem_iff.mpr hc) hr.2 hm⟩
  · intro b hb hmax hapart
    obtain ⟨t', hEq, -⟩ := hh.insert hb hmax hapart
    exact ⟨t', hEq⟩
  · intro addr haddr
    obtain ⟨r, t', hEq, hr, -⟩ := hh.remove haddr
    obtain ⟨r', hEq', hr'⟩ := locateLoop_spec window_init hh.stored hh.disj
    refine ⟨r, t', hEq, ?_⟩
    -- Both searches find the one leaf there is, or neither finds any.
    have hsame : r' = r := by
      cases r with
      | none =>
        cases r' with
        | none => rfl
        | some c => exact absurd hr'.2 (hr c hr'.1)
      | some b =>
        cases r' with
        | none => exact absurd hr.2 (hr' b hr.1)
        | some c => rw [huniq hr.1 hr'.1 hr.2 hr'.2]
    rw [← hsame]
    exact hEq'
  · intro path b hat
    obtain ⟨t', hEq, -⟩ := hh.popone hat
    exact ⟨t', hEq⟩

/-- A leaf that covers the semi-address of the whole space displaces the page
inserted before it. -/
theorem kshmbranch_run_displaced :
    let low : Branch := ⟨0x1000, 0x1fff, 0, 1, 0, 0, 0⟩
    let mid : Branch := ⟨0x7ffff000, 0x80000fff, 0, 2, 1, 0, 0⟩
    kshmbranchInsert (.node low .nil .nil) mid addrSemiInit addrLevelInit =
        .ok (.node mid (.node low .nil .nil) .nil) ∧
      InWindows (.node mid (.node low .nil .nil) .nil) addrSemiInit addrLevelInit := by
  intro low mid
  have hlow : Run (.node low .nil .nil) [low] :=
    Run.insert (b := low) Run.start (by constructor <;> decide) (by decide) (by simp) (by decide)
  have hmid : Run (.node mid (.node low .nil .nil) .nil) [mid, low] :=
    Run.insert (b := mid) hlow (by constructor <;> decide) (by decide) (by decide) (by decide)
  exact ⟨by decide, (kshmbranch_run hmid).2.1⟩

end KosKernel.Shm
