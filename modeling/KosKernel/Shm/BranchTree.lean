import KosKernel.Shm.Branch
import Mathlib.Tactic.Ring

/-!
# KosKernel.Shm.BranchTree

One specification lemma per function of the branch tree. The semi-address and
level of a position describe a window (`Window`); on windows the bit operations of
`KSHMBRANCH_WALKMIN` and friends are plain arithmetic, and the tree is an instance
of `WindowTree`.
-/

namespace KosKernel.Shm

open WindowTree PageFrame List

/-! ### Windows -/

/-- `semi` and `level` describe the window of `2 ^ (level + 1)` addresses from `base`. -/
structure Window (semi level base : Nat) : Prop where
  semi_eq : semi = base + 2 ^ level
  aligned : 2 ^ (level + 1) ∣ base
  in_space : base + 2 ^ (level + 1) ≤ 2 ^ 32

theorem window_init : Window addrSemiInit addrLevelInit 0 := by
  constructor <;> decide

variable {semi level base : Nat}

/-- Clearing the level's bit of the semi-address leads to the start of the window. -/
theorem Window.clear_bit (h : Window semi level base) : semi &&& bitNot (1 <<< level) = base := by
  obtain ⟨rfl, ⟨k, rfl⟩, hle⟩ := h
  have hpos : 2 ^ level < 2 ^ (level + 1) := Nat.pow_lt_pow_right (by decide) (by omega)
  have hlt : 2 ^ level < 2 ^ 32 := by omega
  refine Nat.eq_of_testBit_eq fun i => ?_
  rw [Nat.testBit_and, bitNot, Nat.one_shiftLeft, Nat.testBit_two_pow_sub_succ hlt,
    Nat.testBit_two_pow_mul_add _ hpos, Nat.testBit_two_pow_mul, Nat.testBit_two_pow]
  by_cases hi : i < level + 1
  · -- Below the window's bits only the level's own bit is set, and it is cleared.
    by_cases hil : level = i
    · simp [hil]
    · simp [hi, hil, Nat.not_le.mpr hi]
  by_cases hbit : k.testBit (i - (level + 1))
  · have hi32 : i < 32 := by
      by_contra hge
      have hk : 2 ^ (i - (level + 1)) ≤ k := Nat.ge_two_pow_of_testBit hbit
      have hmul := Nat.mul_le_mul_left (2 ^ (level + 1)) hk
      rw [← Nat.pow_add, Nat.add_sub_of_le (by omega)] at hmul
      have := Nat.pow_le_pow_right (n := 2) (by decide) (Nat.le_of_not_lt hge)
      omega
    have hne : ¬level = i := by omega
    simp [hi, hi32, hne, hbit, Nat.le_of_not_lt hi]
  · simp [hi, hbit]

theorem Window.mapMin_eq (h : Window semi level base) :
    mapMin semi level = base := h.clear_bit

theorem Window.mapMax_eq (h : Window semi level base) :
    mapMax semi level = base + 2 ^ (level + 1) - 1 := by
  obtain ⟨rfl, ⟨k, rfl⟩, -⟩ := h
  have hpos := Nat.two_pow_pos level
  have hlt : 2 ^ level - 1 < 2 ^ level := by omega
  have hshape : 2 ^ (level + 1) * k + 2 ^ level = 2 ^ level * (2 * k + 1) := by ring
  rw [mapMax, Nat.one_shiftLeft, hshape, ← Nat.two_pow_add_eq_or_of_lt hlt, ← hshape]
  omega

theorem Window.walkMin (h : Window semi (level + 1) base) :
    Window (walkMin semi (level + 1)) level base := by
  have hle := h.in_space
  refine ⟨?_, Nat.dvd_trans (Nat.pow_dvd_pow 2 (by omega)) h.aligned, ?_⟩
  · have hlt : 2 ^ level < 2 ^ (level + 2) := Nat.pow_lt_pow_right (by decide) (by omega)
    obtain ⟨k, hk⟩ := h.aligned
    rw [Shm.walkMin, h.clear_bit, Nat.add_sub_cancel, Nat.one_shiftLeft, hk,
      ← Nat.two_pow_add_eq_or_of_lt hlt]
  · rw [Nat.pow_succ] at hle ⊢
    omega

theorem Window.walkMax (h : Window semi (level + 1) base) :
    Window (walkMax semi (level + 1)) level (base + 2 ^ (level + 1)) := by
  have hle := h.in_space
  obtain ⟨k, hk⟩ := h.aligned
  have hshape : base + 2 ^ (level + 1) = 2 ^ (level + 1) * (2 * k + 1) := by rw [hk]; ring
  refine ⟨?_, ⟨2 * k + 1, hshape⟩, by omega⟩
  have hlt : 2 ^ level < 2 ^ (level + 1) := Nat.pow_lt_pow_right (by decide) (by omega)
  rw [Shm.walkMax, h.semi_eq, Nat.add_sub_cancel, Nat.one_shiftLeft, hshape,
    ← Nat.two_pow_add_eq_or_of_lt hlt]

/-! ### Leaves and trees -/

/-- A page-aligned leaf. -/
structure Leaf (b : Branch) : Prop where
  aligned_min : b.sbMapMin % pageSize = 0
  aligned_max : (b.sbMapMax + 1) % pageSize = 0
  ordered : b.sbMapMin ≤ b.sbMapMax

/-- The leaf lies in the window of a position. -/
def InWindow (base level : Nat) (b : Branch) : Prop :=
  base ≤ b.sbMapMin ∧ b.sbMapMax < base + 2 ^ (level + 1)

/-- Two leaves map no common address. -/
abbrev Disj : Branch → Branch → Prop := Apart Branch.sbMapMin Branch.sbMapMax

/-- A tree stored at the window of a position. -/
abbrev StoredAt (base level : Nat) (t : Tree Branch) : Prop :=
  Fits Branch.sbMapMin Branch.sbMapMax base level t

/-- A tree of disjoint page-aligned leaves. -/
structure Leaves (t : Tree Branch) : Prop where
  leaf : ∀ b ∈ t.toList, Leaf b
  apart : t.toList.Pairwise Disj

theorem leaves_nil : Leaves .nil := ⟨by simp, by simp⟩

variable {b : Branch} {mn mx : Tree Branch}

theorem Leaves.min (h : Leaves (.node b mn mx)) : Leaves mn := by
  have hapart := h.apart
  simp only [Tree.toList_node, pairwise_cons, pairwise_append] at hapart
  exact ⟨fun c hc => h.leaf c (by simp [hc]), hapart.2.1⟩

theorem Leaves.max (h : Leaves (.node b mn mx)) : Leaves mx := by
  have hapart := h.apart
  simp only [Tree.toList_node, pairwise_cons, pairwise_append] at hapart
  exact ⟨fun c hc => h.leaf c (by simp [hc]), hapart.2.2.1⟩

variable {t : Tree Branch}

theorem Leaves.of_perm {t' : Tree Branch} {l : List Branch} (h : t'.toList.Perm (l ++ t.toList))
    (ht : Leaves t) (hl : ∀ b ∈ l, Leaf b) (hapart : l.Pairwise Disj)
    (hcross : ∀ b ∈ l, ∀ c ∈ t.toList, Disj b c) : Leaves t' := by
  refine ⟨?_, h.symm.pairwise ?_ (fun h => h.symm)⟩
  · intro b hb
    rcases mem_append.mp (h.mem_iff.mp hb) with hb | hb
    · exact hl b hb
    · exact ht.leaf b hb
  · exact pairwise_append.mpr ⟨hapart, ht.apart, hcross⟩

/-- A leaf takes at least a page of its window. -/
theorem InWindow.level_ge (hw : InWindow base level b) (hb : Leaf b) : 11 ≤ level := by
  by_contra hlt
  have hpow := Nat.pow_le_pow_right (n := 2) (by decide) (show level + 1 ≤ 11 by omega)
  have h1 := hb.aligned_min
  have h2 := hb.aligned_max
  have h3 := hb.ordered
  unfold InWindow at hw
  unfold pageSize at h1 h2
  omega

/-! ### Insertion -/

/-- Reinserting a subtree with an insertion that works on the trees in `P` and
the leaves in `Q` adds exactly the leaves of the subtree. -/
theorem kshmbranchReinsertall_spec {insert : Tree Branch → Branch → Except Fault (Tree Branch)}
    {P : Tree Branch → Prop} {Q : Branch → Prop}
    (hins : ∀ t b, P t → Q b → (∀ c ∈ t.toList, Disj b c) →
      ∃ t', insert t b = .ok t' ∧ P t' ∧ t'.toList.Perm (b :: t.toList))
    (u : Tree Branch) : ∀ t, P t → (∀ b ∈ u.toList, Q b) → u.toList.Pairwise Disj →
      (∀ b ∈ u.toList, ∀ c ∈ t.toList, Disj b c) →
      ∃ t', kshmbranchReinsertall insert t u = .ok t' ∧ P t' ∧
        t'.toList.Perm (u.toList ++ t.toList) := by
  induction u with
  | nil => exact fun t ht _ _ _ => ⟨t, rfl, ht, List.Perm.refl _⟩
  | node b mn mx ihmn ihmx =>
    intro t ht hQ hapart hcross
    simp only [Tree.toList_node, pairwise_cons, pairwise_append, mem_append]
      at hapart
    obtain ⟨hb, hmn, hmx, hmm⟩ := hapart
    -- First the lower half, then the upper half, then the root itself.
    obtain ⟨t1, h1, hP1, hp1⟩ := ihmn t ht (fun c hc => hQ c (by simp [hc])) hmn
      (fun c hc => hcross c (by simp [hc]))
    obtain ⟨t2, h2, hP2, hp2⟩ := ihmx t1 hP1 (fun c hc => hQ c (by simp [hc])) hmx (by
      intro c hc d hd
      rcases mem_append.mp (hp1.mem_iff.mp hd) with hd | hd
      · exact (hmm d hd c hc).symm
      · exact hcross c (by simp [hc]) d hd)
    have hp12 : t2.toList.Perm (mx.toList ++ (mn.toList ++ t.toList)) :=
      hp2.trans (hp1.append_left _)
    obtain ⟨t3, h3, hP3, hp3⟩ := hins t2 b hP2 (hQ b (by simp)) (by
      intro c hc
      have hc := hp12.mem_iff.mp hc
      simp only [mem_append] at hc
      rcases hc with hc | hc | hc
      · exact hb c (.inr hc)
      · exact hb c (.inl hc)
      · exact hcross b (by simp) c hc)
    refine ⟨t3, ?_, hP3, ?_⟩
    · simp [kshmbranchReinsertall, h1, h2, h3, bind, Except.bind]
    · refine hp3.trans ((hp12.trans ?_).cons b)
      rw [← append_assoc]
      exact perm_append_comm.append_right _

/-- `insertLoop` inserts at every position of a level. -/
def InsertsAt (level fuel : Nat) : Prop :=
  ∀ (t : Tree Branch) (b : Branch) (semi base : Nat), Window semi level base →
    StoredAt base level t → Leaves t → Leaf b → InWindow base level b →
    (∀ c ∈ t.toList, Disj b c) →
    ∃ t', insertLoop fuel t b semi level = .ok t' ∧ StoredAt base level t' ∧
      t'.toList.Perm (b :: t.toList)

/-- The window check at the head of the loop. -/
theorem Window.passes (h : Window semi level base) (hw : InWindow base level b) :
    ¬(b.sbMapMin < mapMin semi level ∨ mapMax semi level < b.sbMapMax) := by
  rw [h.mapMin_eq, h.mapMax_eq]
  unfold InWindow at hw
  omega

section

variable {fuel : Nat} {iter : Branch} (ih : InsertsAt level fuel)
  (hwin : Window semi (level + 1) base) (hst : StoredAt base (level + 1) (.node iter mn mx))
  (hlv : Leaves (.node iter mn mx)) (hb : Leaf b) (hw : InWindow base (level + 1) b)
  (hapart : ∀ c ∈ (WindowTree.Tree.node iter mn mx).toList, Disj b c)

include ih hwin hst hlv hb hw hapart

/-- A leaf that avoids the semi-address goes to one of the children. -/
theorem insertLoop_below (hsemi : ¬(b.sbMapMin ≤ semi ∧ semi ≤ b.sbMapMax)) :
    ∃ mn' mx', insertLoop (fuel + 1) (.node iter mn mx) b semi (level + 1) =
        .ok (.node iter mn' mx') ∧
      StoredAt base (level + 1) (.node iter mn' mx') ∧
      (WindowTree.Tree.node iter mn' mx').toList.Perm
        (b :: (WindowTree.Tree.node iter mn mx).toList) := by
  obtain ⟨hlo, hhi, hmn, hmx⟩ := hst
  have hiter := hapart iter (by simp)
  have hsemieq := hwin.semi_eq
  have hnov : ¬(b.sbMapMin ≤ iter.sbMapMax ∧ iter.sbMapMin ≤ b.sbMapMax) := by
    unfold Disj Apart at hiter
    omega
  rw [insertLoop]
  simp only [if_neg (hwin.passes hw), if_neg hnov, if_neg hsemi, Nat.add_eq_zero_iff,
    Nat.one_ne_zero, and_false, if_false, Nat.add_sub_cancel]
  unfold InWindow at hw
  by_cases hbelow : b.sbMapMax < semi
  · obtain ⟨mn', hEq, hst', hperm⟩ := ih mn b _ base hwin.walkMin hmn hlv.min hb
      ⟨hw.1, by omega⟩ (fun c hc => hapart c (by simp [hc]))
    refine ⟨mn', mx, ?_, ⟨hlo, hhi, hst', hmx⟩, Tree.perm_append_min (l := [_]) hperm⟩
    rw [if_pos hbelow, hEq]
    rfl
  obtain ⟨mx', hEq, hst', hperm⟩ := ih mx b _ _ hwin.walkMax hmx hlv.max hb
    ⟨by omega, by omega⟩ (fun c hc => hapart c (by simp [hc]))
  refine ⟨mn, mx', ?_, ⟨hlo, hhi, hmn, hst'⟩, Tree.perm_append_max (l := [_]) hperm⟩
  rw [if_neg hbelow, hEq]
  rfl

/-- A leaf that covers the semi-address becomes the root; what was stored here is
reinserted below it, and none of that covers the semi-address too. -/
theorem insertLoop_replace (hsemi : b.sbMapMin ≤ semi ∧ semi ≤ b.sbMapMax) :
    ∃ t', insertLoop (fuel + 2) (.node iter mn mx) b semi (level + 1) = .ok t' ∧
      StoredAt base (level + 1) t' ∧
      t'.toList.Perm (b :: (WindowTree.Tree.node iter mn mx).toList) := by
  have hiter := hapart iter (by simp)
  have hnov : ¬(b.sbMapMin ≤ iter.sbMapMax ∧ iter.sbMapMin ≤ b.sbMapMax) := by
    unfold Disj Apart at hiter
    omega
  have hins : ∀ t c, (StoredAt base (level + 1) t ∧ Leaves t ∧ ∃ l r, t = .node b l r) →
      (Leaf c ∧ InWindow base (level + 1) c) → (∀ d ∈ t.toList, Disj c d) →
      ∃ t', insertLoop (fuel + 1) t c semi (level + 1) = .ok t' ∧
        (StoredAt base (level + 1) t' ∧ Leaves t' ∧ ∃ l r, t' = .node b l r) ∧
        t'.toList.Perm (c :: t.toList) := by
    rintro t c ⟨hst, hlv, l, r, rfl⟩ ⟨hc, hwc⟩ hdisj
    have hcb := hdisj b (by simp)
    have havoid : ¬(c.sbMapMin ≤ semi ∧ semi ≤ c.sbMapMax) := by
      unfold Disj Apart at hcb
      omega
    obtain ⟨l', r', hEq, hst', hperm⟩ := insertLoop_below ih hwin hst hlv hc hwc hdisj havoid
    have hlv' := Leaves.of_perm (l := [c]) hperm hlv (by simpa using hc)
      (pairwise_singleton _ _) (by simpa using hdisj)
    exact ⟨_, hEq, ⟨hst', hlv', l', r', rfl⟩, hperm⟩
  have hroot : StoredAt base (level + 1) (.node b .nil .nil) := ⟨hw.1, hw.2, fits_nil, fits_nil⟩
  obtain ⟨t', hEq, ⟨hst', -, -⟩, hperm⟩ := kshmbranchReinsertall_spec hins (.node iter mn mx)
    (.node b .nil .nil) ⟨hroot, ⟨by simpa using hb, by simp⟩, _, _, rfl⟩
    (fun c hc => ⟨hlv.leaf c hc, hst.bounds c hc⟩) hlv.apart
    (fun c hc => by simpa using (hapart c hc).symm)
  refine ⟨t', ?_, hst', hperm.trans perm_append_comm⟩
  rw [insertLoop]
  simp only [if_neg (hwin.passes hw), if_neg hnov, if_pos hsemi]
  exact hEq

end

theorem insertLoop_inserts (level : Nat) : ∀ fuel, insertFuel level ≤ fuel →
    InsertsAt level fuel := by
  induction level with
  | zero =>
    intro fuel hfuel t b semi base hwin hst hlv hb hw hapart
    have := hw.level_ge hb
    omega
  | succ level ih =>
    intro fuel hfuel t b semi base hwin hst hlv hb hw hapart
    obtain ⟨f, rfl⟩ : ∃ f, fuel = f + 2 := ⟨fuel - 2, by unfold insertFuel at hfuel; omega⟩
    unfold insertFuel at hfuel
    cases t with
    | nil =>
      refine ⟨.node b .nil .nil, ?_, ⟨hw.1, hw.2, fits_nil, fits_nil⟩, by simp⟩
      rw [insertLoop]
      simp only [if_neg (hwin.passes hw)]
    | node iter mn mx =>
      by_cases hsemi : b.sbMapMin ≤ semi ∧ semi ≤ b.sbMapMax
      · exact insertLoop_replace (ih f (by unfold insertFuel; omega)) hwin hst hlv hb hw
          hapart hsemi
      obtain ⟨mn', mx', hEq, hst', hperm⟩ := insertLoop_below
        (ih (f + 1) (by unfold insertFuel; omega)) hwin hst hlv hb hw hapart hsemi
      exact ⟨_, hEq, hst', hperm⟩

/-- **Specification of `kshmbranch_insert`** for a leaf that is disjoint from
those present. -/
theorem kshmbranchInsert_spec (hwin : Window semi level base) (hst : StoredAt base level t)
    (hlv : Leaves t) (hb : Leaf b) (hw : InWindow base level b)
    (hapart : ∀ c ∈ t.toList, Disj b c) :
    ∃ t', kshmbranchInsert t b semi level = .ok t' ∧ StoredAt base level t' ∧ Leaves t' ∧
      t'.toList.Perm (b :: t.toList) := by
  obtain ⟨t', hEq, hst', hperm⟩ :=
    insertLoop_inserts level _ le_rfl t b semi base hwin hst hlv hb hw hapart
  exact ⟨t', hEq, hst', Leaves.of_perm (l := [b]) hperm hlv (by simpa using hb)
    (pairwise_singleton _ _) (by simpa using hapart), hperm⟩

/-! ### Removal -/

/-- **Specification of `kshmbranch_popone`**: the branches below the popped one
stay. -/
theorem kshmbranchPopone_spec (hwin : Window semi level base)
    (hst : StoredAt base level (.node b mn mx)) (hlv : Leaves (.node b mn mx)) :
    ∃ t', kshmbranchPopone (.node b mn mx) semi level = .ok (b, t') ∧ StoredAt base level t' ∧
      t'.toList.Perm (mn.toList ++ mx.toList) := by
  have hins : ∀ t c, (StoredAt base level t ∧ Leaves t) → (Leaf c ∧ InWindow base level c) →
      (∀ d ∈ t.toList, Disj c d) →
      ∃ t', kshmbranchInsert t c semi level = .ok t' ∧ (StoredAt base level t' ∧ Leaves t') ∧
        t'.toList.Perm (c :: t.toList) := by
    rintro t c ⟨hst, hlv⟩ ⟨hc, hwc⟩ hdisj
    obtain ⟨t', hEq, hst', hlv', hperm⟩ := kshmbranchInsert_spec hwin hst hlv hc hwc hdisj
    exact ⟨t', hEq, ⟨hst', hlv'⟩, hperm⟩
  have hleaf : ∀ c ∈ (WindowTree.Tree.node b mn mx).toList, Leaf c ∧ InWindow base level c :=
    fun c hc => ⟨hlv.leaf c hc, hst.bounds c hc⟩
  have hapart := hlv.apart
  simp only [Tree.toList_node, pairwise_cons, pairwise_append] at hapart
  obtain ⟨t1, h1, hP1, hp1⟩ := kshmbranchReinsertall_spec hins mn .nil ⟨fits_nil, leaves_nil⟩
    (fun c hc => hleaf c (by simp [hc])) hapart.2.1 (by simp)
  rw [Tree.toList_nil, append_nil] at hp1
  obtain ⟨t2, h2, hP2, hp2⟩ := kshmbranchReinsertall_spec hins mx t1 hP1
    (fun c hc => hleaf c (by simp [hc])) hapart.2.2.1
    (fun c hc d hd => (hapart.2.2.2 d (hp1.mem_iff.mp hd) c hc).symm)
  refine ⟨t2, ?_, hP2.1, hp2.trans ((hp1.append_left _).trans perm_append_comm)⟩
  simp [kshmbranchPopone, h1, h2, bind, Except.bind, pure, Except.pure]

/-- A stored node has a level to descend to. -/
theorem exists_level (hst : StoredAt base level (.node b mn mx)) (hlv : Leaves (.node b mn mx)) :
    ∃ l, level = l + 1 ∧ 10 ≤ l := by
  have := InWindow.level_ge (hst.bounds b (by simp)) (hlv.leaf b (by simp))
  exact ⟨level - 1, by omega, by omega⟩

/-- The branch at the end of a path. -/
def branchAt : List Side → Tree Branch → Option Branch
  | _, .nil => none
  | [], .node b _ _ => some b
  | .min :: path, .node _ mn _ => branchAt path mn
  | .max :: path, .node _ _ mx => branchAt path mx

theorem poponeAt_spec {path : List Side} : ∀ {t : Tree Branch} {level semi base : Nat} {b : Branch},
    Window semi level base → StoredAt base level t → Leaves t → branchAt path t = some b →
    ∃ t', poponeAt path t semi level = .ok (b, t') ∧ StoredAt base level t' ∧
      t.toList.Perm (b :: t'.toList) := by
  induction path with
  | nil =>
    intro t level semi base b hwin hst hlv hat
    cases t with
    | nil => cases hat
    | node c mn mx =>
      cases hat
      obtain ⟨t', hEq, hst', hperm⟩ := kshmbranchPopone_spec hwin hst hlv
      exact ⟨t', hEq, hst', hperm.symm.cons b⟩
  | cons side path ih =>
    intro t level semi base b hwin hst hlv hat
    cases t with
    | nil => cases side <;> cases hat
    | node c mn mx =>
      obtain ⟨l, rfl, -⟩ := exists_level hst hlv
      obtain ⟨hlo, hhi, hmn, hmx⟩ := hst
      cases side with
      | min =>
        obtain ⟨mn', hEq, hst', hperm⟩ := ih hwin.walkMin hmn hlv.min hat
        refine ⟨.node c mn' mx, ?_, ⟨hlo, hhi, hst', hmx⟩, Tree.perm_append_min (l := [_]) hperm⟩
        rw [poponeAt, Nat.add_sub_cancel, hEq]
        rfl
      | max =>
        obtain ⟨mx', hEq, hst', hperm⟩ := ih hwin.walkMax hmx hlv.max hat
        refine ⟨.node c mn mx', ?_, ⟨hlo, hhi, hmn, hst'⟩, Tree.perm_append_max (l := [_]) hperm⟩
        rw [poponeAt, Nat.add_sub_cancel, hEq]
        rfl

/-! ### Lookup -/

/-- The search result `r` is the leaf of `t` that maps `addr`, if there is one. -/
def Found (t : Tree Branch) (addr : Nat) (r : Option Branch) : Prop :=
  match r with
  | none => ∀ b ∈ t.toList, ¬Maps b addr
  | some b => b ∈ t.toList ∧ Maps b addr

variable {addr : Nat}

section

variable {c : Branch} {r : Option Branch} (hst : StoredAt base (level + 1) (.node c mn mx))
  (hc : ¬Maps c addr)

include hst hc

/-- A search that continues on the left finds what there is to find. -/
theorem Found.of_min (hlt : addr < base + 2 ^ (level + 1)) (h : Found mn addr r) :
    Found (.node c mn mx) addr r := by
  cases r with
  | none => exact fun b hb hm => h b (hst.below_semi hb hm hc hlt) hm
  | some b => exact ⟨by simp [h.1], h.2⟩

/-- A search that continues on the right finds what there is to find. -/
theorem Found.of_max (hge : base + 2 ^ (level + 1) ≤ addr) (h : Found mx addr r) :
    Found (.node c mn mx) addr r := by
  cases r with
  | none => exact fun b hb hm => h b (hst.above_semi hb hm hc hge) hm
  | some b => exact ⟨by simp [h.1], h.2⟩

end

/-- **Specification of `kshmbranch_locate`**, from any position. -/
theorem locateLoop_spec : ∀ {level semi base : Nat},
    Window semi level base → StoredAt base level t → Leaves t →
    ∃ r, locateLoop t addr semi level = .ok r ∧ Found t addr r := by
  induction t with
  | nil => exact fun _ _ _ => ⟨none, rfl, by simp [Found]⟩
  | node c mn mx ihmn ihmx =>
    intro level semi base hwin hst hlv
    obtain ⟨l, rfl, -⟩ := exists_level hst hlv
    rw [locateLoop, hwin.semi_eq, Nat.add_sub_cancel]
    by_cases hc : Maps c addr
    · exact ⟨some c, if_pos hc, by simp, hc⟩
    rw [if_neg hc, if_neg (Nat.succ_ne_zero l)]
    by_cases hlt : addr < base + 2 ^ (l + 1)
    · obtain ⟨r, hEq, hr⟩ := ihmn hwin.walkMin hst.2.2.1 hlv.min
      rw [if_pos hlt, ← hwin.semi_eq]
      exact ⟨r, hEq, hr.of_min hst hc hlt⟩
    obtain ⟨r, hEq, hr⟩ := ihmx hwin.walkMax hst.2.2.2 hlv.max
    rw [if_neg hlt, ← hwin.semi_eq]
    exact ⟨r, hEq, hr.of_max hst hc (Nat.le_of_not_lt hlt)⟩

/-- What is left of a tree when the search result is taken out of it. -/
def Without (t : Tree Branch) (r : Option Branch) (t' : Tree Branch) : Prop :=
  match r with
  | none => t' = t
  | some b => t.toList.Perm (b :: t'.toList)

/-- **Specification of `kshmbranch_remove`**, from any position. -/
theorem removeLoop_spec : ∀ {level semi base : Nat},
    Window semi level base → StoredAt base level t → Leaves t →
    base ≤ addr → addr < base + 2 ^ (level + 1) →
    ∃ r t', removeLoop t addr semi level = .ok (r, t') ∧ Found t addr r ∧ Without t r t' ∧
      StoredAt base level t' := by
  induction t with
  | nil => exact fun _ _ _ _ _ => ⟨none, .nil, rfl, by simp [Found], rfl, fits_nil⟩
  | node c mn mx ihmn ihmx =>
    intro level semi base hwin hst hlv hge hlt
    obtain ⟨l, rfl, -⟩ := exists_level hst hlv
    have hpass : ¬(addr < mapMin semi (l + 1) ∨ mapMax semi (l + 1) < addr) := by
      rw [hwin.mapMin_eq, hwin.mapMax_eq]
      omega
    rw [removeLoop, if_neg hpass, Nat.add_sub_cancel]
    by_cases hc : Maps c addr
    · obtain ⟨t', hEq, hst', hperm⟩ := kshmbranchPopone_spec hwin hst hlv
      refine ⟨some c, t', ?_, ⟨by simp, hc⟩, hperm.symm.cons c, hst'⟩
      rw [if_pos hc, hEq]
      rfl
    rw [if_neg hc, if_neg (Nat.succ_ne_zero l)]
    obtain ⟨hlo, hhi, hmn, hmx⟩ := hst
    by_cases hbelow : addr < semi
    · have hlt' : addr < base + 2 ^ (l + 1) := hwin.semi_eq ▸ hbelow
      obtain ⟨r, mn', hEq, hr, hw, hst'⟩ := ihmn hwin.walkMin hmn hlv.min hge hlt'
      refine ⟨r, .node c mn' mx, ?_, hr.of_min ⟨hlo, hhi, hmn, hmx⟩ hc hlt', ?_,
        hlo, hhi, hst', hmx⟩
      · rw [if_pos hbelow, hEq]
        rfl
      · cases r with
        | none => rw [Without] at hw; subst hw; rfl
        | some b => exact Tree.perm_append_min (l := [_]) hw
    · have hge' : base + 2 ^ (l + 1) ≤ addr := by
        have := hwin.semi_eq
        omega
      obtain ⟨r, mx', hEq, hr, hw, hst'⟩ := ihmx hwin.walkMax hmx hlv.max hge' (by omega)
      refine ⟨r, .node c mn mx', ?_, hr.of_max ⟨hlo, hhi, hmn, hmx⟩ hc hge', ?_,
        hlo, hhi, hmn, hst'⟩
      · rw [if_neg hbelow, hEq]
        rfl
      · cases r with
        | none => rw [Without] at hw; subst hw; rfl
        | some b => exact Tree.perm_append_max (l := [_]) hw

end KosKernel.Shm
