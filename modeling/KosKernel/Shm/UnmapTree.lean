import KosKernel.Shm.Remains
import KosKernel.Shm.BranchRuns

/-!
# KosKernel.Shm.UnmapTree

**Unmapping a range of a branch tree.** The walk meets every branch once; each is left
alone, trimmed, split or popped, and what it does to the tree, the counters and the page
directory is the composition of that (`Unmapped`).
-/

namespace KosKernel.Shm

open WindowTree PageFrame List

variable {α β : Type} {m : Mem α} {b : Branch} {mn mx : Tree Branch} {others : List Branch}
  {semi level base : Nat}

/-! ### Positions -/

/-- The level of a position can be read off its semi-address. -/
theorem Window.semiLevel (h : Window semi level base) : semiLevel semi = level := by
  obtain ⟨rfl, ⟨k, rfl⟩, hle⟩ := h
  have hpos : 2 ^ level < 2 ^ (level + 1) := Nat.pow_lt_pow_right (by decide) (by omega)
  have hlt : level < 32 := (Nat.pow_lt_pow_iff_right (by decide)).mp (by omega : 2 ^ level < 2 ^ 32)
  have hbit : ∀ i, i ≤ level → (2 ^ (level + 1) * k + 2 ^ level).testBit i =
      decide (level = i) := by
    intro i hi
    rw [Nat.testBit_two_pow_mul_add _ hpos, if_pos (by omega), Nat.testBit_two_pow]
  rw [Shm.semiLevel, findIdx_eq (by simpa using hlt)]
  refine ⟨by simp [hbit], fun j hj => ?_⟩
  rw [getElem_range, hbit j (by omega)]
  exact decide_eq_false (by omega)

/-- A root may be replaced by a part of it. -/
theorem StoredAt.root {c : Branch} (h : StoredAt base level (.node b mn mx))
    (hmin : b.sbMapMin ≤ c.sbMapMin) (hmax : c.sbMapMax ≤ b.sbMapMax) :
    StoredAt base level (.node c mn mx) := by
  cases level with
  | zero | succ =>
    obtain ⟨hlo, hhi, hmn, hmx⟩ := h
    exact ⟨Nat.le_trans hlo hmin, Nat.lt_of_le_of_lt hmax hhi, hmn, hmx⟩

theorem Leaves.root {c : Branch} (h : Leaves (.node b mn mx)) (hc : Leaf c)
    (hmin : b.sbMapMin ≤ c.sbMapMin) (hmax : c.sbMapMax ≤ b.sbMapMax) :
    Leaves (.node c mn mx) := by
  have hapart := h.apart
  rw [Tree.toList_node, pairwise_cons] at hapart
  refine ⟨?_, ?_⟩
  · rw [Tree.toList_node, forall_mem_cons]
    exact ⟨hc, fun d hd => h.leaf d (mem_cons_of_mem _ hd)⟩
  · rw [Tree.toList_node, pairwise_cons]
    refine ⟨fun d hd => ?_, hapart.2⟩
    have := hapart.1 d hd
    unfold Disj Apart at this ⊢
    omega

/-- **`kshmbranch_plocateat`** finds the branch of an address, with the subtree below it and
the window of its position. What is put in place of the subtree becomes part of the tree. -/
theorem atBranch_spec {f : Branch → Tree Branch → Tree Branch → Except Fault (β × Tree Branch)}
    {t : Tree Branch} {addr : Nat} (hwin : Window semi level base) (hst : StoredAt base level t)
    (hlv : Leaves t) (hmem : b ∈ t.toList) (hmaps : Maps b addr) :
    ∃ mn mx base' level' rest, StoredAt base' level' (.node b mn mx) ∧
      t.toList.Perm ((WindowTree.Tree.node b mn mx).toList ++ rest) ∧
      ∀ x u, f b mn mx = .ok (x, u) → StoredAt base' level' u →
        ∃ t', atBranch f t addr semi level = .ok (x, t') ∧ StoredAt base level t' ∧
          t'.toList.Perm (u.toList ++ rest) := by
  induction t generalizing semi level base with
  | nil => cases hmem
  | node c mn mx ihmn ihmx =>
    by_cases hroot : Maps c addr
    · -- Only one branch maps the address.
      have hbc : b = c := unique_of_apart hlv.apart hmem (by simp) hmaps hroot
      subst hbc
      refine ⟨mn, mx, base, level, [], hst, by simp, fun x u hf hu => ⟨u, ?_, hu, by simp⟩⟩
      rw [atBranch, if_pos hroot, hf]
    obtain ⟨l, rfl, -⟩ := exists_level hst hlv
    obtain ⟨hlo, hhi, hmn, hmx⟩ := hst
    have hne : b ≠ c := fun h => hroot (h ▸ hmaps)
    have hbelow : b ∈ mn.toList ∨ b ∈ mx.toList := by
      simpa [hne] using hmem
    have hsemi := hwin.semi_eq
    by_cases hlt : addr < semi
    · have hmemMn : b ∈ mn.toList := by
        refine hbelow.resolve_right fun h => ?_
        have := (hmx.bounds b h).1
        have := hmaps.1
        omega
      obtain ⟨mn', mx', base', level', rest, hst', hperm, hput⟩ :=
        ihmn hwin.walkMin hmn hlv.min hmemMn
      refine ⟨mn', mx', base', level', c :: (rest ++ mx.toList), hst',
        Tree.perm_append_min hperm, fun x u hf hu => ?_⟩
      obtain ⟨t', hval, hstt, hpt⟩ := hput x u hf hu
      refine ⟨.node c t' mx, ?_, ⟨hlo, hhi, hstt, hmx⟩, Tree.perm_append_min hpt⟩
      rw [atBranch, if_neg hroot, if_neg (Nat.succ_ne_zero l), if_pos hlt, Nat.add_sub_cancel,
        hval]
      rfl
    · have hmemMx : b ∈ mx.toList := by
        refine hbelow.resolve_left fun h => ?_
        have := (hmn.bounds b h).2
        have := hmaps.2
        omega
      obtain ⟨mn', mx', base', level', rest, hst', hperm, hput⟩ :=
        ihmx hwin.walkMax hmx hlv.max hmemMx
      refine ⟨mn', mx', base', level', c :: (mn.toList ++ rest), hst',
        Tree.perm_append_max hperm, fun x u hf hu => ?_⟩
      obtain ⟨t', hval, hstt, hpt⟩ := hput x u hf hu
      refine ⟨.node c mn t', ?_, ⟨hlo, hhi, hmn, hstt⟩, Tree.perm_append_max hpt⟩
      rw [atBranch, if_neg hroot, if_neg (Nat.succ_ne_zero l), if_neg hlt, Nat.add_sub_cancel,
        hval]
      rfl

/-! ### Splitting and trimming in the tree -/

/-- **Specification of `kshmbrach_putsplit`.** -/
theorem kshmbrachPutsplit_spec {page : Nat} (hwin : Window semi level base)
    (hst : StoredAt base level (.node b mn mx)) (hlv : Leaves (.node b mn mx))
    (hb : BranchOk m b) (hled : Ledger m (b :: others)) (hlo : b.sbRstart < page)
    (hhi : page < b.sbRstart + b.sbRpages) (hroom : others.length + 2 < 4294967295) :
    ∃ m' t', kshmbrachPutsplit m false (.node b mn mx) semi page = .ok (.keOk, m', t') ∧
      StoredAt base level t' ∧ Leaves t' ∧
      t'.toList.Perm (splitMin b page :: splitMax b page :: (mn.toList ++ mx.toList)) ∧
      Ledger m' (splitMin b page :: splitMax b page :: others) ∧ Evolves m m' := by
  obtain ⟨r, hr, hpages, hcl⟩ := hb.region
  have hmin := hb.splitMin hlo hhi
  have hmax := hb.splitMax hlo hhi
  obtain ⟨m', hval, hled', hev⟩ := splitCounters_spec hb hlo hhi hled hroom
  -- The halves lie where the branch was, one after the other.
  have hsizeMin : (splitMin b page).sbMapMax + 1 = b.sbMapMin + (page - b.sbRstart) * pageSize :=
    hmin.size
  have hsizeMax : b.sbMapMax + 1 =
      (splitMax b page).sbMapMin + (splitMax b page).sbRpages * pageSize := hmax.size
  have hstartMax : (splitMax b page).sbMapMin = b.sbMapMin + (page - b.sbRstart) * pageSize := rfl
  have hendMax : (splitMax b page).sbMapMax = b.sbMapMax := rfl
  have hordMax : (splitMax b page).sbMapMin < b.sbMapMax := by
    have := hmax.rpages_pos
    simp only [pageSize] at hsizeMax
    omega
  have hlvMin : Leaves (.node (splitMin b page) mn mx) :=
    hlv.root hmin.leaf le_rfl (by omega)
  have hapart : ∀ c ∈ (WindowTree.Tree.node (splitMin b page) mn mx).toList,
      Disj (splitMax b page) c := by
    have hbelow := hlv.apart
    rw [Tree.toList_node, pairwise_cons] at hbelow
    rw [Tree.toList_node, forall_mem_cons]
    refine ⟨.inr (by omega), fun c hc => ?_⟩
    have := hbelow.1 c hc
    unfold Disj Apart at this ⊢
    omega
  have hin : InWindow base level (splitMax b page) := by
    have := hst.bounds b (by simp)
    exact ⟨by omega, this.2⟩
  have hstMin : StoredAt base level (.node (splitMin b page) mn mx) :=
    StoredAt.root hst le_rfl (by omega)
  obtain ⟨t', hins, hst', hlv', hperm⟩ :=
    kshmbranchInsert_spec hwin hstMin hlvMin hmax.leaf hin hapart
  -- The checks of the source.
  have hok : b.sbMapMin ≤ b.sbMapMax ∧ b.sbRstart < page ∧ page < b.sbRstart + b.sbRpages ∧
      page < r.scPages := ⟨hb.leaf.ordered, hlo, hhi, by omega⟩
  have hcl' : b.sbClusterMin ≤ (splitMin b page).sbClusterMax ∧
      (splitMin b page).sbClusterMax ≤ (splitMax b page).sbClusterMin ∧
      (splitMax b page).sbClusterMin ≤ b.sbClusterMax ∧ b.sbClusterMax < r.sreClusterc := by
    refine ⟨hmin.cluster_le, ?_, hmax.cluster_le, hcl⟩
    exact Nat.div_le_div_right (by omega)
  refine ⟨m', t', ?_, hst', hlv', hperm.trans (List.Perm.swap ..), hled', hev⟩
  simp only [kshmbrachPutsplit, Mem.region_of hr, bind, Except.bind, not_true, hok, and_self,
    if_false, Bool.false_eq_true, if_neg (Nat.not_le.mpr hordMax), hval, if_neg (not_not.mpr hcl'),
    hwin.semiLevel, hins]
  rfl

section Portion

variable {k n : Nat} (hb : BranchOk m b) (hled : Ledger m (b :: others))

include hb hled

omit hled in
/-- A part of a branch passes the checks of the source. -/
theorem portion_ok (hne : 0 < k ∨ n < b.sbRpages) (hpos : 0 < n) (hle : k + n ≤ b.sbRpages) :
    ∃ r, m.region b.sbRegion = .ok r ∧ ¬¬((b.sbRstart + k ≠ b.sbRstart ∨ n ≠ b.sbRpages) ∧
      b.sbRstart ≤ b.sbRstart + k ∧ 0 < n ∧ b.sbRstart + k + n ≤ b.sbRstart + b.sbRpages ∧
      b.sbRstart + b.sbRpages ≤ r.scPages) := by
  obtain ⟨r, hr, hpages, -⟩ := hb.region
  exact ⟨r, Mem.region_of hr, not_not.mpr ⟨by omega, by omega, hpos, by omega, hpages⟩⟩

theorem kshmbranchUnmapPortion_front (mn mx : Tree Branch) (semi : Nat) (hpos : 0 < k)
    (hlt : k < b.sbRpages) :
    ∃ m', kshmbranchUnmapPortion m false (.node b mn mx) b.sbRstart k semi =
        .ok (.keOk, m', .node (cutFront b k) mn mx) ∧
      Ledger m' (cutFront b k :: others) ∧ Evolves m m' := by
  obtain ⟨r, hr, hok⟩ := portion_ok hb (k := 0) (.inr hlt) hpos (by omega)
  obtain ⟨m', hval, hled', hev⟩ := trimFront_spec hled hb hlt
  refine ⟨m', ?_, hled', hev⟩
  rw [Nat.add_zero] at hok
  simp only [kshmbranchUnmapPortion, hr, bind, Except.bind, if_neg hok, if_true, hval]
  rfl

theorem kshmbranchUnmapPortion_back (mn mx : Tree Branch) (semi : Nat) (hpos : 0 < k)
    (hpos' : 0 < n) (hlen : k + n = b.sbRpages) :
    ∃ m', kshmbranchUnmapPortion m false (.node b mn mx) (b.sbRstart + k) n semi =
        .ok (.keOk, m', .node (cutBack b k) mn mx) ∧
      Ledger m' (cutBack b k :: others) ∧ Evolves m m' := by
  obtain ⟨r, hr, hok⟩ := portion_ok hb (.inl hpos) hpos' (Nat.le_of_eq hlen)
  obtain ⟨m', hval, hled', hev⟩ := trimBack_spec hled hb (show k < b.sbRpages by omega) hpos
  rw [show b.sbRpages - k = n by omega] at hval
  refine ⟨m', ?_, hled', hev⟩
  have hfront : ¬b.sbRstart + k = b.sbRstart := by omega
  have hback : b.sbRstart + k + n = b.sbRstart + b.sbRpages := by omega
  simp only [kshmbranchUnmapPortion, hr, bind, Except.bind, if_neg hok, if_neg hfront,
    if_pos hback, hval]
  rfl

/-- `kshmbranch_unmap_portion` in the middle: the branch is split, and the upper half is
trimmed at the front. -/
theorem kshmbranchUnmapPortion_middle (hwin : Window semi level base)
    (hst : StoredAt base level (.node b mn mx)) (hlv : Leaves (.node b mn mx)) (hpos : 0 < k)
    (hpos' : 0 < n) (hlt : k + n < b.sbRpages) (hroom : others.length + 2 < 4294967295) :
    ∃ m' t', kshmbranchUnmapPortion m false (.node b mn mx) (b.sbRstart + k) n semi =
        .ok (.keOk, m', t') ∧ StoredAt base level t' ∧
      t'.toList.Perm (splitMin b (b.sbRstart + k) :: cutFront b (k + n) ::
        (mn.toList ++ mx.toList)) ∧
      Ledger m' (splitMin b (b.sbRstart + k) :: cutFront b (k + n) :: others) ∧
      Evolves m m' := by
  obtain ⟨r, hr, hok⟩ := portion_ok hb (.inl hpos) hpos' (Nat.le_of_lt hlt)
  have hlo : b.sbRstart < b.sbRstart + k := by omega
  have hhi : b.sbRstart + k < b.sbRstart + b.sbRpages := by omega
  obtain ⟨m1, t1, hval1, hst1, hlv1, hperm1, hled1, hev1⟩ :=
    kshmbrachPutsplit_spec hwin hst hlv hb hled hlo hhi hroom
  have hmax : BranchOk m1 (splitMax b (b.sbRstart + k)) :=
    (hb.splitMax hlo hhi).evolves hev1 (hled1.region (by simp))
  obtain ⟨m2, hval2, hled2, hev2⟩ := trimFront_spec
    (hled1.perm (List.Perm.swap ..)) hmax (show n < _ by simp only [splitMax]; omega)
  have hcut : cutFront (splitMax b (b.sbRstart + k)) n = cutFront b (k + n) := by
    rw [splitMax_eq b (Nat.le_of_lt hlo), Nat.add_sub_cancel_left]
    simp only [cutFront, Nat.add_mul, Nat.add_assoc, Nat.sub_sub]
  rw [hcut] at hval2 hled2
  -- The upper half is found where it starts.
  obtain ⟨mn', mx', base', level', rest, hst', hperm', hput⟩ := atBranch_spec
    (f := fun c mn mx =>
      (trimFront m1 c (b.sbRstart + k) n).map fun r => (r.1, WindowTree.Tree.node r.2 mn mx))
    (b := splitMax b (b.sbRstart + k)) hwin hst1 hlv1 (hperm1.mem_iff.mpr (by simp))
    (show Maps _ (splitMax b (b.sbRstart + k)).sbMapMin from ⟨Nat.le_refl _, hmax.leaf.ordered⟩)
  have htrim : (trimFront m1 (splitMax b (b.sbRstart + k)) (b.sbRstart + k) n).map
      (fun r => (r.1, WindowTree.Tree.node r.2 mn' mx')) =
        .ok (m2, .node (cutFront b (k + n)) mn' mx') := by
    rw [show trimFront m1 (splitMax b (b.sbRstart + k)) (b.sbRstart + k) n =
      .ok (m2, cutFront b (k + n)) from hval2]
    rfl
  obtain ⟨t2, hval, hst2, hperm2⟩ := hput _ _ htrim (StoredAt.root hst' (by
    rw [← hcut]
    exact Nat.le_add_right _ _) le_rfl)
  -- The rest of the tree is what was below the branch, and the lower half.
  have hrest : (mn'.toList ++ mx'.toList ++ rest).Perm
      (splitMin b (b.sbRstart + k) :: (mn.toList ++ mx.toList)) :=
    (hperm'.symm.trans (hperm1.trans (List.Perm.swap ..))).cons_inv
  refine ⟨m2, t2, ?_, hst2, (hperm2.trans (hrest.cons _)).trans (List.Perm.swap ..),
    hled2.perm (List.Perm.swap ..), hev1.trans hev2⟩
  have hfront : ¬b.sbRstart + k = b.sbRstart := by omega
  have hback : ¬b.sbRstart + k + n = b.sbRstart + b.sbRpages := by omega
  simp only [kshmbranchUnmapPortion, hr, bind, Except.bind, if_neg hok, if_neg hfront,
    if_neg hback, hval1, hwin.semiLevel, hval]
  rfl

end Portion

/-! ### The walk -/

section Walk

variable {args : UnmapArgs} {acc : Nat → Bool} {w : Walk α} {t : Tree Branch}
  {go : Walk α → Tree Branch → Nat → Nat → Except Fault (Walk α × Tree Branch)}

/-- A subtree that is searched, with all other branches that there are. -/
structure Ready (args : UnmapArgs) (acc : Nat → Bool) (others : List Branch) (w : Walk α)
    (t : Tree Branch) (semi level base : Nat) : Prop where
  window : Window semi level base
  stored : StoredAt base level t
  leaves : Leaves t
  branch : ∀ b ∈ t.toList, BranchOk w.mem b
  ledger : Ledger w.mem (t.toList ++ others)
  accepts : AcceptsAs args acc w.mem
  room : t.toList.length + t.toList.countP (fun b => Middle args b) + others.length < 4294967295

/-- The search of a subtree ends with what the range leaves of it. -/
def Ends (args : UnmapArgs) (acc : Nat → Bool) (others : List Branch) (w : Walk α)
    (t : Tree Branch) (level base : Nat) (e : Except Fault (Walk α × Tree Branch)) : Prop :=
  ∃ w' t', e = .ok (w', t') ∧ StoredAt base level t' ∧
    Unmapped args acc others w t.toList w' t'.toList

theorem searchSide_spec
    (go : Walk α → Tree Branch → Nat → Nat → Except Fault (Walk α × Tree Branch))
    (side : Bool) (h : Ready args acc others w t semi level base)
    (hgo : ¬t.isNil → Ends args acc others w t level base (go w t semi level))
    (hside : side = false → ∀ b ∈ t.toList, ¬Hit args acc b) :
    Ends args acc others w t level base (searchSide go side w t semi level) := by
  unfold searchSide
  by_cases hs : side = true ∧ ¬t.isNil
  · rw [if_pos hs]
    exact hgo hs.2
  rw [if_neg hs]
  refine ⟨w, t, rfl, h.stored, .untouched h.ledger ?_⟩
  by_cases hnil : t.isNil
  · rw [Tree.isNil_iff.mp hnil]
    simp
  · exact hside (Bool.eq_false_iff.mpr fun htrue => hs ⟨htrue, hnil⟩)

/-- `continue_search:` with a search of the subtrees that does what it should. -/
theorem searchBelow_spec
    (go : Walk α → Tree Branch → Nat → Nat → Except Fault (Walk α × Tree Branch))
    (h : Ready args acc others w (.node b mn mx) semi (level + 1) base)
    (hgo : ∀ (t : Tree Branch) (w : Walk α) (semi base : Nat) (others : List Branch),
      Ready args acc others w t semi level base → ¬t.isNil →
      t.toList.length ≤ mn.toList.length + mx.toList.length →
      Ends args acc others w t level base (go w t semi level)) :
    ∃ w' mn' mx', searchBelow go args w semi (level + 1) b mn mx = .ok (w', .node b mn' mx') ∧
      StoredAt base (level + 1) (.node b mn' mx') ∧
      Unmapped args acc (b :: others) w (mn.toList ++ mx.toList) w'
        (mn'.toList ++ mx'.toList) := by
  obtain ⟨hwin, hst, hlv, hbr, hled, hacc, hroom⟩ := h
  obtain ⟨hlo, hhi, hmn, hmx⟩ := hst
  have hsemi := hwin.semi_eq
  rw [Tree.toList_node, length_cons, countP_cons, length_append,
    countP_append] at hroom
  -- First what is below the semi-address.
  have hready : Ready args acc (mx.toList ++ b :: others) w mn (walkMin semi (level + 1)) level
      base := by
    refine ⟨hwin.walkMin, hmn, hlv.min, fun c hc => hbr c (by simp [hc]), hled.perm ?_, hacc, ?_⟩
    · rw [← append_assoc]
      exact perm_middle.symm
    · rw [length_append, length_cons]
      omega
  obtain ⟨w1, mn', hval1, hst1, hun1⟩ := searchSide_spec go
    (args.addrMin < semi) hready (fun hnil => hgo _ _ _ _ _ hready hnil (by omega)) (by
      intro hside c hc hhit
      have := (hmn.bounds c hc).2
      have := hhit.1.1
      rw [decide_eq_false_iff_not] at hside
      omega)
  -- Then what is above it; the branches below it are settled and count as others.
  have hlen : mn'.toList.length ≤ mn.toList.length +
      mn.toList.countP (fun b => Middle args b) := by
    rw [hun1.perm.length_eq]
    exact length_remains_le ..
  have hready' : Ready args acc (mn'.toList ++ b :: others) w1 mx (walkMax semi (level + 1)) level
      (base + 2 ^ (level + 1)) := by
    have hled1 : Ledger w1.mem (mx.toList ++ (mn'.toList ++ b :: others)) :=
      hun1.ledger.perm (perm_append_comm_assoc ..)
    refine ⟨hwin.walkMax, hmx, hlv.max, fun c hc => ?_, hled1, hacc.evolves hun1.evolves, ?_⟩
    · exact (hbr c (by simp [hc])).evolves hun1.evolves (hled1.region (by simp [hc]))
    · rw [length_append, length_cons]
      omega
  obtain ⟨w2, mx', hval2, hst2, hun2⟩ := searchSide_spec go
    (semi ≤ args.addrMax) hready' (fun hnil => hgo _ _ _ _ _ hready' hnil (by omega)) (by
      intro hside c hc hhit
      have := (hmx.bounds c hc).1
      have := hhit.1.2
      rw [decide_eq_false_iff_not] at hside
      omega)
  refine ⟨w2, mn', mx', ?_, ⟨hlo, hhi, hst1, hst2⟩, hun1.comp hun2⟩
  simp only [searchBelow, Nat.add_sub_cancel, hval1, hval2, bind, Except.bind]
  rfl

/-- Where nothing is met, nothing happens, whatever the semi-address. -/
theorem searchBelow_untouched
    (hmn : ¬mn.isNil → ∀ semi level, go w mn semi level = .ok (w, mn))
    (hmx : ¬mx.isNil → ∀ semi level, go w mx semi level = .ok (w, mx)) :
    searchBelow go args w semi level b mn mx = .ok (w, .node b mn mx) := by
  have hside : ∀ (side : Bool) (t : Tree Branch) (semi level : Nat),
      (¬t.isNil → ∀ semi level, go w t semi level = .ok (w, t)) →
      searchSide go side w t semi level = .ok (w, t) := by
    intro side t semi level ht
    unfold searchSide
    split_ifs with hs
    · exact ht hs.2 _ _
    · rfl
  simp only [searchBelow, hside _ mn _ _ hmn, hside _ mx _ _ hmx, bind, Except.bind]
  rfl

theorem unmapLoop_untouched (hal : Aligned args) (hacc : AcceptsAs args acc w.mem)
    (hlive : ∀ b ∈ t.toList, ∃ r, w.mem.regions b.sbRegion = some r)
    (hno : ∀ b ∈ t.toList, ¬Hit args acc b) (hnil : ¬t.isNil) {fuel : Nat}
    (hfuel : t.toList.length ≤ fuel) (semi level : Nat) :
    unmapLoop args fuel w t semi level = .ok (w, t) := by
  induction t generalizing fuel semi level with
  | nil => exact absurd rfl hnil
  | node b mn mx ihmn ihmx =>
    rw [Tree.toList_node, length_cons, length_append] at hfuel
    obtain ⟨f, rfl⟩ : ∃ f, fuel = f + 1 := ⟨fuel - 1, by omega⟩
    obtain ⟨r, hr⟩ := hlive b (by simp)
    have hmiss : ¬(Overlaps args b ∧ Accepts args b.sbRegion r) :=
      fun h => hno b (by simp) ⟨h.1, (hacc _ r hr).mp h.2⟩
    simp only [unmapLoop, Mem.region_of hr, bind, Except.bind,
      if_neg (not_not.mpr (And.intro hal.min hal.lt)), if_neg hmiss]
    refine searchBelow_untouched (fun hn => ?_) fun hn => ?_
    · exact ihmn (fun c hc => hlive c (by simp [hc])) (fun c hc => hno c (by simp [hc])) hn
        (by omega)
    · exact ihmx (fun c hc => hlive c (by simp [hc])) (fun c hc => hno c (by simp [hc])) hn
        (by omega)

/-- After a trim the same place is searched on, with the branch that is there now. -/
theorem trimmed_spec {c : Branch} {m' : Mem α} {fuel addr : Nat}
    (ih : ∀ (t : Tree Branch) (w : Walk α) (semi level base : Nat) (others : List Branch),
      Ready args acc others w t semi level base → ¬t.isNil → t.toList.length < fuel →
      Ends args acc others w t level base (unmapLoop args fuel w t semi level))
    (hal : Aligned args)
    (h : Ready args acc others w (.node b mn mx) semi (level + 1) base)
    (hfuel : (WindowTree.Tree.node b mn mx).toList.length < fuel + 1)
    (hcon : ¬Contains args b) (hrem : remains args acc b = [c])
    (hled : Ledger m' (c :: (mn.toList ++ mx.toList ++ others))) (hev : Evolves w.mem m')
    (haddr : Maps c addr) :
    Ends args acc others w (.node b mn mx) (level + 1) base
      (atBranch (searchBelow (unmapLoop args fuel) args
        { w with mem := m', result := w.result + removed args acc b } semi (level + 1))
        (.node c mn mx) addr semi (level + 1)) := by
  have hb := h.branch b (by simp)
  have hc : BranchOk m' c := (hb.remains hal c (by rw [hrem]; simp)).evolves hev
    (hled.region (by simp))
  obtain ⟨hmin, hmax, -⟩ := bounds_remains hal hb
    (show c ∈ remains args acc b by rw [hrem]; simp)
  have hpart : Unmapped args acc (mn.toList ++ mx.toList ++ others) w [b]
      { w with mem := m', result := w.result + removed args acc b } [c] :=
    .part hcon (by rw [hrem]) hled hev
  have hready : Ready args acc others { w with mem := m', result := w.result + removed args acc b }
      (.node c mn mx) semi (level + 1) base := by
    refine ⟨h.window, StoredAt.root h.stored hmin hmax, h.leaves.root hc.leaf hmin hmax, ?_, hled,
      h.accepts.evolves hev, ?_⟩
    · rw [Tree.toList_node, forall_mem_cons]
      exact ⟨hc, fun d hd => (h.branch d (mem_cons_of_mem _ hd)).evolves hev
        (hled.region (mem_cons_of_mem _ (mem_append_left _ hd)))⟩
    · -- A part of a branch is around the range only if the branch is.
      have hroom := h.room
      have hmid : Middle args c → Middle args b :=
        fun hm => ⟨Nat.lt_of_le_of_lt hmin hm.1, Nat.lt_of_lt_of_le hm.2 hmax⟩
      simp only [Tree.toList_node, length_cons, countP_cons, decide_eq_true_eq] at hroom ⊢
      split_ifs at hroom ⊢ with h1 h2 h2 <;> first | omega | exact absurd (hmid h1) h2
  rw [Tree.toList_node, length_cons, length_append] at hfuel
  obtain ⟨w', mn', mx', hval, hst', hun⟩ := searchBelow_spec (unmapLoop args fuel) hready
    fun t w semi base others hr hnil hlen => ih t w semi level base others hr hnil (by omega)
  refine ⟨w', .node c mn' mx', ?_, hst', hpart.comp hun⟩
  rw [atBranch, if_pos haddr, hval]

/-- A part of a branch is unmapped, if that works at the level of regions. -/
theorem unmapPart_eq (args : UnmapArgs) (semi : Nat) {m' : Mem α} {t t' : Tree Branch}
    (hb : BranchOk w.mem b)
    (hval : kshmbranchUnmapPortion w.mem args.nomem t (startPage args b) (unmapPages args b) semi =
      .ok (.keOk, m', t')) :
    unmapPart args w b t semi =
      .ok ({ w with mem := m', result := w.result + unmapPages args b }, t',
        if startPage args b = b.sbRstart then b.sbMapMin + unmapPages args b * pageSize
        else b.sbMapMin) := by
  simp only [unmapPart, ← hb.ceil_pages, not_true, if_false, hval, bind, Except.bind]
  rfl

/-- After a split nothing more is met, so it does not matter where the search goes on. -/
theorem split_spec {fuel k n : Nat} {m' : Mem α} {t' : Tree Branch} (hal : Aligned args)
    (h : Ready args acc others w (.node b mn mx) semi (level + 1) base)
    (hfuel : (WindowTree.Tree.node b mn mx).toList.length < fuel + 1) (hcon : ¬Contains args b)
    (hmid : Middle args b)
    (hrem : remains args acc b = [splitMin b (b.sbRstart + k), cutFront b (k + n)])
    (hst : StoredAt base (level + 1) t')
    (hperm : t'.toList.Perm (splitMin b (b.sbRstart + k) :: cutFront b (k + n) ::
      (mn.toList ++ mx.toList)))
    (hled : Ledger m' (splitMin b (b.sbRstart + k) :: cutFront b (k + n) ::
      (mn.toList ++ mx.toList ++ others))) (hev : Evolves w.mem m') :
    Ends args acc others w (.node b mn mx) (level + 1) base
      (atBranch (searchBelow (unmapLoop args fuel) args
        { w with mem := m', result := w.result + removed args acc b } semi (level + 1))
        t' b.sbMapMin semi (level + 1)) := by
  obtain ⟨w1, hw1⟩ : ∃ w1 : Walk α,
    w1 = { w with mem := m', result := w.result + removed args acc b } := ⟨_, rfl⟩
  have hb := h.branch b (by simp)
  have hsub : ∀ c ∈ [splitMin b (b.sbRstart + k), cutFront b (k + n)],
      c ∈ remains args acc b := fun c hc => hrem ▸ hc
  -- The branch is around the range, and all others are apart from it.
  have hno : ∀ c ∈ mn.toList ++ mx.toList, ¬Hit args acc c := by
    intro c hc hhit
    have hapart := h.leaves.apart
    rw [Tree.toList_node, pairwise_cons] at hapart
    have hdisj := hapart.1 c hc
    have hover := hhit.1
    unfold Disj Apart at hdisj
    unfold Overlaps at hover
    unfold Middle at hmid
    omega
  have hpart : Unmapped args acc (mn.toList ++ mx.toList ++ others) w [b] w1
      [splitMin b (b.sbRstart + k), cutFront b (k + n)] := by
    rw [hw1]
    exact .part hcon (by rw [hrem]) hled hev
  have hun : Unmapped args acc others w (.node b mn mx : Tree Branch).toList w1 t'.toList := by
    refine (hpart.comp (.untouched ?_ hno)).congr (.refl _) hperm.symm
    exact hpart.ledger.perm (perm_append_comm_assoc ..)
  have hlv : Leaves t' := h.leaves.remains hal h.branch hun.perm
  have hno' : ∀ c ∈ t'.toList, ¬Hit args acc c := by
    intro c hc
    have hc := hperm.mem_iff.mp hc
    rw [mem_cons, mem_cons, ← or_assoc] at hc
    rcases hc with hc | hc
    · exact (bounds_remains hal hb (hsub c (by simpa using hc))).2.2
    · exact hno c hc
  have hlive : ∀ c ∈ t'.toList, ∃ r, w1.mem.regions c.sbRegion = some r :=
    fun c hc => hun.ledger.region (mem_append_left _ hc)
  have hmin : splitMin b (b.sbRstart + k) ∈ t'.toList := hperm.mem_iff.mpr (by simp)
  have hok := hb.remains hal _ (hsub _ (by simp : splitMin b (b.sbRstart + k) ∈ _))
  obtain ⟨mn', mx', base', level', rest, hst', hperm', hput⟩ := atBranch_spec
    (f := searchBelow (unmapLoop args fuel) args w1 semi (level + 1))
    (b := splitMin b (b.sbRstart + k)) h.window hst hlv hmin
    (show Maps _ b.sbMapMin from ⟨Nat.le_refl _, hok.leaf.ordered⟩)
  have hlen : mn'.toList.length + mx'.toList.length ≤ fuel := by
    have h1 := hperm'.length_eq
    have h2 := hperm.length_eq
    simp only [Tree.toList_node, length_append, length_cons] at h1 h2 hfuel
    omega
  have hbelow : ∀ c ∈ mn'.toList ++ mx'.toList, c ∈ t'.toList := fun c hc =>
    hperm'.mem_iff.mpr (mem_append_left _ (mem_cons_of_mem _ hc))
  have hsearch : searchBelow (unmapLoop args fuel) args w1 semi (level + 1)
      (splitMin b (b.sbRstart + k)) mn' mx' =
        .ok (w1, .node (splitMin b (b.sbRstart + k)) mn' mx') := by
    have hacc1 := h.accepts.evolves hun.evolves
    refine searchBelow_untouched (fun hnil => ?_) fun hnil => ?_
    · exact unmapLoop_untouched hal hacc1 (fun c hc => hlive c (hbelow c (by simp [hc])))
        (fun c hc => hno' c (hbelow c (by simp [hc]))) hnil (by omega)
    · exact unmapLoop_untouched hal hacc1 (fun c hc => hlive c (hbelow c (by simp [hc])))
        (fun c hc => hno' c (hbelow c (by simp [hc]))) hnil (by omega)
  obtain ⟨t'', hval, hst'', hperm''⟩ := hput _ _ hsearch hst'
  rw [← hw1]
  exact ⟨w1, t'', hval, hst'', hun.congr (.refl _) (hperm'.trans hperm''.symm)⟩

/-- **The whole walk**, by induction on the number of branches. -/
theorem unmapLoop_spec (hal : Aligned args) (hmem : args.nomem = false) (fuel : Nat) :
    ∀ (t : Tree Branch) (w : Walk α) (semi level base : Nat) (others : List Branch),
      Ready args acc others w t semi level base → ¬t.isNil → t.toList.length < fuel →
      Ends args acc others w t level base (unmapLoop args fuel w t semi level) := by
  induction fuel with
  | zero => exact fun _ _ _ _ _ _ _ _ hfuel => absurd hfuel (Nat.not_lt_zero _)
  | succ fuel ih =>
    intro t w semi level base others h hnil hfuel
    cases t with
    | nil => exact absurd rfl hnil
    | node b mn mx =>
      obtain ⟨level, rfl, -⟩ := exists_level h.stored h.leaves
      have hb := h.branch b (by simp)
      obtain ⟨r, hr, -, -⟩ := hb.region
      have hled : Ledger w.mem (b :: (mn.toList ++ mx.toList ++ others)) := h.ledger
      have hhit : Overlaps args b ∧ Accepts args b.sbRegion r ↔ Hit args acc b :=
        and_congr_right fun _ => h.accepts _ r hr
      have hroom := h.room
      simp only [unmapLoop, Mem.region_of hr, bind, Except.bind,
        if_neg (not_not.mpr (And.intro hal.min hal.lt)), hhit]
      have hout := outcome hal hb acc
      generalize hrem : remains args acc b = rest, hcount : removed args acc b = count at hout
      cases hout with
      | untouched hmiss =>
        rw [if_neg hmiss]
        have hlen := hfuel
        rw [Tree.toList_node, length_cons, length_append] at hlen
        obtain ⟨w', mn', mx', hval, hst', hun⟩ := searchBelow_spec (unmapLoop args fuel) h
          fun t w semi base others hr hnil hlen' =>
            ih t w semi level base others hr hnil (by omega)
        have hself : Unmapped args acc (mn.toList ++ mx.toList ++ others) w [b] w [b] :=
          .untouched hled (by simpa using hmiss)
        exact ⟨w', _, hval, hst', hself.comp hun⟩
      | whole hh hcon =>
        rw [if_pos hh, if_pos hcon]
        obtain ⟨t', hpop, hst', hperm⟩ := kshmbranchPopone_spec h.window h.stored h.leaves
        obtain ⟨m', hdec, hun⟩ := Unmapped.whole hb hh hcon
          (hled.perm ((hperm.symm.append_right others).cons b))
        have hcons : (WindowTree.Tree.node b mn mx).toList.Perm (b :: t'.toList) :=
          hperm.symm.cons b
        simp only [hpop, hdec]
        by_cases hnil' : t'.isNil
        · rw [if_pos hnil']
          have hempty := Tree.isNil_iff.mp hnil'
          rw [hempty] at hun hcons
          refine ⟨_, t', rfl, hst', ?_⟩
          rw [hempty]
          exact hun.congr hcons.symm (.refl _)
        rw [if_neg hnil']
        have hsub : ∀ c ∈ t'.toList, c ∈ (WindowTree.Tree.node b mn mx).toList :=
          fun c hc => hcons.mem_iff.mpr (mem_cons_of_mem _ hc)
        have hready : Ready args acc others
            ⟨m', kpagedirUnmap w.pd b.sbMapMin b.sbRpages, w.result + b.sbRpages⟩ t' semi
            (level + 1) base := by
          refine ⟨h.window, hst', h.leaves.of_cons hcons, fun c hc => ?_, hun.ledger,
            h.accepts.evolves hun.evolves, ?_⟩
          · exact (h.branch c (hsub c hc)).evolves hun.evolves (hun.ledger.region (by simp [hc]))
          · rw [hcons.length_eq, hcons.countP_eq, length_cons, countP_cons] at hroom
            omega
        obtain ⟨w', t'', hval, hst'', hun'⟩ := ih t' _ semi (level + 1) base others hready hnil'
          (by rw [hcons.length_eq, length_cons] at hfuel; omega)
        exact ⟨w', t'', hval, hst'', (hun.comp hun').congr hcons.symm (.refl _)⟩
      | front _ hh hcon hmin hend hpos hlt hstart hpages =>
        obtain ⟨m', hval, hled', hev⟩ := kshmbranchUnmapPortion_front hb hled mn mx semi
          hpos hlt
        have hpart := unmapPart_eq args semi (w := w) (t := .node b mn mx)
          hb (by rw [hmem, hstart, hpages]; exact hval)
        have haddr : Maps (cutFront b count) (b.sbMapMin + count * pageSize) :=
          ⟨Nat.le_refl _, (hb.cutFront hlt).leaf.ordered⟩
        have hend := trimmed_spec ih hal h hfuel hcon hrem hled' hev haddr
        rw [hcount] at hend
        rw [if_pos hh, if_neg hcon]
        simpa only [hpart, hstart, if_true, hpages] using hend
      | back k _ hh hcon hstart hmax hpos hpos' hlen hspage hpages =>
        obtain ⟨m', hval, hled', hev⟩ := kshmbranchUnmapPortion_back hb hled mn mx semi
          hpos hpos' hlen
        have hpart := unmapPart_eq args semi (w := w) (t := .node b mn mx)
          hb (by rw [hmem, hspage, hpages]; exact hval)
        have haddr : Maps (cutBack b k) b.sbMapMin :=
          ⟨Nat.le_refl _, (hb.cutBack hpos (by omega)).leaf.ordered⟩
        have hend := trimmed_spec ih hal h hfuel hcon hrem hled' hev haddr
        rw [hcount] at hend
        rw [if_pos hh, if_neg hcon]
        simpa only [hpart, hspage, if_neg (show ¬b.sbRstart + k = b.sbRstart by omega), hpages]
          using hend
      | middle k _ hh hcon hstart hend hpos hpos' hlt hspage hpages =>
        have hmid : Middle args b := by
          have hsize := hb.size
          simp only [pageSize] at hstart hend hsize
          exact ⟨by omega, by omega⟩
        obtain ⟨m', t', hval, hst', hperm, hled', hev⟩ := kshmbranchUnmapPortion_middle hb hled
          h.window h.stored h.leaves hpos hpos' hlt (by
            rw [Tree.toList_node, length_cons, countP_cons] at hroom
            simp only [hmid, decide_true, if_true] at hroom
            rw [length_append]
            omega)
        have hpart := unmapPart_eq args semi (w := w) (t := .node b mn mx)
          hb (by rw [hmem, hspage, hpages]; exact hval)
        have hend := split_spec hal h hfuel hcon hmid hrem hst' hperm hled' hev
        rw [hcount] at hend
        rw [if_pos hh, if_neg hcon]
        simpa only [hpart, hspage, if_neg (show ¬b.sbRstart + k = b.sbRstart by omega), hpages]
          using hend

end Walk

end KosKernel.Shm
