import KosKernel.Shm.NewRegion
import KosKernel.Shm.UnmapTree
import Mathlib.Data.Finset.Card
import Mathlib.Data.List.Nodup

/-!
# KosKernel.Shm.UnmapExact

What **unmapping a range** removes, in pages: exactly the pages of the range that belong
to accepted branches, and as many as it says. What it does not always keep is the range
of clusters of a branch that it trims at the back.
-/

namespace KosKernel.Shm

open WindowTree PageFrame List

variable {α : Type} {m : Mem α} {t t' : Tree Branch} {others : List Branch} {args : UnmapArgs}
  {acc : Nat → Bool} {semi level base : Nat}

/-- The tree maps an address to a page of a region. -/
def MapsTo (t : Tree Branch) (addr rid page : Nat) : Prop :=
  ∃ b ∈ t.toList, MapsPage b addr rid page

/-- The numbers of the pages that a tree maps. -/
def mappedPages (t : Tree Branch) : Finset Nat :=
  (t.toList.flatMap fun b => List.range' (b.sbMapMin / pageSize) b.sbRpages).toFinset

/-- The filter accepts the branches of a region. -/
def Accepted (args : UnmapArgs) (m : Mem α) (rid : Nat) : Prop :=
  ∃ r ∈ m.regions rid, Accepts args rid r

instance (args : UnmapArgs) (m : Mem α) (rid : Nat) : Decidable (Accepted args m rid) :=
  match h : m.regions rid with
  | none => isFalse fun ⟨_, hr, _⟩ => by rw [h] at hr; cases hr
  | some r => decidable_of_iff (Accepts args rid r) (by simp [Accepted, h])

/-- The cluster range of a branch is that of its pages. -/
def ClusterExact (b : Branch) : Prop :=
  b.sbClusterMax = getcluster (b.sbRstart + b.sbRpages - 1)

/-- A tree that can be worked with: every branch is where its addresses are searched for,
maps pages of its region and refers to the clusters of these pages, and the counters count
the references of this tree and of the branches in other trees. -/
structure TreeHolds (m : Mem α) (others : List Branch) (base level : Nat) (t : Tree Branch) :
    Prop where
  stored : StoredAt base level t
  leaves : Leaves t
  branch : ∀ b ∈ t.toList, BranchOk m b
  ledger : Ledger m (t.toList ++ others)

/-- A well-formed tree: no branch refers to a cluster that it has no pages of. -/
structure TreeOk (m : Mem α) (others : List Branch) (base level : Nat) (t : Tree Branch) : Prop
    extends TreeHolds m others base level t where
  cluster : ∀ b ∈ t.toList, ClusterExact b

/-- The range starts inside the branch and has its last page. -/
def TrimsBack (args : UnmapArgs) (b : Branch) : Prop :=
  b.sbMapMin < args.addrMin ∧ args.addrMin ≤ b.sbMapMax ∧ b.sbMapMax ≤ args.addrMax

/-! ### Pages -/

theorem mem_mappedPages {page : Nat} :
    page ∈ mappedPages t ↔ ∃ b ∈ t.toList, b.sbMapMin / pageSize ≤ page ∧
      page < b.sbMapMin / pageSize + b.sbRpages := by
  simp only [mappedPages, mem_toFinset, mem_flatMap, mem_range'_1]

/-- The pages of a branch, by address. -/
theorem BranchOk.maps_page {b : Branch} (h : BranchOk m b) (page : Nat) :
    Maps b (page * pageSize) ↔
      b.sbMapMin / pageSize ≤ page ∧ page < b.sbMapMin / pageSize + b.sbRpages := by
  have hsize := h.size
  have hmin := h.leaf.aligned_min
  simp only [Maps, pageSize] at *
  omega

theorem card_mappedPages (hbr : ∀ b ∈ t.toList, BranchOk m b) (hapart : t.toList.Pairwise Disj) :
    (mappedPages t).card = (t.toList.map Branch.sbRpages).sum := by
  rw [mappedPages, toFinset_card_of_nodup, length_flatMap]
  · simp
  · refine nodup_flatMap.mpr ⟨fun b _ => nodup_range', ?_⟩
    refine hapart.imp_of_mem fun {b c} hb hc hdisj page hp hp' => ?_
    have h1 := ((hbr b hb).maps_page page).mpr (mem_range'_1.mp hp)
    have h2 := ((hbr c hc).maps_page page).mpr (mem_range'_1.mp hp')
    unfold Disj Apart at hdisj
    unfold Maps at h1 h2
    omega

/-- The number of pages that stay and of those that are removed. -/
theorem sum_remains {l l' : List Branch} (hal : Aligned args) (hbr : ∀ b ∈ l, BranchOk m b)
    (hperm : l'.Perm (l.flatMap (remains args acc))) :
    (l'.map Branch.sbRpages).sum + (l.map (removed args acc)).sum =
      (l.map Branch.sbRpages).sum := by
  rw [(hperm.map _).sum_nat]
  clear hperm
  induction l with
  | nil => rfl
  | cons b l ih =>
    have hb := rpages_remains hal (hbr b (by simp)) acc
    have hl := ih fun c hc => hbr c (by simp [hc])
    simp only [flatMap_cons, map_append, sum_append, map_cons, sum_cons]
    omega

/-- **What stays of a tree** maps the addresses that are not unmapped, to the same pages. -/
theorem mapsTo_remains (hal : Aligned args) (hbr : ∀ b ∈ t.toList, BranchOk m b)
    (hperm : t'.toList.Perm (t.toList.flatMap (remains args acc))) (addr rid page : Nat) :
    MapsTo t' addr rid page ↔ MapsTo t addr rid page ∧
      ¬(args.addrMin ≤ addr ∧ addr ≤ args.addrMax ∧ acc rid = true) := by
  constructor
  · rintro ⟨c, hc, hmaps⟩
    obtain ⟨b, hb, hcb⟩ := mem_flatMap.mp (hperm.mem_iff.mp hc)
    obtain ⟨hmaps', hout⟩ := (mapsPage_remains hal (hbr b hb) addr rid page).mp ⟨c, hcb, hmaps⟩
    exact ⟨⟨b, hb, hmaps'⟩, hout⟩
  · rintro ⟨⟨b, hb, hmaps⟩, hout⟩
    obtain ⟨c, hcb, hmaps'⟩ := (mapsPage_remains hal (hbr b hb) addr rid page).mpr ⟨hmaps, hout⟩
    exact ⟨c, hperm.mem_iff.mpr (mem_flatMap.mpr ⟨b, hb, hcb⟩), hmaps'⟩

/-- The pages of what stays are among those that were mapped. -/
theorem mappedPages_remains (hal : Aligned args) (hbr : ∀ b ∈ t.toList, BranchOk m b)
    {m' : Mem α} (hbr' : ∀ b ∈ t'.toList, BranchOk m' b)
    (hperm : t'.toList.Perm (t.toList.flatMap (remains args acc))) :
    mappedPages t' ⊆ mappedPages t := by
  intro page hpage
  obtain ⟨c, hc, hin⟩ := mem_mappedPages.mp hpage
  have hmaps : MapsTo t' (page * pageSize) c.sbRegion _ :=
    ⟨c, hc, ((hbr' c hc).maps_page page).mpr hin, rfl, rfl⟩
  obtain ⟨⟨b, hb, hmaps', -⟩, -⟩ := (mapsTo_remains hal hbr hperm _ _ _).mp hmaps
  exact mem_mappedPages.mpr ⟨b, hb, ((hbr b hb).maps_page page).mp hmaps'⟩

/-! ### Clusters -/

/-- Only a trim at the back, at the start of a cluster, keeps a cluster without pages. -/
theorem clusterExact_remains {b : Branch} (hal : Aligned args) (hb : BranchOk m b)
    (hex : ClusterExact b) :
    (∀ c ∈ remains args acc b, ClusterExact c) ↔
      (acc b.sbRegion = true → TrimsBack args b →
        (b.sbRstart + (args.addrMin - b.sbMapMin) / pageSize) % clusterSize ≠ 0) := by
  have hsize := hb.size
  have hout := outcome hal hb acc
  unfold ClusterExact at hex
  generalize remains args acc b = rest, removed args acc b = count at hout
  cases hout with
  | untouched hmiss =>
    have hno : acc b.sbRegion = true → ¬TrimsBack args b :=
      fun hacc htrim => hmiss ⟨⟨htrim.2.1, by unfold TrimsBack at htrim; have := hal.lt; omega⟩,
        hacc⟩
    simp only [mem_singleton, forall_eq, ClusterExact, hex, true_iff]
    exact fun hacc htrim => absurd htrim (hno hacc)
  | whole hhit hcon =>
    simp only [not_mem_nil, false_implies, implies_true, true_iff]
    exact fun _ htrim => absurd hcon.1 (Nat.not_le.mpr htrim.1)
  | front _ hhit hcon hmin _ hpos hlt =>
    have hend : b.sbRstart + count + (b.sbRpages - count) - 1 = b.sbRstart + b.sbRpages - 1 := by
      omega
    simp only [mem_singleton, forall_eq, ClusterExact, cutFront, hend, hex, true_iff]
    exact fun _ htrim => absurd hmin (Nat.not_le.mpr htrim.1)
  | back k _ hhit hcon hstart hmax hpos hpos' hlen =>
    have hk : (args.addrMin - b.sbMapMin) / pageSize = k := by
      simp only [pageSize] at hstart ⊢
      omega
    have htrim : TrimsBack args b := by
      simp only [pageSize] at hstart
      exact ⟨by omega, hhit.1.1, hmax⟩
    simp only [mem_singleton, forall_eq, ClusterExact, cutBack, hk, hhit.2, htrim,
      true_implies, getcluster, clusterSize]
    omega
  | middle k _ hhit hcon hstart hend hpos hpos' hlt =>
    have hmid : ¬TrimsBack args b := by
      simp only [pageSize] at hstart hend hsize
      unfold TrimsBack
      omega
    have hfront : b.sbRstart + (b.sbRstart + k - b.sbRstart - 1) =
        b.sbRstart + (b.sbRstart + k - b.sbRstart) - 1 := by omega
    have hback : b.sbRstart + (k + count) + (b.sbRpages - (k + count)) - 1 =
        b.sbRstart + b.sbRpages - 1 := by omega
    simp only [mem_cons, not_mem_nil, or_false, forall_eq_or_imp, forall_eq,
      ClusterExact, splitMin, cutFront, hfront, hback, hex, true_and, true_iff]
    exact fun _ htrim => absurd htrim hmid

/-! ### The call -/

/-- The filter, as a set of regions. -/
def acceptedBy (args : UnmapArgs) (m : Mem α) (rid : Nat) : Bool := decide (Accepted args m rid)

/-- At most one of some disjoint branches is around the range. -/
theorem countP_middle_le (hal : Aligned args) {l : List Branch} (hapart : l.Pairwise Disj) :
    (l.countP fun b => Middle args b) ≤ 1 := by
  induction l with
  | nil => simp
  | cons b l ih =>
    obtain ⟨hb, hl⟩ := pairwise_cons.mp hapart
    by_cases hmid : Middle args b
    · have hzero : (l.countP fun b => Middle args b) = 0 := by
        refine countP_eq_zero.mpr fun c hc hmid' => ?_
        have hdisj := hb c hc
        have hmid'' := of_decide_eq_true hmid'
        have hlt := hal.lt
        unfold Disj Apart at hdisj
        unfold Middle at hmid hmid''
        omega
      simp [hzero, hmid]
    · simpa [hmid] using ih hl

/-- **Specification of `kshmbranch_unmap`** at a position of a tree. -/
theorem kshmbranchUnmap_spec {w : Walk α} (hwin : Window semi level base)
    (htree : TreeHolds w.mem others base level t) (hne : ¬t.isNil) (hal : Aligned args)
    (hmem : args.nomem = false) (hroom : t.toList.length + others.length + 1 < 4294967295) :
    Ends args (acceptedBy args w.mem) others w t level base
      (kshmbranchUnmap args w t semi level) := by
  have hmid := countP_middle_le hal htree.leaves.apart
  exact unmapLoop_spec hal hmem _ t w semi level base others
    ⟨hwin, htree.stored, htree.leaves, htree.branch, htree.ledger,
      fun _ _ hr => by simp [acceptedBy, Accepted, hr], by omega⟩ hne (by omega)

/-- What stays of well-formed branches is well formed, apart from its clusters. -/
theorem Unmapped.branch {w w' : Walk α} {l l' : List Branch}
    (h : Unmapped args acc others w l w' l') (hal : Aligned args)
    (hbr : ∀ b ∈ l, BranchOk w.mem b) : ∀ c ∈ l', BranchOk w'.mem c := by
  intro c hc
  obtain ⟨b, hb, hcb⟩ := mem_flatMap.mp (h.perm.mem_iff.mp hc)
  exact ((hbr b hb).remains hal c hcb).evolves h.evolves
    (h.ledger.region (mem_append_left _ hc))

/-- **Unmapping removes exactly the pages of the range that the filter accepts**, leaves
every other page mapped to the same page of the same region, counts what it removes and
keeps the tree well formed, if and only if no accepted branch is trimmed at the back at the
start of a cluster. -/
theorem kshmbranch_unmap_exact (m : Mem α) (pd : PageDir) (t : Tree Branch)
    (others : List Branch) (args : UnmapArgs) (semi level base : Nat)
    (hwin : Window semi level base) (htree : TreeOk m others base level t) (hne : ¬t.isNil)
    (hal : Aligned args) (hmem : args.nomem = false)
    (hroom : t.toList.length + others.length + 1 < 4294967295) :
    (∃ w' t', kshmbranchUnmap args ⟨m, pd, 0⟩ t semi level = .ok (w', t') ∧
      (∀ addr rid page, MapsTo t' addr rid page ↔ MapsTo t addr rid page ∧
        ¬(args.addrMin ≤ addr ∧ addr ≤ args.addrMax ∧ Accepted args m rid)) ∧
      TreeOk w'.mem others base level t' ∧
      w'.result = (mappedPages t \ mappedPages t').card) ↔
    ∀ b ∈ t.toList, Accepted args m b.sbRegion → TrimsBack args b →
      (b.sbRstart + (args.addrMin - b.sbMapMin) / pageSize) % clusterSize ≠ 0 := by
  obtain ⟨w', t', hval, hst', hun⟩ := kshmbranchUnmap_spec (w := ⟨m, pd, 0⟩) hwin
    htree.toTreeHolds hne hal hmem hroom
  -- The clusters are right if they are right for what stays of each branch.
  have hcluster : (∀ c ∈ t'.toList, ClusterExact c) ↔
      ∀ b ∈ t.toList, Accepted args m b.sbRegion → TrimsBack args b →
        (b.sbRstart + (args.addrMin - b.sbMapMin) / pageSize) % clusterSize ≠ 0 := by
    have hone : ∀ b ∈ t.toList, (∀ c ∈ remains args (acceptedBy args m) b, ClusterExact c) ↔
        (Accepted args m b.sbRegion → TrimsBack args b →
          (b.sbRstart + (args.addrMin - b.sbMapMin) / pageSize) % clusterSize ≠ 0) := by
      intro b hb
      rw [clusterExact_remains hal (htree.branch b hb) (htree.cluster b hb), acceptedBy,
        decide_eq_true_iff]
    rw [← forall₂_congr hone]
    simp only [hun.perm.mem_iff, mem_flatMap, forall_exists_index, and_imp]
    exact ⟨fun h b hb c hc => h c b hb hc, fun h c b hb hc => h b hb c hc⟩
  rw [← hcluster]
  constructor
  · rintro ⟨w₁, t₁, hval₁, -, htree₁, -⟩
    obtain ⟨rfl, rfl⟩ := Prod.mk.inj (Except.ok.inj (hval.symm.trans hval₁))
    exact htree₁.cluster
  · intro hex
    have hbr' := hun.branch hal htree.branch
    refine ⟨w', t', hval, fun addr rid page => ?_, ⟨⟨hst', ?_, hbr', hun.ledger⟩, hex⟩, ?_⟩
    · rw [mapsTo_remains hal htree.branch hun.perm, acceptedBy, decide_eq_true_iff]
    · exact htree.leaves.remains hal htree.branch hun.perm
    · have hleaves := htree.leaves.remains hal htree.branch hun.perm
      have hsum := sum_remains hal htree.branch hun.perm
      have hresult := hun.result
      rw [Finset.card_sdiff_of_subset (mappedPages_remains hal htree.branch hbr' hun.perm),
        card_mappedPages htree.branch htree.leaves.apart, card_mappedPages hbr' hleaves.apart]
      dsimp only at hresult hsum
      omega

/-! ### Examples -/

/-- A tree with one branch, which maps all pages of a new region. -/
theorem treeOk_linear (pages start address : Nat) (flags : RegionFlags)
    (content : Nat → α) (hpos : 0 < pages) (haddr : address % pageSize = 0)
    (hspace : address + pages * pageSize ≤ addrSpace) :
    ∃ m r, kshmregionNewlinear (Mem.start (fun _ => false) content) pages flags (some start) =
        .ok (some 0, m) ∧ m.regions 0 = some r ∧ r.scFlags = { flags with noFree := false } ∧
      r.scPartv = [⟨start, 0, pages⟩] ∧ m.next = 1 ∧
      TreeOk m [] 0 addrLevelInit (.node (mapBranch 0 address 0 pages) .nil .nil) := by
  obtain ⟨m, r, hval, hr, hpages, hclusters, hflags, hparts, hnext, hled⟩ :=
    kshmregionNewlinear_spec start flags
      (Ledger.start (fun _ => false) content) hpos (fun _ _ _ => ⟨rfl, rfl⟩) (by simp)
  refine ⟨m, r, hval, hr, hflags, hparts, hnext, ?_⟩
  have hbr : BranchOk m (mapBranch 0 address 0 pages) := by
    simp only [pageSize, addrSpace] at haddr hspace
    refine ⟨⟨haddr, ?_, ?_⟩, ?_, ?_, ⟨r, hr, ?_, ?_⟩, rfl, Nat.le_refl _⟩ <;>
      simp only [mapBranch, pageSize, addrSpace, hpages, hclusters, clustersForPages, getcluster,
        clusterSize] <;> omega
  refine ⟨⟨⟨Nat.zero_le _, ?_, fits_nil, fits_nil⟩, ⟨?_, ?_⟩, ?_, ?_⟩, ?_⟩
  · have := hbr.space
    simpa [addrSpace, addrLevelInit] using this
  · simpa using hbr.leaf
  · simp
  · simpa using hbr
  · refine hled _ rfl rfl ?_
    simp only [mapBranch, getcluster, clustersForPages, clusterSize]
    omega
  · simp [ClusterExact, mapBranch]

/-- Readable and writable memory of a process. -/
def ramFlags : RegionFlags := ⟨false, true, true, false, false, false, false, false⟩

/-- A range of pages, without a filter. -/
def pageRange (first pages : Nat) : UnmapArgs :=
  ⟨first * pageSize, (first + pages) * pageSize - 1, true, none, false⟩

/-- What stays of a tree with one branch, if that is one branch again. -/
theorem kshmbranchUnmap_leaf {b c : Branch} {r : Region} (pd : PageDir)
    (htree : TreeHolds m [] 0 addrLevelInit (.node b .nil .nil)) (hal : Aligned args)
    (hmem : args.nomem = false) (hr : m.regions b.sbRegion = some r)
    (hacc : Accepts args b.sbRegion r) (hrem : remains args (fun _ => true) b = [c]) :
    ∃ w', kshmbranchUnmap args ⟨m, pd, 0⟩ (.node b .nil .nil) addrSemiInit addrLevelInit =
        .ok (w', .node c .nil .nil) ∧
      Unmapped args (acceptedBy args m) [] ⟨m, pd, 0⟩ [b] w' [c] := by
  obtain ⟨w', t', hval, -, hun⟩ := kshmbranchUnmap_spec (w := ⟨m, pd, 0⟩) window_init htree
    Bool.false_ne_true hal hmem (show 2 < 4294967295 by decide)
  have hrem' : remains args (acceptedBy args m) b = [c] := by
    rw [← hrem]
    simp [remains, Hit, acceptedBy, Accepted, hr, hacc]
  have hlist := hun.perm
  simp only [Tree.toList_node, Tree.toList_nil, append_nil, flatMap_cons,
    flatMap_nil, hrem', perm_singleton] at hlist
  obtain rfl := Tree.eq_leaf hlist
  exact ⟨w', hval, hun⟩

/-- Eight pages out of the middle of 32 pages are unmapped. -/
theorem kshmbranch_unmap_exact_middle : ∃ (m : Mem Unit) (w' : Walk Unit) (t' : Tree Branch),
    TreeOk m [] 0 addrLevelInit (.node (mapBranch 0 (64 * pageSize) 0 32) .nil .nil) ∧
    kshmbranchUnmap (pageRange 72 8) ⟨m, fun _ => none, 0⟩
      (.node (mapBranch 0 (64 * pageSize) 0 32) .nil .nil) addrSemiInit addrLevelInit =
        .ok (w', t') ∧ TreeOk w'.mem [] 0 addrLevelInit t' := by
  obtain ⟨m, r, -, -, -, -, -, htree⟩ := treeOk_linear 32 256 (64 * pageSize)
    ramFlags (fun _ => ()) (by decide) (by decide) (by decide)
  obtain ⟨w', t', hval, -, htree', -⟩ := (kshmbranch_unmap_exact m (fun _ => none) _ []
    (pageRange 72 8) _ _ 0 window_init htree (by decide) ⟨by decide, by decide, by decide⟩ rfl
    (by decide)).mpr (by
      simp only [Tree.toList_node, Tree.toList_nil, append_nil, mem_singleton, forall_eq]
      exact fun _ htrim => absurd htrim.2.2 (by decide))
  exact ⟨m, w', t', htree, hval, htree'⟩

/-- The upper half of 32 pages is unmapped. The branch keeps a cluster that it has no pages
of. -/
theorem kshmbranch_unmap_keeps_cluster : ∃ m : Mem Unit,
    TreeOk m [] 0 addrLevelInit (.node (mapBranch 0 (64 * pageSize) 0 32) .nil .nil) ∧
    ∃ w' b', kshmbranchUnmap (pageRange 80 16) ⟨m, fun _ => none, 0⟩
        (.node (mapBranch 0 (64 * pageSize) 0 32) .nil .nil) addrSemiInit addrLevelInit =
          .ok (w', .node b' .nil .nil) ∧
      b'.sbRstart = 0 ∧ b'.sbRpages = 16 ∧ b'.sbClusterMax = 1 ∧
      ¬TreeOk w'.mem [] 0 addrLevelInit (.node b' .nil .nil) := by
  obtain ⟨m, r, -, hr, -, -, -, htree⟩ := treeOk_linear 32 256 (64 * pageSize)
    ramFlags (fun _ => ()) (by decide) (by decide) (by decide)
  obtain ⟨w', hval, -⟩ := kshmbranchUnmap_leaf (fun _ => none) htree.toTreeHolds
    (show Aligned (pageRange 80 16) from ⟨by decide, by decide, by decide⟩) rfl hr
    ⟨by simp [pageRange], by simp [pageRange]⟩
    (show _ = [cutBack (mapBranch 0 (64 * pageSize) 0 32) 16] by decide)
  refine ⟨m, htree, w', _, hval, rfl, rfl, rfl, fun htree' => ?_⟩
  have hcluster := htree'.cluster _ (mem_singleton.mpr rfl)
  exact absurd hcluster (by unfold ClusterExact; decide)

end KosKernel.Shm
