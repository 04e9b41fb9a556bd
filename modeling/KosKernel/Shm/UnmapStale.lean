import KosKernel.Shm.UnmapExact

/-!
# KosKernel.Shm.UnmapStale

**The page directory after an unmap.** A branch that is removed as a whole is also removed
from the page directory. A part of a branch is not: its pages stay there, and with them the
frames of clusters that were released.
-/

namespace KosKernel.Shm

open WindowTree PageFrame List

variable {α : Type} {m : Mem α} {t t' : Tree Branch} {others : List Branch} {pd : PageDir}
  {args : UnmapArgs} {acc : Nat → Bool}

/-- The page directory maps exactly the pages of the branches, to the frames of their
regions. -/
structure PdExact (m : Mem α) (pd : PageDir) (t : Tree Branch) : Prop where
  present : ∀ page, (pd page).isSome ↔ page ∈ mappedPages t
  frame : ∀ page pte, pd page = some pte → ∀ rid rpage, MapsTo t (page * pageSize) rid rpage →
    ∀ r, m.regions rid = some r → r.frame rpage = some pte.frame

/-- The arguments that `kshm_unmap_unlocked` passes on, with all allocations succeeding. -/
def unmapArgs (address pages : Nat) (restricted : Bool) (origin : Option Nat) : UnmapArgs :=
  ⟨address, address + pages * pageSize - 1, restricted, origin, false⟩

/-- Every removed page is gone from the page directory, and no frame that was released is
still mapped. -/
def NoStale (m : Mem α) (t : Tree Branch) (w' : Walk α) (t' : Tree Branch) : Prop :=
  (∀ page ∈ mappedPages t, page ∉ mappedPages t' → w'.pd page = none) ∧
    ∀ f, m.held f = true → w'.mem.held f = false → ∀ page pte, w'.pd page = some pte →
      pte.frame ≠ f

theorem mem_mappedPages_iff (hbr : ∀ b ∈ t.toList, BranchOk m b) (page : Nat) :
    page ∈ mappedPages t ↔ ∃ b ∈ t.toList, Maps b (page * pageSize) := by
  rw [mem_mappedPages]
  exact exists_congr fun b => and_congr_right fun hb => ((hbr b hb).maps_page page).symm

/-- A frame that is reached through a tree is held or not the allocator's. -/
theorem TreeHolds.frame {base level addr rid rpage f : Nat} {r : Region}
    (h : TreeHolds m others base level t) (hmaps : MapsTo t addr rid rpage)
    (hr : m.regions rid = some r) (hf : r.frame rpage = some f) :
    r.scFlags.noFree = true ∨ m.held f = true := by
  obtain ⟨b, hb, hin, rfl, rfl⟩ := hmaps
  have hok := h.branch b hb
  by_cases hfree : r.scFlags.noFree = true
  · exact .inl hfree
  refine .inr ((h.ledger.tally.held f).mpr ⟨b.sbRegion, _, r, hr, by simpa using hfree, ?_, hf⟩)
  have hlt : (addr - b.sbMapMin) / pageSize < b.sbRpages := by
    have hsize := hok.size
    simp only [Maps, pageSize] at *
    omega
  have hcov : Covers b b.sbRegion (getcluster (b.sbRstart + (addr - b.sbMapMin) / pageSize)) :=
    hok.covers (Nat.le_add_right ..) (Nat.add_lt_add_left hlt _)
  have hwf := h.ledger.tally.wf _ r hr
  rw [h.ledger.tally.refcnt _ r hr _ (hwf.cluster_lt (hwf.frame_lt hf))]
  exact coverCount_pos (mem_append_left _ hb) hcov

/-- What is still in the page directory was there before. -/
theorem Unmapped.pd_of {w w' : Walk α} {l l' : List Branch} {page : Nat} {pte : Pte}
    (hun : Unmapped args acc others w l w' l') (h : w'.pd page = some pte) :
    w.pd page = some pte := by
  have hno : ∀ b ∈ l, ¬Cleared args acc b page := by
    intro b hb hc
    rw [hun.cleared b hb page hc] at h
    cases h
  rw [← h]
  exact (hun.kept page hno).symm

section Unmapped

variable {w' : Walk α} {base level : Nat} (hal : Aligned args)
  (htree : TreeHolds m others base level t) (hpd : PdExact m pd t)
  (hun : Unmapped args acc others ⟨m, pd, 0⟩ t.toList w' t'.toList)

include hal htree hpd hun

/-- If every branch that is met is removed as a whole, nothing is stale. -/
theorem noStale_of_contains (hst' : StoredAt base level t')
    (hcon : ∀ b ∈ t.toList, Hit args acc b → Contains args b) : NoStale m t w' t' := by
  have hbr' := hun.branch hal htree.branch
  have htree' : TreeHolds w'.mem others base level t' :=
    ⟨hst', htree.leaves.remains hal htree.branch hun.perm, hbr', hun.ledger⟩
  have hgone : ∀ page ∈ mappedPages t, page ∉ mappedPages t' → w'.pd page = none := by
    intro page hpage hpage'
    obtain ⟨b, hb, hmaps⟩ := (mem_mappedPages_iff htree.branch page).mp hpage
    have hmapsTo : MapsTo t (page * pageSize) b.sbRegion _ := ⟨b, hb, hmaps, rfl, rfl⟩
    by_cases hin : args.addrMin ≤ page * pageSize ∧ page * pageSize ≤ args.addrMax ∧
        acc b.sbRegion = true
    · have hhit : Hit args acc b :=
        ⟨⟨Nat.le_trans hin.1 hmaps.2, Nat.le_trans hmaps.1 hin.2.1⟩, hin.2.2⟩
      exact hun.cleared b hb page
        ⟨hhit, hcon b hb hhit, ((htree.branch b hb).maps_page page).mp hmaps⟩
    · obtain ⟨c, hc, hmaps', -⟩ :=
        (mapsTo_remains hal htree.branch hun.perm _ _ _).mpr ⟨hmapsTo, hin⟩
      exact absurd ((mem_mappedPages_iff hbr' page).mpr ⟨c, hc, hmaps'⟩) hpage'
  refine ⟨hgone, fun f hheld hfree page pte hpte hframe => ?_⟩
  -- A page that is still there is still mapped by a branch, whose frame was not released.
  have hpte0 : pd page = some pte := hun.pd_of hpte
  have hmem : page ∈ mappedPages t := (hpd.present page).mp (by rw [hpte0]; rfl)
  have hmem' : page ∈ mappedPages t' := by
    by_contra hout
    rw [hgone page hmem hout] at hpte
    cases hpte
  obtain ⟨c, hc, hmaps⟩ := (mem_mappedPages_iff hbr' page).mp hmem'
  have hmapsTo' : MapsTo t' (page * pageSize) c.sbRegion _ := ⟨c, hc, hmaps, rfl, rfl⟩
  obtain ⟨hmapsTo, -⟩ := (mapsTo_remains hal htree.branch hun.perm _ _ _).mp hmapsTo'
  obtain ⟨r', hr'⟩ := hun.ledger.region (mem_append_left others hc)
  obtain ⟨r, hr, hshape⟩ := hun.evolves.regions _ r' hr'
  have hrf := hpd.frame page pte hpte0 _ _ hmapsTo r hr
  rw [hframe] at hrf
  rcases htree'.frame hmapsTo' hr' ((hshape.frame _).trans hrf) with hno | hheld'
  · have hres := htree.ledger.tally.fixed _ r hr (hshape.scFlags ▸ hno) _ f hrf
    rw [htree.ledger.tally.free f hheld] at hres
    cases hres
  · rw [hheld'] at hfree
    cases hfree

/-- The pages of a branch that is met but not removed as a whole are stale. -/
theorem contains_of_noStale (hno : NoStale m t w' t') :
    ∀ b ∈ t.toList, Hit args acc b → Contains args b := by
  intro b hb hhit
  by_contra hcon
  have hok := htree.branch b hb
  -- A page of the branch in the range.
  obtain ⟨page, hmaps, hlo, hhi⟩ : ∃ page, Maps b (page * pageSize) ∧
      args.addrMin ≤ page * pageSize ∧ page * pageSize ≤ args.addrMax := by
    refine ⟨max args.addrMin b.sbMapMin / pageSize, ?_⟩
    have h1 := hal.min
    have h2 := hok.leaf.aligned_min
    have h3 := hok.leaf.ordered
    have h4 := hhit.1
    have h5 := hal.lt
    simp only [Overlaps, Maps, pageSize] at *
    omega
  have hself : ∀ c ∈ t.toList, Maps c (page * pageSize) → c = b := fun c hc hc' =>
    unique_of_apart htree.leaves.apart hc hb hc' hmaps
  have hmem : page ∈ mappedPages t := (mem_mappedPages_iff htree.branch page).mpr ⟨b, hb, hmaps⟩
  have hmem' : page ∉ mappedPages t' := by
    intro hin
    obtain ⟨c, hc, hcm⟩ := (mem_mappedPages_iff (hun.branch hal htree.branch) page).mp hin
    obtain ⟨⟨d, hd, hdm, hrid, -⟩, hout⟩ := (mapsTo_remains hal htree.branch hun.perm
      (page * pageSize) c.sbRegion _).mp ⟨c, hc, hcm, rfl, rfl⟩
    obtain rfl := hself d hd hdm
    exact hout ⟨hlo, hhi, hrid ▸ hhit.2⟩
  have hgone := hno.1 page hmem hmem'
  have hkept : ∀ c ∈ t.toList, ¬Cleared args acc c page := by
    intro c hc hclear
    obtain rfl := hself c hc (((htree.branch c hc).maps_page page).mpr hclear.2.2)
    exact hcon hclear.2.1
  rw [hun.kept page hkept] at hgone
  have hsome := (hpd.present page).mpr hmem
  dsimp only at hgone
  rw [hgone] at hsome
  cases hsome

end Unmapped

/-- **Nothing is stale after an unmap** if and only if every accepted branch with addresses
in the range lies in the range as a whole. -/
theorem kshm_unmap_no_stale (m : Mem α) (pd : PageDir) (t : Tree Branch) (others : List Branch)
    (address pages : Nat) (restricted : Bool) (origin : Option Nat)
    (htree : TreeHolds m others 0 addrLevelInit t) (hpd : PdExact m pd t)
    (haddr : address % pageSize = 0) (hspace : address + pages * pageSize ≤ addrSpace)
    (hroom : t.toList.length + others.length + 1 < 4294967295) :
    (∃ w' t', kshmUnmap m pd t address pages restricted origin false = .ok (w', t') ∧
      NoStale m t w' t') ↔
    ∀ b ∈ t.toList, pages ≠ 0 → Accepted (unmapArgs address pages restricted origin) m b.sbRegion →
      Overlaps (unmapArgs address pages restricted origin) b →
      Contains (unmapArgs address pages restricted origin) b := by
  by_cases hnone : pages = 0 ∨ t.isNil
  · -- Nothing is done, and there is nothing to do.
    have hval : kshmUnmap m pd t address pages restricted origin false = .ok (⟨m, pd, 0⟩, t) :=
      if_pos hnone
    refine ⟨fun _ b hb hpos => ?_, fun _ => ⟨_, _, hval, fun page hin hout => absurd hin hout, ?_⟩⟩
    · rw [Tree.isNil_iff.mp (hnone.resolve_left hpos)] at hb
      cases hb
    · intro f hheld hfree
      rw [hheld] at hfree
      cases hfree
  · have hpos : 0 < pages := by omega
    have hal : Aligned (unmapArgs address pages restricted origin) := by
      simp only [pageSize, addrSpace] at haddr hspace
      refine ⟨haddr, ?_, ?_⟩ <;> simp only [unmapArgs, pageSize] <;> omega
    obtain ⟨w', t', hval, hst', hun⟩ := kshmbranchUnmap_spec (w := ⟨m, pd, 0⟩) window_init htree
      (fun hnil => hnone (.inr hnil)) hal rfl hroom
    have hval' : kshmUnmap m pd t address pages restricted origin false = .ok (w', t') := by
      rw [kshmUnmap, if_neg hnone]
      exact hval
    have hhit : (∀ b ∈ t.toList, pages ≠ 0 →
        Accepted (unmapArgs address pages restricted origin) m b.sbRegion →
        Overlaps (unmapArgs address pages restricted origin) b →
        Contains (unmapArgs address pages restricted origin) b) ↔
      ∀ b ∈ t.toList, Hit (unmapArgs address pages restricted origin)
        (acceptedBy (unmapArgs address pages restricted origin) m) b →
        Contains (unmapArgs address pages restricted origin) b := by
      simp only [Hit, acceptedBy, decide_eq_true_eq, and_imp]
      exact ⟨fun h b hb hover hacc => h b hb (by omega) hacc hover,
        fun h b hb _ hacc hover => h b hb hover hacc⟩
    rw [hhit]
    constructor
    · rintro ⟨w₁, t₁, hval₁, hno⟩
      obtain ⟨rfl, rfl⟩ := Prod.mk.inj (Except.ok.inj (hval'.symm.trans hval₁))
      exact contains_of_noStale hal htree hpd hun hno
    · exact fun hcon => ⟨w', t', hval', noStale_of_contains hal htree hpd hun hst' hcon⟩

/-! ### Examples -/

/-- The page directory of 32 pages from page 64 on, in frames from 256 on. -/
def pdExample : PageDir := fun page =>
  if 64 ≤ page ∧ page < 96 then some ⟨page - 64 + 256, true, true⟩ else none

/-- A tree with 32 pages of a new region, and its page directory. -/
theorem pdExact_example : ∃ (m : Mem Unit) (r : Region), m.regions 0 = some r ∧
    r.scPartv = [⟨256, 0, 32⟩] ∧ r.scFlags.noFree = false ∧ m.next = 1 ∧
    TreeHolds m [] 0 addrLevelInit (.node (mapBranch 0 (64 * pageSize) 0 32) .nil .nil) ∧
    PdExact m pdExample (.node (mapBranch 0 (64 * pageSize) 0 32) .nil .nil) := by
  obtain ⟨m, r, -, hr, hflags, hparts, hnext, htree⟩ := treeOk_linear 32 256
    (64 * pageSize) ramFlags (fun _ => ()) (by decide) (by decide) (by decide)
  refine ⟨m, r, hr, hparts, by rw [hflags], hnext, htree.toTreeHolds, ⟨fun page => ?_, ?_⟩⟩
  · rw [mem_mappedPages]
    simp only [pdExample, Tree.toList_node, Tree.toList_nil, append_nil, mem_singleton,
      exists_eq_left, mapBranch, pageSize]
    split_ifs <;> simp <;> omega
  · rintro page pte hpte rid rpage ⟨b, hb, hmaps, rfl, rfl⟩ r' hr'
    simp only [Tree.toList_node, Tree.toList_nil, append_nil, mem_singleton] at hb
    subst hb
    obtain rfl := Option.some.inj (hr.symm.trans hr')
    simp only [pdExample] at hpte
    split_ifs at hpte with hin
    obtain rfl := Option.some.inj hpte
    rw [Region.frame, hparts, pageFrames_run, getElem?_range' (by
      simp only [mapBranch, pageSize]
      omega)]
    simp only [mapBranch, pageSize, Option.some.injEq]
    omega

/-- All 32 pages are unmapped at once. -/
theorem kshm_unmap_no_stale_whole : ∃ (m : Mem Unit) (w' : Walk Unit) (t' : Tree Branch),
    PdExact m pdExample (.node (mapBranch 0 (64 * pageSize) 0 32) .nil .nil) ∧
    kshmUnmap m pdExample (.node (mapBranch 0 (64 * pageSize) 0 32) .nil .nil) (64 * pageSize) 32
      true none false = .ok (w', t') ∧
    NoStale m (.node (mapBranch 0 (64 * pageSize) 0 32) .nil .nil) w' t' := by
  obtain ⟨m, r, hr, -, -, -, htree, hpd⟩ := pdExact_example
  obtain ⟨w', t', hval, hno⟩ := (kshm_unmap_no_stale m pdExample _ [] (64 * pageSize) 32 true none
    htree hpd (by decide) (by decide) (by decide)).mpr (by
      simp only [Tree.toList_node, Tree.toList_nil, append_nil, mem_singleton, forall_eq]
      exact fun _ _ _ => by decide)
  exact ⟨m, w', t', hpd, hval, hno⟩

/-- The lower half of the 32 pages is unmapped. Its cluster is released, and the page
directory still maps the first page of it. -/
theorem kshm_unmap_leaves_stale : ∃ (m : Mem Unit) (w' : Walk Unit) (t' : Tree Branch),
    TreeHolds m [] 0 addrLevelInit (.node (mapBranch 0 (64 * pageSize) 0 32) .nil .nil) ∧
    PdExact m pdExample (.node (mapBranch 0 (64 * pageSize) 0 32) .nil .nil) ∧
    kshmUnmap m pdExample (.node (mapBranch 0 (64 * pageSize) 0 32) .nil .nil) (64 * pageSize) 16
      true none false = .ok (w', t') ∧
    64 ∉ mappedPages t' ∧ m.held 256 = true ∧ w'.mem.held 256 = false ∧
    w'.pd 64 = some ⟨256, true, true⟩ := by
  obtain ⟨m, r, hr, hparts, hfree, hnext, htree, hpd⟩ := pdExact_example
  obtain ⟨w', hval, hun⟩ := kshmbranchUnmap_leaf pdExample htree
    (show Aligned (unmapArgs (64 * pageSize) 16 true none) from ⟨by decide, by decide, by decide⟩)
    rfl hr ⟨by simp [unmapArgs], by simp [unmapArgs]⟩
    (show _ = [cutFront (mapBranch 0 (64 * pageSize) 0 32) 16] by decide)
  have hframe : r.frame 0 = some 256 := by
    rw [Region.frame, hparts]
    rfl
  refine ⟨m, w', _, htree, hpd, hval, by decide, ?_, ?_, ?_⟩
  · have hmaps : MapsTo (.node (mapBranch 0 (64 * pageSize) 0 32) .nil .nil) (64 * pageSize) 0 0 :=
      ⟨_, mem_singleton.mpr rfl, by decide, rfl, by decide⟩
    exact (htree.frame hmaps hr hframe).resolve_left (by rw [hfree]; exact Bool.false_ne_true)
  · -- Only the first page has this frame, and no branch covers its cluster any more.
    refine Bool.eq_false_iff.mpr fun hheld => ?_
    obtain ⟨rid, page, r', hr', -, hlive, hf⟩ := (hun.ledger.tally.held 256).mp hheld
    have hrid : rid = 0 := by
      by_contra hne
      have hnext' : w'.mem.next = 1 := hun.evolves.next.trans hnext
      rw [hun.ledger.tally.next rid (by omega)] at hr'
      cases hr'
    subst hrid
    obtain ⟨r₀, hr₀, hshape⟩ := hun.evolves.regions 0 r' hr'
    obtain rfl := Option.some.inj (hr.symm.trans hr₀)
    rw [hshape.frame] at hf
    have hpage : page = 0 := by
      rw [Region.frame, hparts, pageFrames_run] at hf hframe
      obtain ⟨hlt, -⟩ := List.getElem?_eq_some_iff.mp hf
      exact (getElem?_inj hlt nodup_range').mp (hf.trans hframe.symm)
    subst hpage
    have hwf := hun.ledger.tally.wf 0 r' hr'
    refine hlive ?_
    rw [hun.ledger.tally.refcnt 0 r' hr' _ (hwf.cluster_lt hwf.pos)]
    decide
  · rw [hun.kept 64]
    · rfl
    · simp only [mem_singleton, forall_eq]
      exact fun hc => absurd hc.2.1 (by decide)

end KosKernel.Shm
