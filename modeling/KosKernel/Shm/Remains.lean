import KosKernel.Shm.Trim

/-!
# KosKernel.Shm.Remains

What a range unmap **leaves of one branch** (`remains`), how many pages it takes from it
(`removed`), and what it does to a list of branches together with the counters and the
page directory (`Unmapped`). The walk over the tree is put together from this by
composition.
-/

namespace KosKernel.Shm

open WindowTree PageFrame List

variable {α : Type} {args : UnmapArgs} {acc : Nat → Bool} {m : Mem α} {b : Branch}

/-- A range of whole pages. -/
structure Aligned (args : UnmapArgs) : Prop where
  min : args.addrMin % pageSize = 0
  max : (args.addrMax + 1) % pageSize = 0
  lt : args.addrMin < args.addrMax

/-- The regions that the filter accepts are those in `acc`. -/
def AcceptsAs (args : UnmapArgs) (acc : Nat → Bool) (m : Mem α) : Prop :=
  ∀ rid r, m.regions rid = some r → (Accepts args rid r ↔ acc rid = true)

theorem AcceptsAs.evolves {m' : Mem α} (h : AcceptsAs args acc m) (hev : Evolves m m') :
    AcceptsAs args acc m' := by
  intro rid r' hr'
  obtain ⟨r, hr, hshape⟩ := hev.regions rid r' hr'
  rw [← h rid r hr, Accepts, Accepts, hshape.scFlags, hshape.sreOrigin]

/-- The range takes pages from the branch. -/
def Hit (args : UnmapArgs) (acc : Nat → Bool) (b : Branch) : Prop :=
  Overlaps args b ∧ acc b.sbRegion = true

instance (args : UnmapArgs) (acc : Nat → Bool) (b : Branch) : Decidable (Hit args acc b) :=
  inferInstanceAs (Decidable (_ ∧ _))

/-- The number of pages before the range. -/
def frontPages (args : UnmapArgs) (b : Branch) : Nat := (args.addrMin - b.sbMapMin) / pageSize

/-- What stays of a branch. -/
def remains (args : UnmapArgs) (acc : Nat → Bool) (b : Branch) : List Branch :=
  if ¬Hit args acc b then [b]
  else if Contains args b then []
  else if args.addrMin ≤ b.sbMapMin then [cutFront b (unmapPages args b)]
  else if b.sbMapMax ≤ args.addrMax then [cutBack b (frontPages args b)]
  else [splitMin b (startPage args b), cutFront b (frontPages args b + unmapPages args b)]

/-- The number of pages that are taken from a branch. -/
def removed (args : UnmapArgs) (acc : Nat → Bool) (b : Branch) : Nat :=
  if ¬Hit args acc b then 0
  else if Contains args b then b.sbRpages
  else unmapPages args b

/-! ### Page arithmetic -/

section Arithmetic

variable (hal : Aligned args) (hb : BranchOk m b)

include hal hb

/-- Where the pages of the range lie in the branch. -/
theorem overlap_pages (hover : Overlaps args b) :
    (b.sbMapMin < args.addrMin →
      args.addrMin = b.sbMapMin + frontPages args b * pageSize ∧ 0 < frontPages args b) ∧
    (args.addrMax < b.sbMapMax →
      args.addrMax + 1 = b.sbMapMin + (frontPages args b + unmapPages args b) * pageSize ∧
        frontPages args b + unmapPages args b < b.sbRpages) ∧
    (b.sbMapMax ≤ args.addrMax → frontPages args b + unmapPages args b = b.sbRpages) ∧
    0 < unmapPages args b := by
  obtain ⟨h1, h2, h3⟩ := hal
  obtain ⟨h4, h5, h6⟩ := hb.leaf
  have hsize := hb.size
  unfold Overlaps at hover
  simp only [unmapPages, frontPages, pageSize] at *
  omega

end Arithmetic

theorem startPage_eq (args : UnmapArgs) (b : Branch) :
    startPage args b = b.sbRstart + frontPages args b := Nat.add_comm _ _

/-- The source's own count of the pages of a branch. -/
theorem BranchOk.ceil_pages (h : BranchOk m b) :
    b.sbRpages = (b.sbMapMax - b.sbMapMin + 1 + (pageSize - 1)) / pageSize := by
  have hsize := h.size
  have ho := h.leaf.ordered
  simp only [pageSize] at *
  omega

/-! ### The pages of what stays -/

/-- The branch maps an address to a page of a region. -/
def MapsPage (b : Branch) (addr rid page : Nat) : Prop :=
  Maps b addr ∧ b.sbRegion = rid ∧ page = b.sbRstart + (addr - b.sbMapMin) / pageSize

theorem mapsPage_cutFront (b : Branch) (pages addr rid page : Nat) :
    MapsPage (cutFront b pages) addr rid page ↔
      MapsPage b addr rid page ∧ b.sbMapMin + pages * pageSize ≤ addr := by
  simp only [MapsPage, Maps, cutFront, pageSize]
  omega

/-- The first pages of a branch, whatever clusters they have. -/
theorem mapsPage_front (b : Branch) {pages : Nat} (c addr rid page : Nat) (hpos : 0 < pages)
    (hle : b.sbMapMin + pages * pageSize ≤ b.sbMapMax + 1) :
    MapsPage { b with
      sbMapMax := b.sbMapMin + pages * pageSize - 1
      sbRpages := pages
      sbClusterMax := c } addr rid page ↔
      MapsPage b addr rid page ∧ addr < b.sbMapMin + pages * pageSize := by
  simp only [MapsPage, Maps, pageSize] at *
  omega

/-- How the range can meet a branch, with what stays of it and how many pages go. -/
inductive Outcome (args : UnmapArgs) (acc : Nat → Bool) (b : Branch) : List Branch → Nat → Prop
  | untouched : ¬Hit args acc b → Outcome args acc b [b] 0
  | whole : Hit args acc b → Contains args b → Outcome args acc b [] b.sbRpages
  | front (k : Nat) : Hit args acc b → ¬Contains args b → args.addrMin ≤ b.sbMapMin →
      args.addrMax + 1 = b.sbMapMin + k * pageSize → 0 < k → k < b.sbRpages →
      startPage args b = b.sbRstart → unmapPages args b = k →
      Outcome args acc b [cutFront b k] k
  | back (k n : Nat) : Hit args acc b → ¬Contains args b →
      args.addrMin = b.sbMapMin + k * pageSize → b.sbMapMax ≤ args.addrMax → 0 < k → 0 < n →
      k + n = b.sbRpages → startPage args b = b.sbRstart + k → unmapPages args b = n →
      Outcome args acc b [cutBack b k] n
  | middle (k n : Nat) : Hit args acc b → ¬Contains args b →
      args.addrMin = b.sbMapMin + k * pageSize →
      args.addrMax + 1 = b.sbMapMin + (k + n) * pageSize → 0 < k → 0 < n → k + n < b.sbRpages →
      startPage args b = b.sbRstart + k → unmapPages args b = n →
      Outcome args acc b [splitMin b (b.sbRstart + k), cutFront b (k + n)] n

section Remains

variable (hal : Aligned args) (hb : BranchOk m b)

include hal hb

/-- **The ways to meet a branch.** -/
theorem outcome (acc : Nat → Bool) :
    Outcome args acc b (remains args acc b) (removed args acc b) := by
  unfold remains removed
  by_cases hhit : Hit args acc b
  · simp only [hhit, not_true, if_false]
    by_cases hcon : Contains args b
    · simp only [hcon, if_true]
      exact .whole hhit hcon
    simp only [hcon, if_false]
    obtain ⟨hfront, hinside, hback, hpos'⟩ := overlap_pages hal hb hhit.1
    by_cases hmin : args.addrMin ≤ b.sbMapMin
    · have hmax : args.addrMax < b.sbMapMax := by
        by_contra hle
        exact hcon ⟨hmin, by omega⟩
      have hzero : frontPages args b = 0 := by
        rw [frontPages, Nat.sub_eq_zero_of_le hmin, Nat.zero_div]
      obtain ⟨hend, hlt⟩ := hinside hmax
      rw [hzero, Nat.zero_add] at hend hlt
      rw [if_pos hmin]
      exact .front _ hhit hcon hmin hend hpos' hlt (by rw [startPage_eq, hzero, Nat.add_zero]) rfl
    obtain ⟨hstart, hpos⟩ := hfront (by omega)
    rw [if_neg hmin]
    by_cases hmax : b.sbMapMax ≤ args.addrMax
    · rw [if_pos hmax]
      exact .back _ _ hhit hcon hstart hmax hpos hpos' (hback hmax) (startPage_eq args b) rfl
    obtain ⟨hend, hlt⟩ := hinside (by omega)
    rw [if_neg hmax, startPage_eq]
    exact .middle _ _ hhit hcon hstart hend hpos hpos' hlt (startPage_eq args b) rfl
  · simp only [hhit, not_false_eq_true, if_true]
    exact .untouched hhit

/-- **What stays of a branch** maps the addresses outside of the range, to the same pages. -/
theorem mapsPage_remains (addr rid page : Nat) :
    (∃ c ∈ remains args acc b, MapsPage c addr rid page) ↔
      MapsPage b addr rid page ∧
        ¬(args.addrMin ≤ addr ∧ addr ≤ args.addrMax ∧ acc rid = true) := by
  have hout := outcome hal hb acc
  -- Where the branch is met, its region is accepted.
  have hrid : Hit args acc b → MapsPage b addr rid page → acc rid = true :=
    fun hhit hmaps => hmaps.2.1 ▸ hhit.2
  generalize remains args acc b = rest, removed args acc b = count at hout
  cases hout with
  | untouched hhit =>
    simp only [mem_singleton, exists_eq_left]
    refine ⟨fun h => ⟨h, fun hin => hhit ?_⟩, fun h => h.1⟩
    exact ⟨⟨Nat.le_trans hin.1 h.1.2, Nat.le_trans h.1.1 hin.2.1⟩, by rw [h.2.1]; exact hin.2.2⟩
  | whole hhit hcon =>
    simp only [not_mem_nil, false_and, exists_false, false_iff]
    rintro ⟨hmaps, hout⟩
    exact hout ⟨Nat.le_trans hcon.1 hmaps.1.1, Nat.le_trans hmaps.1.2 hcon.2, hrid hhit hmaps⟩
  | front k hhit hcon hmin hend hpos hlt =>
    simp only [mem_singleton, exists_eq_left, mapsPage_cutFront]
    refine and_congr_right fun hmaps => ?_
    have := hmaps.1.1
    simp only [hrid hhit hmaps, and_true]
    omega
  | back k n hhit hcon hstart hmax hpos hpos' hlen =>
    have := hhit.1.1
    simp only [mem_singleton, exists_eq_left, cutBack]
    rw [mapsPage_front b _ addr rid page hpos (by omega)]
    refine and_congr_right fun hmaps => ?_
    have := hmaps.1.2
    simp only [hrid hhit hmaps, and_true]
    omega
  | middle k n hhit hcon hstart hend hpos hpos' hlt =>
    have := hhit.1.1
    simp only [mem_cons, not_mem_nil, or_false, exists_eq_or_imp, exists_eq_left,
      mapsPage_cutFront, splitMin, Nat.add_sub_cancel_left]
    rw [mapsPage_front b _ addr rid page hpos (by omega), ← and_or_left]
    refine and_congr_right fun hmaps => ?_
    simp only [hrid hhit hmaps, and_true]
    omega

theorem BranchOk.remains : ∀ c ∈ remains args acc b, BranchOk m c := by
  have hout := outcome hal hb acc
  generalize Shm.remains args acc b = rest, removed args acc b = count at hout
  cases hout with
  | untouched => simpa using hb
  | whole => simp
  | front k _ _ _ _ _ hlt => simpa using hb.cutFront hlt
  | back k n _ _ _ _ hpos hpos' hlen => simpa using hb.cutBack hpos (by omega)
  | middle k n _ _ _ _ hpos hpos' hlt =>
    simp only [mem_cons, not_mem_nil, or_false, forall_eq_or_imp, forall_eq]
    exact ⟨hb.splitMin (by omega) (by omega), hb.cutFront hlt⟩

/-- Each page of a branch stays or is removed. -/
theorem rpages_remains (acc : Nat → Bool) :
    ((remains args acc b).map Branch.sbRpages).sum + removed args acc b = b.sbRpages := by
  have hout := outcome hal hb acc
  generalize remains args acc b = rest, removed args acc b = count at hout
  cases hout <;>
    simp only [map_cons, map_nil, sum_cons, sum_nil, cutFront, cutBack,
      splitMin] <;> omega

/-- What stays lies where the branch was, and clear of the range if that met the branch. -/
theorem bounds_remains {c : Branch} (hc : c ∈ remains args acc b) :
    b.sbMapMin ≤ c.sbMapMin ∧ c.sbMapMax ≤ b.sbMapMax ∧ ¬Hit args acc c := by
  have hout := outcome hal hb acc
  generalize remains args acc b = rest, removed args acc b = count at hout hc
  cases hout with
  | untouched hhit =>
    obtain rfl := mem_singleton.mp hc
    exact ⟨Nat.le_refl _, Nat.le_refl _, hhit⟩
  | whole => cases hc
  | front k hhit hcon hmin hend hpos hlt =>
    obtain rfl := mem_singleton.mp hc
    simp only [cutFront, Hit, Overlaps]
    omega
  | back k n hhit hcon hstart hmax hpos hpos' hlen =>
    obtain rfl := mem_singleton.mp hc
    have := hhit.1.1
    simp only [cutBack, Hit, Overlaps, pageSize] at hstart ⊢
    omega
  | middle k n hhit hcon hstart hend hpos hpos' hlt =>
    have := hhit.1.1
    rcases mem_cons.mp hc with rfl | hc
    · simp only [splitMin, Nat.add_sub_cancel_left, Hit, Overlaps, pageSize] at hstart ⊢
      omega
    obtain rfl := mem_singleton.mp hc
    simp only [cutFront, Hit, Overlaps]
    omega

theorem apart_remains : (remains args acc b).Pairwise Disj := by
  have hout := outcome hal hb acc
  generalize remains args acc b = rest, removed args acc b = count at hout
  cases hout with
  | middle k n hhit hcon hstart hend hpos hpos' hlt =>
    refine pairwise_cons.mpr ⟨?_, pairwise_singleton ..⟩
    simp only [mem_singleton, forall_eq]
    left
    simp only [splitMin, cutFront, Nat.add_sub_cancel_left, pageSize]
    omega
  | _ => simp

end Remains

/-- What stays of a tree is a tree of disjoint leaves. -/
theorem Leaves.remains {t t' : Tree Branch} (h : Leaves t) (hal : Aligned args)
    (hbr : ∀ b ∈ t.toList, BranchOk m b)
    (hperm : t'.toList.Perm (t.toList.flatMap (remains args acc))) : Leaves t' := by
  refine ⟨fun c hc => ?_, ?_⟩
  · obtain ⟨b, hb, hcb⟩ := mem_flatMap.mp (hperm.mem_iff.mp hc)
    exact ((hbr b hb).remains hal c hcb).leaf
  · refine hperm.symm.pairwise (pairwise_flatMap.mpr
      ⟨fun b hb => apart_remains hal (hbr b hb), ?_⟩) fun h => h.symm
    refine h.apart.imp_of_mem fun {b c} hb hc hdisj x hx y hy => ?_
    have hbx := bounds_remains hal (hbr b hb) hx
    have hcy := bounds_remains hal (hbr c hc) hy
    unfold Disj Apart at hdisj ⊢
    omega

/-- The range lies in the middle of the branch. -/
def Middle (args : UnmapArgs) (b : Branch) : Prop :=
  b.sbMapMin < args.addrMin ∧ args.addrMax < b.sbMapMax

instance (args : UnmapArgs) (b : Branch) : Decidable (Middle args b) :=
  inferInstanceAs (Decidable (_ ∧ _))

/-- Only a branch around the range becomes two. -/
theorem length_remains_le (args : UnmapArgs) (acc : Nat → Bool) (l : List Branch) :
    (l.flatMap (remains args acc)).length ≤ l.length + l.countP fun b => Middle args b := by
  have hone : ∀ b, (remains args acc b).length ≤ 1 + if Middle args b then 1 else 0 := by
    intro b
    unfold remains
    by_cases hmid : Middle args b
    · rw [if_pos hmid]
      split_ifs <;> simp
    split_ifs with _ _ hmin hmax
    · simp
    · simp
    · simp
    · exact absurd ⟨Nat.lt_of_not_le hmin, Nat.lt_of_not_le hmax⟩ hmid
    · simp
  induction l with
  | nil => simp
  | cons b l ih =>
    have := hone b
    rw [flatMap_cons, length_append, length_cons, countP_cons]
    simp only [decide_eq_true_eq]
    omega

/-! ### Unmapping a list of branches -/

/-- The page directory loses this page with the branch. -/
def Cleared (args : UnmapArgs) (acc : Nat → Bool) (b : Branch) (page : Nat) : Prop :=
  Hit args acc b ∧ Contains args b ∧ b.sbMapMin / pageSize ≤ page ∧
    page < b.sbMapMin / pageSize + b.sbRpages

/-- The branches `l` became `l'`; `others` are all other branches that there are. -/
structure Unmapped (args : UnmapArgs) (acc : Nat → Bool) (others : List Branch) (w : Walk α)
    (l : List Branch) (w' : Walk α) (l' : List Branch) : Prop where
  perm : l'.Perm (l.flatMap (remains args acc))
  ledger : Ledger w'.mem (l' ++ others)
  evolves : Evolves w.mem w'.mem
  result : w'.result = w.result + (l.map (removed args acc)).sum
  cleared : ∀ b ∈ l, ∀ page, Cleared args acc b page → w'.pd page = none
  kept : ∀ page, (∀ b ∈ l, ¬Cleared args acc b page) → w'.pd page = w.pd page

namespace Unmapped

variable {others : List Branch} {w w' w'' : Walk α} {l l' k k' : List Branch}

/-- Branches that the range does not meet. -/
theorem untouched (hled : Ledger w.mem (l ++ others)) (hno : ∀ b ∈ l, ¬Hit args acc b) :
    Unmapped args acc others w l w l where
  perm := by
    have hsame : l.flatMap (remains args acc) = l.flatMap fun b => [b] :=
      flatMap_congr fun b hb => if_pos (hno b hb)
    rw [hsame, flatMap_singleton']
  ledger := hled
  evolves := .refl _
  result := by
    have hsame : l.map (removed args acc) = l.map fun _ => 0 :=
      map_congr_left fun b hb => if_pos (hno b hb)
    simp [hsame]
  cleared := fun b hb page hc => absurd hc.1 (hno b hb)
  kept := fun _ _ => rfl

/-- **Composition**: first some branches, then the others. -/
theorem comp (h : Unmapped args acc (k ++ others) w l w' l')
    (h' : Unmapped args acc (l' ++ others) w' k w'' k') :
    Unmapped args acc others w (l ++ k) w'' (l' ++ k') where
  perm := by
    rw [flatMap_append]
    exact h.perm.append h'.perm
  ledger := by
    refine h'.ledger.perm ?_
    rw [← append_assoc]
    exact perm_append_comm.append_right _
  evolves := h.evolves.trans h'.evolves
  result := by
    rw [h'.result, h.result, map_append, sum_append, Nat.add_assoc]
  cleared := by
    intro b hb page hc
    by_cases hk : ∃ c ∈ k, Cleared args acc c page
    · obtain ⟨c, hck, hcc⟩ := hk
      exact h'.cleared c hck page hcc
    have hk' : ∀ c ∈ k, ¬Cleared args acc c page := fun c hck hcc => hk ⟨c, hck, hcc⟩
    rcases mem_append.mp hb with hb | hb
    · rw [h'.kept page hk', h.cleared b hb page hc]
    · exact absurd hc (hk' b hb)
  kept := fun page hno => by
    rw [h'.kept page fun b hb => hno b (mem_append_right _ hb),
      h.kept page fun b hb => hno b (mem_append_left _ hb)]

theorem congr (h : Unmapped args acc others w l w' l') (hl : l.Perm k) (hl' : l'.Perm k') :
    Unmapped args acc others w k w' k' where
  perm := hl'.symm.trans (h.perm.trans (hl.flatMap_right _))
  ledger := h.ledger.perm (hl'.append_right _)
  evolves := h.evolves
  result := by rw [h.result, (hl.map _).sum_nat]
  cleared := fun b hb => h.cleared b (hl.mem_iff.mpr hb)
  kept := fun page hno => h.kept page fun b hb => hno b (hl.mem_iff.mp hb)

theorem whole (hb : BranchOk w.mem b) (hhit : Hit args acc b) (hcon : Contains args b)
    (hled : Ledger w.mem (b :: others)) :
    ∃ m', kshmregionDecref w.mem b.sbRegion b.sbClusterMin b.sbClusterMax = .ok m' ∧
      Unmapped args acc others w [b]
        ⟨m', kpagedirUnmap w.pd b.sbMapMin b.sbRpages, w.result + b.sbRpages⟩ [] := by
  obtain ⟨m', hval, hled', hev⟩ := hled.decref hb.cluster_le
  refine ⟨m', hval, ?_, hled', hev, ?_, ?_, ?_⟩
  · simp [remains, hhit, hcon]
  · simp [removed, hhit, hcon]
  · intro c hc page hclear
    obtain rfl := mem_singleton.mp hc
    exact if_pos hclear.2.2
  · intro page hno
    exact if_neg fun hin => hno b (mem_singleton.mpr rfl) ⟨hhit, hcon, hin⟩

/-- A branch loses a part of its pages; the page directory is left as it is. -/
theorem part {m' : Mem α} {rest : List Branch} (hcon : ¬Contains args b)
    (hrest : rest.Perm (remains args acc b)) (hled : Ledger m' (rest ++ others))
    (hev : Evolves w.mem m') : Unmapped args acc others w [b]
      { w with mem := m', result := w.result + removed args acc b } rest where
  perm := by simpa using hrest
  ledger := hled
  evolves := hev
  result := by simp
  cleared := fun c hc page hclear => by
    obtain rfl := mem_singleton.mp hc
    exact absurd hclear.2.1 hcon
  kept := fun _ _ => rfl

end Unmapped

end KosKernel.Shm
