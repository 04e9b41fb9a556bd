import KosKernel.Shm.Frames

/-!
# KosKernel.Shm.Tally

That the **counters of all regions tell the truth**: every cluster is referred to as
often as its counter says, every region by as many branches, and the frames that are
held are those of the clusters that are still referred to, each of them once.

The numbers are given by two functions. Which branches they count is said where the
branches are.
-/

namespace KosKernel.Shm

open Function List

variable {α : Type}

/-- Two states of one region. -/
structure SameShape (r r' : Region) : Prop where
  scFlags : r'.scFlags = r.scFlags
  scPages : r'.scPages = r.scPages
  scPartv : r'.scPartv = r.scPartv
  sreOrigin : r'.sreOrigin = r.sreOrigin
  sreClusterc : r'.sreClusterc = r.sreClusterc
  scPart : r'.scPart = r.scPart

theorem SameShape.refl (r : Region) : SameShape r r := ⟨rfl, rfl, rfl, rfl, rfl, rfl⟩

theorem SameShape.trans {r r' r'' : Region} (h : SameShape r r') (h' : SameShape r' r'') :
    SameShape r r'' :=
  ⟨h'.scFlags.trans h.scFlags, h'.scPages.trans h.scPages, h'.scPartv.trans h.scPartv,
    h'.sreOrigin.trans h.sreOrigin, h'.sreClusterc.trans h.sreClusterc, h'.scPart.trans h.scPart⟩

theorem SameShape.frame {r r' : Region} (h : SameShape r r') (page : Nat) :
    r'.frame page = r.frame page := by rw [Region.frame, Region.frame, h.scPartv]

theorem RegionWf.of_shape {r r' : Region} (h : RegionWf r) (hs : SameShape r r') : RegionWf r' where
  parts := hs.scPartv ▸ h.parts
  pages := by rw [hs.scPartv, hs.scPages]; exact h.pages
  pos := hs.scPages ▸ h.pos
  clusters := by rw [hs.sreClusterc, hs.scPages]; exact h.clusters
  part := by rw [hs.sreClusterc, hs.scPartv, hs.scPart]; exact h.part

/-- What a change of counters leaves alone: regions are freed, none is made or given other
pages, and nothing is written. -/
structure Evolves (m m' : Mem α) : Prop where
  regions : ∀ rid r', m'.regions rid = some r' → ∃ r, m.regions rid = some r ∧ SameShape r r'
  next : m'.next = m.next
  reserved : m'.reserved = m.reserved
  content : m'.content = m.content

theorem Evolves.refl (m : Mem α) : Evolves m m :=
  ⟨fun _ r h => ⟨r, h, .refl r⟩, rfl, rfl, rfl⟩

theorem Evolves.trans {m m' m'' : Mem α} (h : Evolves m m') (h' : Evolves m' m'') :
    Evolves m m'' := by
  refine ⟨fun rid r'' hr'' => ?_, h'.next.trans h.next, h'.reserved.trans h.reserved,
    h'.content.trans h.content⟩
  obtain ⟨r', hr', hs'⟩ := h'.regions rid r'' hr''
  obtain ⟨r, hr, hs⟩ := h.regions rid r' hr'
  exact ⟨r, hr, hs.trans hs'⟩

/-- A page of a region whose frames come from the allocator, in a cluster that is
referred to. -/
def Owns (m : Mem α) (rid page f : Nat) : Prop :=
  ∃ r, m.regions rid = some r ∧ r.scFlags.noFree = false ∧
    r.scRefcnt (getcluster page) ≠ 0 ∧ r.frame page = some f

/-- The number of clusters that are referred to. -/
def liveClusters (r : Region) : Nat :=
  (List.range r.sreClusterc).countP fun c => r.scRefcnt c ≠ 0

/-- The counters, the frames and the given numbers agree. -/
structure Tally (m : Mem α) (cnt : Nat → Nat → Nat) (brs : Nat → Nat) : Prop where
  wf : ∀ rid r, m.regions rid = some r → RegionWf r
  refcnt : ∀ rid r, m.regions rid = some r → ∀ c < r.sreClusterc, r.scRefcnt c = cnt rid c
  branches : ∀ rid r, m.regions rid = some r → r.sreBranches = brs rid
  clustera : ∀ rid r, m.regions rid = some r → r.sreClustera = liveClusters r
  cnt_live : ∀ rid c, cnt rid c ≠ 0 → ∃ r, m.regions rid = some r ∧ c < r.sreClusterc
  brs_live : ∀ rid, brs rid ≠ 0 → ∃ r, m.regions rid = some r
  owner : ∀ f rid page rid' page', Owns m rid page f → Owns m rid' page' f →
    rid = rid' ∧ page = page'
  held : ∀ f, m.held f = true ↔ ∃ rid page, Owns m rid page f
  next : ∀ rid, m.next ≤ rid → m.regions rid = none
  free : ∀ f, m.held f = true → m.reserved f = false
  fixed : ∀ rid r, m.regions rid = some r → r.scFlags.noFree = true →
    ∀ page f, r.frame page = some f → m.reserved f = true

theorem countP_range_update {n c : Nat} {p p' : Nat → Bool} (hc : c < n) (hp : p c = true)
    (hp' : p' c = false) (h : ∀ x, x ≠ c → p' x = p x) :
    (List.range n).countP p = (List.range n).countP p' + 1 := by
  induction n with
  | zero => omega
  | succ n ih =>
    rw [range_succ, countP_append, countP_append, countP_singleton,
      countP_singleton]
    by_cases hn : c = n
    · subst hn
      have hsame : (List.range c).countP p = (List.range c).countP p' := by
        refine countP_congr fun x hx => ?_
        rw [h x (Nat.ne_of_lt (mem_range.mp hx))]
      simp [hp, hp', hsame]
    · rw [ih (by omega), h n (Ne.symm hn)]
      omega

section

variable {m m' : Mem α} {cnt cnt' : Nat → Nat → Nat} {brs brs' : Nat → Nat} {rid : Nat}
  {r r' : Region}

section

variable (h : Tally m cnt brs)

include h

section

variable (hr : m.regions rid = some r)

include hr

/-- One region changes its counters. No cluster comes back to life, and the frames of
those that die are given back. -/
theorem Tally.replace (hshape : SameShape r r')
    (hregions : m'.regions = update m.regions rid (some r')) (hnext : m'.next = m.next)
    (hreserved : m'.reserved = m.reserved) (hcontent : m'.content = m.content)
    (hcnt : ∀ i j, i ≠ rid → cnt' i j = cnt i j) (hbrs : ∀ i, i ≠ rid → brs' i = brs i)
    (hrefcnt : ∀ c < r.sreClusterc, r'.scRefcnt c = cnt' rid c)
    (hlive : ∀ c, cnt' rid c ≠ 0 → cnt rid c ≠ 0) (hbranches : r'.sreBranches = brs' rid)
    (hclustera : r'.sreClustera = liveClusters r')
    (hheld : ∀ f, m'.held f = true ↔ m.held f = true ∧ ¬∃ page, r.scFlags.noFree = false ∧
      r.scRefcnt (getcluster page) ≠ 0 ∧ r'.scRefcnt (getcluster page) = 0 ∧
      r.frame page = some f) :
    Tally m' cnt' brs' ∧ Evolves m m' := by
  have hwf := h.wf rid r hr
  have hself : m'.regions rid = some r' := by rw [hregions, update_self]
  have hother : ∀ i, i ≠ rid → m'.regions i = m.regions i := fun i hi => by
    rw [hregions, update_of_ne hi]
  -- What is owned afterwards was owned before, and has not died.
  have howns : ∀ i page f, Owns m' i page f ↔ Owns m i page f ∧
      ¬(i = rid ∧ r'.scRefcnt (getcluster page) = 0) := by
    intro i page f
    by_cases hi : i = rid
    · subst hi
      simp only [Owns, hself, hr, Option.some.injEq, exists_eq_left', hshape.scFlags,
        hshape.frame, true_and]
      constructor
      · rintro ⟨hfree, hcl, hf⟩
        have hlt := hwf.cluster_lt (hwf.frame_lt hf)
        refine ⟨⟨hfree, ?_, hf⟩, hcl⟩
        rw [hrefcnt _ hlt] at hcl
        rw [h.refcnt i r hr _ hlt]
        exact hlive _ hcl
      · rintro ⟨⟨hfree, -, hf⟩, halive⟩
        exact ⟨hfree, halive, hf⟩
    · have : Owns m' i page f ↔ Owns m i page f := by rw [Owns, Owns, hother i hi]
      rw [this]
      simp [hi]
  refine ⟨⟨?_, ?_, ?_, ?_, ?_, ?_, ?_, ?_, ?_, ?_, ?_⟩, fun i r1 hr1 => ?_, hnext, hreserved,
    hcontent⟩
  · intro i r1 hr1
    obtain ⟨-, ⟨⟩⟩ | ⟨-, hr1⟩ := Mem.regions_cases hr1 hregions
    · exact hwf.of_shape hshape
    · exact h.wf i r1 hr1
  · intro i r1 hr1 c hc
    obtain ⟨rfl, ⟨⟩⟩ | ⟨hi, hr1⟩ := Mem.regions_cases hr1 hregions
    · exact hrefcnt c (hshape.sreClusterc ▸ hc)
    · rw [hcnt i c hi]
      exact h.refcnt i r1 hr1 c hc
  · intro i r1 hr1
    obtain ⟨rfl, ⟨⟩⟩ | ⟨hi, hr1⟩ := Mem.regions_cases hr1 hregions
    · exact hbranches
    · rw [hbrs i hi]
      exact h.branches i r1 hr1
  · intro i r1 hr1
    obtain ⟨-, ⟨⟩⟩ | ⟨-, hr1⟩ := Mem.regions_cases hr1 hregions
    · exact hclustera
    · exact h.clustera i r1 hr1
  · intro i c hc
    by_cases hi : i = rid
    · subst hi
      obtain ⟨r1, hr1, hlt⟩ := h.cnt_live i c (hlive c hc)
      obtain rfl := Option.some.inj (hr.symm.trans hr1)
      exact ⟨r', hself, hshape.sreClusterc.symm ▸ hlt⟩
    · rw [hother i hi]
      exact h.cnt_live i c (hcnt i c hi ▸ hc)
  · intro i hb
    by_cases hi : i = rid
    · exact ⟨r', hi ▸ hself⟩
    · rw [hother i hi]
      exact h.brs_live i (hbrs i hi ▸ hb)
  · intro f i page i' page' ho ho'
    exact h.owner f i page i' page' ((howns i page f).mp ho).1 ((howns i' page' f).mp ho').1
  · intro f
    rw [hheld, h.held]
    constructor
    · rintro ⟨⟨i, page, ho⟩, hnot⟩
      refine ⟨i, page, (howns i page f).mpr ⟨ho, ?_⟩⟩
      rintro ⟨rfl, h0⟩
      obtain ⟨r1, hr1, hfree, hcl, hf⟩ := ho
      rw [hr] at hr1
      obtain rfl := Option.some.inj hr1
      exact hnot ⟨page, hfree, hcl, h0, hf⟩
    · rintro ⟨i, page, ho⟩
      obtain ⟨ho, halive⟩ := (howns i page f).mp ho
      refine ⟨⟨i, page, ho⟩, ?_⟩
      rintro ⟨page', hfree, hcl, h0, hf⟩
      obtain ⟨rfl, rfl⟩ := h.owner f i page rid page' ho ⟨r, hr, hfree, hcl, hf⟩
      exact halive ⟨rfl, h0⟩
  · intro i hi
    rw [hnext] at hi
    have hne : i ≠ rid := by
      rintro rfl
      simp [h.next i hi] at hr
    rw [hother i hne]
    exact h.next i hi
  · intro f hf
    rw [hreserved]
    exact h.free f ((hheld f).mp hf).1
  · intro i r1 hr1 hnofree page f hf
    rw [hreserved]
    obtain ⟨rfl, ⟨⟩⟩ | ⟨-, hr1⟩ := Mem.regions_cases hr1 hregions
    · exact h.fixed i r hr (hshape.scFlags ▸ hnofree) page f ((hshape.frame page).symm.trans hf)
    · exact h.fixed i r1 hr1 hnofree page f hf
  · obtain ⟨rfl, ⟨⟩⟩ | ⟨-, hr1⟩ := Mem.regions_cases hr1 hregions
    · exact ⟨r, hr, hshape⟩
    · exact ⟨r1, hr1, .refl r1⟩

/-! ### Counters -/

/-- The numbers when one cluster has one reference less. -/
def decrAt (cnt : Nat → Nat → Nat) (rid c : Nat) : Nat → Nat → Nat :=
  fun i j => if i = rid ∧ j = c then cnt i j - 1 else cnt i j

/-- The numbers when some clusters have one reference less. -/
def decrRange (cnt : Nat → Nat → Nat) (rid first count : Nat) : Nat → Nat → Nat :=
  fun i j => if i = rid ∧ first ≤ j ∧ j < first + count then cnt i j - 1 else cnt i j

/-- The numbers when some clusters have one reference more. -/
def incrRange (cnt : Nat → Nat → Nat) (rid first count : Nat) : Nat → Nat → Nat :=
  fun i j => if i = rid ∧ first ≤ j ∧ j < first + count then cnt i j + 1 else cnt i j

theorem Tally.adjust (hshape : SameShape r r') (hcnt : ∀ i j, i ≠ rid → cnt' i j = cnt i j)
    (hbrs : ∀ i, i ≠ rid → brs' i = brs i)
    (hrefcnt : ∀ c < r.sreClusterc, r'.scRefcnt c = cnt' rid c)
    (hlive : ∀ c, cnt' rid c ≠ 0 → cnt rid c ≠ 0) (hbranches : r'.sreBranches = brs' rid)
    (hclustera : r'.sreClustera = r.sreClustera)
    (hzero : ∀ c, r'.scRefcnt c = 0 ↔ r.scRefcnt c = 0) :
    Tally (m.setRegion rid r') cnt' brs' ∧ Evolves m (m.setRegion rid r') := by
  refine h.replace hr hshape rfl rfl rfl rfl hcnt hbrs hrefcnt hlive hbranches ?_ ?_
  · rw [hclustera, h.clustera rid r hr, liveClusters, liveClusters, hshape.sreClusterc]
    exact countP_congr fun c _ => by simp [hzero]
  · intro f
    refine (and_iff_left ?_).symm
    rintro ⟨page, -, hcl, h0, -⟩
    exact hcl ((hzero _).mp h0)

theorem Tally.setBranches (n : Nat) :
    Tally (m.setRegion rid { r with sreBranches := n }) cnt (update brs rid n) ∧
      Evolves m (m.setRegion rid { r with sreBranches := n }) :=
  h.adjust hr ⟨rfl, rfl, rfl, rfl, rfl, rfl⟩ (fun _ _ _ => rfl) (fun _ hi => update_of_ne hi ..)
    (h.refcnt rid r hr) (fun _ hc => hc) (by rw [update_self]) rfl fun _ => Iff.rfl

/-- The counter of a cluster that is in use changes, and the cluster stays in use. -/
theorem Tally.setRefcnt {c v : Nat} (hc : c < r.sreClusterc) (hold : r.scRefcnt c ≠ 0) (hv : v ≠ 0)
    (hcnt : ∀ i j, cnt' i j = if i = rid ∧ j = c then v else cnt i j) :
    Tally (m.setRegion rid { r with scRefcnt := update r.scRefcnt c v }) cnt' brs ∧
      Evolves m (m.setRegion rid { r with scRefcnt := update r.scRefcnt c v }) := by
  refine h.adjust hr ⟨rfl, rfl, rfl, rfl, rfl, rfl⟩ ?_ (fun _ _ => rfl) ?_ ?_
    (h.branches rid r hr) rfl fun j => ?_
  · exact fun i j hi => (hcnt i j).trans (if_neg fun hh => hi hh.1)
  · intro j hj
    simp only [hcnt, true_and, update_apply, h.refcnt rid r hr j hj]
  · intro j hj
    rw [hcnt] at hj
    split_ifs at hj with hjc
    · rwa [hjc.2, ← h.refcnt rid r hr c hc]
    · exact hj
  · simp only [update_apply]
    split_ifs with hj
    · exact iff_of_false hv (hj ▸ hold)
    · rfl

/-- A cluster loses its last reference, and its frames are given back. -/
theorem Tally.freecluster {c : Nat} (hc : c < r.sreClusterc) (hone : r.scRefcnt c = 1) :
    ∃ m', kshmregionFreecluster (m.setRegion rid { r with
        scRefcnt := update r.scRefcnt c 0 }) rid c = .ok m' ∧
      Tally m' (decrAt cnt rid c) brs ∧ Evolves m m' := by
  have hwf := h.wf rid r hr
  obtain ⟨r1, hr1⟩ : ∃ r1, r1 = { r with scRefcnt := update r.scRefcnt c 0 } := ⟨_, rfl⟩
  have hshape1 : SameShape r r1 := by rw [hr1]; exact ⟨rfl, rfl, rfl, rfl, rfl, rfl⟩
  obtain ⟨runs, hruns, hframes⟩ := (hwf.of_shape hshape1).clusterPieces
    (hshape1.sreClusterc.symm ▸ hc)
  rw [hshape1.scPartv, Nat.one_mul] at hframes
  have hlive : liveClusters r = liveClusters r1 + 1 := by
    rw [hr1]
    refine countP_range_update hc ?_ ?_ fun x hx => ?_
    · simp [hone]
    · simp
    · simp [update_of_ne hx]
  have ha : r1.sreClustera = liveClusters r := by rw [hr1]; exact h.clustera rid r hr
  obtain ⟨r2, hr2⟩ : ∃ r2, r2 = { r1 with sreClustera := r1.sreClustera - 1 } := ⟨_, rfl⟩
  have hshape2 : SameShape r r2 := by
    rw [hr2]
    exact hshape1.trans ⟨rfl, rfl, rfl, rfl, rfl, rfl⟩
  obtain ⟨m1, hm1⟩ : ∃ m1 : Mem α, m1 = if r1.scFlags.noFree then m.setRegion rid r1 else
      runs.foldl (fun m run => kpageframeFree m run.1 run.2) (m.setRegion rid r1) := ⟨_, rfl⟩
  have hrest : m1 = { m.setRegion rid r1 with held := m1.held } := by
    rw [hm1, foldl_free]
    split_ifs <;> rfl
  have hregions : (m1.setRegion rid r2).regions = update m.regions rid (some r2) := by
    rw [hrest]
    exact update_idem ..
  refine ⟨m1.setRegion rid r2, ?_, ?_⟩
  · have hreg : (m.setRegion rid r1).region rid = .ok r1 := Mem.region_of (update_self ..)
    have ha0 : r1.sreClustera ≠ 0 := by omega
    rw [← hr1, kshmregionFreecluster, hreg]
    simp only [Except.bind, bind, hruns, if_neg ha0]
    rw [hr2, hm1]
  · have hzero : ∀ j, r2.scRefcnt j = if j = c then 0 else r.scRefcnt j := fun j => by
      simp only [hr2, hr1, update_apply]
    refine h.replace hr hshape2 hregions (by rw [hrest]; rfl) (by rw [hrest]; rfl)
      (by rw [hrest]; rfl) ?_ (fun _ _ => rfl) ?_ ?_ ?_ ?_ ?_
    · exact fun i j hi => if_neg fun hh => hi hh.1
    · intro j hj
      rw [hzero]
      by_cases hjc : j = c
      · subst hjc
        simp [decrAt, ← h.refcnt rid r hr j hj, hone]
      · simp [decrAt, hjc, ← h.refcnt rid r hr j hj]
    · intro j hj
      unfold decrAt at hj
      split_ifs at hj <;> omega
    · rw [hr2, hr1]
      exact h.branches rid r hr
    · have hl2 : liveClusters r2 = liveClusters r1 := by rw [hr2]; rfl
      rw [hl2, hr2]
      show r1.sreClustera - 1 = _
      omega
    · intro f
      have hcl : f ∈ runFrames runs ↔ ∃ page, getcluster page = c ∧ r.frame page = some f := by
        rw [hframes]
        exact mem_cluster_frames
      have hdies : (∃ page, r.scFlags.noFree = false ∧ r.scRefcnt (getcluster page) ≠ 0 ∧
          r2.scRefcnt (getcluster page) = 0 ∧ r.frame page = some f) ↔
          r.scFlags.noFree = false ∧ f ∈ runFrames runs := by
        rw [hcl]
        constructor
        · rintro ⟨page, hfree, hpos, h0, hf⟩
          rw [hzero] at h0
          split_ifs at h0 with hpc
          · exact ⟨hfree, page, hpc, hf⟩
          · exact absurd h0 hpos
        · rintro ⟨hfree, page, rfl, hf⟩
          exact ⟨page, hfree, by omega, by rw [hzero, if_pos rfl], hf⟩
      rw [hdies, hm1, hshape1.scFlags]
      by_cases hfree : r.scFlags.noFree = true
      · simp [hfree, Mem.setRegion]
      · simp only [hfree, foldl_free]
        by_cases hmem : f ∈ runFrames runs <;> simp [hmem, Mem.setRegion]

end

theorem Tally.decrefCluster {c : Nat} (hpos : cnt rid c ≠ 0) :
    ∃ m', decrefCluster m rid c = .ok m' ∧ Tally m' (decrAt cnt rid c) brs ∧ Evolves m m' := by
  obtain ⟨r, hr, hc⟩ := h.cnt_live rid c hpos
  have href := h.refcnt rid r hr c hc
  have hok : ¬(r.sreClusterc ≤ c ∨ r.scRefcnt c = 0) := by omega
  rw [Shm.decrefCluster, Mem.region_of hr]
  simp only [Except.bind, bind, if_neg hok]
  by_cases hone : r.scRefcnt c - 1 = 0
  · rw [if_pos hone, hone]
    exact h.freecluster hr hc (by omega)
  · rw [if_neg hone]
    refine ⟨_, rfl, h.setRefcnt hr hc (by omega) hone fun i j => ?_⟩
    exact if_ctx_congr Iff.rfl (fun hij => by rw [hij.1, hij.2, href]) fun _ => rfl

theorem Tally.decrefLoop {first count : Nat}
    (hpos : ∀ c, first ≤ c → c < first + count → cnt rid c ≠ 0) :
    ∃ m', decrefLoop rid count m first = .ok m' ∧ Tally m' (decrRange cnt rid first count) brs ∧
      Evolves m m' := by
  induction count generalizing m cnt first with
  | zero =>
    refine ⟨m, rfl, ?_, .refl m⟩
    have hsame : decrRange cnt rid first 0 = cnt := by
      funext i j
      exact if_neg (by omega)
    exact hsame.symm ▸ h
  | succ count ih =>
    obtain ⟨m1, hval1, h1, hev1⟩ := h.decrefCluster (hpos first (Nat.le_refl _) (by omega))
    have hpos1 : ∀ c, first + 1 ≤ c → c < first + 1 + count → decrAt cnt rid first rid c ≠ 0 := by
      intro c hlo hhi
      rw [decrAt, if_neg (by omega)]
      exact hpos c (by omega) (by omega)
    obtain ⟨m2, hval2, h2, hev2⟩ := ih h1 hpos1
    refine ⟨m2, ?_, ?_, hev1.trans hev2⟩
    · rw [Shm.decrefLoop, hval1]
      exact hval2
    · convert h2 using 1
      funext i j
      unfold decrRange decrAt
      split_ifs <;> omega

theorem Tally.kshmregionDecrefClusters {clsMin clsMax : Nat} (hle : clsMin ≤ clsMax)
    (hpos : ∀ c, clsMin ≤ c → c ≤ clsMax → cnt rid c ≠ 0) :
    ∃ m', kshmregionDecrefClusters m rid clsMin clsMax = .ok m' ∧
      Tally m' (decrRange cnt rid clsMin (clsMax - clsMin + 1)) brs ∧ Evolves m m' := by
  rw [Shm.kshmregionDecrefClusters, if_pos hle]
  exact h.decrefLoop fun c hlo hhi => hpos c hlo (by omega)

/-- A branch gives up its reference to a region. With the last one, all its clusters are
dead and the region is freed. -/
theorem Tally.decrefBranches (hpos : brs rid ≠ 0) (hlast : brs rid = 1 → ∀ c, cnt rid c = 0) :
    ∃ m', decrefBranches m rid = .ok m' ∧
      Tally m' cnt (update brs rid (brs rid - 1)) ∧ Evolves m m' := by
  obtain ⟨r, hr⟩ := h.brs_live rid hpos
  have hb := h.branches rid r hr
  rw [Shm.decrefBranches, Mem.region_of hr]
  simp only [Except.bind, bind, if_neg (show ¬r.sreBranches = 0 by omega)]
  by_cases hone : r.sreBranches = 1
  · rw [if_pos hone]
    have hzero := hlast (by omega)
    have hne : ∀ {i r1}, (m.freeRegion rid).regions i = some r1 →
        i ≠ rid ∧ m.regions i = some r1 := by
      intro i r1 hr1
      obtain ⟨-, ⟨⟩⟩ | hne := Mem.regions_cases hr1 rfl
      exact hne
    have howns : ∀ i page f, Owns (m.freeRegion rid) i page f ↔ Owns m i page f := by
      intro i page f
      constructor
      · rintro ⟨r1, hr1, hrest⟩
        exact ⟨r1, (hne hr1).2, hrest⟩
      · rintro ⟨r1, hr1, hfree, hcl, hf⟩
        have hi : i ≠ rid := by
          rintro rfl
          have hwf := h.wf i r1 hr1
          exact hcl ((h.refcnt i r1 hr1 _ (hwf.cluster_lt (hwf.frame_lt hf))).trans (hzero _))
        exact ⟨r1, by simpa [hi] using hr1, hfree, hcl, hf⟩
    refine ⟨_, rfl, ⟨?_, ?_, ?_, ?_, ?_, ?_, ?_, ?_, ?_, h.free, ?_⟩, ?_, rfl, rfl, rfl⟩
    · exact fun i r1 hr1 => h.wf i r1 (hne hr1).2
    · exact fun i r1 hr1 => h.refcnt i r1 (hne hr1).2
    · intro i r1 hr1
      rw [update_of_ne (hne hr1).1]
      exact h.branches i r1 (hne hr1).2
    · exact fun i r1 hr1 => h.clustera i r1 (hne hr1).2
    · intro i c hc
      have hi : i ≠ rid := by
        rintro rfl
        exact hc (hzero c)
      rw [Mem.freeRegion_of_ne _ hi]
      exact h.cnt_live i c hc
    · intro i hbi
      have hi : i ≠ rid := by
        rintro rfl
        rw [update_self] at hbi
        omega
      rw [update_of_ne hi] at hbi
      rw [Mem.freeRegion_of_ne _ hi]
      exact h.brs_live i hbi
    · intro f i page i' page' ho ho'
      exact h.owner f i page i' page' ((howns ..).mp ho) ((howns ..).mp ho')
    · intro f
      simp only [howns]
      exact h.held f
    · intro i hi
      by_cases hir : i = rid
      · rw [hir, Mem.freeRegion_self]
      · rw [Mem.freeRegion_of_ne _ hir]
        exact h.next i hi
    · exact fun i r1 hr1 => h.fixed i r1 (hne hr1).2
    · exact fun i r1 hr1 => ⟨r1, (hne hr1).2, .refl r1⟩
  · rw [if_neg hone]
    exact ⟨_, rfl, hb ▸ h.setBranches hr _⟩

theorem Tally.increfBranches (hpos : brs rid ≠ 0) :
    ∃ m', increfBranches m rid = .ok m' ∧
      Tally m' cnt (update brs rid (brs rid + 1)) ∧ Evolves m m' := by
  obtain ⟨r, hr⟩ := h.brs_live rid hpos
  have hb := h.branches rid r hr
  rw [Shm.increfBranches, Mem.region_of hr]
  simp only [Except.bind, bind, if_neg (show ¬r.sreBranches = 0 by omega)]
  exact ⟨_, rfl, hb ▸ h.setBranches hr _⟩

theorem Tally.increment (hr : m.regions rid = some r) {c : Nat} (hc : c < r.sreClusterc)
    (hpos : r.scRefcnt c ≠ 0) {m' : Mem α} (hm' : m' = m.setRegion rid { r with
      scRefcnt := update r.scRefcnt c (r.scRefcnt c + 1) }) :
    Tally m' (incrRange cnt rid c 1) brs ∧ Evolves m m' := by
  subst hm'
  refine h.setRefcnt hr hc hpos (Nat.succ_ne_zero _) fun i j => ?_
  exact if_ctx_congr (by omega) (fun hij => by rw [hij.1, hij.2, h.refcnt rid r hr c hc])
    fun _ => rfl

end

end

end KosKernel.Shm
