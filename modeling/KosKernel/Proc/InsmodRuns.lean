import KosKernel.Proc.InsmodCount

/-!
# KosKernel.Proc.InsmodRuns

**Inserting and deleting libraries over a whole run.**

Deleting a module gives back one reference, and the references of the module itself if it was the
last one. Inserting a library adds one reference to it and, in the code, one to each of its
dependencies, also if the library was loaded before. Then those references are never given back,
since deleting the library touches its dependencies only the last time. So an insertion is right
if it meets no library with dependencies that is loaded already (`Fresh`), and in every run of
such insertions and of deletions the counters are right after every call, and a failing insertion
leaves nothing behind.
-/

namespace KosKernel.Proc

open Function List

variable {L R : Type}

namespace Modules

variable {g : Libraries L R} {M₀ : Multiset (Nat × R)} {s s' s'' : Modules L R}
  {ext : Multiset L} {r : L → Nat} {m : L} {id b b' : Nat} {e : Module L}

/-- The libraries of a rank below `b` have all their dependencies. -/
structure Complete (g : Libraries L R) (s : Modules L R) (r : L → Nat) (b : Nat) : Prop where
  all : ∀ l, g.rank l < b → r l = (g.deps l).length
  ids : ∀ {i e}, s.slot i = some e → g.rank e.lib < b → e.depids.length = (g.deps e.lib).length

theorem Complete.mono (h : Complete g s r b) (hb : b' ≤ b) : Complete g s r b' :=
  ⟨fun l hl => h.all l (Nat.lt_of_lt_of_le hl hb), fun he hl => h.ids he (Nat.lt_of_lt_of_le hl hb)⟩

/-- The counted dependencies of a library change with no effect on those of a lower rank. -/
theorem Complete.update [DecidableEq L] (h : Complete g s r (g.rank m)) (n : Nat) :
    Complete g s (update r m n) (g.rank m) where
  all l hl := by
    rw [update_of_ne (ne_of_apply_ne g.rank (Nat.ne_of_lt hl))]
    exact h.all l hl
  ids := h.ids

theorem Complete.refs_eq (h : Complete g s r (g.rank m + 1)) : g.refs r m = g.deps m := by
  rw [Libraries.refs, h.all _ (Nat.lt_succ_self _), take_length]

/-! ### Deleting -/

/-- The table lost references to libraries of a rank below `b`. -/
structure Shrinks (g : Libraries L R) (b : Nat) (s s' : Modules L R) : Prop where
  back : ∀ {i e'}, s'.slot i = some e' → ∃ e, s.slot i = some e ∧ Like e e'
  high : ∀ {i e}, s.slot i = some e → b ≤ g.rank e.lib → s'.slot i = some e

theorem like_trans {e1 e2 e3 : Module L} (h : Like e1 e2) (h' : Like e2 e3) : Like e1 e3 :=
  ⟨h'.1.trans h.1, h'.2.1.trans h.2.1, h'.2.2.trans h.2.2⟩

theorem Shrinks.refl : Shrinks g b s s := ⟨fun he => ⟨_, he, rfl, rfl, rfl⟩, fun he _ => he⟩

theorem Shrinks.trans (h : Shrinks g b s s') (h' : Shrinks g b s' s'') : Shrinks g b s s'' where
  back he := by
    obtain ⟨e1, he1, hlike1⟩ := h'.back he
    obtain ⟨e2, he2, hlike2⟩ := h.back he1
    exact ⟨e2, he2, like_trans hlike2 hlike1⟩
  high he hb := h'.high (h.high he hb) hb

theorem Shrinks.mono (h : Shrinks g b s s') (hb : b ≤ b') : Shrinks g b' s s' :=
  ⟨h.back, fun he hb' => h.high he (Nat.le_trans hb hb')⟩

theorem Complete.shrinks (h : Complete g s r b) (hs : Shrinks g b' s s') : Complete g s' r b where
  all := h.all
  ids he hl := by
    obtain ⟨e0, he0, hlib, -, hdepids⟩ := hs.back he
    rw [hdepids, hlib]
    exact h.ids he0 (hlib ▸ hl)

theorem shrinks_set {o : Option (Module L)} (he : s.slot id = some e)
    (hslot : s'.slot = update s.slot id o) (hlike : ∀ e', o = some e' → Like e e') :
    Shrinks g (g.rank e.lib + 1) s s' where
  back {i x} hx := by
    obtain ⟨rfl, hx⟩ | ⟨-, hx⟩ := slot_cases hslot hx
    · exact ⟨e, he, hlike x hx⟩
    · exact ⟨x, hx, rfl, rfl, rfl⟩
  high {i x} hx hb := by
    have hi : i ≠ id := by
      rintro rfl
      obtain rfl := Option.some.inj (he.symm.trans hx)
      omega
    rw [hslot, update_of_ne hi]
    exact hx

theorem shrinks_update {e' : Module L} (he : s.slot id = some e)
    (hslot : s'.slot = update s.slot id (some e')) (hlike : Like e e') :
    Shrinks g (g.rank e.lib + 1) s s' :=
  shrinks_set he hslot fun _ h => Option.some.inj h ▸ hlike

variable [DecidableEq L]

/-- Module numbers and the libraries loaded there -/
def Names (s : Modules L R) : List Nat → List L → Prop :=
  List.Forall₂ fun id l => ∃ e, s.slot id = some e ∧ e.lib = l

/-- The dependency numbers of a module name its counted dependencies. -/
theorem Inv.names_refs (h : Inv g M₀ s ext r) (he : s.slot id = some e)
    (hlen : e.depids.length = (g.refs r e.lib).length) : s.Names e.depids (g.refs r e.lib) := by
  refine List.forall₂_iff_get.2 ⟨hlen, fun j h1 h2 => ?_⟩
  obtain ⟨i, x, hi, hx, hlib⟩ := h.named he (getElem?_eq_getElem h2)
  obtain rfl := Option.some.inj ((getElem?_eq_getElem h1).symm.trans hi)
  exact ⟨x, hx, hlib⟩

theorem Inv.names (h : Inv g M₀ s ext r) (he : s.slot id = some e)
    (hc : Complete g s r (g.rank e.lib + 1)) : s.Names e.depids (g.deps e.lib) := by
  have hlen := hc.ids he (Nat.lt_succ_self _)
  rw [← hc.refs_eq] at hlen ⊢
  exact h.names_refs he hlen

/-- Libraries that are still referred to stay where they were. -/
theorem Inv.names_of_shrinks {ids : List Nat} {ls : List L} {ext' : Multiset L}
    (h : Inv g M₀ s ext r) (h' : Inv g M₀ s' (↑ls + ext') r) (hs : Shrinks g b s s')
    (hnames : s.Names ids ls) : s'.Names ids ls := by
  have hmem : ∀ l ∈ ls, s'.Loaded l := fun l hl =>
    h'.held (Multiset.mem_add.2 (.inl (Multiset.mem_coe.2 hl)))
  clear h'
  induction hnames with
  | nil => exact .nil
  | cons hx _ ih =>
    obtain ⟨x, hx, rfl⟩ := hx
    refine .cons ?_ (ih fun l hl => hmem l (mem_cons_of_mem _ hl))
    obtain ⟨i, y, hy, hlib⟩ := hmem x.lib (mem_cons_self)
    obtain ⟨z, hz, hlike⟩ := hs.back hy
    obtain rfl := h.unique hz hx (hlike.1.symm.trans hlib)
    exact ⟨y, hy, hlib⟩

/-- What deleting a module of a rank below `b` has to achieve. -/
def Deletes (g : Libraries L R) (M₀ : Multiset (Nat × R)) (r : L → Nat) (b : Nat)
    (del : Modules L R → Nat → Option (ModRet × Modules L R)) : Prop :=
  ∀ {s : Modules L R} {ext : Multiset L} {id : Nat} {e : Module L},
    Inv g M₀ s (e.lib ::ₘ ext) r → s.slot id = some e → g.rank e.lib < b → Complete g s r b →
    ∃ ret s', del s id = some (ret, s') ∧ (ret = .ok ∨ ret = .unchanged) ∧ Inv g M₀ s' ext r ∧
      Shrinks g b s s'

variable {del : Modules L R → Nat → Option (ModRet × Modules L R)}

theorem delmodAll_spec (hdel : Deletes g M₀ r b del) {ids : List Nat} {ls : List L}
    (hnames : s.Names ids ls) (hrank : ∀ l ∈ ls, g.rank l < b) (hc : Complete g s r b)
    (h : Inv g M₀ s (↑ls + ext) r) :
    ∃ s', delmodAll del ids s = some s' ∧ Inv g M₀ s' ext r ∧ Shrinks g b s s' := by
  induction ids generalizing s ls with
  | nil =>
    cases hnames
    exact ⟨s, rfl, by simpa using h, Shrinks.refl⟩
  | cons id ids ih =>
    obtain _ | ⟨⟨e, he, rfl⟩, hrest⟩ := hnames
    rename_i ls
    rw [← Multiset.cons_coe, Multiset.cons_add] at h
    obtain ⟨ret, s₁, heq, -, h1, hs1⟩ := hdel h he (hrank _ (by simp)) hc
    have hnames1 := h.names_of_shrinks h1 hs1 hrest
    obtain ⟨s₂, heq2, h2, hs2⟩ := ih hnames1 (fun l hl => hrank l (by simp [hl]))
      (hc.shrinks hs1) h1
    exact ⟨s₂, by rw [delmodAll, heq]; exact heq2, h2, hs1.trans hs2⟩

theorem Inv.maps_split (h : Inv g M₀ s ext r) (he : s.slot id = some e) :
    ∃ M, s.maps = g.sections e + M := by
  have hslot : ({ s with modv := s.modv.set id none } : Modules L R).slot =
      update s.slot id none := Slots.slot_set (Slots.lt_length_of_slot he) none
  have hsec := sections_update (g := g) hslot
  rw [he, Option.elim_some, Option.elim_none, add_zero] at hsec
  refine ⟨Slots.total (s.modv.set id none) g.sections + M₀, ?_⟩
  rw [h.maps, ← hsec]
  abel

/-- **Deleting a module** gives back one reference to it. -/
theorem kprocDelmod_spec [DecidableEq R] (g : Libraries L R) (M₀ : Multiset (Nat × R)) (r : L → Nat)
    (depth : Nat) : ∀ b ≤ depth, Deletes g M₀ r b (kprocDelmod g depth) := by
  induction depth with
  | zero =>
    intro b hb s ext id e _ _ hrank
    omega
  | succ depth ih =>
    intro b hb s ext id e h he hrank hc
    have hc' : Complete g s r (g.rank e.lib + 1) := hc.mono hrank
    rcases Nat.lt_or_ge 1 e.loadc with hmany | hone
    · obtain ⟨s', heq, hmaps, hslot⟩ := kprocDelmodSingle_unchanged (g := g) he hmany
      refine ⟨.unchanged, s', by rw [kprocDelmod, heq], .inr rfl, h.decr he hmany hslot hmaps, ?_⟩
      exact (shrinks_update he hslot ⟨rfl, rfl, rfl⟩).mono hrank
    have hloadc : e.loadc = 1 := by
      have := h.pos he
      omega
    obtain ⟨M, hM⟩ := h.maps_split he
    obtain ⟨s₁, heq, hmaps, hslot⟩ := kprocDelmodSingle_ok (g := g) he hloadc hM
    have hs1 := shrinks_set (g := g) he hslot fun _ h =>
      (Option.some_ne_none _ h.symm).elim
    have h1 := h.leave he hloadc hslot (by rw [hmaps, hM])
    rw [hc'.refs_eq, add_comm, ← Multiset.coe_reverse] at h1
    have hnames : s.Names e.depids.reverse (g.deps e.lib).reverse :=
      List.forall₂_reverse_iff.2 (h.names he hc')
    have hnames1 := h.names_of_shrinks h1 hs1 hnames
    have hdeps : ∀ l ∈ (g.deps e.lib).reverse, g.rank l < g.rank e.lib := fun l hl =>
      g.rank_lt _ _ (mem_reverse.1 hl)
    obtain ⟨s₂, heq2, h2, hs2⟩ := delmodAll_spec (ih (g.rank e.lib) (by omega)) hnames1 hdeps
      ((hc'.shrinks hs1).mono (Nat.le_succ _)) h1
    refine ⟨.ok, s₂, by simp only [kprocDelmod, heq, heq2, Option.map_some], .inl rfl, h2, ?_⟩
    exact (hs1.trans (hs2.mono (Nat.le_succ _))).mono hrank

/-! ### Inserting -/

/-- The libraries an insertion meets, in order, up to a depth -/
def treeTo (g : Libraries L R) : Nat → L → List L
  | 0, _ => []
  | depth + 1, m => m :: (g.deps m).flatMap (treeTo g depth)

/-- The libraries an insertion meets: the library and, for each dependency, what its insertion
meets. -/
def tree (g : Libraries L R) (m : L) : List L := treeTo g (g.rank m + 1) m

omit [DecidableEq L] in
theorem treeTo_eq (g : Libraries L R) {n k : Nat} {m : L} (hn : g.rank m < n) (hk : g.rank m < k) :
    treeTo g n m = treeTo g k m := by
  induction n generalizing k m with
  | zero => omega
  | succ n ih =>
    obtain ⟨k, rfl⟩ : ∃ k', k = k' + 1 := ⟨k - 1, by omega⟩
    rw [treeTo, treeTo]
    congr 1
    refine flatMap_congr fun d hd => ?_
    have := g.rank_lt m d hd
    exact ih (by omega) (by omega)

omit [DecidableEq L] in
theorem tree_eq (g : Libraries L R) (m : L) : tree g m = m :: (g.deps m).flatMap (tree g) := by
  rw [tree, treeTo]
  congr 1
  refine flatMap_congr fun d hd => ?_
  exact treeTo_eq g (g.rank_lt m d hd) (Nat.lt_succ_self _)

omit [DecidableEq L] in
theorem rank_le_of_mem_tree {l : L} (h : l ∈ tree g m) : g.rank l ≤ g.rank m := by
  induction hk : g.rank m using Nat.strong_induction_on generalizing m with
  | _ k ih =>
    rw [tree_eq] at h
    rcases mem_cons.1 h with rfl | h
    · omega
    obtain ⟨d, hd, hl⟩ := mem_flatMap.1 h
    have hlt := g.rank_lt m d hd
    have := ih (g.rank d) (by omega) hl rfl
    omega

/-- A library with dependencies -/
def hasDeps (g : Libraries L R) (l : L) : Bool := !(g.deps l).isEmpty

/-- **No library with dependencies is met that is loaded already**, before the insertion or by
it. -/
def Fresh (g : Libraries L R) (s : Modules L R) (m : L) : Prop :=
  ((tree g m).filter (hasDeps g)).Nodup ∧ ∀ l ∈ tree g m, hasDeps g l = true → ¬ s.Loaded l

/-- The table gained references to libraries of a rank below `b`; new in it are only the libraries
in `new`. -/
structure Grows (g : Libraries L R) (b : Nat) (new : List L) (s s' : Modules L R) : Prop where
  forth : ∀ {i e}, s.slot i = some e → ∃ e', s'.slot i = some e' ∧ Like e e'
  high : ∀ {i e}, s.slot i = some e → b ≤ g.rank e.lib → s'.slot i = some e
  back : ∀ {i e'}, s'.slot i = some e' →
    (∃ e, s.slot i = some e ∧ Like e e') ∨ ¬ s.Loaded e'.lib ∧ e'.lib ∈ new

variable {new : List L}

omit [DecidableEq L] in
theorem Grows.loaded (h : Grows g b new s s') {l : L} (hl : s.Loaded l) : s'.Loaded l := by
  obtain ⟨i, e, he, rfl⟩ := hl
  obtain ⟨e', he', hlike⟩ := h.forth he
  exact ⟨i, e', he', hlike.1⟩

omit [DecidableEq L] in
theorem Grows.trans {new' : List L} (h : Grows g b new s s') (h' : Grows g b' new' s' s'')
    (hb : b' ≤ b) : Grows g b (new ++ new') s s'' where
  forth he := by
    obtain ⟨e1, he1, hlike1⟩ := h.forth he
    obtain ⟨e2, he2, hlike2⟩ := h'.forth he1
    exact ⟨e2, he2, like_trans hlike1 hlike2⟩
  high he hrank := h'.high (h.high he hrank) (Nat.le_trans hb hrank)
  back he := by
    rcases h'.back he with ⟨e1, he1, hlike1⟩ | ⟨hnot, hmem⟩
    · rcases h.back he1 with ⟨e0, he0, hlike0⟩ | ⟨hnot, hmem⟩
      · exact .inl ⟨e0, he0, like_trans hlike0 hlike1⟩
      · rw [← hlike1.1] at hnot hmem
        exact .inr ⟨hnot, mem_append.2 (.inl hmem)⟩
    · exact .inr ⟨fun hl => hnot (h.loaded hl), mem_append.2 (.inr hmem)⟩

omit [DecidableEq L] in
theorem grows_update {e' : Module L} (he : s.slot id = some e)
    (hslot : s'.slot = update s.slot id (some e')) (hlike : Like e e') :
    Grows g (g.rank e.lib + 1) new s s' where
  forth {i x} hx := by
    by_cases hi : i = id
    · subst hi
      obtain rfl := Option.some.inj (he.symm.trans hx)
      exact ⟨e', by rw [hslot, update_self], hlike⟩
    · exact ⟨x, by rw [hslot, update_of_ne hi]; exact hx, rfl, rfl, rfl⟩
  high := (shrinks_update he hslot hlike).high
  back hx := .inl ((shrinks_update (g := g) he hslot hlike).back hx)

/-- What inserting the library `m` has to achieve from the state `s`: on an error nothing has
changed, otherwise there is one more reference to it. -/
def Inserted (g : Libraries L R) (M₀ : Multiset (Nat × R)) (s : Modules L R) (ext : Multiset L)
    (r : L → Nat) (m : L) (out : ModRet × Nat × Modules L R) : Prop :=
  (∃ x, out.1 = .err x) ∧ out.2.2.slot = s.slot ∧ out.2.2.maps = s.maps ∨
  (out.1 = .ok ∨ out.1 = .unchanged) ∧ Inv g M₀ out.2.2 (m ::ₘ ext) r ∧
    (∃ e, out.2.2.slot out.2.1 = some e ∧ e.lib = m) ∧
    Grows g (g.rank m + 1) (tree g m) s out.2.2 ∧ Complete g out.2.2 r (g.rank m + 1)

/-- The loop over the dependencies of `m`, which was put into slot `id` of the table `s`: those
in `done` are loaded as `ids` (the last one first). -/
structure Mid (g : Libraries L R) (M₀ : Multiset (Nat × R)) (s : Modules L R) (ext : Multiset L)
    (r : L → Nat) (m : L) (id : Nat) (done : List L) (ids : List Nat) (s₁ : Modules L R) :
    Prop where
  absent : ¬ s.Loaded m
  inv : Inv g M₀ s₁ (m ::ₘ ext) (update r m done.length)
  self : ∃ base, s₁.slot id = some ⟨m, 1, base, ids.reverse⟩
  len : ids.length = done.length
  grows : Grows g (g.rank m + 1) (m :: done.flatMap (tree g)) s s₁
  complete : Complete g s₁ (update r m done.length) (g.rank m)

variable {done rest : List L} {ids : List Nat} {s₁ s₂ : Modules L R}

theorem mid_start {base : Nat} (h : Inv g M₀ s ext r) (hc : Complete g s r (g.rank m + 1))
    (hnot : ¬ s.Loaded m) (hnone : s.slot id = none)
    (hslot : s₁.slot = update s.slot id (some ⟨m, 1, base, []⟩))
    (hmaps : s₁.maps = g.sectionsAt m base + s.maps) : Mid g M₀ s ext r m id [] [] s₁ := by
  have hkeep : ∀ {i e}, s.slot i = some e → s₁.slot i = some e := by
    intro i e he
    have hi : i ≠ id := by
      rintro rfl
      exact absurd (hnone.symm.trans he) (by simp)
    rw [hslot, update_of_ne hi]
    exact he
  have hcases : ∀ {i e}, s₁.slot i = some e → e.lib = m ∨ s.slot i = some e := by
    intro i e he
    obtain ⟨-, he⟩ | ⟨-, he⟩ := slot_cases hslot he
    · exact .inl (by rw [← Option.some.inj he])
    · exact .inr he
  refine ⟨hnot, h.enter hnot hnone hslot hmaps, ⟨base, by rw [hslot, update_self]; rfl⟩,
    rfl, ⟨fun he => ⟨_, hkeep he, rfl, rfl, rfl⟩, fun he _ => hkeep he, ?_⟩, ?_, ?_⟩
  · intro i e he
    rcases hcases he with rfl | he
    · exact .inr ⟨hnot, by simp⟩
    · exact .inl ⟨e, he, rfl, rfl, rfl⟩
  · exact ((hc.mono (Nat.le_succ _)).update 0).all
  · intro i e he hl
    rcases hcases he with rfl | he
    · omega
    · exact hc.ids he (by omega)

/-- The next dependency meets no library with dependencies that is loaded. -/
theorem Mid.fresh {d : L} (h : Mid g M₀ s ext r m id done ids s₁) (hfresh : Fresh g s m)
    (hdeps : g.deps m = done ++ d :: rest) : Fresh g s₁ d := by
  have hd : d ∈ g.deps m := by simp [hdeps]
  have htree : tree g m = m :: (done.flatMap (tree g) ++ (tree g d ++ rest.flatMap (tree g))) := by
    rw [tree_eq, hdeps]
    simp
  obtain ⟨hnd, hnew⟩ := hfresh
  rw [htree] at hnd hnew
  have hsub : (tree g d).Sublist
      (m :: (done.flatMap (tree g) ++ (tree g d ++ rest.flatMap (tree g)))) :=
    ((sublist_append_left _ _).trans (sublist_append_right _ _)).trans
      (sublist_cons_self _ _)
  refine ⟨hnd.sublist (hsub.filter _), fun l hl hin hloaded => ?_⟩
  obtain ⟨i, e, he, rfl⟩ := hloaded
  rcases h.grows.back he with ⟨e0, he0, hlike⟩ | ⟨-, hmem⟩
  · exact hnew e.lib (hsub.subset hl) hin ⟨i, e0, he0, hlike.1.symm⟩
  rcases mem_cons.1 hmem with heq | hmem
  · have := rank_le_of_mem_tree hl
    have := g.rank_lt m d hd
    rw [heq] at *
    omega
  -- The library was met by an earlier dependency, too.
  rw [filter_cons] at hnd
  have hnd' : ((done.flatMap (tree g) ++ (tree g d ++ rest.flatMap (tree g))).filter
      (hasDeps g)).Nodup := by
    split at hnd
    · exact (nodup_cons.1 hnd).2
    · exact hnd
  rw [filter_append, nodup_append] at hnd'
  have hleft : e.lib ∈ (done.flatMap (tree g)).filter (hasDeps g) :=
    mem_filter.2 ⟨hmem, hin⟩
  have hright : e.lib ∈ (tree g d ++ rest.flatMap (tree g)).filter (hasDeps g) :=
    mem_filter.2 ⟨by simp [hl], hin⟩
  exact hnd'.2.2 _ hleft _ hright rfl

/-- The next dependency is loaded and entered. -/
theorem Mid.push {d : L} {did : Nat} (h : Mid g M₀ s ext r m id done ids s₁)
    (hdeps : g.deps m = done ++ d :: rest)
    (hinv : Inv g M₀ s₂ (d ::ₘ m ::ₘ ext) (update r m done.length))
    (hd : ∃ e, s₂.slot did = some e ∧ e.lib = d)
    (hgrows : Grows g (g.rank d + 1) (tree g d) s₁ s₂)
    (hcomplete : Complete g s₂ (update r m done.length) (g.rank d + 1)) :
    Mid g M₀ s ext r m id (done ++ [d]) (did :: ids) (s₂.pushDepid id did) := by
  have hrank : g.rank d < g.rank m := g.rank_lt m d (by simp [hdeps])
  obtain ⟨base, hself⟩ := h.self
  obtain ⟨y, hy, hyd⟩ := hd
  have hself2 : s₂.slot id = some ⟨m, 1, base, ids.reverse⟩ := hgrows.high hself hrank
  have hslot : (s₂.pushDepid id did).slot =
      update s₂.slot id (some ⟨m, 1, base, ids.reverse ++ [did]⟩) := by
    rw [pushDepid, show Slots.slot s₂.modv id = _ from hself2]
    exact Slots.slot_set (Slots.lt_length_of_slot hself2) _
  have hcases : ∀ {i e}, (s₂.pushDepid id did).slot i = some e →
      i = id ∧ e = ⟨m, 1, base, ids.reverse ++ [did]⟩ ∨ i ≠ id ∧ s₂.slot i = some e := by
    intro i e he
    obtain ⟨hi, he⟩ | ⟨hi, he⟩ := slot_cases hslot he
    · exact .inl ⟨hi, (Option.some.inj he).symm⟩
    · exact .inr ⟨hi, he⟩
  have hall := h.grows.trans hgrows (Nat.succ_le_succ (Nat.le_of_lt hrank))
  have hkeep : ∀ {i e0 e}, s.slot i = some e0 → Like e0 e → s₂.slot i = some e →
      (s₂.pushDepid id did).slot i = some e := by
    intro i e0 e he0 hlike he
    have hi : i ≠ id := by
      rintro rfl
      obtain rfl := Option.some.inj (he.symm.trans hself2)
      exact h.absent ⟨i, e0, he0, hlike.1.symm⟩
    rw [hslot, update_of_ne hi]
    exact he
  have hlen : (ids.reverse : List Nat).length = update r m done.length m := by
    rw [length_reverse, h.len, update_self]
  have hget : (g.deps m)[update r m done.length m]? = some d := by
    rw [update_self, hdeps]
    simp
  have hpush := hinv.pushDep (e := ⟨m, 1, base, ids.reverse⟩) hself2 hlen hget hy hyd
  refine ⟨h.absent, ?_, ⟨base, ?_⟩, by simp [h.len], ⟨?_, ?_, ?_⟩, ?_, ?_⟩
  · simpa [update_idem] using hpush
  · rw [hslot, update_self, reverse_cons]
  · intro i e0 he0
    obtain ⟨e, he, hlike⟩ := hall.forth he0
    exact ⟨e, hkeep he0 hlike he, hlike⟩
  · intro i e he hb
    exact hkeep he ⟨rfl, rfl, rfl⟩ (hall.high he hb)
  · intro i e he
    rcases hcases he with ⟨-, rfl⟩ | ⟨-, he⟩
    · exact .inr ⟨h.absent, by simp⟩
    rcases hall.back he with hold | ⟨hnot, hmem⟩
    · exact .inl hold
    · exact .inr ⟨hnot, by simpa using hmem⟩
  · simpa [update_idem] using (h.complete.update (done ++ [d]).length).all
  · intro i e he hl
    rcases hcases he with ⟨-, rfl⟩ | ⟨-, he⟩
    · exact absurd hl (Nat.lt_irrefl _)
    rcases hgrows.back he with ⟨e1, he1, hlib, -, hdepids⟩ | ⟨-, hmem⟩
    · rw [hdepids, hlib]
      exact h.complete.ids he1 (hlib ▸ hl)
    · exact hcomplete.ids he (Nat.lt_succ_of_le (rank_le_of_mem_tree hmem))

theorem Mid.finish (h : Mid g M₀ s ext r m id (g.deps m) ids s₁)
    (hc : Complete g s r (g.rank m + 1)) : Inserted g M₀ s ext r m (.ok, id, s₁) := by
  have hr : update r m (g.deps m).length = r := by
    rw [← hc.all m (Nat.lt_succ_self _), update_eq_self]
  obtain ⟨base, hself⟩ := h.self
  have hinv := h.inv
  have hcomplete := h.complete
  rw [hr] at hinv hcomplete
  refine .inr ⟨.inl rfl, hinv, ⟨_, hself, rfl⟩, tree_eq g m ▸ h.grows, hc.all, ?_⟩
  intro i e he hl
  rcases h.grows.back he with ⟨e0, he0, hlib, -, hdepids⟩ | ⟨-, hmem⟩
  · rw [hdepids, hlib]
    exact hc.ids he0 (hlib ▸ hl)
  rcases mem_cons.1 hmem with heq | hmem
  · obtain rfl := hinv.unique he hself heq
    obtain rfl := Option.some.inj (hself.symm.trans he)
    simp [h.len]
  obtain ⟨d, hd, hmem⟩ := mem_flatMap.1 hmem
  have := g.rank_lt m d hd
  have := rank_le_of_mem_tree hmem
  exact hcomplete.ids he (by omega)

variable [DecidableEq R]

/-- **A failing dependency**: the dependencies loaded before it and the library itself are taken
back, and nothing is left of them. -/
theorem Mid.undo (hdel : Deletes g M₀ (update r m 0) (g.rank m) del)
    (h : Mid g M₀ s ext r m id done ids s₁) (h0 : Inv g M₀ s ext r)
    (hdeps : g.deps m = done ++ rest) (hslot : s₂.slot = s₁.slot) (hmaps : s₂.maps = s₁.maps) :
    ∃ s3, delmodAll del ids s₂ = some s3 ∧
      (kprocDelmodSingle g s3 id).2.2.slot = s.slot ∧
      (kprocDelmodSingle g s3 id).2.2.maps = s.maps := by
  obtain ⟨base, hself⟩ := h.self
  have hself2 : s₂.slot id = some ⟨m, 1, base, ids.reverse⟩ := by rw [hslot, hself]
  have hinv2 : Inv g M₀ s₂ (m ::ₘ ext) (update r m done.length) :=
    h.inv.congr hslot hmaps fun _ _ _ => rfl
  have hrefs : g.refs (update r m done.length) m = done := by
    rw [Libraries.refs, update_self, hdeps, take_left]
  -- The loaded dependencies, seen as outside references
  have hloose : Inv g M₀ s₂ (↑done.reverse + m ::ₘ ext) (update r m 0) := by
    have := hinv2.forget hself2
    simp only [hrefs, update_idem] at this
    rwa [Multiset.coe_reverse, add_comm]
  have hcomplete : Complete g s₂ (update r m 0) (g.rank m) := by
    have hall := (h.complete.update 0).all
    rw [update_idem] at hall
    exact ⟨hall, fun he hl => h.complete.ids (hslot ▸ he) hl⟩
  have hnames : s₂.Names ids done.reverse := by
    have hrev := hinv2.names_refs hself2 (by simp [hrefs, h.len])
    rw [hrefs] at hrev
    exact List.forall₂_reverse_iff.1 (by rwa [reverse_reverse])
  obtain ⟨s3, heq, h3, hs3⟩ := delmodAll_spec hdel hnames
    (fun l hl => g.rank_lt m l (by rw [hdeps]; simp [mem_reverse.1 hl])) hcomplete hloose
  have hself3 := hs3.high hself2 le_rfl
  obtain ⟨M, hM⟩ := h3.maps_split hself3
  obtain ⟨s4, heq4, hmaps4, hslot4⟩ := kprocDelmodSingle_ok (g := g) hself3 rfl hM
  have h4 := h3.leave (e := ⟨m, 1, base, ids.reverse⟩) hself3 rfl hslot4 (by rw [hmaps4, hM])
  have hnil : g.refs (update r m 0) m = [] := by simp [Libraries.refs]
  rw [hnil, Multiset.coe_nil, add_zero] at h4
  have hback : ∀ {i e}, s4.slot i = some e → i ≠ id ∧ ∃ e1, s₁.slot i = some e1 ∧ Like e1 e := by
    intro i e he
    obtain ⟨-, he⟩ | ⟨hi, he⟩ := slot_cases hslot4 he
    · cases he
    obtain ⟨e2, he2, hlike⟩ := hs3.back he
    exact ⟨hi, e2, hslot ▸ he2, hlike⟩
  have h4' : Inv g M₀ s4 ext r := by
    refine h4.congr rfl rfl fun i e he => ?_
    obtain ⟨hi, e1, he1, hlike⟩ := hback he
    have hne : e.lib ≠ m := fun heq => hi (h.inv.unique he1 hself (hlike.1.symm.trans heq))
    rw [update_of_ne hne]
  refine ⟨s3, heq, ?_⟩
  rw [heq4]
  refine h0.restored h4' fun i e he hloaded => ?_
  obtain ⟨-, e1, he1, hlike⟩ := hback he
  rcases h.grows.back he1 with ⟨e0, he0, hlike0⟩ | ⟨hnot, -⟩
  · exact ⟨e0, he0, like_trans hlike0 hlike⟩
  · exact absurd (hlike.1 ▸ hloaded) hnot

/-- What inserting a dependency has to achieve in the loop. -/
def Inserts (g : Libraries L R) (M₀ : Multiset (Nat × R)) (b : Nat)
    (ins : Modules L R → L → Option (ModRet × Nat × Modules L R)) : Prop :=
  ∀ {s : Modules L R} {ext : Multiset L} {r : L → Nat} {m : L}, Inv g M₀ s ext r →
    g.rank m < b → Complete g s r (g.rank m + 1) → Fresh g s m →
    ∃ out, ins s m = some out ∧ Inserted g M₀ s ext r m out

theorem insmodDeps_spec {ins : Modules L R → L → Option (ModRet × Nat × Modules L R)}
    (hins : Inserts g M₀ (g.rank m) ins)
    (hdel : Deletes g M₀ (update r m 0) (g.rank m) del) (h0 : Inv g M₀ s ext r)
    (hc : Complete g s r (g.rank m + 1)) (hfresh : Fresh g s m)
    (hmid : Mid g M₀ s ext r m id done ids s₁) (hdeps : g.deps m = done ++ rest) :
    ∃ out, insmodDeps g ins del .ok id rest ids s₁ = some out ∧
      Inserted g M₀ s ext r m out := by
  induction rest generalizing done ids s₁ with
  | nil =>
    rw [append_nil] at hdeps
    exact ⟨_, rfl, Mid.finish (hdeps ▸ hmid) hc⟩
  | cons d rest ih =>
    have hrank : g.rank d < g.rank m := g.rank_lt m d (by simp [hdeps])
    obtain ⟨⟨ret, did, s₂⟩, heq, hout⟩ := hins hmid.inv hrank
      (hmid.complete.mono hrank) (hmid.fresh hfresh hdeps)
    rw [insmodDeps, heq]
    rcases hout with ⟨⟨x, rfl⟩, hslot, hmaps⟩ | ⟨hret, hinv, hd, hgrows, hcomplete⟩
    · obtain ⟨s3, hall, hslot3, hmaps3⟩ := hmid.undo hdel h0 hdeps hslot hmaps
      simp only [hall, Option.map_some]
      exact ⟨_, rfl, .inl ⟨⟨x, rfl⟩, hslot3, hmaps3⟩⟩
    have hnext := hmid.push hdeps hinv hd hgrows hcomplete
    have hgo := ih hnext (by rw [hdeps]; simp)
    rcases hret with rfl | rfl <;> simpa using hgo

/-- **Inserting a library** adds one reference to it, or changes nothing. -/
theorem kprocInsmodImpl_spec (g : Libraries L R) (M₀ : Multiset (Nat × R)) (fate : Fate)
    (depth : Nat) : ∀ b ≤ depth, Inserts g M₀ b (kprocInsmodImpl g fate depth) := by
  induction depth with
  | zero =>
    intro b hb s ext r m _ hrank
    omega
  | succ depth ih =>
    intro b hb s ext r m h hrank hc hfresh
    rw [kprocInsmodImpl]
    cases fate s.asked with
    | error e => exact ⟨_, rfl, .inl ⟨⟨_, rfl⟩, rfl, rfl⟩⟩
    | ok n =>
      have h' : Inv g M₀ s.ask ext r := h.congr rfl rfl fun _ _ _ => rfl
      obtain ⟨ret, id, s₁, heq, hcases⟩ := kprocInsmodSingle_spec g fate s.ask m
      simp only [heq]
      rcases hcases with ⟨⟨e, rfl⟩, hslot, hmaps⟩ | ⟨rfl, hmaps, e, he, rfl, hslot⟩ |
        ⟨rfl, hnot, hnone, base, hslot, hmaps⟩
      · exact ⟨_, rfl, .inl ⟨⟨e, rfl⟩, hslot, hmaps⟩⟩
      · -- The library is loaded already, so it has no dependencies.
        have hleaf : g.deps e.lib = [] := by
          by_contra hne
          refine hfresh.2 e.lib (by rw [tree_eq]; simp) ?_ ⟨id, e, he, rfl⟩
          simpa [hasDeps] using hne
        simp only [hleaf, insmodDeps]
        have hself : s₁.slot id = some { e with loadc := e.loadc + 1 } := by
          rw [hslot, update_self]
        have hc' : Complete g s.ask r (g.rank e.lib + 1) := ⟨hc.all, hc.ids⟩
        exact ⟨_, rfl, .inr ⟨.inr rfl, h'.incr he hslot hmaps, ⟨_, hself, rfl⟩,
          grows_update he hslot ⟨rfl, rfl, rfl⟩,
          hc'.shrinks (shrinks_update he hslot ⟨rfl, rfl, rfl⟩)⟩⟩
      · have hmid := mid_start h' ⟨hc.all, hc.ids⟩ hnot hnone hslot hmaps
        obtain ⟨out, hout, hdone⟩ := insmodDeps_spec (ih (g.rank m) (by omega))
          (kprocDelmod_spec g M₀ _ depth (g.rank m) (by omega)) h' ⟨hc.all, hc.ids⟩ hfresh hmid rfl
        rcases hdone with hfail | ⟨hret, hinv, hself, hgrows, hcomplete⟩
        · exact ⟨out, hout, .inl hfail⟩
        · exact ⟨out, hout, .inr ⟨hret, hinv, hself, { hgrows with }, hcomplete⟩⟩

/-! ### Runs -/

/-- A process without modules, in whose address space `M₀` is mapped -/
def unused (M₀ : Multiset (Nat × R)) : Modules L R := ⟨[], M₀, 0⟩

/-- The states of the runs whose insertions meet no loaded library with dependencies, each with
the outstanding insertions. -/
inductive Run (g : Libraries L R) (M₀ : Multiset (Nat × R)) : Modules L R → Multiset L → Prop
  | start : Run g M₀ (unused M₀) 0
  | insert {s s' : Modules L R} {ext : Multiset L} {m : L} {id : Nat} {ret : ModRet}
      (fate : Fate) : Run g M₀ s ext → (g.isLib m = true → Fresh g s m) →
      kprocInsmodUnlocked g fate s m = some (ret, id, s') →
      Run g M₀ s' (if ret = .ok ∨ ret = .unchanged then m ::ₘ ext else ext)
  | delete {s s' : Modules L R} {ext : Multiset L} {id : Nat} {e : Module L} {ret : ModRet} :
      Run g M₀ s ext → s.slot id = some e → e.lib ∈ ext →
      kprocDelmodUnlocked g s id = some (ret, s') → Run g M₀ s' (ext.erase e.lib)

/-- All dependencies count. -/
def full (g : Libraries L R) (l : L) : Nat := (g.deps l).length

omit [DecidableEq L] [DecidableEq R] in
theorem refs_full (g : Libraries L R) (l : L) : g.refs (full g) l = g.deps l := take_length

/-- The invariant between two calls -/
structure Settled (g : Libraries L R) (M₀ : Multiset (Nat × R)) (s : Modules L R)
    (ext : Multiset L) : Prop where
  inv : Inv g M₀ s ext (full g)
  ids : ∀ {i e}, s.slot i = some e → e.depids.length = (g.deps e.lib).length

omit [DecidableEq R] in
theorem Settled.complete (h : Settled g M₀ s ext) (b : Nat) : Complete g s (full g) b :=
  ⟨fun _ _ => rfl, fun he _ => h.ids he⟩

/-- **An insertion between two calls** adds a reference, or changes nothing. -/
theorem Settled.insert (h : Settled g M₀ s ext) (fate : Fate)
    (hfresh : g.isLib m = true → Fresh g s m) :
    ∃ ret id s', kprocInsmodUnlocked g fate s m = some (ret, id, s') ∧
      ((∃ x, ret = .err x) ∧ s'.slot = s.slot ∧ s'.maps = s.maps ∨
        (ret = .ok ∨ ret = .unchanged) ∧ Settled g M₀ s' (m ::ₘ ext)) := by
  rw [kprocInsmodUnlocked]
  by_cases hlib : g.isLib m = true
  swap
  · rw [if_neg hlib]
    exact ⟨_, _, _, rfl, .inl ⟨⟨_, rfl⟩, rfl, rfl⟩⟩
  rw [if_pos hlib]
  obtain ⟨⟨ret, id, s'⟩, heq, hout⟩ := kprocInsmodImpl_spec g M₀ fate (g.rank m + 1) _
    le_rfl h.inv (Nat.lt_succ_self _) (h.complete _) (hfresh hlib)
  refine ⟨ret, id, s', heq, ?_⟩
  rcases hout with hfail | ⟨hret, hinv, -, hgrows, hcomplete⟩
  · exact .inl hfail
  refine .inr ⟨hret, hinv, fun {i e'} he' => ?_⟩
  rcases hgrows.back he' with ⟨e, he, hlike, -, hdepids⟩ | ⟨-, hmem⟩
  · rw [hdepids, hlike]
    exact h.ids he
  · exact hcomplete.ids he' (Nat.lt_succ_of_le (rank_le_of_mem_tree hmem))

/-- **A deletion between two calls** gives a reference back. -/
theorem Settled.delete (h : Settled g M₀ s ext) (he : s.slot id = some e) (hext : e.lib ∈ ext) :
    ∃ ret s', kprocDelmodUnlocked g s id = some (ret, s') ∧ (ret = .ok ∨ ret = .unchanged) ∧
      Settled g M₀ s' (ext.erase e.lib) := by
  have hinv := h.inv
  rw [← Multiset.cons_erase hext] at hinv
  obtain ⟨ret, s', heq, hret, hinv', hs⟩ := kprocDelmod_spec g M₀ (full g) (g.rank e.lib + 1) _
    le_rfl hinv he (Nat.lt_succ_self _) (h.complete _)
  refine ⟨ret, s', ?_, hret, hinv', fun {i x} hx => ?_⟩
  · rw [kprocDelmodUnlocked, show Slots.slot s.modv id = some e from he]
    exact heq
  · exact ((h.complete (g.rank x.lib + 1)).shrinks hs).ids hx (Nat.lt_succ_self _)

theorem Run.settled (h : Run g M₀ s ext) : Settled g M₀ s ext := by
  induction h with
  | start =>
    refine ⟨⟨?_, ?_, ?_, ?_, ?_, ?_⟩, ?_⟩
    all_goals first
      | exact fun he => by cases he
      | simp [unused, Slots.total]
  | insert fate _ hfresh heq ih =>
    obtain ⟨ret, id, s', heq', hout⟩ := ih.insert fate hfresh
    obtain ⟨rfl, rfl, rfl⟩ : ret = _ ∧ id = _ ∧ s' = _ := by simpa [heq] using heq'.symm
    rcases hout with ⟨⟨x, rfl⟩, hslot, hmaps⟩ | ⟨hret, hrest⟩
    · rw [if_neg (by simp)]
      exact ⟨ih.inv.congr hslot hmaps fun _ _ _ => rfl, fun he => ih.ids (hslot ▸ he)⟩
    · rw [if_pos hret]
      exact hrest
  | delete _ he hext heq ih =>
    obtain ⟨ret, s', heq', -, hrest⟩ := ih.delete he hext
    obtain ⟨rfl, rfl⟩ : ret = _ ∧ s' = _ := by simpa [heq] using heq'.symm
    exact hrest

/-- How often a library is loaded -/
def loadcOf (s : Modules L R) (l : L) : Nat :=
  Slots.total s.modv fun e => if e.lib = l then e.loadc else 0

/-- What the module table promises in a state with the outstanding insertions `ext`. -/
structure Contract (g : Libraries L R) (M₀ : Multiset (Nat × R)) (s : Modules L R)
    (ext : Multiset L) : Prop where
  /-- A library has one module at most, and those inserted and not deleted have one. -/
  unique : ∀ i j e e', s.slot i = some e → s.slot j = some e' → e.lib = e'.lib → i = j
  held : ∀ l ∈ ext, s.Loaded l
  /-- The load counter is the number of outstanding insertions plus the number of times the
  library occurs among the dependencies of the libraries in the table. -/
  count : ∀ i e, s.slot i = some e →
    e.loadc = ext.count e.lib + Slots.total s.modv fun x => (g.deps x.lib).count e.lib
  /-- The dependency numbers name the dependencies. -/
  named : ∀ i e, s.slot i = some e → s.Names e.depids (g.deps e.lib)
  /-- Mapped are the sections of the libraries in the table, and what was mapped before. -/
  mapped : s.maps = Slots.total s.modv g.sections + M₀
  /-- The next insertion returns, and leaves all as it was if it fails. -/
  insert : ∀ fate m, (g.isLib m = true → Fresh g s m) →
    ∃ ret id s', kprocInsmodUnlocked g fate s m = some (ret, id, s') ∧
      ((∃ x, ret = .err x) → s'.slot = s.slot ∧ s'.maps = s.maps)
  /-- The next deletion returns. -/
  delete : ∀ id e, s.slot id = some e → e.lib ∈ ext →
    ∃ ret s', kprocDelmodUnlocked g s id = some (ret, s') ∧ ∀ x, ret ≠ .err x
  /-- The libraries loaded and their counters depend on the outstanding insertions only. -/
  again : ∀ s', Run g M₀ s' ext → ∀ l, s'.loadcOf l = s.loadcOf l

omit [DecidableEq R] in
/-- With the same outstanding insertions the same libraries are loaded equally often. -/
theorem Settled.again (h : Settled g M₀ s ext) (h' : Settled g M₀ s' ext) (l : L) :
    s'.loadcOf l = s.loadcOf l := by
  have hkeys : ∀ k, (∃ i e, Slots.slot s'.modv i = some e ∧ e.lib = k) ↔
      ∃ i e, Slots.slot s.modv i = some e ∧ e.lib = k := fun k =>
    ⟨h'.inv.loaded_of_loaded h.inv, h.inv.loaded_of_loaded h'.inv⟩
  have hinner : s'.inner g (full g) l = s.inner g (full g) l :=
    Slots.total_of_keys Module.lib h'.inv.unique h.inv.unique hkeys
      fun k => (g.refs (full g) k).count l
  -- The counter of a module is a function of its library.
  have hlib : ∀ {t : Modules L R}, Settled g M₀ t ext → t.loadcOf l =
      Slots.total t.modv fun e =>
        (fun k => if k = l then ext.count l + t.inner g (full g) l else 0) e.lib := by
    intro t ht
    refine Slots.total_congr fun i => ?_
    cases he : Slots.slot t.modv i with
    | none => rfl
    | some e =>
      simp only [Option.elim_some]
      split
      · next heq => rw [ht.inv.count he, heq]
      · rfl
  rw [hlib h, hlib h', hinner]
  exact Slots.total_of_keys Module.lib h'.inv.unique h.inv.unique hkeys
    fun k => if k = l then ext.count l + s.inner g (full g) l else 0

/-- **The module table keeps its contract in every run** whose insertions meet no loaded library
with dependencies. -/
theorem kproc_modules_run (h : Run g M₀ s ext) : Contract g M₀ s ext := by
  have hs := h.settled
  refine ⟨fun _ _ _ _ => hs.inv.unique, fun _ => hs.inv.held, fun i e he => ?_,
    fun i e he => hs.inv.names he (hs.complete _), hs.inv.maps, fun fate m hfresh => ?_,
    fun id e he hext => ?_, fun s' h' => hs.again h'.settled⟩
  · have hcount := hs.inv.count he
    simpa only [inner, refs_full] using hcount
  · obtain ⟨ret, id, s', heq, hout⟩ := hs.insert fate hfresh
    refine ⟨ret, id, s', heq, fun ⟨x, hx⟩ => ?_⟩
    rcases hout with ⟨-, hsame⟩ | ⟨hret | hret, -⟩
    · exact hsame
    · exact absurd (hx.symm.trans hret) (by simp)
    · exact absurd (hx.symm.trans hret) (by simp)
  · obtain ⟨ret, s', heq, hret, -⟩ := hs.delete he hext
    refine ⟨ret, s', heq, fun x hx => ?_⟩
    rcases hret with hret | hret <;> exact absurd (hx.symm.trans hret) (by simp)

end Modules

/-- A program (`true`) that needs one library (`false`) -/
def twoLibraries : Libraries Bool Unit where
  deps m := if m then [false] else []
  rank m := if m then 1 else 0
  rank_lt m d hd := by
    cases m with
    | false => cases hd
    | true =>
      obtain rfl : d = false := by simpa using hd
      decide
  secs _ := [(0, ())]
  fixed _ := false
  isLib _ := true

/-- The theorem where a library was inserted with its dependency. -/
theorem kproc_modules_run_two :
    ∃ s, Modules.Run twoLibraries 0 s {true} ∧ s.loadcOf false = 1 ∧
      Modules.Contract twoLibraries 0 s {true} := by
  have hfresh : Modules.Fresh twoLibraries (Modules.unused 0) true :=
    ⟨by decide, fun _ _ _ ⟨i, e, he, _⟩ => by simp [Modules.unused, Modules.slot, Slots.slot] at he⟩
  have hrun := Modules.Run.insert (fun n => .ok (0x10000 * n)) .start (fun _ => hfresh) rfl
  exact ⟨_, hrun, rfl, Modules.kproc_modules_run hrun⟩

/-- **A library inserted twice**: after two deletions its dependency is still loaded, though
nothing refers to it. -/
theorem kproc_insmod_leaks :
    ∃ s₁ s₂ s₃ s₄ : Modules Bool Unit,
      kprocInsmodUnlocked twoLibraries (fun n => .ok (0x10000 * n)) (Modules.unused 0) true =
        some (.ok, 0, s₁) ∧
      kprocInsmodUnlocked twoLibraries (fun n => .ok (0x10000 * n)) s₁ true =
        some (.unchanged, 0, s₂) ∧
      kprocDelmodUnlocked twoLibraries s₂ 0 = some (.unchanged, s₃) ∧
      kprocDelmodUnlocked twoLibraries s₃ 0 = some (.ok, s₄) ∧
      s₁.loadcOf false = 1 ∧ s₂.loadcOf false = 2 ∧ s₄.loadcOf true = 0 ∧
      s₄.loadcOf false = 1 :=
  ⟨_, _, _, _, rfl, rfl, rfl, rfl, rfl, rfl, rfl, rfl⟩

end KosKernel.Proc
