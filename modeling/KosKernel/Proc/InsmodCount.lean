import KosKernel.Proc.InsmodSteps

/-!
# KosKernel.Proc.InsmodCount

**What the load counters count.** `Inv` says that the counter of a module is the number of
references from outside of the table (`ext`) plus those from the dependencies of the modules in
it. While a library is being inserted only a first part of its dependencies is there; `r` says how
many of them are counted for each library, and is the full number for all others.

A reference can move between the two sides without the table being touched, and each step of the
code moves, adds or removes one. Finally the table is determined by the outside references: two
tables that agree in where a library sits are equal.
-/

namespace KosKernel.Proc

open Function List

variable {L R : Type} [DecidableEq L]

/-- The dependencies of a library that are counted -/
def Libraries.refs (g : Libraries L R) (r : L → Nat) (l : L) : List L := (g.deps l).take (r l)

namespace Modules

/-- The references to `l` from inside of the table -/
def inner (g : Libraries L R) (s : Modules L R) (r : L → Nat) (l : L) : Nat :=
  Slots.total s.modv fun e => (g.refs r e.lib).count l

/-- Load counters, dependency numbers and mapped sections fit together. `M₀` is mapped besides. -/
structure Inv (g : Libraries L R) (M₀ : Multiset (Nat × R)) (s : Modules L R) (ext : Multiset L)
    (r : L → Nat) : Prop where
  unique : ∀ {i j e e'}, s.slot i = some e → s.slot j = some e' → e.lib = e'.lib → i = j
  count : ∀ {i e}, s.slot i = some e → e.loadc = ext.count e.lib + s.inner g r e.lib
  pos : ∀ {i e}, s.slot i = some e → 0 < e.loadc
  held : ∀ {l}, l ∈ ext → s.Loaded l
  named : ∀ {i e} {j : Nat} {d}, s.slot i = some e → (g.refs r e.lib)[j]? = some d →
    ∃ id e', e.depids[j]? = some id ∧ s.slot id = some e' ∧ e'.lib = d
  maps : s.maps = Slots.total s.modv g.sections + M₀

variable {g : Libraries L R} {M₀ : Multiset (Nat × R)} {s s' : Modules L R} {ext : Multiset L}
  {r r' : L → Nat} {m : L} {id : Nat} {e : Module L}

/-! ### The same table -/

theorem inner_congr (hslot : s'.slot = s.slot)
    (hr : ∀ i e, s.slot i = some e → r' e.lib = r e.lib) (l : L) :
    s'.inner g r' l = s.inner g r l := by
  refine Slots.total_congr fun i => ?_
  rw [show Slots.slot s'.modv = s.slot from hslot]
  cases he : s.slot i with
  | none => simp [show Slots.slot s.modv i = none from he]
  | some e =>
    simp [show Slots.slot s.modv i = some e from he, Libraries.refs, hr i e he]

section

variable (h : Inv g M₀ s ext r)

include h

theorem Inv.congr (hslot : s'.slot = s.slot) (hmaps : s'.maps = s.maps)
    (hr : ∀ i e, s.slot i = some e → r' e.lib = r e.lib) : Inv g M₀ s' ext r' where
  unique hi hj := h.unique (hslot ▸ hi) (hslot ▸ hj)
  count {i e} he := by
    rw [hslot] at he
    rw [inner_congr hslot hr]
    exact h.count he
  pos he := h.pos (hslot ▸ he)
  held hl := by
    obtain ⟨i, e, he, hlib⟩ := h.held hl
    exact ⟨i, e, hslot ▸ he, hlib⟩
  named {i e j d} he hj := by
    rw [hslot] at he ⊢
    rw [Libraries.refs, hr i e he] at hj
    exact h.named he hj
  maps := by
    rw [hmaps, h.maps]
    congr 1
    refine Slots.total_congr fun i => ?_
    rw [show Slots.slot s'.modv = s.slot from hslot]

theorem Inv.loaded_of_refs (he : s.slot id = some e) {d : L} (hd : d ∈ g.refs r e.lib) :
    s.Loaded d := by
  obtain ⟨j, hj⟩ := mem_iff_getElem?.1 hd
  obtain ⟨i, e', -, he', hlib⟩ := h.named he hj
  exact ⟨i, e', he', hlib⟩

theorem Inv.not_loaded (hnot : ¬ s.Loaded m) : m ∉ ext ∧ s.inner g r m = 0 := by
  refine ⟨fun hmem => hnot (h.held hmem), ?_⟩
  by_contra hne
  obtain ⟨i, e, he, hpos⟩ := Slots.exists_of_total_pos (Nat.pos_of_ne_zero hne)
  exact hnot (h.loaded_of_refs he (count_pos_iff.1 hpos))

omit h in
/-- References inside of the table after one slot and the counts for its library have changed. -/
theorem inner_update (g : Libraries L R) (r r' : L → Nat) {o : Option (Module L)}
    (hslot : s'.slot = update s.slot id o)
    (hr : ∀ j e, j ≠ id → s.slot j = some e → r' e.lib = r e.lib) (l : L) :
    s'.inner g r' l + (s.slot id).elim 0 (fun e => (g.refs r e.lib).count l) =
      s.inner g r l + o.elim 0 (fun e => (g.refs r' e.lib).count l) :=
  Slots.total_update hslot fun j e hj he => by rw [Libraries.refs, Libraries.refs, hr j e hj he]

omit h in
omit [DecidableEq L] in
theorem sections_update {o : Option (Module L)} (hslot : s'.slot = update s.slot id o) :
    Slots.total s'.modv g.sections + (s.slot id).elim 0 g.sections =
      Slots.total s.modv g.sections + o.elim 0 g.sections :=
  Slots.total_update hslot fun _ _ _ _ => rfl

omit h in
omit [DecidableEq L] in
theorem slot_cases {o : Option (Module L)} (hslot : s'.slot = update s.slot id o) {j : Nat}
    (he : s'.slot j = some e) : j = id ∧ o = some e ∨ j ≠ id ∧ s.slot j = some e := by
  rw [hslot] at he
  by_cases hj : j = id
  · exact .inl ⟨hj, by rwa [hj, update_self] at he⟩
  · exact .inr ⟨hj, by rwa [update_of_ne hj] at he⟩

/-! ### One module changes -/

/-- **One module changes in its slot** and with it the outside references and its counted
dependencies. -/
theorem Inv.change {ext' : Multiset L} {e' : Module L} (he : s.slot id = some e)
    (hslot : s'.slot = update s.slot id (some e')) (hlib : e'.lib = e.lib)
    (hbase : e'.base = e.base) (hmaps : s'.maps = s.maps) (hr : ∀ l, l ≠ e.lib → r' l = r l)
    (hcount : ∀ l, (if l = e.lib then e'.loadc else e.loadc) + (g.refs r e.lib).count l +
      ext.count l = e.loadc + (g.refs r' e.lib).count l + ext'.count l)
    (hpos : 0 < e'.loadc) (hheld : ∀ l ∈ ext', s.Loaded l)
    (hnamed : ∀ (j : Nat) d, (g.refs r' e.lib)[j]? = some d →
      ∃ i x, e'.depids[j]? = some i ∧ s.slot i = some x ∧ x.lib = d) :
    Inv g M₀ s' ext' r' := by
  have hother : ∀ j x, j ≠ id → s.slot j = some x → r' x.lib = r x.lib := fun j x hj hx =>
    hr _ fun heq => hj (h.unique hx he heq)
  -- Every module of the new table has one of the old table in its slot, with the same library.
  have hback : ∀ {i x}, s'.slot i = some x → ∃ y, s.slot i = some y ∧ y.lib = x.lib ∧
      x = if i = id then e' else y := by
    intro i x hx
    obtain ⟨rfl, hx⟩ | ⟨hi, hx⟩ := slot_cases hslot hx
    · obtain rfl := Option.some.inj hx
      exact ⟨e, he, hlib.symm, by rw [if_pos rfl]⟩
    · exact ⟨x, hx, rfl, by rw [if_neg hi]⟩
  refine ⟨?_, ?_, ?_, ?_, ?_, ?_⟩
  · intro i j x y hx hy hxy
    obtain ⟨x', hx', hlx, -⟩ := hback hx
    obtain ⟨y', hy', hly, -⟩ := hback hy
    exact h.unique hx' hy' (hlx.trans (hxy.trans hly.symm))
  · intro i x hx
    obtain ⟨y, hy, hly, rfl⟩ := hback hx
    have hinner := inner_update g r r' hslot hother y.lib
    rw [he, Option.elim_some, Option.elim_some, hlib] at hinner
    have hown := hcount y.lib
    have := h.count hy
    rw [← hly]
    by_cases hi : i = id
    · subst hi
      obtain rfl := Option.some.inj (he.symm.trans hy)
      rw [if_pos rfl] at hown ⊢
      omega
    · rw [if_neg fun heq => hi (h.unique hy he heq)] at hown
      rw [if_neg hi]
      omega
  · intro i x hx
    obtain ⟨y, hy, -, rfl⟩ := hback hx
    split
    · exact hpos
    · exact h.pos hy
  · intro l hl
    obtain ⟨i, x, hx, rfl⟩ := hheld l hl
    by_cases hi : i = id
    · subst hi
      obtain rfl := Option.some.inj (he.symm.trans hx)
      exact ⟨i, e', by rw [hslot, update_self], hlib⟩
    · exact ⟨i, x, by rw [hslot, update_of_ne hi]; exact hx, rfl⟩
  · intro i x j d hx hj
    have hfound : ∃ k y, x.depids[j]? = some k ∧ s.slot k = some y ∧ y.lib = d := by
      obtain ⟨y, hy, hly, hxeq⟩ := hback hx
      by_cases hi : i = id
      · subst hi
        rw [if_pos rfl] at hxeq
        subst hxeq
        exact hnamed j d (hlib ▸ hj)
      rw [if_neg hi] at hxeq
      subst hxeq
      rw [Libraries.refs, hother i x hi hy] at hj
      exact h.named hy hj
    obtain ⟨k, y, hk, hy, hly⟩ := hfound
    by_cases hkid : k = id
    · subst hkid
      refine ⟨k, e', hk, by rw [hslot, update_self], ?_⟩
      rw [hlib, ← hly, Option.some.inj (he.symm.trans hy)]
    · exact ⟨k, y, hk, by rw [hslot, update_of_ne hkid]; exact hy, hly⟩
  · have hsec := sections_update (g := g) hslot
    rw [he, Option.elim_some, Option.elim_some, Libraries.sections, Libraries.sections, hlib,
      hbase] at hsec
    rw [hmaps, h.maps, add_right_cancel hsec]

theorem Inv.incr (he : s.slot id = some e)
    (hslot : s'.slot = update s.slot id (some { e with loadc := e.loadc + 1 }))
    (hmaps : s'.maps = s.maps) : Inv g M₀ s' (e.lib ::ₘ ext) r := by
  refine h.change he hslot rfl rfl hmaps (fun _ _ => rfl) ?_ (Nat.succ_pos _) ?_
    fun j d hj => by simpa using h.named he hj
  · intro l
    simp only [Multiset.count_cons]
    split_ifs <;> omega
  · intro l hl
    rcases Multiset.mem_cons.1 hl with rfl | hl
    · exact ⟨id, e, he, rfl⟩
    · exact h.held hl

omit h in
theorem Inv.decr (h : Inv g M₀ s (e.lib ::ₘ ext) r) (he : s.slot id = some e)
    (hcount : 1 < e.loadc)
    (hslot : s'.slot = update s.slot id (some { e with loadc := e.loadc - 1 }))
    (hmaps : s'.maps = s.maps) : Inv g M₀ s' ext r := by
  refine h.change he hslot rfl rfl hmaps (fun _ _ => rfl) ?_ (Nat.sub_pos_of_lt hcount) ?_
    fun j d hj => by simpa using h.named he hj
  · intro l
    simp only [Multiset.count_cons]
    split_ifs <;> omega
  · exact fun l hl => h.held (Multiset.mem_cons_of_mem hl)

omit h in
theorem refs_succ {l d : L} (h : (g.deps l)[r l]? = some d) :
    g.refs (update r l (r l + 1)) l = g.refs r l ++ [d] := by
  rw [Libraries.refs, Libraries.refs, update_self, take_add_one, h]
  rfl

omit h in
/-- **An outside reference becomes a dependency** of a module under construction. -/
theorem Inv.pushDep {d : L} {k : Nat} {y : Module L} (h : Inv g M₀ s (d ::ₘ ext) r)
    (he : s.slot id = some e) (hlen : e.depids.length = r e.lib)
    (hd : (g.deps e.lib)[r e.lib]? = some d) (hy : s.slot k = some y) (hyd : y.lib = d) :
    Inv g M₀ (s.pushDepid id k) ext (update r e.lib (r e.lib + 1)) := by
  have hslot : (s.pushDepid id k).slot =
      update s.slot id (some { e with depids := e.depids ++ [k] }) := by
    rw [pushDepid, show Slots.slot s.modv id = some e from he]
    exact Slots.slot_set (Slots.lt_length_of_slot he) _
  have hmaps : (s.pushDepid id k).maps = s.maps := by
    rw [pushDepid, show Slots.slot s.modv id = some e from he]
  have hpos : 0 < e.loadc := h.pos he
  refine h.change he hslot rfl rfl hmaps (fun l hl => update_of_ne hl _ _) ?_ hpos
    (fun l hl => h.held (Multiset.mem_cons_of_mem hl)) ?_
  · intro l
    rw [ite_self, refs_succ hd, count_append, Multiset.count_cons, count_singleton]
    simp only [beq_iff_eq, eq_comm (a := d)]
    split <;> omega
  · intro j d' hj
    rw [refs_succ hd] at hj
    have hreflen : (g.refs r e.lib).length = r e.lib := by
      have := (List.getElem?_eq_some_iff.1 hd).1
      rw [Libraries.refs, length_take]
      omega
    rcases Nat.lt_or_ge j (r e.lib) with hlt | hge
    · rw [getElem?_append_left (by omega)] at hj
      obtain ⟨i, x, hi, hx⟩ := h.named he hj
      exact ⟨i, x, by rw [getElem?_append_left (by omega)]; exact hi, hx⟩
    obtain rfl : j = r e.lib := by
      have := (List.getElem?_eq_some_iff.1 hj).1
      rw [length_append, length_singleton] at this
      omega
    have hdd : d = d' := by
      rw [getElem?_append_right (by omega), hreflen] at hj
      simpa using hj
    refine ⟨k, y, ?_, hy, hyd.trans hdd⟩
    rw [getElem?_append_right (by omega), hlen]
    simp

/-- The dependencies of a module may be seen as outside references. -/
theorem Inv.forget (he : s.slot id = some e) :
    Inv g M₀ s (ext + ↑(g.refs r e.lib)) (update r e.lib 0) := by
  have hnil : g.refs (update r e.lib 0) e.lib = [] := by simp [Libraries.refs]
  have hslot : s.slot = update s.slot id (some e) := by
    rw [← he, update_eq_self]
  refine h.change he hslot rfl rfl rfl (fun l hl => update_of_ne hl _ _) ?_ (h.pos he)
    ?_ ?_
  · intro l
    rw [ite_self, hnil, Multiset.count_add, Multiset.coe_count, count_nil]
    omega
  · intro l hl
    rcases Multiset.mem_add.1 hl with hl | hl
    · exact h.held hl
    · exact h.loaded_of_refs he (Multiset.mem_coe.1 hl)
  · intro j d hj
    rw [hnil] at hj
    cases hj

/-! ### Modules come and go -/

/-- **A library is loaded for the first time**, without its dependencies. -/
theorem Inv.enter {base : Nat} (hnot : ¬ s.Loaded m) (hnone : s.slot id = none)
    (hslot : s'.slot = update s.slot id (some ⟨m, 1, base, []⟩))
    (hmaps : s'.maps = g.sectionsAt m base + s.maps) : Inv g M₀ s' (m ::ₘ ext) (update r m 0) := by
  obtain ⟨hext, hinner0⟩ := h.not_loaded hnot
  have hnil : g.refs (update r m 0) m = [] := by simp [Libraries.refs]
  have hold : ∀ {j x}, s.slot j = some x → j ≠ id ∧ x.lib ≠ m := fun hx =>
    ⟨fun heq => absurd (hnone.symm.trans (heq ▸ hx)) (by simp), fun heq => hnot ⟨_, _, hx, heq⟩⟩
  have hkeep : ∀ {j x}, s.slot j = some x → s'.slot j = some x := fun hx => by
    rw [hslot, update_of_ne (hold hx).1]
    exact hx
  have hcases : ∀ {j x}, s'.slot j = some x → j = id ∧ x = ⟨m, 1, base, []⟩ ∨
      s.slot j = some x := by
    intro j x hx
    obtain ⟨hj, hx⟩ | ⟨-, hx⟩ := slot_cases hslot hx
    · exact .inl ⟨hj, (Option.some.inj hx).symm⟩
    · exact .inr hx
  have hr : ∀ {j x}, s.slot j = some x → update r m 0 x.lib = r x.lib := fun hx =>
    update_of_ne (hold hx).2 _ _
  have hinner : ∀ l, s'.inner g (update r m 0) l = s.inner g r l := by
    intro l
    have := inner_update g r (update r m 0) hslot (fun j x _ hx => hr hx) l
    rw [hnone, Option.elim_none, Option.elim_some, hnil, count_nil] at this
    simpa using this
  refine ⟨?_, ?_, ?_, ?_, ?_, ?_⟩
  · intro i j x y hx hy hxy
    rcases hcases hx with ⟨rfl, rfl⟩ | hx <;> rcases hcases hy with ⟨rfl, rfl⟩ | hy
    · rfl
    · exact absurd hxy.symm (hold hy).2
    · exact absurd hxy (hold hx).2
    · exact h.unique hx hy hxy
  · intro i x hx
    rw [hinner]
    rcases hcases hx with ⟨rfl, rfl⟩ | hx
    · rw [Multiset.count_cons_self, Multiset.count_eq_zero_of_notMem hext, hinner0]
    · rw [Multiset.count_cons_of_ne (hold hx).2]
      exact h.count hx
  · intro i x hx
    rcases hcases hx with ⟨rfl, rfl⟩ | hx
    · exact Nat.one_pos
    · exact h.pos hx
  · intro l hl
    rcases Multiset.mem_cons.1 hl with rfl | hl
    · exact ⟨id, _, by rw [hslot, update_self], rfl⟩
    · obtain ⟨i, x, hx, hlx⟩ := h.held hl
      exact ⟨i, x, hkeep hx, hlx⟩
  · intro i x j d hx hj
    rcases hcases hx with ⟨rfl, rfl⟩ | hx
    · rw [hnil] at hj
      cases hj
    rw [Libraries.refs, hr hx] at hj
    obtain ⟨k, y, hk, hy, hyd⟩ := h.named hx hj
    exact ⟨k, y, hk, hkeep hy, hyd⟩
  · have hsec := sections_update (g := g) hslot
    rw [hnone, Option.elim_none, Option.elim_some, add_zero] at hsec
    rw [hmaps, h.maps, hsec, Libraries.sections]
    abel

omit h in
/-- **The last reference to a module is given back**: it leaves the table, and its dependencies
become outside references. -/
theorem Inv.leave (h : Inv g M₀ s (e.lib ::ₘ ext) r) (he : s.slot id = some e)
    (hcount : e.loadc = 1) (hslot : s'.slot = update s.slot id none)
    (hmaps : g.sections e + s'.maps = s.maps) :
    Inv g M₀ s' (ext + ↑(g.refs r e.lib)) r := by
  have hown := h.count he
  rw [hcount, Multiset.count_cons_self] at hown
  have hext : e.lib ∉ ext := Multiset.count_eq_zero.1 (by omega)
  have hinner0 : s.inner g r e.lib = 0 := by omega
  have hcases : ∀ {j x}, s'.slot j = some x → s.slot j = some x ∧ x.lib ≠ e.lib := by
    intro j x hx
    obtain ⟨-, hx⟩ | ⟨hj, hx⟩ := slot_cases hslot hx
    · cases hx
    · exact ⟨hx, fun heq => hj (h.unique hx he heq)⟩
  have hkeep : ∀ {l}, l ≠ e.lib → s.Loaded l → ∃ j x, s'.slot j = some x ∧ x.lib = l := by
    rintro l hl ⟨j, x, hx, rfl⟩
    have hj : j ≠ id := by
      rintro rfl
      exact hl (by rw [Option.some.inj (he.symm.trans hx)])
    exact ⟨j, x, by rw [hslot, update_of_ne hj]; exact hx, rfl⟩
  have hrefs : e.lib ∉ g.refs r e.lib := fun hmem =>
    absurd (g.rank_lt _ _ (mem_of_mem_take hmem)) (Nat.lt_irrefl _)
  refine ⟨?_, ?_, ?_, ?_, ?_, ?_⟩
  · exact fun hx hy => h.unique (hcases hx).1 (hcases hy).1
  · intro i x hx
    obtain ⟨hx, hne⟩ := hcases hx
    have hinner := inner_update g r r hslot (fun _ _ _ _ => rfl) x.lib
    rw [he, Option.elim_some, Option.elim_none] at hinner
    have := h.count hx
    rw [Multiset.count_cons_of_ne hne] at this
    rw [Multiset.count_add, Multiset.coe_count]
    omega
  · exact fun hx => h.pos (hcases hx).1
  · intro l hl
    rcases Multiset.mem_add.1 hl with hl | hl
    · exact hkeep (fun heq => hext (heq ▸ hl)) (h.held (Multiset.mem_cons_of_mem hl))
    · have hl := Multiset.mem_coe.1 hl
      exact hkeep (fun heq => hrefs (heq ▸ hl)) (h.loaded_of_refs he hl)
  · intro i x j d hx hj
    obtain ⟨hx, -⟩ := hcases hx
    obtain ⟨k, y, hk, hy, hyd⟩ := h.named hx hj
    have hne : k ≠ id := by
      rintro rfl
      obtain rfl := Option.some.inj (he.symm.trans hy)
      have hle := Slots.le_total hx fun x => (g.refs r x.lib).count e.lib
      have hpos : 0 < (g.refs r x.lib).count e.lib :=
        count_pos_iff.2 (hyd ▸ mem_iff_getElem?.2 ⟨j, hj⟩)
      exact absurd hinner0 (Nat.ne_of_gt (Nat.lt_of_lt_of_le hpos hle))
    exact ⟨k, y, hk, by rw [hslot, update_of_ne hne]; exact hy, hyd⟩
  · have hsec := sections_update (g := g) hslot
    rw [he, Option.elim_some, Option.elim_none, add_zero] at hsec
    have : g.sections e + s'.maps =
        g.sections e + (Slots.total s'.modv g.sections + M₀) := by
      rw [hmaps, h.maps, ← hsec]
      abel
    exact add_left_cancel this

/-! ### The table is determined by the outside references -/

/-- A loaded library is referred to from outside, or is a counted dependency of a loaded one. -/
theorem Inv.referred (he : s.slot id = some e) :
    e.lib ∈ ext ∨ ∃ i x, s.slot i = some x ∧ e.lib ∈ g.refs r x.lib := by
  have hcount := h.count he
  have hpos := h.pos he
  by_cases hext : e.lib ∈ ext
  · exact .inl hext
  rw [Multiset.count_eq_zero_of_notMem hext] at hcount
  have hinner : 0 < s.inner g r e.lib := by omega
  obtain ⟨i, x, hx, hin⟩ := Slots.exists_of_total_pos hinner
  exact .inr ⟨i, x, hx, count_pos_iff.1 hin⟩

/-- The same outside references keep the same libraries loaded. -/
theorem Inv.loaded_of_loaded (h' : Inv g M₀ s' ext r) {l : L} (hl : s.Loaded l) : s'.Loaded l := by
  -- Going from a library to one that depends on it, the rank grows up to a bound.
  obtain ⟨n, hn⟩ : ∃ n, ∀ i x, s.slot i = some x → g.rank x.lib ≤ n :=
    ⟨_, fun i x hx => Slots.le_total hx fun x => g.rank x.lib⟩
  induction hk : n - g.rank l using Nat.strong_induction_on generalizing l with
  | _ k ih =>
    obtain ⟨i, e, he, rfl⟩ := hl
    rcases h.referred he with hext | ⟨j, x, hx, hmem⟩
    · exact h'.held hext
    have hrank := g.rank_lt _ _ (mem_of_mem_take hmem)
    have := hn j x hx
    obtain ⟨j', x', hx', hlib⟩ := ih (n - g.rank x.lib) (by omega) ⟨j, x, hx, rfl⟩ rfl
    exact h'.loaded_of_refs hx' (hlib ▸ hmem)

/-- The same module, perhaps loaded more or less often -/
def Like (e e' : Module L) : Prop := e'.lib = e.lib ∧ e'.base = e.base ∧ e'.depids = e.depids

/-- **Nothing is left behind**: if what was loaded before sits where it was, the table and the
mapped sections are what they were. -/
theorem Inv.restored (h' : Inv g M₀ s' ext r)
    (hold : ∀ i e', s'.slot i = some e' → s.Loaded e'.lib → ∃ e, s.slot i = some e ∧ Like e e') :
    s'.slot = s.slot ∧ s'.maps = s.maps := by
  have hback : ∀ i e', s'.slot i = some e' → ∃ e, s.slot i = some e ∧ Like e e' :=
    fun i e' he' => hold i e' he' (h'.loaded_of_loaded h ⟨i, e', he', rfl⟩)
  have hboth : ∀ i, s'.slot i = none ∧ s.slot i = none ∨
      ∃ e e', s'.slot i = some e' ∧ s.slot i = some e ∧ Like e e' := by
    intro i
    cases he' : s'.slot i with
    | some e' =>
      obtain ⟨e, he, hlike⟩ := hback i e' he'
      exact .inr ⟨e, e', rfl, he, hlike⟩
    | none =>
      refine .inl ⟨rfl, Option.eq_none_iff_forall_ne_some.mpr fun e he => ?_⟩
      obtain ⟨j, e', hj, hlib⟩ := h.loaded_of_loaded h' ⟨i, e, he, rfl⟩
      obtain ⟨e1, he1, hlike⟩ := hback j e' hj
      obtain rfl : j = i := h.unique he1 he (hlike.1.symm.trans hlib)
      cases he'.symm.trans hj
  have hinner : ∀ l, s'.inner g r l = s.inner g r l := by
    intro l
    refine Slots.total_congr fun i => ?_
    change (s'.slot i).elim _ _ = (s.slot i).elim _ _
    rcases hboth i with ⟨he', he⟩ | ⟨e, e', he', he, hlike⟩
    · rw [he', he]
    · rw [he', he, Option.elim_some, Option.elim_some, hlike.1]
  have hslot : s'.slot = s.slot := by
    funext i
    rcases hboth i with ⟨he', he⟩ | ⟨e, e', he', he, hlib, hbase, hdepids⟩
    · rw [he', he]
    · have hloadc : e'.loadc = e.loadc := by
        rw [h'.count he', h.count he, hlib, hinner]
      obtain ⟨l', n', b', d'⟩ := e'
      simp only at hlib hbase hdepids hloadc
      rw [he', he, hlib, hbase, hdepids, hloadc]
  refine ⟨hslot, ?_⟩
  have hsec : Slots.total s'.modv g.sections = Slots.total s.modv g.sections :=
    Slots.total_congr fun i => by rw [show Slots.slot s'.modv = s.slot from hslot]
  rw [h.maps, h'.maps, hsec]

end

end Modules

end KosKernel.Proc
