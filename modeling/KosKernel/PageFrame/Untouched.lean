import KosKernel.PageFrame.TryAlloc

/-!
# KosKernel.PageFrame.Untouched

**Which pages the allocator writes to.** A descriptor is the first words of a page, so
every write of the allocator is a write into somebody's memory. The lemmas below say
that each call writes only into pages that are free before it or after it: a page that
is not free, and is not given back by the call, keeps its contents.
-/

namespace KosKernel.PageFrame

open Function LinkedList

/-- The words of page `x` that can hold a descriptor are the same in both states. -/
structure Untouched (x : Nat) (s t : State) : Prop where
  prev : t.pffPrev x = s.pffPrev x
  next : t.pffNext x = s.pffNext x
  size : t.pffSize x = s.pffSize x

variable {s : State} {rs : List (Nat × Nat)} {x : Nat}

theorem RegionList.link_ne {iter : Nat} (h : RegionList s rs) (hx : x ∉ rs.map Prod.fst)
    (hnil : x ≠ pageNil) (hiter : iter ∈ rs.map Prod.fst) :
    x ≠ s.pffNext iter ∧ x ≠ s.pffPrev iter := by
  obtain ⟨hnext, hprev⟩ := h.seg.link_mem hiter
  constructor
  · rintro rfl
    exact hnext.elim hnil hx
  · rintro rfl
    exact hprev.elim hnil hx

section Splices

variable {s : State} {rs : List (Nat × Nat)} {x start n iter : Nat}

section

variable (h : RegionList s rs) (hx : x ∉ rs.map Prod.fst) (hnil : x ≠ pageNil)
  (hiter : iter ∈ rs.map Prod.fst)

include h hx hnil hiter

/-- A page takes over the position of `iter`: it is written, and its neighbours. -/
theorem takePlace_untouched (hstart : x ≠ start) : Untouched x s (takePlace s start iter) := by
  obtain ⟨hnext, hprev⟩ := h.link_ne hx hnil hiter
  have hback : x ≠ (linkPrev pageNil s.pffPrev (s.pffNext iter) start) iter := by
    unfold linkPrev
    split
    · exact hprev
    rw [update_apply]
    split
    · exact hstart
    · exact hprev
  refine ⟨?_, ?_, rfl⟩
  · simp [takePlace, hstart, linkPrev_of_ne hnext]
  · simp [takePlace, hstart, linkNext_of_ne hback]

theorem mergeBefore_untouched (hstart : x ≠ start) :
    Untouched x s (mergeBefore s start n iter) := by
  obtain ⟨hprev, hnext, hsize⟩ := takePlace_untouched h hx hnil hiter hstart
  exact ⟨hprev, hnext, (update_of_ne hstart _ _).trans hsize⟩

theorem mergeAfter_untouched : Untouched x s (mergeAfter s n iter) := by
  have hself : x ≠ iter := fun hEq => hx (hEq ▸ hiter)
  dsimp only [mergeAfter]
  split
  · rename_i hnext
    have hmem : s.pffNext iter ∈ rs.map Prod.fst :=
      (h.seg.link_mem hiter).1.resolve_left hnext.2
    obtain ⟨hnn, -⟩ := h.link_ne hx hnil hmem
    refine ⟨?_, ?_, ?_⟩
    · simp [linkPrev_of_ne hnn]
    · simp [hself]
    · simp [hself]
  · exact ⟨rfl, rfl, update_of_ne hself _ _⟩

theorem insertBefore_untouched (hstart : x ≠ start) :
    Untouched x s (insertBefore s start n iter) := by
  have hself : x ≠ iter := fun hEq => hx (hEq ▸ hiter)
  obtain ⟨-, hprev⟩ := h.link_ne hx hnil hiter
  refine ⟨?_, ?_, ?_⟩
  · simp [insertBefore, hself, hstart]
  · simp [insertBefore, hstart, linkNext_of_ne hprev]
  · simp [insertBefore, hstart]

end

/-- The search of `kpageframe_free` writes to listed regions and to `start`. -/
theorem freeLoop_untouched (h : RegionList s rs) (hx : x ∉ rs.map Prod.fst) (hnil : x ≠ pageNil)
    (hstart : x ≠ start) : ∀ {fuel iter : Nat} {t : State}, iter ∈ rs.map Prod.fst →
    freeLoop start n fuel iter s = some t → Untouched x s t := by
  intro fuel
  induction fuel with
  | zero => intro iter t _ hcall; cases hcall
  | succ fuel ih =>
    intro iter t hiter hcall
    rw [freeLoop] at hcall
    split at hcall
    · cases hcall
      exact mergeBefore_untouched h hx hnil hiter hstart
    split at hcall
    · cases hcall
      exact mergeAfter_untouched h hx hnil hiter
    split at hcall
    · cases hcall
      exact insertBefore_untouched h hx hnil hiter hstart
    split at hcall
    · cases hcall
      have hself : x ≠ iter := fun hEq => hx (hEq ▸ hiter)
      constructor <;> simp [appendAfter, hself, hstart]
    · rename_i hne
      exact ih ((h.seg.link_mem hiter).1.resolve_left hne) hcall

end Splices

/-! ### The calls -/

theorem not_mem_starts (h : RegionList s rs) (hx : x ∉ pagesIn rs) : x ∉ rs.map Prod.fst := by
  intro hmem
  obtain ⟨r, hr, rfl⟩ := List.mem_map.mp hmem
  exact hx ⟨r, hr, 0, (h.region r hr).nonempty, by simp⟩

/-- **`kpageframe_free` writes to no page in use**: the pages that are not free
afterwards keep their contents. -/
theorem kpageframeFree_untouched {t : State} {start n : Nat} (h : RegionList s rs)
    (hcall : kpageframeFree s start n = some t) (hx : x ∉ pagesIn rs) (hnil : x ≠ pageNil)
    (hstart : x ≠ start) : Untouched x s t := by
  have hx' := not_mem_starts h hx
  rw [kpageframeFree] at hcall
  split at hcall
  · cases hcall
    refine ⟨?_, ?_, ?_⟩ <;> simp [State.subAllocated, hstart]
  rename_i hne
  obtain ⟨u, hloop, rfl⟩ := Option.map_eq_some_iff.mp hcall
  have hmem : s.firstFreePage ∈ rs.map Prod.fst := by
    cases rs with
    | nil => exact absurd (isSeg_nil.mp h.seg) hne
    | cons r rs => simp [h.seg.1]
  obtain ⟨hp, hn, hz⟩ := freeLoop_untouched h hx' hnil hstart hmem hloop
  exact ⟨hp, hn, hz⟩

theorem takeFront_untouched {pre post : List (Nat × Nat)} {iter m n : Nat}
    (h : RegionList s (pre ++ (iter, m) :: post)) (hn : n ≤ m)
    (hx : x ∉ pagesIn (pre ++ (iter, m) :: post)) (hnil : x ≠ pageNil) :
    Untouched x s (takeFront s n iter) := by
  have hx' := not_mem_starts h hx
  have hiter : iter ∈ (pre ++ (iter, m) :: post).map Prod.fst := by simp
  have hsize : s.pffSize iter = m := h.size (iter, m) (by simp)
  obtain ⟨hnext, hprev⟩ := h.link_ne hx' hnil hiter
  rw [takeFront]
  split
  · have hback : x ≠ (linkPrev pageNil s.pffPrev (s.pffNext iter) (s.pffPrev iter)) iter := by
      rw [linkPrev_of_ne h.next_ne.symm]
      exact hprev
    refine ⟨?_, ?_, rfl⟩
    · simp [linkPrev_of_ne hnext]
    · simp [linkNext_of_ne hback]
  rename_i hne
  have hwrap := (h.region (iter, m) (by simp)).no_wrap
  have hle := Nat.mul_le_mul_right pageSize hn
  have hfa : frameAdd iter n = iter + n * pageSize := frameAdd_eq (by dsimp only at hwrap; omega)
  have hsplit : x ≠ frameAdd iter n := by
    rw [hfa]
    rintro rfl
    exact hx ⟨(iter, m), by simp, n, by dsimp only; omega, rfl⟩
  obtain ⟨hp, hn', hz⟩ := takePlace_untouched h hx' hnil hiter hsplit
  exact ⟨hp, hn', (update_of_ne hsplit _ _).trans hz⟩

end KosKernel.PageFrame
