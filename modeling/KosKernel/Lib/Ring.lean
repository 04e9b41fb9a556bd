import KosKernel.Lib.LinkedList

/-!
# KosKernel.Lib.Ring

**Circular doubly linked lists**, in the memory of `KosKernel.Lib.LinkedList`.

A ring is a segment that arrives at its own first node, whose back link is the last
one. It has no distinguished start: it can be read from any of its nodes
(`IsRing.rotate`), so every insertion is one behind the last node (`IsRing.insert`),
and every removal one of the first node (`IsRing.remove_head`).
-/

namespace KosKernel.LinkedList

open Function List

section Shape

variable {P : Type} {nil : P} {next prev next' prev' : P → P} {xs pre post : List P} {x y : P}

/-- The nodes of a ring, read from one of them. -/
def IsRing (nil : P) (next prev : P → P) (xs : List P) : Prop :=
  IsSeg nil next prev (xs.getLastD nil) (xs.headD nil) xs (xs.headD nil)

theorem isRing_nil : IsRing nil next prev [] := rfl

theorem IsRing.ne_nil (h : IsRing nil next prev xs) : ∀ x ∈ xs, x ≠ nil := IsSeg.ne_nil h

theorem IsRing.congr (h : IsRing nil next prev xs) (hn : ∀ x ∈ xs, next' x = next x)
    (hp : ∀ x ∈ xs, prev' x = prev x) : IsRing nil next' prev' xs := IsSeg.congr h hn hp

theorem IsRing.rotate_one (h : IsRing nil next prev (x :: xs)) :
    IsRing nil next prev (xs ++ [x]) := by
  obtain ⟨-, hx, hb, htl⟩ := h
  by_cases hxs : xs = []
  · subst hxs
    exact ⟨rfl, hx, hb, htl⟩
  obtain ⟨y, ys, rfl⟩ := exists_cons_of_ne_nil hxs
  obtain ⟨hy, hy0, hby, htl'⟩ := htl
  refine ⟨rfl, hy0, by rw [getLastD_concat]; exact hby, ?_⟩
  refine isSeg_append.mpr ⟨x, htl', rfl, hx, ?_, hy⟩
  rw [hb, getLastD_cons, getLastD_cons]

theorem IsRing.rotate (h : IsRing nil next prev (pre ++ post)) :
    IsRing nil next prev (post ++ pre) := by
  induction pre generalizing post with
  | nil => simpa using h
  | cons x pre ih =>
    rw [cons_append] at h
    have h' := h.rotate_one
    rw [append_assoc] at h'
    simpa using ih h'

theorem IsRing.link_head (h : IsRing nil next prev (x :: xs)) :
    next x ∈ x :: xs ∧ prev x ∈ x :: xs := by
  obtain ⟨-, -, hb, htl⟩ := h
  refine ⟨?_, hb ▸ getLastD_mem (by simp)⟩
  cases xs with
  | nil => simp [show next x = x from htl]
  | cons y ys => simp [htl.1]

theorem IsRing.link_mem (h : IsRing nil next prev xs) (hx : x ∈ xs) :
    next x ∈ xs ∧ prev x ∈ xs := by
  obtain ⟨pre, post, rfl⟩ := append_of_mem hx
  have hmem : ∀ z, z ∈ x :: (post ++ pre) ↔ z ∈ pre ++ x :: post := fun z => by
    simp only [mem_append, mem_cons]
    tauto
  have h' := h.rotate
  obtain ⟨hn, hp⟩ := h'.link_head
  exact ⟨(hmem _).mp hn, (hmem _).mp hp⟩

end Shape

/-! ### Surgery -/

section Surgery

variable {P : Type} [DecidableEq P] {nil : P} {next prev : P → P} {xs : List P} {x y : P}

/-- `y->next = x; y->prev->next = y;`, with `x->prev` as the back link of `y`. -/
def insertNext (next prev : P → P) (x y : P) : P → P :=
  update (update next y x) (prev x) y

/-- `y->prev = x->prev; x->prev = y;` -/
def insertPrev (prev : P → P) (x y : P) : P → P :=
  update (update prev y (prev x)) x y

theorem IsRing.insert (h : IsRing nil next prev (x :: xs)) (hnd : (x :: xs).Nodup)
    (hy : y ∉ x :: xs) (hy0 : y ≠ nil) :
    IsRing nil (insertNext next prev x y) (insertPrev prev x y) (x :: xs ++ [y]) := by
  have hlast : prev x = xs.getLastD x := by rw [h.2.2.1, getLastD_cons]
  have hne : ∀ z ∈ x :: xs, z ≠ y := fun z hz => ne_of_mem_of_not_mem hz hy
  have hlasty : xs.getLastD x ≠ y := hne _ (hlast ▸ h.link_head.2)
  have hnext : ∀ z ∈ x :: xs, insertNext next prev x y z =
      update next (xs.getLastD x) y z := fun z hz => by
    rw [insertNext, hlast, update_comm hlasty.symm, update_of_ne (hne z hz)]
  have hprev : ∀ z ∈ x :: xs, insertPrev prev x y z = update prev x y z := fun z hz => by
    rw [insertPrev, update_comm (hne x (by simp)).symm, update_of_ne (hne z hz)]
  have hseg := IsSeg.update_last_next h (by simp) hnd y
  rw [getLastD_cons, getLastD_cons] at hseg
  refine isSeg_append.mpr ⟨y, ?_, rfl, hy0, ?_, ?_⟩
  · -- The segment up to the last node now leads to `y`, and its first back link is `y`.
    refine ⟨rfl, h.2.1, ?_, ?_⟩
    · rw [getLastD_concat, hprev x (by simp), update_self]
    · rw [hnext x (by simp)]
      refine IsSeg.congr hseg.2.2.2 (fun z hz => hnext z (by simp [hz])) (fun z hz => ?_)
      rw [hprev z (by simp [hz]), update_of_ne]
      exact ne_of_mem_of_not_mem hz (nodup_cons.mp hnd).1
  · rw [insertPrev, update_of_ne (hne x (by simp)).symm, update_self, hlast,
      getLastD_cons]
  · rw [isSeg_nil, insertNext, hlast, update_of_ne hlasty.symm, update_self]
    rfl

theorem IsRing.remove_head (h : IsRing nil next prev (x :: xs)) (hnd : (x :: xs).Nodup) :
    IsRing nil (update next (prev x) (next x)) (update prev (next x) (prev x))
      xs := by
  obtain ⟨-, hx, hb, htl⟩ := h
  have hxs := nodup_cons.mp hnd
  cases xs with
  | nil => exact isRing_nil
  | cons y ys =>
    have hlast : prev x = ys.getLastD y := by rw [hb, getLastD_cons, getLastD_cons]
    have hy := htl.1
    have hy0 := htl.2.1
    have hseg := IsSeg.update_last_next htl (by simp) hxs.2 y
    rw [getLastD_cons] at hseg
    refine ⟨rfl, hy0, ?_, ?_⟩
    · rw [hy, getLastD_cons, update_self, hlast]
    · rw [hy, hlast]
      refine IsSeg.congr hseg.2.2.2 (fun z hz => rfl) (fun z hz => ?_)
      exact update_of_ne (ne_of_mem_of_not_mem hz (nodup_cons.mp hxs.2).1) _ _

theorem IsRing.remove (h : IsRing nil next prev xs) (hnd : xs.Nodup) (hx : x ∈ xs) :
    IsRing nil (update next (prev x) (next x)) (update prev (next x) (prev x))
      (xs.erase x) := by
  obtain ⟨pre, post, rfl⟩ := append_of_mem hx
  have hnot : x ∉ pre := fun hm => (nodup_append.mp hnd).2.2 x hm x (by simp) rfl
  have h' := (h.rotate).remove_head (x := x)
    (by simpa using nodup_append_comm.mp hnd)
  rw [erase_append_right _ hnot, erase_cons_head]
  exact h'.rotate

/-- The nodes that a loop along `next` visits until it would arrive at `start`. -/
def cycle (next : P → P) (start : P) : Nat → P → List P
  | 0, _ => []
  | fuel + 1, p => p :: if next p = start then [] else cycle next start fuel (next p)

theorem IsSeg.cycle_eq {b p e : P} (h : IsSeg nil next prev b p (x :: xs) e) (he : e ∉ xs)
    {fuel : Nat} (hf : xs.length < fuel) : cycle next e fuel p = x :: xs := by
  induction xs generalizing b p x fuel with
  | nil =>
    obtain _ | fuel := fuel
    · omega
    obtain ⟨rfl, -, -, htl⟩ := h
    simp only [isSeg_nil] at htl
    simp [cycle, htl]
  | cons y ys ih =>
    obtain _ | fuel := fuel
    · simp at hf
    obtain ⟨rfl, -, -, htl⟩ := h
    have hne : next p ≠ e := by
      rw [htl.1]
      rintro rfl
      simp at he
    rw [cycle, if_neg hne, ih htl (fun hm => he (by simp [hm])) (by simpa using hf)]

/-- A loop around a ring visits its nodes. -/
theorem IsRing.cycle_eq (h : IsRing nil next prev (x :: xs)) (hnd : (x :: xs).Nodup) {fuel : Nat}
    (hf : xs.length < fuel) : cycle next x fuel x = x :: xs :=
  IsSeg.cycle_eq h (nodup_cons.mp hnd).1 hf

end Surgery

end KosKernel.LinkedList
