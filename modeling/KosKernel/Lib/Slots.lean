import Mathlib.Algebra.Order.BigOperators.Group.Finset
import Mathlib.Data.List.DropRight
import Mathlib.Tactic.Abel

/-!
# KosKernel.Lib.Slots

**Tables with unused slots.** A table is a list of slots, each empty or holding an element; what
lies behind its end counts as empty. So the table is read through `slot`, and everything said
about it through `slot` does not change when empty slots are added to its end or cut off from it.
`total` sums a weight over the elements: changing one slot changes it by that slot's weight.
-/

namespace KosKernel.Slots

open Function List

variable {α κ M : Type*}

/-- The element at an index, if there is one -/
def slot (t : List (Option α)) (i : Nat) : Option α := (t[i]?).join

variable {t : List (Option α)} {i : Nat} {a : α}

theorem slot_eq_some_iff : slot t i = some a ↔ t[i]? = some (some a) := by
  simp [slot, Option.join_eq_some_iff]

theorem lt_length_of_slot (h : slot t i = some a) : i < t.length :=
  (List.getElem?_eq_some_iff.1 (slot_eq_some_iff.1 h)).1

theorem slot_of_length_le (h : t.length ≤ i) : slot t i = none := by
  rw [slot, getElem?_eq_none h, Option.join_none]

theorem slot_set (h : i < t.length) (o : Option α) :
    slot (t.set i o) = update (slot t) i o := by
  funext j
  by_cases hj : j = i
  · subst hj
    simp [slot, h]
  · rw [update_of_ne hj, slot, getElem?_set_ne (Ne.symm hj), slot]

theorem slot_append_none (t : List (Option α)) : slot (t ++ [none]) = slot t := by
  funext j
  rcases Nat.lt_trichotomy j t.length with hlt | rfl | hgt
  · rw [slot, getElem?_append_left hlt, slot]
  · simp [slot]
  · rw [slot_of_length_le (by simp; omega), slot_of_length_le (Nat.le_of_lt hgt)]

/-- The table without the empty slots at its end -/
def trim (t : List (Option α)) : List (Option α) := t.rdropWhile Option.isNone

theorem slot_trim (t : List (Option α)) : slot (trim t) = slot t := by
  induction t using List.reverseRecOn with
  | nil => rfl
  | append_singleton t o ih =>
    cases o with
    | none =>
      rw [trim, rdropWhile_concat_pos _ _ _ rfl, slot_append_none]
      exact ih
    | some a => rw [trim, rdropWhile_concat_neg _ _ _ (by simp)]

theorem slot_dropLast (h : i + 1 = t.length) :
    slot (t.take i) = update (slot t) i none := by
  funext j
  rcases Nat.lt_trichotomy j i with hlt | rfl | hgt
  · rw [update_of_ne (Nat.ne_of_lt hlt), slot, getElem?_take_of_lt hlt, slot]
  · rw [update_self, slot_of_length_le (by simp)]
  · rw [update_of_ne (Nat.ne_of_gt hgt), slot_of_length_le (by simp; omega),
      slot_of_length_le (by omega)]

/-! ### Totals -/

section Total

variable [AddCommMonoid M]

/-- The weight of all elements together -/
def total (t : List (Option α)) (f : α → M) : M := (t.map fun o => o.elim 0 f).sum

theorem total_eq_sum (t : List (Option α)) (f : α → M) {n : Nat} (hn : t.length ≤ n) :
    total t f = ∑ i ∈ Finset.range n, (slot t i).elim 0 f := by
  induction t using List.reverseRecOn generalizing n with
  | nil => simp [total, slot]
  | append_singleton t o ih =>
    have hsplit : ∑ i ∈ Finset.range n, (slot (t ++ [o]) i).elim 0 f =
        ∑ i ∈ Finset.range (t.length + 1), (slot (t ++ [o]) i).elim 0 f := by
      refine (Finset.sum_subset (by simpa using hn) fun i _ hi => ?_).symm
      rw [slot_of_length_le (by simpa using hi), Option.elim_none]
    have hrest : ∑ i ∈ Finset.range t.length, (slot (t ++ [o]) i).elim 0 f =
        ∑ i ∈ Finset.range t.length, (slot t i).elim 0 f := by
      refine Finset.sum_congr rfl fun i hi => ?_
      rw [slot, getElem?_append_left (Finset.mem_range.1 hi), slot]
    have hlast : slot (t ++ [o]) t.length = o := by simp [slot]
    rw [hsplit, Finset.sum_range_succ, hrest, hlast, ← ih le_rfl]
    simp [total]

variable {t t' : List (Option α)}

theorem total_congr {f f' : α → M} (h : ∀ i, (slot t i).elim 0 f = (slot t' i).elim 0 f') :
    total t f = total t' f' := by
  rw [total_eq_sum t f (Nat.le_max_left t.length t'.length),
    total_eq_sum t' f' (Nat.le_max_right t.length t'.length)]
  exact Finset.sum_congr rfl fun i _ => h i

/-- **The total after one slot was changed**, and with it the weight of the element there. -/
theorem total_update {i : Nat} {o : Option α} {f f' : α → M}
    (h : slot t' = update (slot t) i o)
    (hf : ∀ j a, j ≠ i → slot t j = some a → f' a = f a) :
    total t' f' + (slot t i).elim 0 f = total t f + o.elim 0 f' := by
  obtain ⟨n, hn⟩ : ∃ n, n = max (max t.length t'.length) (i + 1) := ⟨_, rfl⟩
  have hi : i ∈ Finset.range n := by
    rw [Finset.mem_range]
    omega
  rw [total_eq_sum t f (n := n) (by omega), total_eq_sum t' f' (n := n) (by omega),
    ← Finset.add_sum_erase _ _ hi, ← Finset.add_sum_erase (Finset.range n) _ hi]
  have hrest : ∑ j ∈ (Finset.range n).erase i, (slot t' j).elim 0 f' =
      ∑ j ∈ (Finset.range n).erase i, (slot t j).elim 0 f := by
    refine Finset.sum_congr rfl fun j hj => ?_
    have hne := Finset.ne_of_mem_erase hj
    rw [h, update_of_ne hne]
    cases ha : slot t j with
    | none => rfl
    | some a => exact hf j a hne ha
  rw [hrest, h, update_self]
  abel

/-! ### Keys -/

/-- The keys of the elements -/
def keys (key : α → κ) (t : List (Option α)) : List κ := (t.filterMap id).map key

theorem mem_keys {key : α → κ} {k : κ} : k ∈ keys key t ↔ ∃ i a, slot t i = some a ∧ key a = k := by
  simp only [keys, mem_map, mem_filterMap, id]
  constructor
  · rintro ⟨a, ⟨o, ho, rfl⟩, hk⟩
    obtain ⟨i, hi⟩ := mem_iff_getElem?.1 ho
    exact ⟨i, a, slot_eq_some_iff.2 hi, hk⟩
  · rintro ⟨i, a, ha, hk⟩
    exact ⟨a, ⟨some a, mem_iff_getElem?.2 ⟨i, slot_eq_some_iff.1 ha⟩, rfl⟩, hk⟩

theorem nodup_keys {key : α → κ}
    (h : ∀ {i j a b}, slot t i = some a → slot t j = some b → key a = key b → i = j) :
    (keys key t).Nodup := by
  induction t with
  | nil => exact nodup_nil
  | cons o t ih =>
    have ht : (keys key t).Nodup := ih fun {i j a b} hi hj hk => by
      have := h (i := i + 1) (j := j + 1) hi hj hk
      omega
    cases o with
    | none => exact ht
    | some a =>
      refine nodup_cons.2 ⟨fun hmem => ?_, ht⟩
      obtain ⟨i, b, hb, hk⟩ := mem_keys.1 hmem
      have := h (i := i + 1) (j := 0) hb rfl hk
      omega

theorem total_eq_keys (key : α → κ) (f : κ → M) (t : List (Option α)) :
    total t (fun a => f (key a)) = ((keys key t).map f).sum := by
  induction t with
  | nil => rfl
  | cons o t ih =>
    cases o with
    | none => simpa [total, keys] using ih
    | some a =>
      have hsum : total (some a :: t) (fun a => f (key a)) =
          f (key a) + total t fun a => f (key a) := by simp [total]
      rw [hsum, ih]
      simp [keys]

/-- A weight that depends on the key has the same total wherever the keys are the same. -/
theorem total_of_keys (key : α → κ)
    (h : ∀ {i j a b}, slot t i = some a → slot t j = some b → key a = key b → i = j)
    (h' : ∀ {i j a b}, slot t' i = some a → slot t' j = some b → key a = key b → i = j)
    (hkeys : ∀ k, (∃ i a, slot t i = some a ∧ key a = k) ↔ ∃ i a, slot t' i = some a ∧ key a = k)
    (f : κ → M) : total t (fun a => f (key a)) = total t' fun a => f (key a) := by
  have hperm : (keys key t).Perm (keys key t') :=
    (perm_ext_iff_of_nodup (nodup_keys h) (nodup_keys h')).2 fun k => by
      rw [mem_keys, mem_keys]
      exact hkeys k
  rw [total_eq_keys, total_eq_keys, (hperm.map f).sum_eq]

end Total

theorem exists_of_total_pos {f : α → Nat} (h : 0 < total t f) :
    ∃ i a, slot t i = some a ∧ 0 < f a := by
  rw [total_eq_sum t f le_rfl] at h
  obtain ⟨i, -, hi⟩ := Finset.exists_ne_zero_of_sum_ne_zero (Nat.ne_of_gt h)
  cases ha : slot t i with
  | none => exact absurd (by rw [ha, Option.elim_none]) hi
  | some a =>
    rw [ha, Option.elim_some] at hi
    exact ⟨i, a, ha, Nat.pos_of_ne_zero hi⟩

theorem le_total (h : slot t i = some a) (f : α → Nat) : f a ≤ total t f := by
  rw [total_eq_sum t f le_rfl]
  have hi : i ∈ Finset.range t.length := Finset.mem_range.2 (lt_length_of_slot h)
  have := Finset.single_le_sum (f := fun j => (slot t j).elim 0 f)
    (fun j _ => Nat.zero_le _) hi
  simpa [h] using this

end KosKernel.Slots
