import Mathlib.Data.List.Basic

/-!
# KosKernel.Lib.Slice

**Slices of a linear memory.** A memory is a map from offsets to cells; `slice`
reads a range of it as a list and `copy` writes a list into it, as `memcpy` does.
The rules say how slices split, what a copy leaves in its own range, and that it
leaves every other range alone.
-/

namespace KosKernel.Slice

open List

variable {α : Type}

/-- The cells from `start` on, `len` of them. -/
def slice (mem : Nat → α) (start : Nat) : Nat → List α
  | 0 => []
  | len + 1 => mem start :: slice mem (start + 1) len

/-- `memcpy(start, data, data.length)` -/
def copy (mem : Nat → α) (start : Nat) (data : List α) : Nat → α :=
  fun i => if i < start then mem i else (data[i - start]?).getD (mem i)

variable {mem mem' : Nat → α} {start len : Nat}

@[simp] theorem slice_zero : slice mem start 0 = [] := rfl

@[simp] theorem length_slice : (slice mem start len).length = len := by
  induction len generalizing start with
  | zero => rfl
  | succ len ih => simp [slice, ih]

variable {i : Nat}

theorem getElem?_slice (h : i < len) : (slice mem start len)[i]? = some (mem (start + i)) := by
  induction len generalizing start i with
  | zero => omega
  | succ len ih =>
    cases i with
    | zero => rfl
    | succ i =>
      rw [slice, getElem?_cons_succ, ih (by omega), Nat.add_assoc, Nat.add_comm 1 i]

theorem slice_add (m n : Nat) : slice mem start (m + n) =
    slice mem start m ++ slice mem (start + m) n := by
  induction m generalizing start with
  | zero => simp
  | succ m ih => rw [Nat.add_right_comm, slice, ih, slice, cons_append, Nat.add_right_comm,
      Nat.add_assoc]

theorem slice_eq {start' : Nat} (h : ∀ i < len, mem' (start' + i) = mem (start + i)) :
    slice mem' start' len = slice mem start len := by
  induction len generalizing start start' with
  | zero => rfl
  | succ len ih =>
    have hhead : mem' start' = mem start := h 0 (Nat.succ_pos len)
    rw [slice, slice, hhead, ih]
    intro i hi
    rw [Nat.add_assoc, Nat.add_assoc, Nat.add_comm 1 i]
    exact h (i + 1) (by omega)

theorem slice_congr (h : ∀ i, start ≤ i → i < start + len → mem' i = mem i) :
    slice mem' start len = slice mem start len :=
  slice_eq fun i hi => h _ (Nat.le_add_right start i) (Nat.add_lt_add_left hi start)

theorem slice_take (n : Nat) :
    (slice mem start len).take n = slice mem start (min len n) := by
  rcases Nat.le_total n len with h | h
  · obtain ⟨k, rfl⟩ := Nat.exists_eq_add_of_le h
    rw [slice_add, take_left' length_slice, Nat.min_eq_right h]
  · rw [take_of_length_le (by simpa using h), Nat.min_eq_left h]

theorem slice_drop {n : Nat} (h : n ≤ len) :
    (slice mem start len).drop n = slice mem (start + n) (len - n) := by
  obtain ⟨k, rfl⟩ := Nat.exists_eq_add_of_le h
  rw [slice_add, drop_left' length_slice, Nat.add_sub_cancel_left]

theorem slice_copy (data : List α) : slice (copy mem start data) start data.length = data := by
  induction data generalizing mem start with
  | nil => rfl
  | cons x xs ih =>
    rw [length_cons, slice]
    have hhead : copy mem start (x :: xs) start = x := by simp [copy]
    have htail : slice (copy mem start (x :: xs)) (start + 1) xs.length =
        slice (copy mem (start + 1) xs) (start + 1) xs.length := by
      refine slice_congr fun i h1 _ => ?_
      have hshift : i - start = i - (start + 1) + 1 := by omega
      simp [copy, Nat.not_lt.mpr h1, Nat.not_lt.mpr (Nat.le_of_succ_le h1), hshift]
    rw [hhead, htail, ih]

variable {data : List α}

theorem slice_copy_of_disjoint {dst : Nat} (h : start + len ≤ dst ∨ dst + data.length ≤ start) :
    slice (copy mem dst data) start len = slice mem start len := by
  refine slice_congr fun i h1 h2 => ?_
  unfold copy
  split
  · rfl
  · rw [getElem?_eq_none (by omega)]
    rfl

/-- A copy right behind a slice extends it. -/
theorem slice_copy_append (mem : Nat → α) (start len : Nat) (data : List α) :
    slice (copy mem (start + len) data) start (len + data.length) =
      slice mem start len ++ data := by
  rw [slice_add, slice_copy_of_disjoint (Or.inl (Nat.le_refl _)), slice_copy]

theorem copy_of_lt (h : i < start) : copy mem start data i = mem i :=
  if_pos h

theorem copy_of_ge (h : start + data.length ≤ i) : copy mem start data i = mem i := by
  rw [copy, if_neg (by omega), getElem?_eq_none (by omega)]
  rfl

theorem copy_add (h : i < data.length) : copy mem start data (start + i) = data[i] := by
  rw [copy, if_neg (by omega), Nat.add_sub_cancel_left, getElem?_eq_getElem h]
  rfl

theorem copy_append (data data' : List α) :
    copy (copy mem start data) (start + data.length) data' = copy mem start (data ++ data') := by
  funext i
  by_cases hlt : i < start + data.length
  · rw [copy_of_lt hlt]
    unfold copy
    split_ifs with hstart
    · rfl
    · rw [getElem?_append_left (by omega)]
  · rw [copy, if_neg hlt, copy_of_ge (Nat.le_of_not_lt hlt), copy, if_neg (by omega),
      getElem?_append_right (by omega), Nat.sub_sub]

/-- A copy at an offset from a base. -/
theorem copy_shift {base off : Nat} (data : List α) (i : Nat) :
    copy mem (base + off) data (base + i) = copy (fun k => mem (base + k)) off data i := by
  unfold copy
  rw [Nat.add_sub_add_left]
  simp only [Nat.add_lt_add_iff_left]

/-- A copy inside of a block of `c` cells, seen from any block. -/
theorem copy_block {c j off k : Nat} (h : off + data.length ≤ c) (hk : k < c) :
    copy mem (j * c + off) data (i * c + k) =
      if i = j then copy (fun k => mem (j * c + k)) off data k else mem (i * c + k) := by
  split_ifs with hij
  · rw [hij, copy_shift]
  rcases Nat.lt_or_gt_of_ne hij with hlt | hgt
  · have hle := Nat.mul_le_mul_right c hlt
    rw [Nat.succ_mul] at hle
    exact copy_of_lt (by omega)
  have hle := Nat.mul_le_mul_right c hgt
  rw [Nat.succ_mul] at hle
  exact copy_of_ge (by omega)

theorem copy_nil : copy mem start [] = mem := by
  funext i
  simp [copy]

end KosKernel.Slice
