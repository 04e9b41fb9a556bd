import KosKernel.IoBuf.Basic
import Mathlib.Data.List.Infix

/-!
# KosKernel.IoBuf.Fifo

**The I/O buffer as a queue.** `contents` reads the unread bytes off the ring;
`Ring` says which read and write positions occur. A read takes bytes off the
front. A write appends to the back where `Safe` says so: growing a ring that is
wrapped leaves the new memory in the middle of the unread bytes, and a write
beyond the maximum size goes on into unread bytes when the read position is
neither at the start of the buffer nor behind the write position.
-/

namespace KosKernel.IoBuf

open Slice List

variable {α : Type}

/-- The unread bytes, in reading order. -/
def contents (b : Iobuf α) : List α :=
  if b.ibRpos < b.ibWpos then slice b.ibBuffer b.ibRpos (b.ibWpos - b.ibRpos)
  else slice b.ibBuffer b.ibRpos (b.ibSize - b.ibRpos) ++ slice b.ibBuffer 0 b.ibWpos

/-- Both positions lie in the buffer or at its end. -/
structure InBuffer (b : Iobuf α) : Prop where
  rpos_le : b.ibRpos ≤ b.ibSize
  wpos_le : b.ibWpos ≤ b.ibSize

/-- The positions that occur. -/
structure Ring (b : Iobuf α) : Prop where
  rpos_le : b.ibRpos ≤ b.ibSize
  wpos_le : b.ibWpos ≤ b.ibSize
  size_le : b.ibSize ≤ b.ibMaxsize
  /-- A full buffer does not have both positions at its end. -/
  not_end : b.ibRpos = b.ibSize → b.ibWpos = b.ibSize → b.ibSize = 0

section Positions

variable {b : Iobuf α}

theorem contents_of_lt (h : b.ibRpos < b.ibWpos) :
    contents b = slice b.ibBuffer b.ibRpos (b.ibWpos - b.ibRpos) := if_pos h

theorem contents_of_le (h : b.ibWpos ≤ b.ibRpos) :
    contents b = slice b.ibBuffer b.ibRpos (b.ibSize - b.ibRpos) ++
      slice b.ibBuffer 0 b.ibWpos := if_neg (Nat.not_lt.mpr h)

theorem Ring.inBuffer (h : Ring b) : InBuffer b := ⟨h.rpos_le, h.wpos_le⟩

theorem InBuffer.maxread_eq (h : InBuffer b) : maxread b b.ibRpos = (contents b).length := by
  have := h.rpos_le
  unfold maxread contents
  split
  · simp
  · simp
    omega

theorem InBuffer.maxwrite_eq (h : InBuffer b) :
    maxwrite b b.ibRpos + (contents b).length = b.ibSize := by
  have := h.rpos_le
  have := h.wpos_le
  unfold maxwrite contents
  split
  · rename_i hle
    rw [if_neg (Nat.not_lt.mpr hle)]
    simp
    omega
  rename_i hle
  rw [if_pos (Nat.lt_of_not_le hle)]
  simp
  omega

end Positions

/-! ### Reading -/

variable {b : Iobuf α}

/-- The buffer after its first `n` bytes were read. -/
def readTo (b : Iobuf α) (n : Nat) : Iobuf α :=
  if n = 0 ∨ contents b = [] then b
  else if (contents b).length ≤ n then { b with ibWpos := 0, ibRpos := b.ibSize }
  else if b.ibRpos + n ≤ b.ibSize then { b with ibRpos := b.ibRpos + n }
  else { b with ibRpos := b.ibRpos + n - b.ibSize }

theorem readTo_inBuffer (h : InBuffer b) (n : Nat) : InBuffer (readTo b n) := by
  have hr := h.rpos_le
  have hsize := h.maxwrite_eq
  unfold readTo
  split_ifs with hnone hall hupper
  · exact h
  · exact ⟨Nat.le_refl _, Nat.zero_le _⟩
  · exact ⟨hupper, h.wpos_le⟩
  · exact ⟨by dsimp only; omega, h.wpos_le⟩

theorem contents_readTo (h : InBuffer b) (n : Nat) :
    contents (readTo b n) = (contents b).drop n := by
  have hr := h.rpos_le
  have hw := h.wpos_le
  have hlen := h.maxread_eq
  rw [maxread] at hlen
  unfold readTo
  split_ifs with hnone hall hupper
  · rcases hnone with rfl | hempty
    · rfl
    · rw [hempty, drop_nil]
  · rw [drop_eq_nil_of_le hall]
    simp [contents]
  · -- the rest does not wrap, or wraps as before
    by_cases hlt : b.ibRpos < b.ibWpos
    · rw [if_pos hlt] at hlen
      rw [contents_of_lt (by dsimp only; omega), contents_of_lt hlt, slice_drop (by omega)]
      dsimp only
      congr 1
      omega
    rw [contents_of_le (by dsimp only; omega), contents_of_le (Nat.not_lt.mp hlt),
      drop_append_of_le_length (by rw [length_slice]; omega), slice_drop (by omega)]
    dsimp only
    congr 2
    omega
  · -- the rest is at the start of the buffer
    have hle : b.ibWpos ≤ b.ibRpos := by
      by_contra hlt
      rw [if_pos (Nat.not_le.mp hlt)] at hlen
      omega
    rw [if_neg (Nat.not_lt.mpr hle)] at hlen
    rw [contents_of_lt (by dsimp only; omega), contents_of_le hle, drop_append,
      drop_eq_nil_of_le (by rw [length_slice]; omega), nil_append, length_slice,
      slice_drop (by omega)]
    dsimp only
    congr 1 <;> omega

theorem Ring.readTo (h : Ring b) (n : Nat) : Ring (readTo b n) := by
  obtain ⟨hr, hw⟩ := readTo_inBuffer h.inBuffer n
  have hin := h.rpos_le
  have hlen := h.inBuffer.maxread_eq
  have hsize := h.inBuffer.maxwrite_eq
  rw [maxread] at hlen
  unfold IoBuf.readTo at hr hw ⊢
  split_ifs at hr hw ⊢ with hnone hall hupper
  · exact h
  · exact ⟨hr, hw, h.size_le, fun _ h0 => h0.symm⟩
  · refine ⟨hr, hw, h.size_le, fun h1 h2 => ?_⟩
    dsimp only at h1 h2
    split at hlen <;> omega
  · refine ⟨hr, hw, h.size_le, fun h1 _ => ?_⟩
    dsimp only at h1
    omega

theorem readEnd_eq {rpos : Nat} {out : List α} (hout : out.length ≠ 0) :
    readEnd b rpos out = (out, if rpos = b.ibWpos then { b with ibWpos := 0, ibRpos := b.ibSize }
      else { b with ibRpos := rpos }) := by
  rw [readEnd, if_neg hout]
  split <;> rfl

/-- **What `kiobuf_read` does.** It delivers the front of the queue. -/
theorem kiobufRead_eq (h : InBuffer b)
    (hend : b.ibRpos = b.ibSize → b.ibWpos = b.ibSize → b.ibSize = 0) (n : Nat) :
    kiobufRead b n = ((contents b).take n, readTo b n) := by
  have hr := h.rpos_le
  have hw := h.wpos_le
  have hmax := h.maxread_eq
  by_cases hempty : contents b = []
  · simp [kiobufRead, hmax, hempty, readEnd, readTo]
  have hpos := length_pos_iff.mpr hempty
  by_cases hn : n = 0
  · simp [kiobufRead, hn, readEnd, readTo]
  have hread : ¬(n = 0 ∨ contents b = []) := by simp [hn, hempty]
  simp only [kiobufRead, hmax, if_neg (Nat.ne_of_gt hpos), readTo, if_neg hread]
  by_cases hlt : b.ibRpos < b.ibWpos
  · -- everything is in one piece
    rw [contents_of_lt hlt, length_slice] at hpos ⊢
    have hlin : min (min (b.ibWpos - b.ibRpos) (b.ibSize - b.ibRpos)) n =
        min (b.ibWpos - b.ibRpos) n := by omega
    rw [hlin, if_pos (by omega), readEnd_eq (by rw [length_slice]; omega), slice_take]
    by_cases hall : b.ibWpos - b.ibRpos ≤ n
    · rw [if_pos hall, if_pos (by omega)]
    · rw [if_neg hall, if_neg (by omega), if_pos (by omega), Nat.min_eq_right (by omega)]
  have hq := contents_of_le (Nat.not_lt.mp hlt)
  have hlen : (contents b).length = b.ibSize - b.ibRpos + b.ibWpos := by rw [hq]; simp
  have hlin : min (min (contents b).length (b.ibSize - b.ibRpos)) n =
      min (b.ibSize - b.ibRpos) n := by omega
  rw [hlin]
  by_cases hupper : n ≤ b.ibSize - b.ibRpos
  · -- the read ends in the upper half
    rw [Nat.min_eq_right hupper, if_pos (.inl rfl), readEnd_eq (by rwa [length_slice]), hq,
      take_append_of_le_length (by rwa [length_slice]), slice_take, Nat.min_eq_right hupper, ← hq,
      if_neg (by omega)]
    by_cases hall : (contents b).length ≤ n
    · have hzero : b.ibWpos = 0 := by omega
      rw [if_pos hall, ← hzero, show b.ibRpos + n = b.ibSize by omega]
    · rw [if_neg hall, if_pos (by omega)]
  -- the read goes on in the lower half
  have hnot : ¬(n = b.ibSize - b.ibRpos ∨ b.ibRpos + (b.ibSize - b.ibRpos) = b.ibWpos) := by
    omega
  have hout : slice b.ibBuffer b.ibRpos (b.ibSize - b.ibRpos) ++
      slice b.ibBuffer 0 (min b.ibWpos (n - (b.ibSize - b.ibRpos))) = (contents b).take n := by
    rw [hq, take_append, take_of_length_le (by rw [length_slice]; omega), length_slice, slice_take]
  rw [Nat.min_eq_left (by omega), if_neg hnot, hout, readEnd_eq (by rw [length_take]; omega)]
  by_cases hall : (contents b).length ≤ n
  · rw [if_pos hall, if_pos (by omega)]
  rw [if_neg hall, if_neg (by omega), if_neg (by omega), Nat.min_eq_right (by omega)]
  congr 2
  omega

/-- **Specification of `kiobuf_read`.** -/
theorem kiobufRead_spec (h : Ring b) (n : Nat) :
    (kiobufRead b n).1 = (contents b).take n ∧ Ring (kiobufRead b n).2 ∧
      contents (kiobufRead b n).2 = (contents b).drop n := by
  rw [kiobufRead_eq h.inBuffer h.not_end]
  exact ⟨rfl, h.readTo n, contents_readTo h.inBuffer n⟩

/-! ### Writing -/

section Copies

variable (full : Iobuf α → List α → Nat → Nat → Option (Errno × Nat × Iobuf α)) {b : Iobuf α}
  (buf : List α)

/-- The data fits behind bytes that do not wrap; it may wrap itself. With both
positions at the start there are no bytes yet. -/
theorem writeCopy_linear_fit (h : Ring b) (hle : b.ibRpos ≤ b.ibWpos)
    (hstart : b.ibRpos < b.ibWpos ∨ b.ibRpos = 0) (hpos : 0 < buf.length)
    (hfit : buf.length ≤ b.ibSize - b.ibWpos + b.ibRpos) :
    ∃ b', writeCopy full b buf 0 = some (.keOk, buf.length, b') ∧ Ring b' ∧
      contents b' = slice b.ibBuffer b.ibRpos (b.ibWpos - b.ibRpos) ++ buf := by
  have hw := h.wpos_le
  have hnlt : ¬b.ibWpos < b.ibRpos := Nat.not_lt.mpr hle
  by_cases hup : buf.length ≤ b.ibSize - b.ibWpos
  · -- Everything goes behind the write position.
    have hval : writeCopy full b buf 0 = some (.keOk, buf.length, { b with
        ibBuffer := copy b.ibBuffer b.ibWpos buf, ibWpos := b.ibWpos + buf.length }) := by
      have hend : ¬b.ibRpos = b.ibSize := by omega
      simp [writeCopy, hnlt, Nat.min_eq_right hup, writeEnd, hend]
    refine ⟨_, hval, ⟨h.rpos_le, by simp only; omega, h.size_le, ?_⟩, ?_⟩
    · intro hr _
      simp only at hr
      omega
    · rw [contents_of_lt (by simp only; omega)]
      have hlen : b.ibWpos + buf.length - b.ibRpos = b.ibWpos - b.ibRpos + buf.length := by omega
      have hdst : b.ibWpos = b.ibRpos + (b.ibWpos - b.ibRpos) := by omega
      simp only [hlen]
      nth_rewrite 1 [hdst]
      exact slice_copy_append ..
  · -- The rest of it goes to the start of the buffer.
    obtain ⟨u, hu⟩ : ∃ u, u = b.ibSize - b.ibWpos := ⟨_, rfl⟩
    have hlow : min b.ibRpos (buf.length - u) = buf.length - u := by omega
    have hval : writeCopy full b buf 0 = some (.keOk, buf.length, { b with
        ibBuffer := copy (copy b.ibBuffer b.ibWpos (buf.take u)) 0 (buf.drop u)
        ibWpos := buf.length - u }) := by
      have hend : ¬b.ibRpos = b.ibSize := by omega
      have hmin : min (b.ibSize - b.ibWpos) buf.length = u := by omega
      have hne : ¬buf.length = u := by omega
      have hsum : b.ibWpos + u = b.ibSize := by omega
      have hr0 : ¬b.ibRpos = 0 := by omega
      have htake : (buf.drop u).take (buf.length - u) = buf.drop u :=
        take_of_length_le (by simp)
      have htotal : u + (buf.length - u) = buf.length := by omega
      simp [writeCopy, hnlt, hmin, hne, hsum, hr0, hlow, htake, htotal, writeEnd, hend]
    refine ⟨_, hval, ⟨h.rpos_le, by simp only; omega, h.size_le, ?_⟩, ?_⟩
    · intro hr _
      simp only at hr
      omega
    · rw [contents_of_le (by simp only; omega)]
      have hlen : b.ibSize - b.ibRpos = b.ibWpos - b.ibRpos + (buf.take u).length := by
        rw [length_take]
        omega
      have hdst : b.ibWpos = b.ibRpos + (b.ibWpos - b.ibRpos) := by omega
      have hdrop : buf.length - u = (buf.drop u).length := by simp
      simp only [hdrop]
      rw [slice_copy, slice_copy_of_disjoint (.inr (by simp; omega)), hlen]
      nth_rewrite 1 [hdst]
      rw [slice_copy_append, append_assoc, take_append_drop]

theorem writeCopy_wrapped_fit (h : Ring b) (hle : b.ibWpos ≤ b.ibRpos) (hpos : 0 < buf.length)
    (hfit : buf.length ≤ b.ibRpos - b.ibWpos) :
    ∃ b', writeCopy full b buf 0 = some (.keOk, buf.length, b') ∧ Ring b' ∧
      contents b' = contents b ++ buf := by
  have hr := h.rpos_le
  have h0 : buf ≠ [] := length_pos_iff.mp hpos
  have hlt : b.ibWpos < b.ibRpos := by omega
  have hmin : min (min (b.ibSize - b.ibWpos) (b.ibRpos - b.ibWpos)) buf.length = buf.length := by
    omega
  have hslice : slice (copy b.ibBuffer b.ibWpos buf) 0 (b.ibWpos + buf.length) =
      slice b.ibBuffer 0 b.ibWpos ++ buf := by
    have := slice_copy_append b.ibBuffer 0 b.ibWpos buf
    rwa [Nat.zero_add] at this
  have hkeep : slice (copy b.ibBuffer b.ibWpos buf) b.ibRpos (b.ibSize - b.ibRpos) =
      slice b.ibBuffer b.ibRpos (b.ibSize - b.ibRpos) :=
    slice_copy_of_disjoint (.inr (by omega))
  have hq := contents_of_le hle
  by_cases hend : b.ibRpos = b.ibSize
  · -- The read position was out of bounds and moves to the start.
    have hval : writeCopy full b buf 0 = some (.keOk, buf.length, { b with
        ibBuffer := copy b.ibBuffer b.ibWpos buf, ibWpos := b.ibWpos + buf.length
        ibRpos := 0 }) := by
      simp only [writeCopy, if_pos hlt, hmin, if_true, take_length, Nat.zero_add]
      simp [writeEnd, hend, h0]
    refine ⟨_, hval, ⟨Nat.zero_le _, by simp only; omega, h.size_le, ?_⟩, ?_⟩
    · intro h1 _
      exact h1.symm
    · rw [contents_of_lt (by simp only; omega), hq, hend]
      simp [hslice]
  · have hval : writeCopy full b buf 0 = some (.keOk, buf.length, { b with
        ibBuffer := copy b.ibBuffer b.ibWpos buf, ibWpos := b.ibWpos + buf.length }) := by
      simp [writeCopy, hlt, hmin, writeEnd, hend]
    refine ⟨_, hval, ⟨hr, by simp only; omega, h.size_le, ?_⟩, ?_⟩
    · intro h1 _
      exact absurd h1 hend
    · rw [contents_of_le (by simp only; omega), hq]
      simp only [hslice, hkeep, append_assoc]

end Copies

variable {heap : Heap α} {buf : List α}

/-- At its maximum size a full buffer takes nothing more. -/
theorem writeLoop_stop {fuel k : Nat} (hmax : b.ibSize = b.ibMaxsize) (hbuf : 0 < buf.length)
    (hend : b.ibRpos ≠ b.ibSize) : writeLoop heap (fuel + 1) b buf 0 k = some (.keOk, k, b) := by
  simp [writeLoop, hbuf, ← hmax, writeEnd, hend]

/-- Growing keeps the bytes where they do not wrap inside the buffer. -/
theorem Ring.grow (h : Ring b) (heap : Heap α) {newSize : Nat} (hlt : b.ibSize < newSize)
    (hle : newSize ≤ b.ibMaxsize)
    (hpos : b.ibRpos < b.ibWpos ∨ b.ibRpos = b.ibSize ∧ b.ibSize ≠ 0) :
    Ring (grow b heap newSize) ∧ contents (grow b heap newSize) = contents b := by
  have hw := h.wpos_le
  have hold : ∀ start len, start + len ≤ b.ibSize →
      slice (IoBuf.grow b heap newSize).ibBuffer start len = slice b.ibBuffer start len := by
    intro start len hin
    refine slice_congr fun i _ hi => ?_
    exact if_pos (by omega)
  rcases hpos with hlin | ⟨hend, h0⟩
  · have hrpos : (IoBuf.grow b heap newSize).ibRpos = b.ibRpos := if_neg (by omega)
    refine ⟨⟨?_, ?_, hle, ?_⟩, ?_⟩
    · rw [hrpos]; simp only [IoBuf.grow]; omega
    · simp only [IoBuf.grow]; omega
    · intro h1 h2
      simp only [IoBuf.grow] at h1 h2
      omega
    · rw [contents_of_lt hlin, contents_of_lt (by rw [hrpos]; exact hlin), hrpos]
      exact hold _ _ (by simp only [IoBuf.grow]; omega)
  · have hrpos : (IoBuf.grow b heap newSize).ibRpos = newSize := if_pos ⟨hend, h0⟩
    refine ⟨⟨?_, ?_, hle, ?_⟩, ?_⟩
    · rw [hrpos]; exact Nat.le_refl _
    · simp only [IoBuf.grow]; omega
    · intro _ h2
      simp only [IoBuf.grow] at h2
      omega
    · have hle' : (IoBuf.grow b heap newSize).ibWpos ≤ (IoBuf.grow b heap newSize).ibRpos := by
        rw [hrpos]
        simp only [IoBuf.grow]
        omega
      rw [contents_of_le hle', contents_of_le (b := b) (by omega), hrpos, hend,
        hold 0 _ (by simp only [IoBuf.grow]; omega)]
      simp [IoBuf.grow]

/-- The writes that keep the queue: of `n` bytes, into a buffer in this state. -/
structure Safe (heap : Heap α) (b : Iobuf α) (n : Nat) : Prop where
  /-- Bytes that wrap inside the buffer: it is not grown. -/
  wrapped : b.ibWpos ≤ b.ibRpos → b.ibRpos < b.ibSize → maxwrite b b.ibRpos < n →
    b.ibSize = b.ibMaxsize ∨ heap.nomem = true
  /-- Bytes that do not start at the start of the buffer: all of the data will fit. -/
  bounded : (0 < b.ibRpos ∧ b.ibRpos < b.ibWpos) ∨ (0 < b.ibRpos ∧ b.ibRpos = b.ibSize) →
    maxread b b.ibRpos + n ≤ b.ibMaxsize ∨ heap.nomem = true ∧ b.ibSize < b.ibMaxsize

/-- A write appended a part of the data to the queue. -/
def Wrote (b : Iobuf α) (buf : List α) (r : Option (Errno × Nat × Iobuf α)) : Prop :=
  ∃ e k b', r = some (e, k, b') ∧ Ring b' ∧ k ≤ buf.length ∧
    contents b' = contents b ++ buf.take k

theorem Ring.wrote_none (h : Ring b) (buf : List α) (e : Errno) :
    Wrote b buf (some (writeEnd b e 0)) :=
  ⟨e, 0, b, by simp [writeEnd], h, Nat.zero_le _, by simp⟩

theorem Wrote.all {b' : Iobuf α} {r : Option (Errno × Nat × Iobuf α)}
    (hr : r = some (.keOk, buf.length, b')) (h : Ring b') (hc : contents b' = contents b ++ buf) :
    Wrote b buf r :=
  ⟨_, _, _, hr, h, Nat.le_refl _, by rw [hc, take_length]⟩

section Cases

variable {heap : Heap α} {b : Iobuf α} {buf : List α}

theorem writeCopy_fits (fuel : Nat) (h : Ring b) (hfit : buf.length ≤ maxwrite b b.ibRpos) :
    Wrote b buf (writeCopy (writeLoop heap fuel) b buf 0) := by
  by_cases h0 : buf = []
  · subst h0
    exact ⟨.keOk, 0, b, by simp [writeCopy, writeEnd, copy_nil], h, Nat.zero_le _, by simp⟩
  have hpos := length_pos_iff.mpr h0
  unfold maxwrite at hfit
  rcases Nat.lt_or_ge b.ibRpos b.ibWpos with hlt | hle
  · rw [if_neg (Nat.not_le.mpr hlt)] at hfit
    obtain ⟨b', hval, h', hc⟩ := writeCopy_linear_fit (writeLoop heap fuel) buf h
      (Nat.le_of_lt hlt) (.inl hlt) hpos (by omega)
    exact Wrote.all hval h' (by rw [hc, contents_of_lt hlt])
  rw [if_pos hle] at hfit
  obtain ⟨b', hval, h', hc⟩ :=
    writeCopy_wrapped_fit (writeLoop heap fuel) buf h hle hpos hfit
  exact Wrote.all hval h' hc

/-- More data than there is room for up to `stop`: behind bytes that start at the start, or
in front of the read position. -/
theorem wrote_over {c : Iobuf α} (fuel : Nat) (h : Ring b) {stop : Nat}
    (hstop : b.ibRpos = 0 ∧ stop = b.ibSize ∧ contents c = slice b.ibBuffer 0 b.ibWpos ∨
      b.ibWpos < b.ibRpos ∧ stop = b.ibRpos ∧ c = b)
    (hin : b.ibRpos < b.ibSize) (hmax : b.ibSize = b.ibMaxsize)
    (hover : stop - b.ibWpos < buf.length) :
    Wrote c buf (writeCopy (writeLoop heap (fuel + 1)) b buf 0) := by
  have hw := h.wpos_le
  obtain ⟨u, hu⟩ : ∃ u, u = stop - b.ibWpos := ⟨_, rfl⟩
  have hsum : b.ibWpos + u = stop := by omega
  have hval : writeCopy (writeLoop heap (fuel + 1)) b buf 0 = writeLoop heap (fuel + 1) { b with
      ibBuffer := copy b.ibBuffer b.ibWpos (buf.take u), ibWpos := stop } (buf.drop u) 0 u := by
    have hne : ¬buf.length = u := by omega
    rcases hstop with ⟨hstart, rfl, -⟩ | ⟨hlt, rfl, -⟩
    · have hmin : min (b.ibSize - b.ibWpos) buf.length = u := by omega
      simp [writeCopy, hstart, hmin, hne, hsum]
    · have hmin : min (min (b.ibSize - b.ibWpos) (b.ibRpos - b.ibWpos)) buf.length = u := by omega
      have hend : ¬b.ibRpos = b.ibSize := by omega
      simp [writeCopy, hlt, hmin, hne, hsum, hend]
  rw [hval]
  refine ⟨_, _, _, writeLoop_stop hmax (by rw [length_drop]; omega) (Nat.ne_of_lt hin),
    ⟨h.rpos_le, by dsimp only; omega, h.size_le, ?_⟩, by omega, ?_⟩
  · intro h1 _
    simp only at h1
    omega
  · have hlen : stop = b.ibWpos + (buf.take u).length := by
      rw [length_take]
      omega
    have hslice := slice_copy_append b.ibBuffer 0 b.ibWpos (buf.take u)
    rw [Nat.zero_add, ← hlen] at hslice
    rcases hstop with ⟨hstart, rfl, hc⟩ | ⟨hlt, rfl, rfl⟩
    · rw [contents_of_lt (by simp only; omega), hc, ← hslice]
      simp [hstart]
    · rw [contents_of_le le_rfl, contents_of_le (Nat.le_of_lt hlt)]
      simp only [hslice]
      rw [slice_copy_of_disjoint (.inr (by rw [← hlen])), append_assoc]

/-- The buffer is at its maximum size and the data does not fit. -/
theorem writeCopy_at_max (fuel : Nat) (h : Ring b) (hsafe : Safe heap b buf.length)
    (hover : maxwrite b b.ibRpos < buf.length) (hfree : maxwrite b b.ibRpos ≠ 0)
    (hmax : b.ibSize = b.ibMaxsize) :
    Wrote b buf (writeCopy (writeLoop heap (fuel + 1)) b buf 0) := by
  have hr := h.rpos_le
  have hroom := h.inBuffer.maxwrite_eq
  have hread := h.inBuffer.maxread_eq
  rcases Nat.lt_or_ge b.ibRpos b.ibWpos with hlt | hle
  · -- The bytes start at the start of the buffer.
    have hstart : b.ibRpos = 0 := by
      by_contra hne
      rcases hsafe.bounded (.inl ⟨by omega, hlt⟩) with hb | hb <;> omega
    have hfree' : maxwrite b b.ibRpos = b.ibSize - b.ibWpos := by
      rw [maxwrite, if_neg (Nat.not_le.mpr hlt)]
      omega
    refine wrote_over fuel h (.inl ⟨hstart, rfl, ?_⟩) (by omega) hmax (by omega)
    rw [contents_of_lt hlt, hstart, Nat.sub_zero]
  · have hfree' : maxwrite b b.ibRpos = b.ibRpos - b.ibWpos := if_pos hle
    have hin : b.ibRpos < b.ibSize := by
      by_contra hnot
      rcases hsafe.bounded (.inr ⟨by omega, by omega⟩) with hb | hb <;> omega
    exact wrote_over fuel h (.inr ⟨by omega, rfl, rfl⟩) hin hmax (by omega)

theorem writeCopy_first (fuel : Nat) (h : Ring b) (hsize : b.ibSize = 0) (hpos : 0 < buf.length)
    {newSize : Nat} (hnew : newSize = min buf.length b.ibMaxsize) (hnew0 : 0 < newSize) :
    Wrote b buf (writeCopy (writeLoop heap (fuel + 1)) (grow b heap newSize) buf 0) := by
  have hr0 : b.ibRpos = 0 := by have := h.rpos_le; omega
  have hw0 : b.ibWpos = 0 := by have := h.wpos_le; omega
  have hcb : contents b = [] := by simp [contents, hr0, hw0, hsize]
  have hgr : (grow b heap newSize).ibRpos = 0 := by simp [grow, hsize, hr0]
  have hgw : (grow b heap newSize).ibWpos = 0 := hw0
  have hgs : (grow b heap newSize).ibSize = newSize := rfl
  have hgm : (grow b heap newSize).ibMaxsize = b.ibMaxsize := rfl
  have hring : Ring (grow b heap newSize) := by
    refine ⟨by omega, by omega, by omega, fun h1 _ => by omega⟩
  by_cases hfit : buf.length ≤ newSize
  · obtain ⟨b', hval, h', hc⟩ := writeCopy_linear_fit (writeLoop heap (fuel + 1)) buf hring
      (by omega) (.inr hgr) hpos (by omega)
    refine Wrote.all hval h' ?_
    rw [hc, hcb, hgr, hgw]
    rfl
  refine wrote_over fuel hring (.inl ⟨hgr, rfl, ?_⟩) (by omega) (by omega) (by omega)
  rw [hcb, hgw]
  rfl

theorem writeCopy_grown (fuel : Nat) (h : Ring b) (hsafe : Safe heap b buf.length)
    (hover : maxwrite b b.ibRpos < buf.length) (hlt : b.ibSize < b.ibMaxsize)
    (hmem : heap.nomem = false) {newSize : Nat}
    (hnew : newSize = min (b.ibSize + (buf.length - maxwrite b b.ibRpos)) b.ibMaxsize) :
    Wrote b buf (writeCopy (writeLoop heap (fuel + 1)) (grow b heap newSize) buf 0) := by
  have hr := h.rpos_le
  have hroom := h.inBuffer.maxwrite_eq
  have hread := h.inBuffer.maxread_eq
  by_cases hsize : b.ibSize = 0
  · exact writeCopy_first fuel h hsize (by omega) (by omega) (by omega)
  have hbound : 0 < b.ibRpos → b.ibRpos < b.ibWpos ∨ b.ibRpos = b.ibSize →
      (contents b).length + buf.length ≤ b.ibMaxsize := by
    intro h0 hside
    rcases hsafe.bounded (and_or_left.mp ⟨h0, hside⟩) with hb | ⟨hb, -⟩
    · omega
    · simp [hmem] at hb
  have hside : b.ibRpos < b.ibWpos ∨ b.ibRpos = b.ibSize ∧ b.ibSize ≠ 0 := by
    by_contra hnot
    push Not at hnot
    have hin : b.ibRpos < b.ibSize := Nat.lt_of_not_le fun hin => hsize (hnot.2 (by omega))
    rcases hsafe.wrapped hnot.1 hin hover with hb | hb
    · omega
    · simp [hmem] at hb
  have hgrows : b.ibSize < newSize := by omega
  obtain ⟨hring, hcg⟩ := h.grow heap hgrows (by omega) hside
  have hroom' := hring.inBuffer.maxwrite_eq
  rw [hcg] at hroom'
  have hgs : (grow b heap newSize).ibSize = newSize := rfl
  by_cases hfit : buf.length ≤ maxwrite (grow b heap newSize) (grow b heap newSize).ibRpos
  · obtain ⟨e, k, b', hval, h', hk, hc⟩ := writeCopy_fits (fuel + 1) hring hfit
    exact ⟨e, k, b', hval, h', hk, by rw [hc, hcg]⟩
  -- Only bytes from the start of the buffer on may run into the maximum size.
  have hlin : b.ibRpos < b.ibWpos ∧ b.ibRpos = 0 := by
    rcases hside with hs | ⟨hs, h0⟩
    · refine ⟨hs, ?_⟩
      by_contra h0
      omega
    · have := hbound (by omega) (.inr hs)
      omega
  have hgr : (grow b heap newSize).ibRpos = 0 := by simp [grow, hlin.2]; omega
  have hgw : (grow b heap newSize).ibWpos = b.ibWpos := rfl
  have hgm : (grow b heap newSize).ibMaxsize = b.ibMaxsize := rfl
  have hlen : (contents b).length = b.ibWpos := by
    rw [contents_of_lt hlin.1]
    simp [hlin.2]
  refine wrote_over fuel hring (.inl ⟨hgr, rfl, ?_⟩) (by omega) (by omega) (by omega)
  rw [← hcg, contents_of_lt (by omega), hgr, Nat.sub_zero]

end Cases

/-- **Specification of `kiobuf_write`.** A safe write appends as much of its data
as it reports. -/
theorem kiobufWrite_spec (h : Ring b) (hsafe : Safe heap b buf.length) :
    Wrote b buf (kiobufWrite heap b buf) := by
  rw [kiobufWrite, writeLoop]
  by_cases hover : maxwrite b b.ibRpos < buf.length
  · rw [if_pos hover]
    rcases Nat.lt_or_ge b.ibSize b.ibMaxsize with hlt | hge
    · rw [if_pos (by omega)]
      by_cases hmem : heap.nomem = true
      · rw [if_pos hmem]
        exact h.wrote_none buf _
      · rw [if_neg hmem]
        exact writeCopy_grown _ h hsafe hover hlt (by simpa using hmem) rfl
    have hmax : b.ibSize = b.ibMaxsize := Nat.le_antisymm h.size_le hge
    rw [if_neg (by omega)]
    by_cases hfree : maxwrite b b.ibRpos = 0
    · rw [if_pos hfree]
      exact h.wrote_none buf _
    · rw [if_neg hfree]
      exact writeCopy_at_max _ h hsafe hover hfree hmax
  · rw [if_neg hover]
    exact writeCopy_fits _ h (Nat.le_of_not_lt hover)

end KosKernel.IoBuf
