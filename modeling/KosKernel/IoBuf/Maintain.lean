import KosKernel.IoBuf.Fifo

/-!
# KosKernel.IoBuf.Maintain

**Shrinking and growing an I/O buffer** (`__kiobuf_flush_c` and `__kiobuf_reserve_c` in
`src/kernel/iobuf.c`), without their assertions, which are compiled out.

Both call `realloc` before they look at where the pending bytes are:

* `__kiobuf_flush_c` cuts the buffer to the number of pending bytes and only then moves them to
  its start, so that of bytes behind the new end, or in front of the read position, something
  else is left;
* `__kiobuf_reserve_c` adds memory at the end and keeps both positions, so that the new memory
  becomes a part of what is pending unless this ends below the write position. That is so for
  an empty buffer too, whose mark (the read position at the end) it does not move along.
-/

namespace KosKernel.IoBuf

open Slice

variable {α : Type}

/-! ### The source -/

/-- What `__kiobuf_flush_c` returns. -/
inductive FlushStatus where
  | keOk
  | keNomem
  | ksUnchanged
  deriving DecidableEq, Repr

/-- `memmove(newbuf, newbuf+rindex, newsize-rindex)`; with a difference below zero it runs
through all of memory. -/
def shiftDown (newbuf : Nat → α) (rindex newsize : Nat) : Option (Nat → α) :=
  if newsize < rindex then none else some (copy newbuf 0 (slice newbuf rindex (newsize - rindex)))

/-- `realloc` of the buffer. -/
def reallocBuffer (self : Iobuf α) (heap : Heap α) (newsize : Nat) : Nat → α :=
  fun i => if i < min self.ibSize newsize then self.ibBuffer i else heap.junk i

/-- `__kiobuf_flush_c` -/
def kiobufFlush (heap : Heap α) (self : Iobuf α) : Option (FlushStatus × Iobuf α) := do
  let newsize := maxread self self.ibRpos
  if newsize ≠ self.ibSize then
    if newsize = 0 then
      return (.keOk, { self with ibBuffer := heap.junk, ibRpos := 0, ibWpos := 0, ibSize := 0 })
    else if heap.nomem then return (.keNomem, self)
    else
      let newbuf ← shiftDown (reallocBuffer self heap newsize) self.ibRpos newsize
      return (.keOk,
        { self with ibBuffer := newbuf, ibRpos := 0, ibWpos := newsize, ibSize := newsize })
  else return (.ksUnchanged, self)

/-- `new_total_size` of `__kiobuf_reserve_c`. -/
def newTotalSize (self : Iobuf α) (writeSize : Nat) : Nat :=
  min ((self.ibSize + writeSize) % 4294967296) self.ibMaxsize

/-- `__kiobuf_reserve_c`: the result and the buffer. -/
def kiobufReserve (heap : Heap α) (self : Iobuf α) (writeSize : Nat) : Nat × Iobuf α :=
  let newTotal := newTotalSize self writeSize
  if newTotal ≠ self.ibSize then
    if heap.nomem then (0, self)
    else
      ((newTotal + 4294967296 - self.ibSize) % 4294967296,
        { self with ibBuffer := reallocBuffer self heap newTotal, ibSize := newTotal })
  else (0, self)

/-! ### What they should keep, and when they do -/

/-- The same bytes are pending, and the positions are in the buffer. -/
def Keeps (b b' : Iobuf α) : Prop := contents b' = contents b ∧ InBuffer b'

/-- The byte that is left at an offset when `n` bytes are moved down in a buffer that was cut to
`n` bytes. -/
def shifted (b : Iobuf α) (n i : Nat) : α :=
  if i < n - b.ibRpos then b.ibBuffer (b.ibRpos + i) else b.ibBuffer i

/-- The condition for `__kiobuf_flush_c`: nothing is moved, or what is left are the pending
bytes. -/
def FlushOk (heap : Heap α) (b : Iobuf α) : Prop :=
  contents b = [] ∨ (contents b).length = b.ibSize ∨ heap.nomem = true ∨
    b.ibRpos ≤ (contents b).length ∧
      contents b = slice (shifted b (contents b).length) 0 (contents b).length

/-- The condition for `__kiobuf_reserve_c`: the size stays, or the pending bytes do not wrap and
end in the new buffer. -/
def ReserveOk (heap : Heap α) (b : Iobuf α) (writeSize : Nat) : Prop :=
  newTotalSize b writeSize = b.ibSize ∨ heap.nomem = true ∨
    b.ibRpos < b.ibWpos ∧ b.ibWpos ≤ newTotalSize b writeSize

/-! ### Flushing -/

section

variable {b : Iobuf α} {heap : Heap α}

theorem InBuffer.length_le (h : InBuffer b) : (contents b).length ≤ b.ibSize :=
  h.maxwrite_eq ▸ Nat.le_add_left ..

theorem contents_from_start (b : Iobuf α) (buf : Nat → α) (n : Nat) :
    contents { b with ibBuffer := buf, ibRpos := 0, ibWpos := n, ibSize := n } =
      slice buf 0 n := by
  cases n with
  | zero => rfl
  | succ n => exact if_pos (Nat.succ_pos n)

/-- What is left when the bytes of a buffer that was cut are moved down. -/
theorem slice_shiftDown (heap : Heap α) {n : Nat} (hn : n ≤ b.ibSize) (hr : b.ibRpos ≤ n) :
    ∃ buf, shiftDown (reallocBuffer b heap n) b.ibRpos n = some buf ∧
      slice buf 0 n = slice (shifted b n) 0 n := by
  have hbelow : ∀ i < n, reallocBuffer b heap n i = b.ibBuffer i := fun i hi =>
    if_pos (by rw [Nat.min_eq_right hn]; exact hi)
  refine ⟨_, if_neg (by omega), slice_eq fun i hi => ?_⟩
  rw [Nat.zero_add, shifted]
  by_cases hmoved : i < n - b.ibRpos
  · rw [if_pos hmoved, copy, if_neg (Nat.not_lt_zero i), Nat.sub_zero, getElem?_slice hmoved]
    exact hbelow _ (by omega)
  · rw [if_neg hmoved, copy_of_ge (by rw [length_slice]; omega), hbelow i hi]

/-- **When flushing keeps the pending bytes.** -/
theorem kiobufFlush_keeps_iff (heap : Heap α) (h : InBuffer b) :
    (∃ status b', kiobufFlush heap b = some (status, b') ∧ Keeps b b') ↔ FlushOk heap b := by
  have hle := h.length_le
  have hnil : contents b = [] ↔ (contents b).length = 0 := List.length_eq_zero_iff.symm
  rw [kiobufFlush, h.maxread_eq, FlushOk, hnil]
  by_cases hfull : (contents b).length = b.ibSize
  · rw [if_neg (not_not.mpr hfull)]
    exact iff_of_true ⟨_, _, rfl, rfl, h⟩ (.inr (.inl hfull))
  rw [if_pos hfull]
  by_cases hzero : (contents b).length = 0
  · rw [if_pos hzero]
    refine iff_of_true ⟨_, _, rfl, ?_, ⟨le_rfl, le_rfl⟩⟩ (.inl hzero)
    exact (contents_from_start b heap.junk 0).trans (List.length_eq_zero_iff.mp hzero).symm
  rw [if_neg hzero]
  by_cases hnomem : heap.nomem = true
  · rw [if_pos hnomem]
    exact iff_of_true ⟨_, _, rfl, rfl, h⟩ (.inr (.inr (.inl hnomem)))
  rw [if_neg hnomem]
  simp only [hfull, hzero, hnomem, Bool.false_eq_true, false_or]
  by_cases hr : b.ibRpos ≤ (contents b).length
  · obtain ⟨buf, hbuf, hslice⟩ := slice_shiftDown heap hle hr
    rw [hbuf, and_iff_right hr, ← hslice, ← contents_from_start b buf (contents b).length]
    constructor
    · rintro ⟨status, b', hval, hkept, -⟩
      cases hval
      exact hkept.symm
    · exact fun hkept => ⟨_, _, rfl, hkept.symm, ⟨Nat.zero_le _, le_rfl⟩⟩
  · rw [shiftDown, if_pos (by omega)]
    refine iff_of_false ?_ fun hok => hr hok.1
    rintro ⟨status, b', hval, -⟩
    cases hval

/-! ### Reserving -/

/-- A buffer that is given another size keeps its pending bytes if they are in one piece. -/
theorem contents_resized (heap : Heap α) (h : InBuffer b) {n : Nat} (hn : n ≠ b.ibSize) :
    Keeps b { b with ibBuffer := reallocBuffer b heap n, ibSize := n } ↔
      b.ibRpos < b.ibWpos ∧ b.ibWpos ≤ n := by
  have hr := h.rpos_le
  have hw := h.wpos_le
  by_cases hlinear : b.ibRpos < b.ibWpos
  · rw [and_iff_right hlinear]
    refine ⟨fun hkeeps => hkeeps.2.wpos_le, fun hwn => ⟨?_, ⟨?_, hwn⟩⟩⟩
    · rw [contents_of_lt hlinear, contents, if_pos hlinear]
      refine slice_congr fun i h1 h2 => if_pos ?_
      dsimp only at h2
      omega
    · exact (Nat.le_of_lt hlinear).trans hwn
  -- the number of pending bytes changes with the size
  refine iff_of_false ?_ fun hok => hlinear hok.1
  rintro ⟨hkeeps, hin⟩
  have hlen := congrArg List.length hkeeps
  rw [← hin.maxread_eq, ← h.maxread_eq, maxread, maxread, if_neg hlinear, if_neg hlinear] at hlen
  have hrn : b.ibRpos ≤ n := hin.rpos_le
  dsimp only at hlen
  omega

/-- **When reserving keeps the pending bytes.** -/
theorem kiobufReserve_keeps_iff (heap : Heap α) (h : InBuffer b) (writeSize : Nat) :
    Keeps b (kiobufReserve heap b writeSize).2 ↔ ReserveOk heap b writeSize := by
  rw [kiobufReserve, ReserveOk]
  by_cases hsame : newTotalSize b writeSize = b.ibSize
  · rw [if_neg (not_not.mpr hsame)]
    exact iff_of_true ⟨rfl, h⟩ (.inl hsame)
  rw [if_pos hsame]
  by_cases hnomem : heap.nomem = true
  · rw [if_pos hnomem]
    exact iff_of_true ⟨rfl, h⟩ (.inr (.inl hnomem))
  · rw [if_neg hnomem, contents_resized heap h hsame]
    simp only [hsame, hnomem, Bool.false_eq_true, false_or]

end

/-- **Maintaining an I/O buffer**: when flushing and when reserving keep the pending bytes, in
every state with its positions in the buffer. -/
theorem kiobuf_maintenance_iff (heap : Heap α) (b : Iobuf α) (h : InBuffer b) (writeSize : Nat) :
    ((∃ status b', kiobufFlush heap b = some (status, b') ∧ Keeps b b') ↔ FlushOk heap b) ∧
    (Keeps b (kiobufReserve heap b writeSize).2 ↔ ReserveOk heap b writeSize) :=
  ⟨kiobufFlush_keeps_iff heap h, kiobufReserve_keeps_iff heap h writeSize⟩

/-- A buffer of four bytes, two of which are pending at its end. -/
def tailPending : Iobuf Nat := ⟨16, 4, fun i => i + 1, 2, 4⟩

/-- Memory of which there is always some, with zeros in it. -/
def zeroHeap : Heap Nat := ⟨false, fun _ => 0⟩

/-- The bytes 3 and 4 are pending; flushed, the bytes 1 and 2 are. Reserving four bytes of an
empty buffer makes four bytes pending. -/
theorem kiobuf_maintenance_loses :
    contents tailPending = [3, 4] ∧
    (kiobufFlush zeroHeap tailPending).map (fun r => contents r.2) = some [1, 2] ∧
    contents (kiobufInit 16 fun _ => 0 : Iobuf Nat) = [] ∧
    contents (kiobufReserve zeroHeap (kiobufInit 16 fun _ => 0) 4).2 = [0, 0, 0, 0] := by
  decide

/-- A buffer whose pending bytes are at its start. -/
def headPending : Iobuf Nat := ⟨16, 4, fun i => i + 1, 0, 2⟩

/-- Flushing and reserving keep the two bytes at the start of a buffer. -/
theorem kiobuf_maintenance_head :
    (∃ status b', kiobufFlush zeroHeap headPending = some (status, b') ∧ Keeps headPending b') ∧
      Keeps headPending (kiobufReserve zeroHeap headPending 4).2 := by
  have hiff := kiobuf_maintenance_iff zeroHeap headPending ⟨by decide, by decide⟩ 4
  exact ⟨hiff.1.mpr (.inr (.inr (.inr ⟨by decide, by decide⟩))),
    hiff.2.mpr (.inr (.inr ⟨by decide, by decide⟩))⟩

end KosKernel.IoBuf
