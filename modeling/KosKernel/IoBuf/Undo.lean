import KosKernel.IoBuf.Maintain
import KosKernel.IoBuf.Runs

/-!
# KosKernel.IoBuf.Undo

**Taking I/O back** (`__kiobuf_unread_c` and `__kiobuf_unwrite_c` in `src/kernel/iobuf.c`),
without their assertions, which are compiled out.

Where a position may have to go back over the start of the buffer, both ask the wrong way round
whether it has to: with enough room below it, it ends up behind the buffer, and without, below
it. `__kiobuf_unread_c` moreover never releases `ib_rwlock`.
-/

namespace KosKernel.IoBuf

open Slice List

variable {α : Type}

/-! ### The source -/

/-- What `krwlock_beginwrite` returns. -/
inductive LockErrno where
  | keOk
  | keDestroyed
  | keIntr
  deriving DecidableEq, Repr

/-- What a call leaves: its error, the number of bytes it stored, the buffer, and whether
`ib_rwlock` is still held. There is no buffer if a position is below its start. -/
structure Undone (α : Type) where
  error : LockErrno
  bytes : Option Nat
  buffer : Option (Iobuf α)
  held : Bool

/-- A position that is moved towards the start of the buffer. -/
def moveDown (pos count : Nat) : Option Nat := if pos < count then none else some (pos - count)

/-- The position at or below the other one, moved by `count` bytes. -/
def moveLower (size pos count : Nat) : Option Nat :=
  if pos ≤ count then moveDown pos count
  else
    -- `count -= partsize` is below zero, and what is subtracted from the end wraps
    some (size + (pos - count))

/-- `__kiobuf_unread_c` -/
def kiobufUnread (begun : LockErrno) (self : Iobuf α) (maxUnread : Nat) : Undone α :=
  if begun ≠ .keOk then ⟨begun, none, some self, false⟩
  else
    let maxUnread := min maxUnread (maxwrite self self.ibRpos)
    let rpos :=
      if maxUnread = 0 then some self.ibRpos
      else if self.ibWpos < self.ibRpos then moveDown self.ibRpos maxUnread
      else moveLower self.ibSize self.ibRpos maxUnread
    ⟨.keOk, some maxUnread, rpos.map fun rpos => { self with ibRpos := rpos }, true⟩

/-- `__kiobuf_unwrite_c` -/
def kiobufUnwrite (begun : LockErrno) (self : Iobuf α) (maxUnwrite : Nat) : Undone α :=
  if begun ≠ .keOk then ⟨begun, none, some self, false⟩
  else
    let maxReadsize := maxread self self.ibRpos
    let maxUnwrite := min maxUnwrite maxReadsize
    let buffer :=
      if maxUnwrite = 0 then some self
      else if maxUnwrite = maxReadsize then
        some { self with ibWpos := 0, ibRpos := self.ibSize }
      else
        (if self.ibRpos < self.ibWpos then moveDown self.ibWpos maxUnwrite
          else moveLower self.ibSize self.ibWpos maxUnwrite).map
          fun wpos => { self with ibWpos := wpos }
    ⟨.keOk, some maxUnwrite, buffer, false⟩

/-! ### What they should do, and when they do -/

/-- The call leaves these bytes pending in a buffer in order. -/
def Undone.Leaves (u : Undone α) (bytes : List α) : Prop :=
  ∃ b, u.buffer = some b ∧ InBuffer b ∧ contents b = bytes

/-- Un-reading what a read delivered restores the pending bytes, if it reports as many. -/
def Rereads (b : Iobuf α) (n : Nat) : Prop :=
  (kiobufUnread .keOk (kiobufRead b n).2 (kiobufRead b n).1.length).bytes =
      some (kiobufRead b n).1.length →
    (kiobufUnread .keOk (kiobufRead b n).2 (kiobufRead b n).1.length).Leaves (contents b)

/-- The last bytes are removed and their number is reported. -/
def Unwrites (b : Iobuf α) (n : Nat) : Prop :=
  (kiobufUnwrite .keOk b n).bytes = some (min n (contents b).length) ∧
    (kiobufUnwrite .keOk b n).Leaves ((contents b).take ((contents b).length - n))

/-- The condition for `__kiobuf_unread_c`: nothing is read; or everything, and the end of the
buffer holds the bytes that were pending; or the read position need not go over the start. -/
def RereadOk (b : Iobuf α) (n : Nat) : Prop :=
  n = 0 ∨
  (contents b).length ≤ n ∧
    slice b.ibBuffer (b.ibSize - (contents b).length) (contents b).length = contents b ∨
  n < (contents b).length ∧
    (b.ibRpos = 0 ∨ b.ibWpos ≤ b.ibRpos ∧ (b.ibRpos + n ≤ b.ibSize ∨ b.ibRpos = b.ibSize))

/-- The condition for `__kiobuf_unwrite_c`: the pending bytes do not wrap; or nothing is removed,
or everything, or exactly what is at the start of the buffer. -/
def UnwriteOk (b : Iobuf α) (n : Nat) : Prop :=
  b.ibRpos < b.ibWpos ∨ n = 0 ∨ (contents b).length ≤ n ∨ n = b.ibWpos

/-! ### Un-reading -/

section

variable {b : Iobuf α} {n : Nat}

theorem leaves_some {u : Undone α} {b' : Iobuf α} {bytes : List α} (hu : u.buffer = some b') :
    u.Leaves bytes ↔ InBuffer b' ∧ contents b' = bytes := by
  simp [Undone.Leaves, hu]

theorem not_leaves {u : Undone α} {bytes : List α} (hu : u.buffer = none) : ¬u.Leaves bytes := by
  simp [Undone.Leaves, hu]

theorem kiobufUnread_eq (h : InBuffer b) (hn : n ≠ 0) (hroom : n + (contents b).length ≤ b.ibSize) :
    kiobufUnread .keOk b n = ⟨.keOk, some n,
      (if b.ibWpos < b.ibRpos then moveDown b.ibRpos n
        else moveLower b.ibSize b.ibRpos n).map fun rpos => { b with ibRpos := rpos }, true⟩ := by
  have hmax := h.maxwrite_eq
  simp only [kiobufUnread, Nat.min_eq_left (show n ≤ maxwrite b b.ibRpos by omega), if_neg hn]
  rfl

/-- With both positions at its end, a full buffer delivers nothing. -/
theorem rereads_iff_end (hr : b.ibRpos = b.ibSize) (hw : b.ibWpos = b.ibSize) (n : Nat) :
    Rereads b n ↔ RereadOk b n := by
  have hfull : contents b = slice b.ibBuffer 0 b.ibSize := by
    rw [contents_of_le (by omega), hr, hw, Nat.sub_self, slice_zero, nil_append]
  have hread : kiobufRead b n = ([], b) := by
    simp [kiobufRead, readEnd, hr, hw]
  refine iff_of_true ?_ ?_
  · rw [Rereads, hread]
    exact fun _ => ⟨b, by simp [kiobufUnread], ⟨hr.le, hw.le⟩, rfl⟩
  · rcases Nat.lt_or_ge n (contents b).length with hlt | hge
    · exact .inr (.inr ⟨hlt, .inr ⟨by omega, .inr hr⟩⟩)
    · refine .inr (.inl ⟨hge, ?_⟩)
      rw [hfull, length_slice, Nat.sub_self]

theorem rereads_iff (h : InBuffer b) (n : Nat) : Rereads b n ↔ RereadOk b n := by
  have hr := h.rpos_le
  have hw := h.wpos_le
  have hlen := h.maxread_eq
  have hsize := h.maxwrite_eq
  by_cases hfull : b.ibRpos = b.ibSize ∧ b.ibWpos = b.ibSize
  · exact rereads_iff_end hfull.1 hfull.2 n
  have hring := readTo_inBuffer h n
  have hrest := contents_readTo h n
  rw [Rereads, kiobufRead_eq h (by omega)]
  by_cases hread : n = 0 ∨ contents b = []
  · -- nothing is read
    have hzero : ((contents b).take n).length = 0 := by simpa using hread
    rw [hzero, readTo, if_pos hread]
    refine iff_of_true (fun _ => ⟨b, by simp [kiobufUnread], h, rfl⟩) ?_
    exact hread.imp id fun hnone => .inl (by simp [hnone])
  have hpos : n ≠ 0 ∧ 0 < (contents b).length := by
    simpa [length_pos_iff] using hread
  have hsame : (readTo b n).ibSize = b.ibSize := by
    unfold readTo
    split_ifs <;> rfl
  rw [kiobufUnread_eq hring (by rw [length_take]; omega)
    (by rw [hrest, hsame, length_drop, length_take]; omega), forall_prop_of_true rfl, RereadOk]
  by_cases hall : (contents b).length ≤ n
  · -- the buffer is empty now, and its end is un-read
    have hend : contents { b with ibRpos := b.ibSize - (contents b).length, ibWpos := 0 } =
        slice b.ibBuffer (b.ibSize - (contents b).length) (contents b).length := by
      rw [contents_of_le (Nat.zero_le _)]
      dsimp only
      rw [slice_zero, append_nil, Nat.sub_sub_self (by omega)]
    rw [readTo, if_neg hread, if_pos hall, take_of_length_le hall,
      if_pos (show 0 < b.ibSize by omega), moveDown, if_neg (by dsimp only; omega),
      leaves_some rfl, hend]
    constructor
    · exact fun hend => .inr (.inl ⟨hall, hend.2⟩)
    · rintro (hzero | ⟨-, hend⟩ | ⟨hlt, -⟩)
      · exact absurd hzero hpos.1
      · exact ⟨⟨Nat.sub_le .., Nat.zero_le _⟩, hend⟩
      · omega
  have hk : ((contents b).take n).length = n := by rw [length_take]; omega
  rw [maxread] at hlen
  rw [hk, readTo, if_neg hread, if_neg hall]
  by_cases hlt : b.ibRpos < b.ibWpos
  · rw [if_pos hlt] at hlen
    rw [if_pos (show b.ibRpos + n ≤ b.ibSize by omega),
      if_neg (show ¬b.ibWpos < b.ibRpos + n by omega), moveLower]
    by_cases hzero : b.ibRpos = 0
    · refine iff_of_true ⟨b, ?_, h, rfl⟩ (by omega)
      rw [if_pos (by dsimp only; omega), moveDown, if_neg (by dsimp only; omega)]
      rw [Nat.add_sub_cancel]
      rfl
    rw [if_neg (by dsimp only; omega), leaves_some rfl]
    refine iff_of_false (fun hleft => ?_) (by omega)
    have hin := hleft.1.rpos_le
    dsimp only at hin
    omega
  rw [if_neg hlt] at hlen
  by_cases hupper : b.ibRpos + n ≤ b.ibSize
  · refine iff_of_true ⟨b, ?_, h, rfl⟩ (by omega)
    rw [if_pos hupper, if_pos (show b.ibWpos < b.ibRpos + n by omega), moveDown,
      if_neg (by dsimp only; omega)]
    rw [Nat.add_sub_cancel]
    rfl
  rw [if_neg hupper, if_neg (show ¬b.ibWpos < b.ibRpos + n - b.ibSize by omega), moveLower,
    if_pos (by dsimp only; omega), moveDown]
  by_cases hend : b.ibRpos = b.ibSize
  · rw [if_neg (by dsimp only; omega), leaves_some rfl]
    refine iff_of_true ⟨⟨by dsimp only; omega, hw⟩, ?_⟩ (by omega)
    rw [contents_of_lt (by dsimp only; omega), contents_of_le (Nat.not_lt.mp hlt), hend,
      Nat.sub_self, slice_zero, nil_append]
    dsimp only
    congr 1 <;> omega
  · rw [if_pos (by dsimp only; omega)]
    exact iff_of_false (not_leaves rfl) (by omega)

/-! ### Un-writing -/

theorem unwrites_iff (h : InBuffer b) (n : Nat) : Unwrites b n ↔ UnwriteOk b n := by
  have hr := h.rpos_le
  have hw := h.wpos_le
  have hlen := h.maxread_eq
  rw [Unwrites, kiobufUnwrite, if_neg (by simp), hlen, and_iff_right rfl, UnwriteOk]
  dsimp only
  by_cases hall : (contents b).length ≤ n
  · refine iff_of_true ?_ (.inr (.inr (.inl hall)))
    rw [Nat.min_eq_right hall, Nat.sub_eq_zero_of_le hall, take_zero]
    by_cases hzero : (contents b).length = 0
    · exact ⟨b, if_pos hzero, h, length_eq_zero_iff.mp hzero⟩
    · refine ⟨_, (if_neg hzero).trans (if_pos rfl), ⟨le_rfl, Nat.zero_le _⟩, ?_⟩
      simp [contents]
  rw [Nat.min_eq_left (Nat.le_of_not_le hall)]
  by_cases hn : n = 0
  · refine iff_of_true ⟨b, if_pos hn, h, ?_⟩ (.inr (.inl hn))
    rw [hn, Nat.sub_zero, take_length]
  rw [if_neg hn, if_neg (by omega)]
  rw [maxread] at hlen
  by_cases hlt : b.ibRpos < b.ibWpos
  · rw [if_pos hlt] at hlen
    rw [if_pos hlt, moveDown, if_neg (by omega), leaves_some rfl]
    refine iff_of_true ⟨⟨hr, by dsimp only; omega⟩, ?_⟩ (.inl hlt)
    rw [contents_of_lt (by dsimp only; omega), ← hlen, contents_of_lt hlt, slice_take]
    dsimp only
    congr 1
    omega
  rw [if_neg hlt, moveLower]
  by_cases hstart : n = b.ibWpos
  · -- what is at the start is removed, and the rest ends with the buffer
    rw [if_pos (by omega), moveDown, if_neg (by omega), leaves_some rfl]
    refine iff_of_true ⟨⟨hr, by dsimp only; omega⟩, ?_⟩ (.inr (.inr (.inr hstart)))
    rw [contents_of_le (by dsimp only; omega), contents_of_le (Nat.not_lt.mp hlt), length_append,
      length_slice, length_slice, hstart, Nat.add_sub_cancel, take_left' length_slice]
    rw [Nat.sub_self, slice_zero, append_nil]
  refine iff_of_false ?_ (by omega)
  by_cases hle : b.ibWpos ≤ n
  · rw [if_pos hle, moveDown, if_pos (by omega)]
    exact not_leaves rfl
  rw [if_neg hle, leaves_some rfl]
  rintro ⟨⟨-, hin⟩, -⟩
  dsimp only at hin
  omega

end

/-- **Taking I/O back**: when un-reading restores the pending bytes, and when un-writing removes
the last of them, in every state with its positions in the buffer. Un-writing always releases
the lock. -/
theorem kiobuf_undo_iff (b : Iobuf α) (h : InBuffer b) (n : Nat) :
    (Rereads b n ↔ RereadOk b n) ∧ (Unwrites b n ↔ UnwriteOk b n) ∧
      ∀ begun, (kiobufUnwrite begun b n).held = false := by
  refine ⟨rereads_iff h n, unwrites_iff h n, fun begun => ?_⟩
  unfold kiobufUnwrite
  split <;> rfl

/-- Two bytes pending at the start of a buffer of four bytes are in order. -/
theorem kiobuf_undo_head : Rereads headPending 1 ∧ Unwrites headPending 1 := by
  have hiff := kiobuf_undo_iff headPending ⟨by decide, by decide⟩ 1
  exact ⟨hiff.1.mpr (.inr (.inr ⟨by decide, .inl rfl⟩)), hiff.2.1.mpr (.inl (by decide))⟩

/-- Three bytes are written, and one is read. Another one is read and taken back: then the read
position is behind the buffer, and the lock still held. -/
theorem kiobuf_unread_outside :
    ∃ b : Iobuf Nat, Run Safe b [1, 2, 3] [1] ∧ contents b = [2, 3] ∧
      let r := kiobufRead b 1
      let u := kiobufUnread .keOk r.2 1
      r.1 = [2] ∧ u.bytes = some 1 ∧ u.held = true ∧
        u.buffer.map (fun b => decide (b.ibRpos ≤ b.ibSize)) = some false := by
  have h0 : Run Safe (kiobufInit 16 fun _ => 0) [] [] := .init 16 _
  have h1 := Run.write plentiful [1, 2, 3] h0 ⟨by decide, by decide⟩ rfl
  exact ⟨_, Run.read 1 h1 rfl, by decide⟩

end KosKernel.IoBuf
