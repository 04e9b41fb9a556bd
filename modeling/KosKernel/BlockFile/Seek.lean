import KosKernel.BlockFile.Runs

/-!
# KosKernel.BlockFile.Seek

**Seeking in a block file** (`_kblockfile_seek` of `src/kernel/fs/fs-blockfile.c.inl`), with a
store whose callbacks may fail.

A seek to another chunk flushes the one in the buffer first. If the store then fails to save
the chunk or the size, the error is passed on and the cursor stays; `*newpos` is written
before. What is in a buffer that is not marked as loaded is not flushed, also if it was
written to.
-/

namespace KosKernel.BlockFile

open Function

variable {α : Type} {s s' : Blockfile α} {off : Int} {whence : Whence} {p i : Nat}

/-! ### A store that may fail -/

/-- What the callbacks answer (anything but `KE_OK` is an error), and what is left in a chunk
that failed to be saved. -/
structure Replies (α : Type) where
  savechunk : Errno
  setsize : Errno
  left : Nat → α

/-- `kblockfile_flushbuffer` with these replies. -/
def kblockfileFlushbufferWith (io : Replies α) (self : Blockfile α) :
    Except Fault (Errno × Blockfile α) :=
  if self.changed then
    if ¬self.bufdata then .error .assertion
    else if io.savechunk ≠ .keOk then
      (bftSavechunk self io.left).map fun self => (io.savechunk, self)
    else
      (bftSavechunk self self.bfBuffer).map fun self =>
        let self := { self with changed := false }
        if self.bfFilesaved ≠ self.bfFilesize then
          if io.setsize ≠ .keOk then (io.setsize, self)
          else (.keOk, { bftSetsize self self.bfFilesize with bfFilesaved := self.bfFilesize })
        else (.keOk, self)
  else .ok (.keOk, self)

/-- `kblockfile_selectchunk` with these replies. -/
def kblockfileSelectchunkWith (io : Replies α) (self : Blockfile α) (chunkid : Nat) :
    Except Fault (Errno × Blockfile α) :=
  if chunkid = self.fcIndex then .ok (.keOk, self)
  else
    (if self.bufdata then kblockfileFlushbufferWith io self else .ok (.keOk, self)).map
      fun (error, self) =>
        if error ≠ .keOk then (error, self) else (.keOk, selectAt self chunkid)

/-- `_kblockfile_seek` with these replies: whether `bf_lock` is still held when it returns, the
error, the new position and the file. -/
def kblockfileSeekWith (io : Replies α) (self : Blockfile α) (off : Int) (whence : Whence) :
    Except Fault (Bool × Errno × Nat × Blockfile α) :=
  match seekTarget self off whence with
  | .error error => .ok (whence = .other, error, 0, self)
  | .ok abspos =>
    (kblockfileSelectchunkWith io self (abspos / self.bfChunksize)).map fun (error, self) =>
      if error ≠ .keOk then (false, error, abspos, self)
      else (false, .keOk, abspos, { self with bfBufpos := abspos % self.bfChunksize })

section
variable {io : Replies α} (hsave : io.savechunk = .keOk) (hsize : io.setsize = .keOk)

include hsave hsize

theorem flushbufferWith_ok :
    kblockfileFlushbufferWith io s = (kblockfileFlushbuffer s).map ((.keOk, ·)) := by
  unfold kblockfileFlushbufferWith kblockfileFlushbuffer
  by_cases hc : s.changed = true
  · rw [if_pos hc, if_pos hc]
    by_cases hb : s.bufdata = true
    · rw [if_neg (not_not.mpr hb), if_neg (not_not.mpr hb), if_neg (not_not.mpr hsave)]
      rcases bftSavechunk s s.bfBuffer with e | s1
      · rfl
      · simp only [Except.map, hsize, ne_eq, not_true_eq_false, if_false]
        split_ifs <;> rfl
    · rw [if_pos hb, if_pos hb]
      rfl
  · rw [if_neg hc, if_neg hc]
    rfl

/-- With a store that does not fail, the seek is the one of the other calls. -/
theorem kblockfileSeekWith_ok : kblockfileSeekWith io s off whence =
    (kblockfileSeek s off whence).map fun r => (decide (whence = .other), r) := by
  unfold kblockfileSeekWith kblockfileSeek
  cases hp : seekTarget s off whence with
  | error e => rfl
  | ok abspos =>
    have hother : decide (whence = .other) = false := by
      refine decide_eq_false fun h => ?_
      rw [h] at hp
      cases hp
    simp only [hother, kblockfileSelectchunkWith, kblockfileSelectchunk,
      flushbufferWith_ok hsave hsize]
    split_ifs with hsame hb
    · rfl
    · rcases kblockfileFlushbuffer s with e | s1 <;> rfl
    · rfl

end

/-! ### Where a seek goes -/

/-- What the flags of the buffer mean: the address is that of its chunk, and without a change
it holds what the store does. The state after a failed write behind the end is one of them. -/
structure Sane (s : Blockfile α) : Prop where
  pos : 0 < s.bfChunksize
  size : s.bfFilesize < 18446744073709551616
  cursor : cursor s < 18446744073709551616
  address : s.bufdata = true → s.fcData = some s.fcIndex
  clean : s.bufdata = true → s.changed = false →
    ∀ off < s.bfChunksize, s.bfBuffer off = s.chunks s.fcIndex off

theorem Inv.sane (h : Inv s) : Sane s where
  pos := h.pos
  size := by have := h.fits; have := h.pos; omega
  cursor := h.cursor
  address hb := h.address (h.found hb)
  clean := h.clean

/-- The chunk in the buffer has to be flushed for chunk `i`, and the store fails. -/
def Stuck (io : Replies α) (s : Blockfile α) (i : Nat) : Prop :=
  i ≠ s.fcIndex ∧ s.bufdata = true ∧ s.changed = true ∧
    (io.savechunk ≠ .keOk ∨ s.bfFilesaved ≠ s.bfFilesize ∧ io.setsize ≠ .keOk)

/-- The cursor gets to a position, and no bytes are lost that were written to a chunk that is
not marked as loaded. -/
def Reaches (io : Replies α) (s : Blockfile α) (p : Int) : Prop :=
  ¬Stuck io s (p.toNat / s.bfChunksize) ∧
  (s.changed = true → s.bufdata = false → p.toNat / s.bfChunksize = s.fcIndex)

/-- Where a seek should go; a `whence` that is none has nowhere to go. -/
def seekGoal (s : Blockfile α) (off : Int) : Whence → Int
  | .seekSet => off
  | .seekCur => cursor s + off
  | .seekEnd => s.bfFilesize + off
  | .other => -1

/-- A seek goes where it should and reports that, or fails where this is negative; it keeps the
bytes of the file, also those that were written to a chunk that is not marked as loaded, and
releases the lock. -/
def SeekRight (io : Replies α) (s : Blockfile α) (off : Int) (whence : Whence) : Prop :=
  ∃ error newpos s', kblockfileSeekWith io s off whence = .ok (false, error, newpos, s') ∧
    Keeps s s' ∧ (s.changed = true → s.bufdata = false →
      s'.fcIndex = s.fcIndex ∧ s'.bfBuffer = s.bfBuffer) ∧
    if 0 ≤ seekGoal s off whence then
      error = .keOk ∧ (newpos : Int) = seekGoal s off whence ∧ cursor s' = newpos
    else error ≠ .keOk ∧ cursor s' = cursor s

/-- The condition for a seek. A negative position is refused only by chance, when the store
fails. From the end only the position there is found, or none; the offset `-2⁶³` is its own
negative. -/
def SeekOk (io : Replies α) (s : Blockfile α) (off : Int) : Whence → Prop
  | .seekSet =>
    if 0 ≤ off then Reaches io s off
    else Stuck io s ((off + 18446744073709551616).toNat / s.bfChunksize)
  | .seekCur => cursor s + off < 0 ∨
      cursor s + off < 18446744073709551616 ∧ Reaches io s (cursor s + off)
  | .seekEnd => s.bfFilesize + off < 0 ∨
      (off = 0 ∨ off = -9223372036854775808) ∧ Reaches io s (s.bfFilesize + off)
  | .other => False

/-! ### The call -/

/-- Another chunk is selected; only the end of the buffer depends on the size of the file. -/
theorem selectAt_eq (s : Blockfile α) (i : Nat) : ∃ e wasprev, selectAt s i = { s with
    wasprev := wasprev, bufdata := false, chunk := false, fcIndex := i, bfBufend := e,
    bfBufpos := 0 } := by
  unfold selectAt kblockfileUpdatebufend
  dsimp only
  split_ifs <;> exact ⟨_, _, rfl⟩

section
variable (io : Replies α) (h : Sane s)

include h

/-- **The flush** of a loaded chunk. It ends with what the store answers, and the bytes are kept
in the buffer if that is an error. -/
theorem flushbufferWith_spec (hb : s.bufdata = true) (hi : i ≠ s.fcIndex) : ∃ error s',
    kblockfileFlushbufferWith io s = .ok (error, s') ∧ Keeps s s' ∧ s'.bufdata = true ∧
      s'.fcIndex = s.fcIndex ∧ s'.bfBufpos = s.bfBufpos ∧ (error ≠ .keOk ↔ Stuck io s i) ∧
      (error = .keOk → ∀ off < s.bfChunksize, s'.bfBuffer off = s'.chunks s.fcIndex off) := by
  -- the byte array is in the buffer, whatever becomes of its chunk in the store
  have hkeeps (changed : Bool) (bfFilesaved size : Nat) (buf : Nat → α) : Keeps s
      { s with changed, bfFilesaved, size, chunks := update s.chunks s.fcIndex buf } := by
    refine ⟨rfl, rfl, fun p => contents_congr h.pos (by rfl) p fun j off hoff _ => ?_,
      rfl, rfl, rfl⟩
    simp only [hb, true_and]
    by_cases hj : j = s.fcIndex
    · rw [if_pos hj, if_pos hj]
    · rw [if_neg hj, if_neg hj, update_of_ne hj]
  have hstuck : Stuck io s i ↔ s.changed = true ∧
      (io.savechunk ≠ .keOk ∨ s.bfFilesaved ≠ s.bfFilesize ∧ io.setsize ≠ .keOk) := by
    simp [Stuck, hi, hb]
  have hput (buf : Nat → α) : bftSavechunk s buf =
      .ok { s with chunks := update s.chunks s.fcIndex buf } := by
    rw [bftSavechunk, h.address hb]
  rw [hstuck]
  unfold kblockfileFlushbufferWith
  simp only [hput]
  by_cases hc : s.changed = true
  · rw [if_pos hc, if_neg (not_not.mpr hb)]
    by_cases hsave : io.savechunk = .keOk
    · rw [if_neg (not_not.mpr hsave)]
      simp only [Except.map]
      have hself : ∀ off, s.bfBuffer off = update s.chunks s.fcIndex s.bfBuffer s.fcIndex off :=
        fun off => (congrFun (update_self ..) off).symm
      by_cases hsaved : s.bfFilesaved = s.bfFilesize
      · rw [if_neg (not_not.mpr hsaved)]
        exact ⟨_, _, rfl, hkeeps _ s.bfFilesaved s.size _, hb, rfl, rfl, by simp [hsave, hsaved],
          fun _ off _ => hself off⟩
      rw [if_pos hsaved]
      by_cases hsize : io.setsize = .keOk
      · rw [if_neg (not_not.mpr hsize)]
        exact ⟨_, _, rfl, hkeeps _ s.bfFilesize s.bfFilesize _, hb, rfl, rfl,
          by simp [hsave, hsize], fun _ off _ => hself off⟩
      · rw [if_pos hsize]
        exact ⟨_, _, rfl, hkeeps _ s.bfFilesaved s.size _, hb, rfl, rfl,
          by simp [hc, hsaved, hsize], fun hok => absurd hok hsize⟩
    · rw [if_pos hsave]
      exact ⟨_, _, rfl, hkeeps s.changed s.bfFilesaved s.size io.left, hb, rfl, rfl,
        by simp [hc, hsave], fun hok => absurd hok hsave⟩
  · rw [if_neg hc]
    exact ⟨_, _, rfl, .refl s, hb, rfl, rfl, by simp [hc],
      fun _ => h.clean hb (Bool.eq_false_iff.mpr hc)⟩

/-- **Specification of `kblockfile_selectchunk`** with replies. -/
theorem selectchunkWith_spec (i : Nat) : ∃ error s',
    kblockfileSelectchunkWith io s i = .ok (error, s') ∧ Keeps s s' ∧
      (i = s.fcIndex → s' = s) ∧
      (Stuck io s i ∧ error ≠ .keOk ∧ cursor s' = cursor s ∨
        ¬Stuck io s i ∧ error = .keOk ∧ s'.fcIndex = i) := by
  unfold kblockfileSelectchunkWith
  by_cases hi : i = s.fcIndex
  · rw [if_pos hi]
    exact ⟨_, _, rfl, .refl s, fun _ => rfl, .inr ⟨fun h => h.1 hi, rfl, hi.symm⟩⟩
  rw [if_neg hi]
  have hselect {s1 : Blockfile α} (hk : Keeps s s1)
      (hclean : s1.bufdata = true → ∀ off < s1.bfChunksize,
        s1.bfBuffer off = s1.chunks s1.fcIndex off) :
      Keeps s (selectAt s1 i) ∧ (selectAt s1 i).fcIndex = i := by
    obtain ⟨e, wasprev, heq⟩ := selectAt_eq s1 i
    rw [heq]
    refine ⟨hk.trans ⟨rfl, rfl, fun p => contents_congr (hk.chunksize ▸ h.pos) (by rfl) p
      fun j off hoff _ => ?_, rfl, rfl, rfl⟩, rfl⟩
    simp only [Bool.false_eq_true, false_and, if_false]
    split_ifs with hj
    · rw [hj.2, hclean hj.1 off hoff]
    · rfl
  by_cases hb : s.bufdata = true
  · rw [if_pos hb]
    obtain ⟨error, s1, hval, hk, -, hidx, hpos, hstuck, hclean⟩ :=
      flushbufferWith_spec io h hb hi
    rw [hval]
    simp only [Except.map]
    by_cases herr : error = .keOk
    · rw [if_neg (not_not.mpr herr)]
      obtain ⟨hkeeps, hat⟩ := hselect hk fun _ => by
        rw [hk.chunksize, hidx]
        exact hclean herr
      exact ⟨_, _, rfl, hkeeps, fun h => absurd h hi,
        .inr ⟨fun h => hstuck.2 h herr, rfl, hat⟩⟩
    · rw [if_pos herr]
      refine ⟨_, _, rfl, hk, fun h => absurd h hi, .inl ⟨hstuck.1 herr, herr, ?_⟩⟩
      rw [cursor, cursor, hidx, hpos, hk.chunksize]
  · rw [if_neg hb]
    obtain ⟨hkeeps, hat⟩ := hselect (.refl s) fun h => absurd h hb
    exact ⟨_, _, rfl, hkeeps, fun h => absurd h hi, .inr ⟨fun h => hb h.2.1, rfl, hat⟩⟩

/-- **A seek to a position.** -/
theorem seekRight_of_ok (hp : seekTarget s off whence = .ok p) :
    SeekRight io s off whence ↔
      if 0 ≤ seekGoal s off whence then (p : Int) = seekGoal s off whence ∧ Reaches io s p
      else Stuck io s (p / s.bfChunksize) := by
  obtain ⟨error, s1, hval, hk, hsame, hcase⟩ :=
    selectchunkWith_spec io h (p / s.bfChunksize)
  rw [SeekRight, kblockfileSeekWith, hp]
  simp only [hval, Except.map, Except.ok.injEq, Reaches, Int.toNat_natCast]
  rcases hcase with ⟨hstuck, herr, hcursor⟩ | ⟨hfree, rfl, hidx⟩
  · rw [if_pos herr]
    constructor
    · rintro ⟨error', newpos, s', ⟨-, rfl, rfl, rfl⟩, -, -, hif⟩
      split_ifs at hif ⊢ with hneg
      · exact absurd hif.1 herr
      · exact hstuck
    · intro hif
      split_ifs at hif with hneg
      · exact absurd hstuck hif.2.1
      · exact ⟨_, _, _, rfl, hk, fun hc hb => absurd (hb.symm.trans hstuck.2.1) (by decide),
          by rw [if_neg hneg]; exact ⟨herr, hcursor⟩⟩
  · rw [if_neg (not_not.mpr rfl)]
    have hcursor : p / s.bfChunksize * s.bfChunksize + p % s.bfChunksize = p := by
      rw [Nat.mul_comm]
      exact Nat.div_add_mod ..
    constructor
    · rintro ⟨error', newpos, s', ⟨-, rfl, rfl, rfl⟩, -, hlost, hif⟩
      split_ifs at hif ⊢ with hneg
      · exact ⟨hif.2.1, hfree, fun hc hb => hidx.symm.trans (hlost hc hb).1⟩
      · exact absurd rfl hif.1
    · intro hif
      split_ifs at hif with hneg
      · refine ⟨_, _, _, rfl, hk.trans { Keeps.refl s1 with }, fun hc hb => ?_, ?_⟩
        · rw [hsame (hif.2.2 hc hb)]
          exact ⟨rfl, rfl⟩
        · rw [if_pos hneg]
          refine ⟨rfl, hif.1, ?_⟩
          rw [cursor, hidx, hk.chunksize]
          exact hcursor
      · exact absurd hif hfree

omit h in
theorem seekRight_of_error {e : Errno} (hp : seekTarget s off whence = .error e) (he : e ≠ .keOk) :
    SeekRight io s off whence ↔ seekGoal s off whence < 0 ∧ whence ≠ .other := by
  rw [SeekRight, kblockfileSeekWith, hp]
  constructor
  · rintro ⟨error, newpos, s', hok, -, -, hif⟩
    simp only [Except.ok.injEq, Prod.mk.injEq, decide_eq_false_iff_not] at hok
    obtain ⟨hother, rfl, -⟩ := hok
    split_ifs at hif with hneg
    · exact absurd hif.1 he
    · exact ⟨Int.not_le.mp hneg, hother⟩
  · rintro ⟨hneg, hother⟩
    refine ⟨e, 0, s, by simp [hother], .refl s, fun _ _ => ⟨rfl, rfl⟩, ?_⟩
    rw [if_neg (Int.not_le.mpr hneg)]
    exact ⟨he, rfl⟩

/-- **When a seek goes where it should**, with every store. -/
theorem kblockfile_seek_right_iff (hlow : -9223372036854775808 ≤ off)
    (hhigh : off < 9223372036854775808) :
    SeekRight io s off whence ↔ SeekOk io s off whence := by
  have hcursor := h.cursor
  have hposition : position s = cursor s := Nat.mod_eq_of_lt hcursor
  cases whence with
  | seekSet =>
    rw [seekRight_of_ok io h rfl, seekGoal, SeekOk]
    split_ifs with hneg
    · rw [and_iff_right (by omega), show ((off % 18446744073709551616).toNat : Int) = off by omega]
    · rw [show off % 18446744073709551616 = off + 18446744073709551616 by omega]
  | seekCur =>
    by_cases hneg : off < 0 ∧ (position s : Int) < -off
    · have hp : seekTarget s off .seekCur = .error .keRange := if_pos hneg
      rw [seekRight_of_error io hp (by decide), seekGoal, SeekOk]
      exact iff_of_true ⟨by omega, by decide⟩ (.inl (by omega))
    · have hp : seekTarget s off .seekCur = .ok _ := if_neg hneg
      rw [seekRight_of_ok io h hp, seekGoal, SeekOk, if_pos (by omega), or_iff_right (by omega)]
      have hto : ((((position s : Int) + off) % 18446744073709551616).toNat : Int) =
          cursor s + off ↔ cursor s + off < 18446744073709551616 := by omega
      rw [hto]
      exact and_congr_right fun hlt => by rw [hto.2 hlt]
  | seekEnd =>
    by_cases hneg : s.bfFilesize < (off % 18446744073709551616).toNat
    · have hp : seekTarget s off .seekEnd = .error .keRange := if_pos hneg
      rw [seekRight_of_error io hp (by decide), seekGoal, SeekOk, and_iff_left (by decide)]
      exact (or_iff_left_of_imp fun hend => by have := hend.1; omega).symm
    · have hp : seekTarget s off .seekEnd = .ok _ := if_neg hneg
      rw [seekRight_of_ok io h hp, seekGoal, SeekOk, if_pos (by omega), or_iff_right (by omega)]
      have hto : ((s.bfFilesize - (off % 18446744073709551616).toNat : Nat) : Int) =
          s.bfFilesize + off ↔ off = 0 ∨ off = -9223372036854775808 := by omega
      rw [hto]
      exact and_congr_right fun heq => by rw [hto.2 heq]
  | other =>
    rw [seekRight_of_error io rfl (by decide), SeekOk]
    simp

end

/-- A store of numbers that does not fail. -/
def working : Replies Nat := ⟨.keOk, .keOk, fun _ => 0⟩

/-- A seek to position 9. -/
theorem kblockfile_seek_right_set : SeekRight working (numbered 20) 9 .seekSet :=
  (kblockfile_seek_right_iff working numbered_inv.sane (by decide) (by decide)).mpr
    ⟨fun h => absurd h.2.1 (by decide), fun h => absurd h (by decide)⟩

/-- A seek to four bytes before the end fails, one to four bytes behind it goes before it, and
an unknown `whence` leaves the lock held. -/
theorem kblockfile_seek_wrong :
    kblockfileSeekWith working (numbered 20) (-4) .seekEnd =
        .ok (false, .keRange, 0, numbered 20) ∧
      (∃ s, kblockfileSeekWith working (numbered 20) 4 .seekEnd = .ok (false, .keOk, 16, s)) ∧
      kblockfileSeekWith working (numbered 20) 0 .other =
        .ok (true, .keInval, 0, numbered 20) :=
  ⟨rfl, ⟨_, rfl⟩, rfl⟩

end KosKernel.BlockFile
