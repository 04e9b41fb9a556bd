import KosKernel.BlockFile.Calls

/-!
# KosKernel.BlockFile.Contents

The **logical contents** of a block file: a byte is in the buffer if its chunk is, and
otherwise in the store. Selecting, searching, loading and flushing a chunk leaves the
contents alone.
-/

namespace KosKernel.BlockFile

open Function Slice

variable {α : Type} {s s' : Blockfile α}

/-- The byte at a position. -/
def contents (s : Blockfile α) (p : Nat) : α :=
  if s.bufdata ∧ p / s.bfChunksize = s.fcIndex then s.bfBuffer (p % s.bfChunksize)
  else s.chunks (p / s.bfChunksize) (p % s.bfChunksize)

/-- What holds whenever a call is under way. -/
structure Holds (s : Blockfile α) : Prop where
  pos : 0 < s.bfChunksize
  small : s.bfChunksize < 4294967296
  fits : s.bfFilesize + s.bfChunksize ≤ 18446744073709551616
  address : s.chunk = true → s.fcData = some s.fcIndex
  low : s.chunk = true → s.fcIndex + 1 < 18446744073709551616
  prev : s.chunk = false → s.wasprev = true → ∃ i, s.fcIndex = i + 1 ∧ s.fcData = some i
  found : s.bufdata = true → s.chunk = true
  inside : s.bufdata = true → s.fcIndex * s.bfChunksize < s.bfFilesize
  dirty : s.changed = true → s.bufdata = true
  clean : s.bufdata = true → s.changed = false →
    ∀ off < s.bfChunksize, s.bfBuffer off = s.chunks s.fcIndex off
  saved : s.size = s.bfFilesaved
  within : s.bfBufend ≤ s.bfChunksize

/-- What holds between two calls: the cursor lies in the current chunk. -/
structure Inv (s : Blockfile α) : Prop extends Holds s where
  bufpos : s.bfBufpos < s.bfChunksize
  cursor : s.fcIndex * s.bfChunksize + s.bfBufpos < 18446744073709551616

/-- The file is the same, apart from where the cursor is and what is in the buffer. -/
structure Keeps (s s' : Blockfile α) : Prop where
  chunksize : s'.bfChunksize = s.bfChunksize
  filesize : s'.bfFilesize = s.bfFilesize
  contents : ∀ p, contents s' p = contents s p
  append : s'.append = s.append
  canread : s'.canread = s.canread
  canwrite : s'.canwrite = s.canwrite

theorem Keeps.refl (s : Blockfile α) : Keeps s s := ⟨rfl, rfl, fun _ => rfl, rfl, rfl, rfl⟩

theorem Keeps.trans {s'' : Blockfile α} (h : Keeps s s') (h' : Keeps s' s'') : Keeps s s'' :=
  ⟨h'.chunksize.trans h.chunksize, h'.filesize.trans h.filesize,
    fun p => (h'.contents p).trans (h.contents p), h'.append.trans h.append,
    h'.canread.trans h.canread, h'.canwrite.trans h.canwrite⟩

theorem bind_of_ok {β γ : Type} {x : Except Fault β} {y : β} (h : x = .ok y)
    (f : β → Except Fault γ) : (x >>= f) = f y := by
  rw [h]
  rfl

/-! ### Positions -/

theorem contents_at {i off : Nat} (h : off < s.bfChunksize) :
    contents s (i * s.bfChunksize + off) =
      if s.bufdata ∧ i = s.fcIndex then s.bfBuffer off else s.chunks i off := by
  have hdiv : (i * s.bfChunksize + off) / s.bfChunksize = i := by
    rw [Nat.mul_comm, Nat.mul_add_div (by omega), Nat.div_eq_of_lt h, Nat.add_zero]
  have hmod : (i * s.bfChunksize + off) % s.bfChunksize = off := by
    rw [Nat.mul_comm, Nat.mul_add_mod, Nat.mod_eq_of_lt h]
  rw [contents, hdiv, hmod]

theorem exists_at (hpos : 0 < s.bfChunksize) (p : Nat) :
    ∃ i off, off < s.bfChunksize ∧ p = i * s.bfChunksize + off :=
  ⟨p / s.bfChunksize, p % s.bfChunksize, Nat.mod_lt _ hpos, by
    rw [Nat.mul_comm, Nat.div_add_mod]⟩

/-- Contents are compared chunk by chunk. -/
theorem contents_congr (hpos : 0 < s.bfChunksize) (hcs : s'.bfChunksize = s.bfChunksize) (p : Nat)
    (h : ∀ i off, off < s.bfChunksize → p = i * s.bfChunksize + off →
      (if s'.bufdata ∧ i = s'.fcIndex then s'.bfBuffer off else s'.chunks i off) =
        if s.bufdata ∧ i = s.fcIndex then s.bfBuffer off else s.chunks i off) :
    contents s' p = contents s p := by
  obtain ⟨i, off, hoff, rfl⟩ := exists_at hpos p
  rw [contents_at hoff, ← hcs, contents_at (hcs ▸ hoff)]
  exact h i off hoff rfl

namespace Holds

theorem chunkcount (h : Holds s) {size : Nat}
    (hsize : size + s.bfChunksize ≤ 18446744073709551616) (i : Nat) :
    i < ceildiv s size ↔ i * s.bfChunksize < size := by
  have hpos := h.pos
  rw [ceildiv, wrap64, Nat.mod_eq_of_lt (by omega), Nat.lt_iff_add_one_le,
    Nat.le_div_iff_mul_le hpos, Nat.add_mul]
  omega

end Holds

theorem Inv.position (h : Inv s) : position s = s.fcIndex * s.bfChunksize + s.bfBufpos :=
  Nat.mod_eq_of_lt h.cursor

/-- The number of bytes of the file that are in the current chunk. -/
def chunkEnd (s : Blockfile α) : Nat :=
  min s.bfChunksize (s.bfFilesize - s.fcIndex * s.bfChunksize)

/-- Where `kblockfile_updatebufend` puts the end of a chunk: not where it is, if the file ends
with the chunk. -/
def selectedEnd (chunksize filesize i : Nat) : Nat :=
  if filesize = (i + 1) * chunksize then 0 else min chunksize (filesize - i * chunksize)

theorem selectedEnd_le (chunksize filesize i : Nat) :
    selectedEnd chunksize filesize i ≤ chunksize := by
  unfold selectedEnd
  split_ifs
  · exact Nat.zero_le _
  · exact Nat.min_le_left ..

/-! ### Flushing -/

/-- What `kblockfile_flushbuffer` leaves. -/
def flushed (s : Blockfile α) : Blockfile α :=
  if s.changed then
    { s with
      chunks := update s.chunks s.fcIndex s.bfBuffer
      changed := false
      bfFilesaved := s.bfFilesize
      size := s.bfFilesize }
  else s

section

variable (h : Holds s)

include h

theorem Holds.index_lt (hend : s.fcIndex * s.bfChunksize + s.bfChunksize < 18446744073709551616) :
    s.fcIndex + 1 < 18446744073709551616 := by
  have hle := Nat.le_mul_of_pos_right s.fcIndex h.pos
  have hpos := h.pos
  omega

theorem Holds.flushbuffer : kblockfileFlushbuffer s = .ok (flushed s) := by
  unfold kblockfileFlushbuffer flushed
  by_cases hc : s.changed = true
  · have hb := h.dirty hc
    have hdata := h.address (h.found hb)
    rw [if_pos hc, if_pos hc, if_neg (not_not.mpr hb), bftSavechunk, hdata]
    simp only [Except.map]
    by_cases hsaved : s.bfFilesaved = s.bfFilesize
    · rw [if_neg (not_not.mpr hsaved), h.saved, hsaved]
    · rw [if_pos hsaved]
      rfl
  · rw [if_neg hc, if_neg hc]

theorem Holds.flushed_keeps : Keeps s (flushed s) := by
  unfold flushed
  split_ifs with hc
  · refine ⟨rfl, rfl, fun p => contents_congr h.pos (by rfl) p fun i off hoff _ => ?_,
    rfl, rfl, rfl⟩
    simp only [h.dirty hc, true_and]
    by_cases hi : i = s.fcIndex
    · simp [hi]
    · rw [if_neg hi, if_neg hi, update_of_ne hi]
  · exact .refl s

theorem Holds.flushed_holds : Holds (flushed s) := by
  unfold flushed
  split_ifs with hc
  · exact { h with
      dirty := fun hh => absurd hh Bool.false_ne_true
      clean := fun _ _ off _ => (congrFun (update_self ..) off).symm
      saved := rfl }
  · exact h

omit h in
theorem flushed_fields (s : Blockfile α) : (flushed s).changed = false ∧
    (flushed s).fcIndex = s.fcIndex ∧ (flushed s).bfBufpos = s.bfBufpos ∧
    (flushed s).bfFilesaved = if s.changed then s.bfFilesize else s.bfFilesaved := by
  unfold flushed
  split_ifs with hc
  · exact ⟨rfl, rfl, rfl, rfl⟩
  · exact ⟨Bool.eq_false_iff.mpr hc, rfl, rfl, rfl⟩

/-! ### Selecting -/

theorem updatebufend_eq : kblockfileUpdatebufend s =
    { s with bfBufend := selectedEnd s.bfChunksize s.bfFilesize s.fcIndex } := by
  have hpos := h.pos
  have hcount := h.chunkcount h.fits s.fcIndex
  have hnext := h.chunkcount h.fits (s.fcIndex + 1)
  rw [Nat.add_mul, Nat.one_mul] at hnext
  unfold kblockfileUpdatebufend kblockfileChunkcount selectedEnd
  rw [Nat.add_mul, Nat.one_mul]
  by_cases hout : ceildiv s s.bfFilesize ≤ s.fcIndex
  · rw [if_pos hout, if_neg (by omega)]
    congr 1
    omega
  rw [if_neg hout]
  by_cases hlast : s.fcIndex = ceildiv s s.bfFilesize - 1
  · rw [if_pos hlast]
    congr 1
    -- The last chunk is full, or the file ends inside.
    obtain ⟨k, hk⟩ := Nat.exists_eq_add_of_le
      (show s.fcIndex * s.bfChunksize ≤ s.bfFilesize by omega)
    have hmod : s.bfFilesize % s.bfChunksize = k % s.bfChunksize := by
      rw [hk, Nat.mul_comm, Nat.mul_add_mod]
    rw [hmod]
    split_ifs with hfull
    · rw [show k = s.bfChunksize by omega, Nat.mod_self]
    · rw [Nat.mod_eq_of_lt (by omega)]
      omega
  · rw [if_neg hlast, if_neg (by omega)]
    congr 1
    omega

/-- Chunk `i` is selected and not loaded; its end is taken to be `b`. -/
structure Selected (s s' : Blockfile α) (i b : Nat) : Prop extends Holds s', Keeps s s' where
  bufdata : s'.bufdata = false
  fcIndex : s'.fcIndex = i
  bufpos : s'.bfBufpos = 0
  bufend : s'.bfBufend = b

omit h in
theorem Selected.after {s1 : Blockfile α} {i b : Nat} (hk : Keeps s s1)
    (h : Selected s1 s' i b) : Selected s s' i b :=
  { hk.trans h.toKeeps, h with }

omit h in
/-- Another chunk is selected when the buffer holds nothing that the store does not. -/
theorem select_spec (wasprev : Bool) (i : Nat) (h : Holds s) (hclean : s.changed = false)
    (hprev : wasprev = true → s.chunk = true ∧ i = s.fcIndex + 1) :
    Selected s { kblockfileUpdatebufend
      { s with wasprev := wasprev, bufdata := false, chunk := false, fcIndex := i } with
      bfBufpos := 0 } i (selectedEnd s.bfChunksize s.bfFilesize i) := by
  have h' : Holds
      { s with wasprev := wasprev, bufdata := false, chunk := false, fcIndex := i } := by
    refine ⟨h.pos, h.small, h.fits, fun hh => absurd hh Bool.false_ne_true,
      fun hh => absurd hh Bool.false_ne_true, fun _ hw => ?_,
      fun hh => absurd hh Bool.false_ne_true, fun hh => absurd hh Bool.false_ne_true,
      fun hh => absurd (hclean.symm.trans hh) Bool.false_ne_true,
      fun hh => absurd hh Bool.false_ne_true, h.saved, h.within⟩
    obtain ⟨hchunk, hi⟩ := hprev hw
    exact ⟨s.fcIndex, hi, h.address hchunk⟩
  rw [updatebufend_eq h']
  refine ⟨{ h' with within := selectedEnd_le .. },
    ⟨rfl, rfl, fun p => contents_congr h.pos (by rfl) p fun j off hoff _ => ?_,
      rfl, rfl, rfl⟩, rfl, rfl, rfl, rfl⟩
  simp only [Bool.false_eq_true, false_and, if_false]
  split_ifs with hj
  · rw [hj.2, h.clean hj.1 hclean off hoff]
  · rfl

theorem selectnext_spec (hclean : s.changed = false)
    (hlast : s.fcIndex + 1 < 18446744073709551616) :
    Selected s (selectnext s) (s.fcIndex + 1)
      (selectedEnd s.bfChunksize s.bfFilesize (s.fcIndex + 1)) := by
  rw [selectnext, wrap64, Nat.mod_eq_of_lt hlast]
  exact select_spec _ _ h hclean fun hchunk => ⟨hchunk, rfl⟩

/-- **The next chunk**, after the one in the buffer. -/
theorem selectnextWithdata_spec (hb : s.bufdata = true)
    (hlast : s.fcIndex + 1 < 18446744073709551616) :
    ∃ s', kblockfileSelectnextchunkWithdata s = .ok s' ∧
      Selected s s' (s.fcIndex + 1) (selectedEnd s.bfChunksize s.bfFilesize (s.fcIndex + 1)) ∧
      s'.bfFilesaved = if s.changed then s.bfFilesize else s.bfFilesaved := by
  obtain ⟨hclean, hidx, -, hsaved⟩ := flushed_fields s
  have hk := h.flushed_keeps
  have hsel := selectnext_spec h.flushed_holds hclean (hidx ▸ hlast)
  refine ⟨selectnext (flushed s), ?_, ?_, ?_⟩
  · rw [kblockfileSelectnextchunkWithdata, if_neg (not_not.mpr hb), h.flushbuffer]
    rfl
  · rw [hidx, hk.chunksize, hk.filesize] at hsel
    exact hsel.after hk
  · rw [← hsaved, selectnext]
    unfold kblockfileUpdatebufend
    dsimp only
    split_ifs <;> rfl

/-- **The next chunk**, with nothing in the buffer. -/
theorem selectnextWithoutdata_spec (hb : s.bufdata = false)
    (hlast : s.fcIndex + 1 < 18446744073709551616) :
    ∃ s', kblockfileSelectnextchunkWithoutdata s = .ok s' ∧
      Selected s s' (s.fcIndex + 1)
        (selectedEnd s.bfChunksize s.bfFilesize (s.fcIndex + 1)) := by
  have hclean : s.changed = false := by
    rw [Bool.eq_false_iff]
    exact fun hc => absurd (hb.symm.trans (h.dirty hc)) Bool.false_ne_true
  refine ⟨selectnext s, ?_, selectnext_spec h hclean hlast⟩
  rw [kblockfileSelectnextchunkWithoutdata, hb, if_neg Bool.false_ne_true]

/-- **Specification of `kblockfile_selectchunk`.** -/
theorem selectchunk_spec (i : Nat) :
    ∃ s', kblockfileSelectchunk s i = .ok s' ∧
      (i = s.fcIndex ∧ s' = s ∨
        i ≠ s.fcIndex ∧ Selected s s' i (selectedEnd s.bfChunksize s.bfFilesize i)) := by
  unfold kblockfileSelectchunk
  by_cases hsame : i = s.fcIndex
  · exact ⟨s, if_pos hsame, .inl ⟨hsame, rfl⟩⟩
  rw [if_neg hsame]
  -- What is in the buffer is flushed first.
  obtain ⟨s1, hval, h1, hk, hclean, hidx⟩ : ∃ s1,
      (if s.bufdata then kblockfileFlushbuffer s else .ok s) = .ok s1 ∧ Holds s1 ∧ Keeps s s1 ∧
        s1.changed = false ∧ s1.fcIndex = s.fcIndex := by
    obtain ⟨hclean, hidx, -⟩ := flushed_fields s
    by_cases hb : s.bufdata = true
    · exact ⟨flushed s, by rw [if_pos hb, h.flushbuffer], h.flushed_holds, h.flushed_keeps,
        hclean, hidx⟩
    · refine ⟨s, if_neg hb, h, .refl s, Bool.eq_false_iff.mpr fun hc => hb (h.dirty hc), rfl⟩
  rw [hval]
  refine ⟨_, rfl, .inr ⟨hsame, ?_⟩⟩
  have hsel := select_spec (decide (i = wrap64 (s1.fcIndex + 1) ∧ s1.chunk)) i h1 hclean
    (by
      intro hw
      obtain ⟨hnext, hchunk⟩ := of_decide_eq_true hw
      exact ⟨hchunk, hnext.trans (Nat.mod_eq_of_lt (h1.low hchunk))⟩)
  rw [← hk.chunksize, ← hk.filesize]
  exact hsel.after hk

/-! ### Loading -/

theorem needChunk_spec (hb : s.bufdata = false) (hlow : s.fcIndex + 1 < 18446744073709551616) :
    needChunk s = .ok { s with fcData := some s.fcIndex, chunk := true } ∧
      Holds { s with fcData := some s.fcIndex, chunk := true } ∧
      Keeps s { s with fcData := some s.fcIndex, chunk := true } := by
  refine ⟨?_, ?_, ⟨rfl, rfl, fun _ => rfl, rfl, rfl, rfl⟩⟩
  · unfold needChunk
    by_cases hc : s.chunk = true
    · rw [if_pos hc, ← h.address hc, ← hc]
    rw [if_neg hc, kblockfileFindchunk, if_neg (Bool.eq_false_iff.mp hb)]
    by_cases hw : s.wasprev = true
    · obtain ⟨i, hi, hdata⟩ := h.prev (Bool.eq_false_iff.mpr hc) hw
      rw [if_pos hw, bftNextchunk, hdata, hi]
      rfl
    · rw [if_neg hw]
      rfl
  · exact { h with
      address := fun _ => rfl
      low := fun _ => hlow
      prev := fun hh => absurd hh.symm Bool.false_ne_true
      found := fun _ => rfl }

theorem loadbuffer_spec (hc : s.chunk = true) (hb : s.bufdata = false)
    (hin : s.fcIndex * s.bfChunksize < s.bfFilesize) :
    kblockfileLoadbuffer s = .ok { s with bfBuffer := s.chunks s.fcIndex, bufdata := true } ∧
      Holds { s with bfBuffer := s.chunks s.fcIndex, bufdata := true } ∧
      Keeps s { s with bfBuffer := s.chunks s.fcIndex, bufdata := true } := by
  have hcount := (h.chunkcount h.fits s.fcIndex).mpr hin
  refine ⟨?_, ?_, ⟨rfl, rfl, fun p => contents_congr h.pos (by rfl) p fun i off _ _ => ?_,
    rfl, rfl, rfl⟩⟩
  · have hok : ¬(kblockfileChunkcount s < s.fcIndex ∨ s.bufdata = true) := by
      rw [hb, kblockfileChunkcount]
      simp only [Bool.false_eq_true, or_false]
      omega
    rw [kblockfileLoadbuffer, if_neg hok, bftLoadchunk, h.address hc]
    rfl
  · exact { h with
      found := fun _ => hc
      inside := fun _ => hin
      dirty := fun _ => rfl
      clean := fun _ _ _ _ => rfl }
  · simp only [hb, true_and, Bool.false_eq_true, false_and, if_false]
    split_ifs with hi
    · rw [hi]
    · rfl

/-- The current chunk, which has bytes of the file, is found and loaded. -/
theorem findLoad_spec (hb : s.bufdata = false) (hin : s.fcIndex * s.bfChunksize < s.bfFilesize) :
    ∃ s', (needChunk s >>= kblockfileLoadbuffer) = .ok s' ∧ Holds s' ∧ Keeps s s' ∧
      s'.bufdata = true ∧ s'.changed = s.changed ∧ s'.fcIndex = s.fcIndex ∧
      s'.bfBufpos = s.bfBufpos ∧ s'.bfBufend = s.bfBufend ∧ s'.bfFilesaved = s.bfFilesaved := by
  have hfits := h.fits
  obtain ⟨hval, h1, hk1⟩ := needChunk_spec h hb (h.index_lt (by omega))
  obtain ⟨hval2, h2, hk2⟩ := loadbuffer_spec h1 rfl hb hin
  refine ⟨_, ?_, h2, hk1.trans hk2, rfl, rfl, rfl, rfl, rfl, rfl⟩
  rw [hval]
  exact hval2

end

end KosKernel.BlockFile
