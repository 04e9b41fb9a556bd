import KosKernel.BlockFile.Contents

/-!
# KosKernel.BlockFile.Read

**Reading a block file.** A read returns the contents from the cursor to the end of the
file, as far as it asks for them, when the end of the chunk in the buffer is known right,
and neither the size that is saved nor the last chunk is in the way.
-/

namespace KosKernel.BlockFile

open Slice

variable {α : Type} {s s' : Blockfile α}

/-- The place of the cursor. -/
def cursor (s : Blockfile α) : Nat := s.fcIndex * s.bfChunksize + s.bfBufpos

/-- The cursor is at `p`, and the file is the same. -/
structure Moved (s s' : Blockfile α) (p : Nat) : Prop extends Inv s', Keeps s s' where
  place : BlockFile.cursor s' = p

theorem Moved.after {s1 : Blockfile α} {p : Nat} (hk : Keeps s s1) (h : Moved s1 s' p) :
    Moved s s' p :=
  ⟨h.toInv, hk.trans h.toKeeps, h.place⟩

/-- A chunk of the store, when nothing is in the buffer. -/
theorem slice_chunks (hb : s.bufdata = false) {i n : Nat} (hn : n ≤ s.bfChunksize) :
    slice (s.chunks i) 0 n = slice (contents s) (i * s.bfChunksize) n := by
  refine slice_eq fun k hk => ?_
  rw [contents_at (Nat.lt_of_lt_of_le hk hn), hb, Nat.zero_add, if_neg (by simp)]

theorem slice_buffer (hb : s.bufdata = true) {off n : Nat} (hn : off + n ≤ s.bfChunksize) :
    slice s.bfBuffer off n = slice (contents s) (s.fcIndex * s.bfChunksize + off) n := by
  refine slice_eq fun k hk => ?_
  rw [Nat.add_assoc, contents_at (by omega), if_pos ⟨hb, rfl⟩]

/-! ### Whole chunks -/

/-- The end of chunk `j`, when chunk `i` was selected first, with the end `b`. -/
def endAt (chunksize filesize i b j : Nat) : Nat :=
  if j = i then b else selectedEnd chunksize filesize j

theorem readWhole_spec (count : Nat) (h : Holds s) (hb : s.bufdata = false)
    (hpos : s.bfBufpos = 0) (hin : (s.fcIndex + count) * s.bfChunksize ≤ s.bfFilesize) :
    ∃ s', readWhole count s =
        .ok (slice (contents s) (s.fcIndex * s.bfChunksize) (count * s.bfChunksize), s') ∧
      Selected s s' (s.fcIndex + count)
        (endAt s.bfChunksize s.bfFilesize s.fcIndex s.bfBufend (s.fcIndex + count)) := by
  induction count generalizing s with
  | zero =>
    refine ⟨s, by rw [Nat.zero_mul]; rfl, h, .refl s, hb, rfl, hpos, ?_⟩
    exact (if_pos rfl).symm
  | succ count ih =>
    have hlow : s.fcIndex + 1 < 18446744073709551616 := by
      have hle : s.fcIndex + (count + 1) ≤ (s.fcIndex + (count + 1)) * s.bfChunksize :=
        Nat.le_mul_of_pos_right _ h.pos
      have hfits := h.fits
      have hcs := h.pos
      omega
    obtain ⟨hfind, h1, hk1⟩ := needChunk_spec h hb hlow
    obtain ⟨s2, hnext, hsel⟩ := selectnextWithoutdata_spec h1 hb hlow
    have hsel := hsel.after hk1
    have hcs : s2.bfChunksize = s.bfChunksize := hsel.chunksize
    have hidx : s2.fcIndex = s.fcIndex + 1 := hsel.fcIndex
    obtain ⟨s', hrest, hsel'⟩ := ih hsel.toHolds hsel.bufdata hsel.bufpos (by
      rw [hcs, hidx, hsel.filesize, Nat.add_assoc, Nat.add_comm 1 count]
      exact hin)
    refine ⟨s', ?_, ?_⟩
    · simp only [readWhole, hfind, bftLoadchunk, hnext, hrest, bind, Except.bind]
      rw [hcs, hidx, funext hsel.contents, slice_chunks hb (Nat.le_refl _), Nat.add_mul count,
        Nat.one_mul, Nat.add_comm (count * _), slice_add, Nat.add_mul, Nat.one_mul]
      rfl
    · have hsel' := hsel'.after hsel.toKeeps
      rw [hcs, hidx, hsel.filesize, hsel.bufend, Nat.add_assoc, Nat.add_comm 1 count] at hsel'
      have hend : endAt s.bfChunksize s.bfFilesize (s.fcIndex + 1)
          (selectedEnd s.bfChunksize s.bfFilesize (s.fcIndex + 1)) (s.fcIndex + (count + 1)) =
          endAt s.bfChunksize s.bfFilesize s.fcIndex s.bfBufend (s.fcIndex + (count + 1)) := by
        unfold endAt
        rw [if_neg (by omega : ¬s.fcIndex + (count + 1) = s.fcIndex)]
        split_ifs with hlast
        · rw [hlast]
        · rfl
      rw [← hend]
      exact hsel'

/-! ### The last chunk -/

theorem readLast_spec (h : Holds s) (hb : s.bufdata = false) (hpos : s.bfBufpos = 0) {r : Nat}
    (hr : r < s.bfChunksize) (hend : r ≤ s.bfBufend)
    (hin : s.fcIndex * s.bfChunksize + r ≤ s.bfFilesize) :
    ∃ s', readLast s r = .ok (slice (contents s) (s.fcIndex * s.bfChunksize) r, s') ∧
      Moved s s' (s.fcIndex * s.bfChunksize + r) := by
  have hfits := h.fits
  by_cases hr0 : r = 0
  · subst hr0
    refine ⟨s, if_pos rfl, ⟨h, by omega, by omega⟩, .refl s, ?_⟩
    rw [cursor, hpos]
  obtain ⟨s1, hload, h1, hk, hb1, -, hidx, hpos1, hend1, -⟩ := findLoad_spec h hb (by omega)
  have hcs := hk.chunksize
  have hfine : ¬(s1.bfBufpos ≠ 0 ∨ s1.bfBufend < r ∨ r = s1.bfChunksize) := by
    omega
  refine ⟨{ s1 with bfBufpos := r }, ?_, ⟨⟨?_, ?_, ?_⟩, ?_, ?_⟩⟩
  · simp only [readLast, if_neg hr0]
    rw [← bind_assoc, bind_of_ok hload, if_neg hfine, slice_buffer hb1 (by omega),
      funext hk.contents, hidx, hcs]
    rfl
  · exact { h1 with }
  · show r < s1.bfChunksize
    omega
  · show s1.fcIndex * s1.bfChunksize + r < _
    rw [hidx, hcs]
    omega
  · exact hk.trans ⟨rfl, rfl, fun _ => rfl, rfl, rfl, rfl⟩
  · show s1.fcIndex * s1.bfChunksize + r = _
    rw [hidx, hcs]

/-! ### From a chunk on -/

/-- `n` bytes from chunk `i` on are read right: the rest of the file is not cut down below
them, and the chunk they end in is known to be that long. -/
def TailSound (chunksize filesize i b n : Nat) : Prop :=
  i * chunksize < filesize →
    (n ≤ wrap32 (filesize - i * chunksize) ∨ filesize - i * chunksize < 4294967296) ∧
      min n (filesize - i * chunksize) % chunksize ≤
        endAt chunksize filesize i b (i + min n (filesize - i * chunksize) / chunksize)

/-- The size of a transfer, when the rest of the file is not cut down below it. -/
theorem transfer_eq {n rest : Nat} (h : n ≤ wrap32 rest ∨ rest < 4294967296) :
    (if wrap32 rest < n then wrap32 rest else n) = min n rest := by
  unfold wrap32 at *
  rcases h with h | h
  · rw [if_neg (by omega)]
    omega
  · rw [Nat.mod_eq_of_lt h]
    split_ifs <;> omega

theorem readTail_spec (h : Inv s) {n : Nat} (hn : n ≠ 0) (hsaved : s.bfFilesaved = s.bfFilesize)
    (hsound : cursor s < s.bfFilesize → s.bufdata = false ∧ s.bfBufpos = 0 ∧
      TailSound s.bfChunksize s.bfFilesize s.fcIndex s.bfBufend n) (out : List α) :
    ∃ s', readTail s n out = .ok (.keOk,
        out ++ slice (contents s) (cursor s) (min n (s.bfFilesize - cursor s)), s') ∧
      Moved s s' (cursor s + min n (s.bfFilesize - cursor s)) := by
  have hstart : ¬(n = 0 ∨ s.bfFilesize ≠ s.bfFilesaved) := by
    rw [hsaved]
    simpa using hn
  have hposition : position s = cursor s := h.position
  simp only [readTail, if_neg hstart, hposition]
  by_cases hlt : cursor s < s.bfFilesize
  · obtain ⟨hb, hpos, htail⟩ := hsound hlt
    have hcur : cursor s = s.fcIndex * s.bfChunksize := by rw [cursor, hpos, Nat.add_zero]
    rw [hcur] at hlt ⊢
    obtain ⟨hcut, hend⟩ := htail hlt
    have hdiv := Nat.div_add_mod (min n (s.bfFilesize - s.fcIndex * s.bfChunksize)) s.bfChunksize
    have hmod := Nat.mod_lt (min n (s.bfFilesize - s.fcIndex * s.bfChunksize)) h.pos
    rw [Nat.mul_comm] at hdiv
    rw [if_pos hlt, if_neg (not_not.mpr hpos), transfer_eq hcut]
    generalize hm : min n (s.bfFilesize - s.fcIndex * s.bfChunksize) = m at hend hdiv hmod ⊢
    have hwhole : (s.fcIndex + m / s.bfChunksize) * s.bfChunksize ≤ s.bfFilesize := by
      rw [Nat.add_mul]
      omega
    obtain ⟨s1, hread, hsel⟩ := readWhole_spec (m / s.bfChunksize) h.toHolds hb hpos hwhole
    have hcs := hsel.chunksize
    obtain ⟨s', hlast, hmoved⟩ := readLast_spec hsel.toHolds hsel.bufdata hsel.bufpos
      (r := m % s.bfChunksize) (by rw [hcs]; exact hmod) (by rw [hsel.bufend]; exact hend) (by
        rw [hsel.fcIndex, hcs, hsel.filesize, Nat.add_mul]
        omega)
    rw [hsel.fcIndex, hcs, Nat.add_mul, Nat.add_assoc, hdiv] at hmoved
    refine ⟨s', ?_, hmoved.after hsel.toKeeps⟩
    simp only [hread, hcs, hlast, bind, Except.bind]
    rw [hsel.fcIndex, funext hsel.contents, Nat.add_mul, List.append_assoc, ← slice_add, hdiv]
    rfl
  · rw [if_neg hlt, show s.bfFilesize - cursor s = 0 by omega, Nat.min_zero, slice_zero,
      List.append_nil, Nat.add_zero]
    exact ⟨s, rfl, h, .refl s, rfl⟩

/-! ### From the buffer on -/

/-- `n` bytes from the cursor on are read right, when its chunk is in the buffer: the buffer
is taken to end where the chunk does, or behind what is read, and where the read goes on the
size is saved. -/
def BufferSound (s : Blockfile α) (n : Nat) : Prop :=
  n = 0 ∨ s.bfBufpos ≤ s.bfBufend ∧
    min n (s.bfBufend - s.bfBufpos) = min n (chunkEnd s - s.bfBufpos) ∧
    (0 < s.bfBufend - s.bfBufpos → s.bfBufend - s.bfBufpos < n →
      (s.bfFilesaved = s.bfFilesize ∨ s.changed = true ∧ s.bfBufend = s.bfChunksize) ∧
        TailSound s.bfChunksize s.bfFilesize (s.fcIndex + 1)
          (selectedEnd s.bfChunksize s.bfFilesize (s.fcIndex + 1))
          (n - (s.bfBufend - s.bfBufpos)))

theorem bufavail_eq (h : Inv s) {n : Nat} (hsound : BufferSound s n) :
    (if n < wrap32 (s.bfBufend + 4294967296 - s.bfBufpos) then n
      else wrap32 (s.bfBufend + 4294967296 - s.bfBufpos)) =
      min n (chunkEnd s - s.bfBufpos) := by
  rcases hsound with rfl | ⟨hle, hmin, -⟩
  · rw [Nat.zero_min]
    split_ifs <;> omega
  have hcs := h.small
  have hin := h.within
  have hwrap : wrap32 (s.bfBufend + 4294967296 - s.bfBufpos) = s.bfBufend - s.bfBufpos := by
    unfold wrap32
    omega
  split_ifs <;> omega

/-- The chunk at the cursor has what is left of the file, or what is left of itself. -/
theorem chunkEnd_sub (s : Blockfile α) :
    chunkEnd s - s.bfBufpos = min (s.bfChunksize - s.bfBufpos) (s.bfFilesize - cursor s) := by
  unfold chunkEnd cursor
  omega

/-- The cursor is moved inside of the chunk in the buffer, or to the chunk behind. -/
theorem readNext_spec (h : Inv s) (hb : s.bufdata = true) (got : Nat)
    (hgot : s.bfBufpos + got ≤ s.bfChunksize) (hin : cursor s + got ≤ s.bfFilesize) :
    ∃ s', readNext { s with bfBufpos := s.bfBufpos + got } = .ok s' ∧
      Moved s s' (cursor s + got) ∧
      (s.bfBufpos + got = s.bfChunksize → s'.bufdata = false ∧ s'.bfBufpos = 0 ∧
        s'.fcIndex = s.fcIndex + 1 ∧
        s'.bfBufend = selectedEnd s.bfChunksize s.bfFilesize (s.fcIndex + 1) ∧
        s'.bfFilesaved = if s.changed then s.bfFilesize else s.bfFilesaved) ∧
      (s.bfBufpos + got ≠ s.bfChunksize → s' = { s with bfBufpos := s.bfBufpos + got }) := by
  have hfits := h.fits
  have hcs := h.pos
  have hcur : cursor s + got = s.fcIndex * s.bfChunksize + (s.bfBufpos + got) := by
    rw [cursor, Nat.add_assoc]
  have h1 : Holds { s with bfBufpos := s.bfBufpos + got } := { h with }
  by_cases hfull : s.bfBufpos + got = s.bfChunksize
  · obtain ⟨s', hval, hsel, hsaved⟩ := selectnextWithdata_spec h1 hb (h.low (h.found hb))
    have hplace : cursor s' = cursor s + got := by
      rw [cursor, hsel.fcIndex, hsel.bufpos, hsel.chunksize, hcur, hfull, Nat.add_mul, Nat.one_mul,
        Nat.add_zero]
    refine ⟨s', by rw [readNext, if_pos hfull, hval], ⟨⟨hsel.toHolds, ?_, ?_⟩, ?_, hplace⟩,
      fun _ => ⟨hsel.bufdata, hsel.bufpos, hsel.fcIndex, hsel.bufend, hsaved⟩,
      fun hne => absurd hfull hne⟩
    · rw [hsel.bufpos, hsel.chunksize]
      exact hcs
    · change cursor s' < _
      omega
    · exact { hsel with }
  · refine ⟨_, by rw [readNext, if_neg hfull], ⟨⟨h1, ?_, ?_⟩,
      ⟨rfl, rfl, fun _ => rfl, rfl, rfl, rfl⟩,
      hcur.symm⟩, fun hf => absurd hf hfull, fun _ => rfl⟩
    · show s.bfBufpos + got < s.bfChunksize
      omega
    · show s.fcIndex * s.bfChunksize + (s.bfBufpos + got) < _
      omega

/-- What a read gets from a buffer with room for `room` bytes, `rest` bytes before the end of
the file. -/
theorem got_cases {n room rest got : Nat} (h : min n (min room rest) = got) :
    got ≤ room ∧ got ≤ rest ∧ (n = got ∧ min n rest = got ∨
      got < n ∧ got = min room rest ∧ (got ≠ room → got = rest) ∧
        got + min (n - got) (rest - got) = min n rest) := by
  omega

theorem readBuffer_spec (h : Inv s) (hb : s.bufdata = true) {n : Nat} (hsound : BufferSound s n) :
    ∃ s', readBuffer s n = .ok (.keOk,
        slice (contents s) (cursor s) (min n (s.bfFilesize - cursor s)), s') ∧
      Moved s s' (cursor s + min n (s.bfFilesize - cursor s)) := by
  have hpos := h.bufpos
  have havail := bufavail_eq h hsound
  unfold BufferSound at hsound
  rw [chunkEnd_sub] at havail hsound
  generalize hgot : min n (min (s.bfChunksize - s.bfBufpos) (s.bfFilesize - cursor s)) = got
    at havail hsound
  obtain ⟨hroom, hrest, hcases⟩ := got_cases hgot
  have hover : ¬s.bfChunksize < s.bfBufpos + got := by omega
  simp only [readBuffer, havail, if_neg hover]
  rw [slice_buffer hb (by omega)]
  by_cases hzero : got = 0
  · subst hzero
    have hnone : min n (s.bfFilesize - cursor s) = 0 := by omega
    rw [hnone, if_pos rfl]
    exact ⟨s, rfl, h, .refl s, rfl⟩
  obtain ⟨s1, hnext, hmoved, hfull, hpart⟩ := readNext_spec h hb got (by omega) (by omega)
  rw [if_neg hzero, bind_of_ok hnext]
  obtain ⟨hall, hmin⟩ | ⟨hmore, -, hgoes, hsum⟩ := hcases
  · rw [if_pos hall, hmin]
    exact ⟨s1, rfl, hmoved⟩
  -- The buffer did not suffice: the chunk or the file was read to its end.
  obtain ⟨hle, havail', hon⟩ := hsound.resolve_left (by omega)
  have hend : s.bfBufend - s.bfBufpos = got := by omega
  obtain ⟨hsaved, htail⟩ := hon (by omega) (by omega)
  rw [hend] at htail
  have hplace := hmoved.place
  obtain ⟨s', hval, hmoved'⟩ := readTail_spec hmoved.toInv (n := n - got) (by omega)
    (by
      rw [hmoved.filesize]
      by_cases hf : s.bfBufpos + got = s.bfChunksize
      · rw [(hfull hf).2.2.2.2]
        split_ifs with hc
        · rfl
        · exact hsaved.resolve_right fun hh => hc hh.1
      · rw [hpart hf]
        exact hsaved.resolve_right fun hh => hf (by omega))
    (by
      rw [hmoved.filesize, hmoved.chunksize, hplace]
      intro hlt
      have hf : s.bfBufpos + got = s.bfChunksize := by
        by_contra hf
        omega
      obtain ⟨hb', hpos', hidx', hend', -⟩ := hfull hf
      rw [hidx', hend']
      exact ⟨hb', hpos', htail⟩)
    (slice (contents s) (cursor s) got)
  rw [if_neg (by omega)]
  rw [hplace, hmoved.filesize, funext hmoved.contents, ← slice_add, Nat.sub_add_eq, hsum]
    at hval
  rw [hplace, hmoved.filesize, Nat.add_assoc, Nat.sub_add_eq, hsum] at hmoved'
  exact ⟨s', hval, hmoved'.after hmoved.toKeeps⟩

/-! ### The call -/

/-- `n` bytes from the cursor on are read right. -/
def ReadSound (s : Blockfile α) (n : Nat) : Prop :=
  if s.bufdata then BufferSound s n
  else if s.bfBufpos = 0 then
    n = 0 ∨ s.bfFilesaved = s.bfFilesize ∧
      TailSound s.bfChunksize s.bfFilesize s.fcIndex s.bfBufend n
  else if s.bfBufend < s.bfBufpos then n = 0 ∨ chunkEnd s ≤ s.bfBufpos
  else s.fcIndex * s.bfChunksize < s.bfFilesize ∧ BufferSound s n

/-- **Specification of `_kblockfile_read`.** -/
theorem kblockfileRead_spec (h : Inv s) (hread : s.canread = true) {n : Nat}
    (hsound : ReadSound s n) :
    ∃ s', kblockfileRead s n = .ok (.keOk,
        slice (contents s) (cursor s) (min n (s.bfFilesize - cursor s)), s') ∧
      Moved s s' (cursor s + min n (s.bfFilesize - cursor s)) := by
  have hpos := h.bufpos
  have hsub := chunkEnd_sub s
  simp only [kblockfileRead, if_neg (Nat.not_le.mpr hpos), hread, not_true, if_false]
  unfold ReadSound at hsound
  by_cases hb : s.bufdata = true
  · rw [if_pos hb] at hsound ⊢
    exact readBuffer_spec h hb hsound
  rw [if_neg hb] at hsound ⊢
  have hb' : s.bufdata = false := Bool.eq_false_iff.mpr hb
  by_cases hz : s.bfBufpos = 0
  · rw [if_pos hz] at hsound
    rw [if_neg (not_not.mpr hz)]
    by_cases hn : n = 0
    · rw [if_pos hn, hn, Nat.zero_min]
      exact ⟨s, rfl, h, .refl s, rfl⟩
    obtain ⟨hsaved, htail⟩ := hsound.resolve_left hn
    rw [if_neg hn]
    exact readTail_spec h hn hsaved (fun _ => ⟨hb', hz, htail⟩) []
  rw [if_neg hz] at hsound
  rw [if_pos hz]
  by_cases hout : s.bfBufend < s.bfBufpos
  · rw [if_pos hout] at hsound ⊢
    rw [show min n (s.bfFilesize - cursor s) = 0 by omega]
    exact ⟨s, rfl, h, .refl s, rfl⟩
  rw [if_neg hout] at hsound ⊢
  obtain ⟨hin, hbuf⟩ := hsound
  obtain ⟨s1, hload, h1, hk, hb1, hchanged, hidx, hpos1, hend1, hsaved1⟩ :=
    findLoad_spec h.toHolds hb' hin
  have hcur : cursor s1 = cursor s := by rw [cursor, cursor, hidx, hpos1, hk.chunksize]
  obtain ⟨s', hval, hmoved⟩ := readBuffer_spec (s := s1) (n := n)
    ⟨h1, by rw [hpos1, hk.chunksize]; exact hpos, by
      rw [hidx, hpos1, hk.chunksize]
      exact h.cursor⟩ hb1
    (by
      unfold BufferSound chunkEnd at *
      rw [hidx, hpos1, hend1, hsaved1, hchanged, hk.chunksize, hk.filesize]
      exact hbuf)
  rw [hcur, hk.filesize, funext hk.contents] at hval
  rw [hcur, hk.filesize] at hmoved
  refine ⟨s', ?_, hmoved.after hk⟩
  rw [if_neg (by omega), ← bind_assoc, bind_of_ok hload]
  exact hval

end KosKernel.BlockFile
