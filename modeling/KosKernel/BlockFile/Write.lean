import KosKernel.BlockFile.Read

/-!
# KosKernel.BlockFile.Write

**Writing a block file.** A write replaces the contents from the cursor on. The chunk in
the buffer, the whole chunks past the buffer, and the last, partial chunk are overlaid one
after the other; only then the size of the file is brought up to date.
-/

namespace KosKernel.BlockFile

open Function Slice List

variable {α : Type} {s s' : Blockfile α}

/-- The contents are overlaid with `data`, the size of the file is not touched. -/
structure Overlaid (s s' : Blockfile α) (start : Nat) (data : List α) : Prop where
  chunksize : s'.bfChunksize = s.bfChunksize
  filesize : s'.bfFilesize = s.bfFilesize
  contents : contents s' = copy (contents s) start data
  append : s'.append = s.append
  canread : s'.canread = s.canread
  canwrite : s'.canwrite = s.canwrite

/-- `data` has been written at `start`. -/
structure Wrote (s s' : Blockfile α) (start : Nat) (data : List α) : Prop extends Inv s' where
  chunksize : s'.bfChunksize = s.bfChunksize
  filesize : s'.bfFilesize = max s.bfFilesize (start + data.length)
  contents : ∀ p < s'.bfFilesize, contents s' p = copy (BlockFile.contents s) start data p
  place : BlockFile.cursor s' = start + data.length
  append : s'.append = s.append
  canread : s'.canread = s.canread
  canwrite : s'.canwrite = s.canwrite

theorem Keeps.overlaid (h : Keeps s s') (start : Nat) : Overlaid s s' start [] :=
  ⟨h.chunksize, h.filesize, by rw [copy_nil, funext h.contents], h.append, h.canread, h.canwrite⟩

variable {s1 : Blockfile α} {start : Nat} {data : List α}

section

variable {data' : List α} (h : Overlaid s s1 start data)

include h

theorem Overlaid.trans (h' : Overlaid s1 s' (start + data.length) data') :
    Overlaid s s' start (data ++ data') :=
  ⟨h'.chunksize.trans h.chunksize, h'.filesize.trans h.filesize,
    by rw [h'.contents, h.contents, copy_append], h'.append.trans h.append,
    h'.canread.trans h.canread, h'.canwrite.trans h.canwrite⟩

theorem Overlaid.keeps (hk : Keeps s1 s') : Overlaid s s' start data := by
  simpa only [append_nil] using h.trans (hk.overlaid _)

/-- Writing goes on behind what was overlaid. -/
theorem Overlaid.wrote (hw : Wrote s1 s' (start + data.length) data') :
    Wrote s s' start (data ++ data') := by
  refine ⟨hw.toInv, hw.chunksize.trans h.chunksize, ?_, fun p hp => ?_, ?_,
    hw.append.trans h.append, hw.canread.trans h.canread, hw.canwrite.trans h.canwrite⟩
  · rw [hw.filesize, h.filesize, length_append, Nat.add_assoc]
  · rw [hw.contents p hp, h.contents, copy_append]
  · rw [hw.place, length_append, Nat.add_assoc]

end

theorem Keeps.wrote (h : Keeps s s1) (hw : Wrote s1 s' start data) : Wrote s s' start data :=
  (h.overlaid start).wrote hw

/-- Contents that are overlaid inside of the current chunk are compared chunk by chunk. -/
theorem overlaid_at (hpos : 0 < s.bfChunksize) (hcs : s'.bfChunksize = s.bfChunksize) (off : Nat)
    (data : List α) (hdata : off + data.length ≤ s.bfChunksize) (p : Nat)
    (h : ∀ i k, k < s.bfChunksize → p = i * s.bfChunksize + k →
      (if s'.bufdata ∧ i = s'.fcIndex then s'.bfBuffer k else s'.chunks i k) =
        if i = s.fcIndex then copy (fun k => contents s (s.fcIndex * s.bfChunksize + k)) off data k
        else contents s (i * s.bfChunksize + k)) :
    contents s' p = copy (contents s) (s.fcIndex * s.bfChunksize + off) data p := by
  obtain ⟨i, k, hk, rfl⟩ := exists_at hpos p
  have hleft := contents_at (i := i) (hcs ▸ hk : k < s'.bfChunksize)
  rw [hcs] at hleft
  rw [copy_block hdata hk, hleft]
  exact h i k hk rfl

/-! ### The new size -/

/-- `endok:` brings the size up to date. -/
theorem writeEnd_spec (h : Inv s) (hfits : cursor s + s.bfChunksize ≤ 18446744073709551616) :
    Wrote s (writeEnd s) (cursor s) [] := by
  have hsize : (writeEnd s).bfFilesize = max s.bfFilesize (cursor s) := by
    rw [writeEnd, h.position, cursor]
  have hfits' := h.fits
  refine ⟨{ h with fits := ?_, inside := fun hb => ?_ }, rfl, hsize, fun p _ => ?_, rfl, rfl, rfl,
    rfl⟩
  · rw [hsize]
    change max s.bfFilesize (cursor s) + s.bfChunksize ≤ _
    omega
  · rw [hsize]
    exact Nat.lt_of_lt_of_le (h.inside hb) (Nat.le_max_left ..)
  · rw [copy_nil]
    rfl

/-! ### Whole chunks -/

theorem stored_spec (h : Holds s) (hb : s.bufdata = false) (hdata : data.length = s.bfChunksize)
    (buf : Nat → α) :
    Holds { s with chunks := update s.chunks s.fcIndex (copy buf 0 data) } ∧
      Overlaid s { s with chunks := update s.chunks s.fcIndex (copy buf 0 data) }
        (s.fcIndex * s.bfChunksize) data := by
  have hnb : ¬(s.bufdata = true) := Bool.eq_false_iff.mp hb
  refine ⟨{ h with clean := fun hb' => absurd hb' hnb }, rfl, rfl, ?_, rfl, rfl, rfl⟩
  funext p
  refine overlaid_at h.pos (by rfl) 0 data (by omega) p fun i k hk _ => ?_
  rw [if_neg (fun hh => hnb hh.1)]
  split_ifs with hi
  · rw [hi]
    refine (congrFun (update_self ..) k).trans ?_
    simp [copy, hdata, hk]
  · rw [contents_at hk, if_neg (fun hh => hnb hh.1)]
    exact congrFun (update_of_ne hi ..) k

variable {buf : List α}

theorem writeWhole_spec (count : Nat) (h : Holds s) (hb : s.bufdata = false) (hpos : s.bfBufpos = 0)
    (hlen : count * s.bfChunksize ≤ buf.length)
    (hfits : (s.fcIndex + count) * s.bfChunksize + s.bfChunksize ≤ 18446744073709551616) :
    ∃ s', writeWhole count s buf = .ok s' ∧ Holds s' ∧
      Overlaid s s' (s.fcIndex * s.bfChunksize) (buf.take (count * s.bfChunksize)) ∧
      s'.bufdata = false ∧ s'.fcIndex = s.fcIndex + count ∧ s'.bfBufpos = 0 := by
  induction count generalizing s buf with
  | zero =>
    refine ⟨s, rfl, h, ?_, hb, rfl, hpos⟩
    rw [Nat.zero_mul, take_zero]
    exact (Keeps.refl s).overlaid _
  | succ count ih =>
    have hcs := h.pos
    have hlow : s.fcIndex + 1 < 18446744073709551616 := by
      have hle : s.fcIndex + (count + 1) ≤ (s.fcIndex + (count + 1)) * s.bfChunksize :=
        Nat.le_mul_of_pos_right _ hcs
      omega
    rw [Nat.add_mul, Nat.one_mul] at hlen
    have htake : (buf.take s.bfChunksize).length = s.bfChunksize := by
      rw [length_take]
      omega
    obtain ⟨hfind, h1, hk1⟩ := needChunk_spec h hb hlow
    obtain ⟨h2, ho2⟩ := stored_spec h1 hb htake s.bfBuffer
    obtain ⟨s3, hnext, hsel⟩ := selectnextWithoutdata_spec h2 hb hlow
    have ho : Overlaid s s3 _ _ := { ho2.keeps hsel.toKeeps with }
    have hidx : s3.fcIndex = s.fcIndex + 1 := hsel.fcIndex
    have hcs3 : s3.bfChunksize = s.bfChunksize := hsel.chunksize
    obtain ⟨s', hrest, h', ho', hb', hidx', hpos'⟩ := ih hsel.toHolds hsel.bufdata hsel.bufpos
      (show count * s3.bfChunksize ≤ (buf.drop s.bfChunksize).length by
        rw [hcs3, length_drop]
        omega)
      (by rw [hidx, hcs3, Nat.add_assoc, Nat.add_comm 1 count]; exact hfits)
    refine ⟨s', ?_, h', ?_, hb', by rw [hidx', hidx]; omega, hpos'⟩
    · rw [writeWhole, bind_of_ok hfind]
      simp only [bftSavechunk]
      rw [bind_of_ok rfl, bind_of_ok hnext, hcs3]
      exact hrest
    · rw [Nat.add_mul, Nat.one_mul, Nat.add_comm, take_add]
      refine Overlaid.trans ho ?_
      rw [htake]
      rwa [hcs3, hidx, Nat.add_mul, Nat.one_mul] at ho'

/-! ### The last chunk -/

/-- What the last, partial chunk of a write leaves in the buffer, if `base` was there. -/
def lastChunk (s : Blockfile α) (base : Nat → α) (buf : List α) : Blockfile α :=
  { s with
    fcData := some s.fcIndex
    chunk := true
    bufdata := true
    bfBuffer := copy base 0 buf
    bfBufpos := buf.length
    bfBufend := max s.bfBufend buf.length
    changed := true }

section

variable (h : Holds s) (hb : s.bufdata = false)
  (hfits : s.fcIndex * s.bfChunksize + buf.length + s.bfChunksize ≤ 18446744073709551616)

include h hb hfits

theorem lastChunk_wrote (hbuf : 0 < buf.length) (hlen : buf.length < s.bfChunksize) {base : Nat → α}
    (hbase : s.fcIndex * s.bfChunksize < s.bfFilesize →
      ∀ k < s.bfChunksize, base k = s.chunks s.fcIndex k) :
    Wrote s (writeEnd (lastChunk s base buf)) (s.fcIndex * s.bfChunksize) buf := by
  have hfits' := h.fits
  have hwithin := h.within
  have hnb : ¬(s.bufdata = true) := Bool.eq_false_iff.mp hb
  have hlow := h.index_lt (by omega)
  have hplace : cursor (lastChunk s base buf) = s.fcIndex * s.bfChunksize + buf.length := rfl
  have hsize : (writeEnd (lastChunk s base buf)).bfFilesize =
      max s.bfFilesize (s.fcIndex * s.bfChunksize + buf.length) := by
    have hposition : position (lastChunk s base buf) = cursor (lastChunk s base buf) :=
      Nat.mod_eq_of_lt (by change cursor (lastChunk s base buf) < _; omega)
    rw [writeEnd, hposition, hplace]
    rfl
  refine ⟨⟨⟨h.pos, h.small, ?_, fun _ => rfl, fun _ => hlow,
    fun hc => absurd hc.symm Bool.false_ne_true, fun _ => rfl, fun _ => ?_, fun _ => rfl,
    fun _ hc => absurd hc.symm Bool.false_ne_true, h.saved, ?_⟩, hlen, ?_⟩, rfl, hsize,
    fun p hp => ?_, rfl, rfl, rfl, rfl⟩
  · rw [hsize]
    change max s.bfFilesize (s.fcIndex * s.bfChunksize + buf.length) + s.bfChunksize ≤ _
    omega
  · rw [hsize]
    change s.fcIndex * s.bfChunksize < _
    omega
  · change max s.bfBufend buf.length ≤ s.bfChunksize
    omega
  · change s.fcIndex * s.bfChunksize + buf.length < _
    omega
  · rw [hsize] at hp
    refine overlaid_at h.pos (by rfl) 0 buf (by omega) p fun i k hk hpk => ?_
    change (if true = true ∧ i = s.fcIndex then copy base 0 buf k else s.chunks i k) = _
    by_cases hi : i = s.fcIndex
    · rw [if_pos ⟨rfl, hi⟩, if_pos hi]
      by_cases hkb : k < buf.length
      · simp [copy, hkb]
      -- Behind what is written there are bytes of the file only if the chunk was loaded.
      rw [copy_of_ge (by omega), copy_of_ge (by omega), contents_at hk,
        if_neg (fun hh => hnb hh.1)]
      rw [hi] at hpk
      exact hbase (by omega) k hk
    · rw [if_neg (fun hh => hi hh.2), if_neg hi, contents_at hk, if_neg (fun hh => hnb hh.1)]

theorem writeLast_spec (hpos : s.bfBufpos = 0) (hlen : buf.length < s.bfChunksize) :
    ∃ s', writeLast s buf = .ok s' ∧
      Wrote s (writeEnd s') (s.fcIndex * s.bfChunksize) buf := by
  by_cases hzero : buf.length = 0
  · have hnil : buf = [] := length_eq_zero_iff.mp hzero
    have hcur : cursor s = s.fcIndex * s.bfChunksize := by rw [cursor, hpos, Nat.add_zero]
    refine ⟨s, if_pos hzero, ?_⟩
    rw [hnil, ← hcur]
    refine writeEnd_spec ⟨h, by omega, ?_⟩ (by omega)
    change cursor s < _
    omega
  obtain ⟨hfind, h1, hk1⟩ := needChunk_spec h hb (h.index_lt (by omega))
  -- The chunk is loaded, or what was in the buffer stays there.
  obtain ⟨base, hload, hbase⟩ : ∃ base : Nat → α,
      writeLoad { s with fcData := some s.fcIndex, chunk := true } true =
        .ok { s with
          fcData := some s.fcIndex, chunk := true, bufdata := true, bfBuffer := base } ∧
      (s.fcIndex * s.bfChunksize < s.bfFilesize →
        ∀ k < s.bfChunksize, base k = s.chunks s.fcIndex k) := by
    have hstart : chunkStart { s with fcData := some s.fcIndex, chunk := true } =
        s.fcIndex * s.bfChunksize := Nat.mod_eq_of_lt (by dsimp only; omega)
    unfold writeLoad
    rw [hstart]
    by_cases hin : s.fcIndex * s.bfChunksize < s.bfFilesize
    · rw [if_pos hin]
      exact ⟨s.chunks s.fcIndex, (loadbuffer_spec h1 rfl hb hin).1, fun _ _ _ => rfl⟩
    · rw [if_neg hin]
      exact ⟨s.bfBuffer, rfl, fun hh => absurd hh hin⟩
  refine ⟨lastChunk s base buf, ?_,
    lastChunk_wrote h hb hfits (Nat.pos_of_ne_zero hzero) hlen hbase⟩
  rw [writeLast, if_neg hzero, bind_of_ok hfind, if_neg (not_not.mpr hpos), bind_of_ok hload,
    if_neg (Nat.not_le.mpr hlen)]
  rfl

theorem writeTail_spec (hpos : s.bfBufpos = 0) (hbuf : buf.length ≠ 0) (wsize : Nat) :
    ∃ s', writeTail s buf wsize = .ok (.keOk, wsize + buf.length, s') ∧
      Wrote s s' (s.fcIndex * s.bfChunksize) buf := by
  have hdiv := Nat.div_add_mod buf.length s.bfChunksize
  have hmod := Nat.mod_lt buf.length h.pos
  rw [Nat.mul_comm] at hdiv
  have hstart : ¬(buf.length = 0 ∨ s.bfBufpos ≠ 0) := fun hh =>
    hh.elim hbuf fun hp => hp hpos
  obtain ⟨s1, hwhole, h1, ho, hb1, hidx, hpos1⟩ := writeWhole_spec (buf.length / s.bfChunksize) h
    hb hpos (show _ ≤ buf.length by omega) (by rw [Nat.add_mul]; omega)
  have hcs := ho.chunksize
  have htake : (buf.take (buf.length / s.bfChunksize * s.bfChunksize)).length =
      buf.length / s.bfChunksize * s.bfChunksize := by
    rw [length_take]
    omega
  have hdrop : (buf.drop (buf.length / s.bfChunksize * s.bfChunksize)).length =
      buf.length % s.bfChunksize := by
    rw [length_drop]
    omega
  obtain ⟨s2, hlast, hw⟩ := writeLast_spec h1 hb1
    (by rw [hdrop, hcs, hidx, Nat.add_mul]; omega) hpos1
    (show (buf.drop (buf.length / s.bfChunksize * s.bfChunksize)).length < _ by
      rw [hdrop, hcs]
      exact hmod)
  rw [hidx, hcs, Nat.add_mul, ← htake] at hw
  have hw' := ho.wrote hw
  rw [htake, take_append_drop] at hw'
  refine ⟨writeEnd s2, ?_, hw'⟩
  simp only [writeTail, if_neg hstart]
  rw [bind_of_ok hwhole, bind_of_ok hlast]
  rfl

end

/-! ### From the buffer on -/

/-- The part of a write that goes into the buffer. -/
def buffered (s : Blockfile α) (buf : List α) : Blockfile α :=
  { s with
    bfBuffer := copy s.bfBuffer s.bfBufpos buf
    bfBufpos := s.bfBufpos + buf.length
    changed := true }

theorem buffered_spec (h : Holds s) (hb : s.bufdata = true)
    (hbuf : s.bfBufpos + buf.length ≤ s.bfChunksize) :
    Holds (buffered s buf) ∧ Overlaid s (buffered s buf) (cursor s) buf := by
  refine ⟨{ h with
    dirty := fun _ => hb
    clean := fun _ hc => absurd hc.symm Bool.false_ne_true }, rfl, rfl, ?_, rfl, rfl, rfl⟩
  funext p
  refine overlaid_at h.pos (by rfl) s.bfBufpos buf hbuf p fun i k hk _ => ?_
  change (if s.bufdata = true ∧ i = s.fcIndex then copy s.bfBuffer s.bfBufpos buf k
    else s.chunks i k) = _
  by_cases hi : i = s.fcIndex
  · rw [if_pos ⟨hb, hi⟩, if_pos hi]
    have hold : contents s (s.fcIndex * s.bfChunksize + k) = s.bfBuffer k := by
      rw [contents_at hk, if_pos ⟨hb, rfl⟩]
    simp only [copy, hold]
  · rw [if_neg (fun hh => hi hh.2), if_neg hi, contents_at hk, if_neg (fun hh => hi hh.2)]

/-- Behind what was written the next chunk is selected, or the buffer goes on. -/
theorem writeNext_spec (h : Holds s) (hb : s.bufdata = true) (hpos : s.bfBufpos ≤ s.bfChunksize)
    (hfits : cursor s + s.bfChunksize ≤ 18446744073709551616) :
    ∃ s', writeNext s = .ok s' ∧ Moved s s' (cursor s) ∧
      (s.bfBufpos = s.bfChunksize → s'.bufdata = false ∧ s'.bfBufpos = 0) := by
  have hcs := h.pos
  unfold writeNext
  by_cases hfull : s.bfBufpos = s.bfChunksize
  · obtain ⟨s', hval, hsel, -⟩ := selectnextWithdata_spec h hb (h.low (h.found hb))
    have hplace : cursor s' = cursor s := by
      rw [cursor, hsel.fcIndex, hsel.bufpos, hsel.chunksize, cursor, hfull, Nat.add_mul,
        Nat.one_mul, Nat.add_zero]
    rw [if_pos hfull]
    refine ⟨s', hval, ⟨⟨hsel.toHolds, ?_, ?_⟩, hsel.toKeeps, hplace⟩,
      fun _ => ⟨hsel.bufdata, hsel.bufpos⟩⟩
    · rw [hsel.bufpos, hsel.chunksize]
      exact hcs
    · change cursor s' < _
      omega
  · have hwithin := h.within
    rw [if_neg hfull]
    refine ⟨_, rfl, ⟨⟨{ h with within := ?_ }, ?_, ?_⟩, { Keeps.refl s with }, rfl⟩,
      fun hf => absurd hf hfull⟩
    · change max s.bfBufend s.bfBufpos ≤ s.bfChunksize
      omega
    · change s.bfBufpos < s.bfChunksize
      omega
    · change cursor s < _
      omega

theorem writeBuffer_spec (h : Holds s) (hb : s.bufdata = true) (hpos : s.bfBufpos ≤ s.bfChunksize)
    (hfits : cursor s + buf.length + s.bfChunksize ≤ 18446744073709551616) :
    ∃ s', writeBuffer s buf = .ok (.keOk, buf.length, s') ∧ Wrote s s' (cursor s) buf := by
  have havail : (if buf.length < s.bfChunksize - s.bfBufpos then buf.length
      else s.bfChunksize - s.bfBufpos) = min buf.length (s.bfChunksize - s.bfBufpos) := by
    split_ifs <;> omega
  generalize hn : min buf.length (s.bfChunksize - s.bfBufpos) = n at havail
  have htake : (buf.take n).length = n := by
    rw [length_take]
    omega
  obtain ⟨h1, ho⟩ := buffered_spec h hb (show s.bfBufpos + (buf.take n).length ≤ _ by omega)
  have hcur : cursor (buffered s (buf.take n)) = cursor s + n := by
    change s.fcIndex * s.bfChunksize + (s.bfBufpos + (buf.take n).length) = _
    rw [htake, cursor, Nat.add_assoc]
  have hpos1 : (buffered s (buf.take n)).bfBufpos = s.bfBufpos + n := by
    change s.bfBufpos + (buf.take n).length = _
    rw [htake]
  obtain ⟨s2, hnext, hmoved, hfull⟩ := writeNext_spec h1 hb
    (by rw [hpos1]; change _ ≤ s.bfChunksize; omega)
    (by rw [hcur]; change _ + s.bfChunksize ≤ _; omega)
  have ho2 := ho.keeps hmoved.toKeeps
  have hcs := ho2.chunksize
  have hplace : cursor s2 = cursor s + (buf.take n).length := by rw [hmoved.place, hcur, htake]
  have hstate : { s with
      bfBuffer := copy s.bfBuffer s.bfBufpos (buf.take n)
      bfBufpos := s.bfBufpos + n
      changed := true } = buffered s (buf.take n) := by
    rw [buffered, htake]
  simp only [writeBuffer, havail, hstate]
  rw [bind_of_ok hnext]
  by_cases hall : buf.length = n
  · rw [if_pos hall]
    have hw := writeEnd_spec hmoved.toInv (by rw [hcs, hplace, htake]; omega)
    rw [hplace] at hw
    have hw' := ho2.wrote hw
    rw [append_nil, take_of_length_le (by omega)] at hw'
    exact ⟨writeEnd s2, by rw [hall]; rfl, hw'⟩
  -- The chunk is full, so the cursor is at the start of the next one.
  obtain ⟨hb2, hpos2⟩ := hfull (by rw [hpos1]; change _ = s.bfChunksize; omega)
  have hstart : s2.fcIndex * s2.bfChunksize = cursor s + (buf.take n).length := by
    rw [← hplace, cursor, hpos2, Nat.add_zero]
  have hdrop : (buf.drop n).length = buf.length - n := length_drop
  obtain ⟨s', hval, hw⟩ := writeTail_spec hmoved.toHolds hb2
    (by rw [hstart, hcs, hdrop, htake]; omega) hpos2 (show (buf.drop n).length ≠ 0 by omega) n
  rw [hstart] at hw
  have hw' := ho2.wrote hw
  rw [take_append_drop] at hw'
  rw [if_neg hall, hval, hdrop, show n + (buf.length - n) = buf.length by omega]
  exact ⟨s', rfl, hw'⟩

/-! ### Appending -/

/-- Where a write starts: a file that is open for appending is written at its end. -/
def writeStart (s : Blockfile α) : Nat := if s.append then s.bfFilesize else cursor s

/-- The cursor gets to the end of the file before a write that appends: the end of the last
chunk is known right, or the cursor is at the end already. -/
def AppendSound (s : Blockfile α) : Prop :=
  s.append = true →
    if s.fcIndex * s.bfChunksize < s.bfFilesize then
      if s.bfFilesize ≤ (s.fcIndex + 1) * s.bfChunksize then s.bfBufend = chunkEnd s
      else s.bfFilesize % s.bfChunksize ≠ 0
    else cursor s = s.bfFilesize

theorem selectedEnd_last {chunksize filesize i : Nat} (hmod : filesize % chunksize ≠ 0)
    (hin : i * chunksize < filesize) (hlast : filesize ≤ (i + 1) * chunksize) :
    i * chunksize + selectedEnd chunksize filesize i = filesize := by
  have hne : filesize ≠ (i + 1) * chunksize := fun heq => hmod (by rw [heq, Nat.mul_mod_left])
  rw [selectedEnd, if_neg hne]
  rw [Nat.add_mul, Nat.one_mul] at hlast
  omega

/-- The test of `_kblockfile_write` for being in the last chunk. -/
theorem fcIndex_last (h : Holds s) (hin : s.fcIndex * s.bfChunksize ≤ s.bfFilesize) :
    s.fcIndex = wrap64 (kblockfileChunkcount s + 18446744073709551615) ↔
      s.fcIndex * s.bfChunksize < s.bfFilesize ∧
        s.bfFilesize ≤ (s.fcIndex + 1) * s.bfChunksize := by
  have hcs := h.pos
  have hfits := h.fits
  have hcount := h.chunkcount h.fits
  have hat := hcount s.fcIndex
  have hnext := hcount (s.fcIndex + 1)
  have hbig : ceildiv s s.bfFilesize ≤ s.bfFilesize := by
    by_contra hgt
    have hin := (hcount s.bfFilesize).mp (by omega)
    have hle : s.bfFilesize ≤ s.bfFilesize * s.bfChunksize := Nat.le_mul_of_pos_right _ hcs
    omega
  have hidx : s.fcIndex ≤ s.fcIndex * s.bfChunksize := Nat.le_mul_of_pos_right _ hcs
  have hzero := hcount 0
  rw [kblockfileChunkcount, wrap64]
  generalize ceildiv s s.bfFilesize = count at hat hnext hbig hzero ⊢
  omega

theorem appendSeek_spec (h : Inv s) (hsound : AppendSound s) :
    ∃ s', appendSeek s = .ok s' ∧ Holds s' ∧ Keeps s s' ∧ s'.bfBufpos ≤ s'.bfChunksize ∧
      cursor s' = writeStart s ∧
      (s' = s ∨ s'.fcIndex * s'.bfChunksize < s'.bfFilesize) := by
  have hpos := h.bufpos
  unfold appendSeek writeStart
  by_cases happ : s.append = true
  · have hsound := hsound happ
    have hless : s.fcIndex < kblockfileChunkcount s ↔ s.fcIndex * s.bfChunksize < s.bfFilesize :=
      h.chunkcount h.fits s.fcIndex
    rw [if_pos happ, if_neg (not_not.mpr happ)]
    by_cases hin : s.fcIndex * s.bfChunksize < s.bfFilesize
    · rw [if_pos hin] at hsound
      have hlast := fcIndex_last h.toHolds (Nat.le_of_lt hin)
      by_cases hend : s.bfFilesize ≤ (s.fcIndex + 1) * s.bfChunksize
      · rw [if_pos hend] at hsound
        rw [if_pos (hlast.mpr ⟨hin, hend⟩)]
        refine ⟨_, rfl, { h with }, { Keeps.refl s with }, h.within, ?_, .inr hin⟩
        change s.fcIndex * s.bfChunksize + s.bfBufend = _
        rw [hsound, chunkEnd]
        rw [Nat.add_mul, Nat.one_mul] at hend
        omega
      rw [if_neg hend] at hsound
      rw [if_neg fun hh => hend (hlast.mp hh).2, if_pos (hless.mpr hin)]
      have hcount : ∀ i, i < kblockfileChunkcount s ↔ i * s.bfChunksize < s.bfFilesize :=
        h.chunkcount h.fits
      obtain ⟨s', hval, hcase⟩ := selectchunk_spec h.toHolds (kblockfileChunkcount s - 1)
      rw [hval]
      have hnext := (hcount (s.fcIndex + 1)).mpr (by omega)
      have hlastin := (hcount (kblockfileChunkcount s - 1)).mp (by omega)
      have hlastend := hcount (kblockfileChunkcount s - 1 + 1)
      obtain ⟨hsame, -⟩ | ⟨-, hsel⟩ := hcase
      · omega
      have hcs := hsel.chunksize
      refine ⟨_, rfl, { hsel with }, { hsel with }, hsel.within, ?_, .inr ?_⟩
      · change s'.fcIndex * s'.bfChunksize + s'.bfBufend = _
        rw [hsel.fcIndex, hcs, hsel.bufend]
        exact selectedEnd_last hsound hlastin (by omega)
      · change s'.fcIndex * s'.bfChunksize < s'.bfFilesize
        rw [hsel.fcIndex, hcs, hsel.filesize]
        exact hlastin
    · rw [if_neg hin] at hsound
      have hlast := fcIndex_last h.toHolds (by unfold cursor at hsound; omega)
      rw [if_neg fun hh => hin (hlast.mp hh).1, if_neg fun hh => hin (hless.mp hh)]
      exact ⟨s, rfl, h.toHolds, .refl s, Nat.le_of_lt hpos, hsound, .inl rfl⟩
  · rw [if_neg happ]
    exact ⟨s, if_pos happ, h.toHolds, .refl s, Nat.le_of_lt hpos, rfl, .inl rfl⟩

/-! ### The call -/

/-- A write is right: it ends where a file can end, and does not start inside of a chunk that
lies behind the end of the file; and a write of nothing starts inside of the file. -/
def WriteSound (s : Blockfile α) (buf : List α) : Prop :=
  AppendSound s ∧ (buf ≠ [] ∨ writeStart s ≤ s.bfFilesize) ∧
    (s.bufdata = true ∨ s.bfBufpos = 0 ∨ s.fcIndex * s.bfChunksize < s.bfFilesize) ∧
    writeStart s + buf.length + s.bfChunksize ≤ 18446744073709551616

/-- **Specification of `_kblockfile_write`.** -/
theorem kblockfileWrite_spec (h : Inv s) (hwrite : s.canwrite = true) (hsound : WriteSound s buf) :
    ∃ s', kblockfileWrite s buf = .ok (.keOk, buf.length, s') ∧ Wrote s s' (writeStart s) buf := by
  obtain ⟨happend, -, hload, hfits⟩ := hsound
  obtain ⟨s1, hseek, h1, hk, hpos, hplace, hsame⟩ := appendSeek_spec h happend
  have hcs := hk.chunksize
  rw [← hplace] at hfits ⊢
  rw [← hcs] at hfits
  have hload1 : s1.bufdata = true ∨ s1.bfBufpos = 0 ∨
      s1.fcIndex * s1.bfChunksize < s1.bfFilesize := by
    obtain rfl | hin := hsame
    · exact hload
    · exact .inr (.inr hin)
  suffices hmain : ∃ s', (if s1.bufdata then writeBuffer s1 buf
      else if s1.bfBufpos ≠ 0 then do
        let self ← needChunk s1
        let self ← writeLoad self false
        writeBuffer self buf
      else if buf.length = 0 then return (.keOk, 0, writeEnd s1)
      else writeTail s1 buf 0) = .ok (.keOk, buf.length, s') ∧
      Wrote s1 s' (cursor s1) buf by
    obtain ⟨s', hval, hw⟩ := hmain
    refine ⟨s', ?_, hk.wrote hw⟩
    rw [kblockfileWrite, if_neg (not_not.mpr hwrite), bind_of_ok hseek]
    exact hval
  by_cases hb : s1.bufdata = true
  · rw [if_pos hb]
    exact writeBuffer_spec h1 hb hpos hfits
  have hb' : s1.bufdata = false := Bool.eq_false_iff.mpr hb
  rw [if_neg hb]
  by_cases hz : s1.bfBufpos = 0
  · have hcur : cursor s1 = s1.fcIndex * s1.bfChunksize := by rw [cursor, hz, Nat.add_zero]
    rw [if_neg (not_not.mpr hz)]
    by_cases hlen : buf.length = 0
    · rw [if_pos hlen, length_eq_zero_iff.mp hlen]
      have hcs1 := h1.pos
      refine ⟨writeEnd s1, rfl, writeEnd_spec ⟨h1, by omega, ?_⟩ (by omega)⟩
      change cursor s1 < _
      omega
    rw [if_neg hlen, hcur]
    rw [hcur] at hfits
    obtain ⟨s', hval, hw⟩ := writeTail_spec h1 hb' hfits hz hlen 0
    rw [Nat.zero_add] at hval
    exact ⟨s', hval, hw⟩
  · rw [if_pos hz]
    have hin := (hload1.resolve_left hb).resolve_left hz
    obtain ⟨s2, hl, h2, hk2, hb2, -, hidx, hpos2, -, -⟩ := findLoad_spec h1 hb' hin
    have hcur : cursor s2 = cursor s1 := by rw [cursor, cursor, hidx, hpos2, hk2.chunksize]
    obtain ⟨s', hval, hw⟩ := writeBuffer_spec h2 hb2 (by rw [hpos2, hk2.chunksize]; exact hpos)
      (by rw [hcur, hk2.chunksize]; exact hfits)
    rw [hcur] at hw
    refine ⟨s', ?_, hk2.wrote hw⟩
    have hfits1 := h1.fits
    have hfind := (needChunk_spec h1 hb' (h1.index_lt (by omega))).1
    rw [bind_of_ok hfind] at hl
    rw [bind_of_ok hfind, writeLoad, if_pos, bind_of_ok hl]
    · exact hval
    · change wrap64 (s1.fcIndex * s1.bfChunksize) < s1.bfFilesize
      rw [wrap64, Nat.mod_eq_of_lt (by omega)]
      exact hin

end KosKernel.BlockFile
