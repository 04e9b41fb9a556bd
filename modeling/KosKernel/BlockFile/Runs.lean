import KosKernel.BlockFile.Write

/-!
# KosKernel.BlockFile.Runs

**Runs of calls on a block file.** Above the file stands an array of bytes with a cursor.
From any state that calls reach, a call whose buffer end, saved size and position are in
order does to the array what its name says; and after a flush the store has the array,
if the size got there.
-/

namespace KosKernel.BlockFile

open Slice List

variable {α : Type} {s s' : Blockfile α}

/-! ### Seeking -/

variable {off : Int} {whence : Whence} {p : Nat}

theorem seekTarget_lt (h : Inv s) (hp : seekTarget s off whence = .ok p) :
    p < 18446744073709551616 := by
  have hfits := h.fits
  have hcs := h.pos
  have hwrap : ∀ x : Int, (x % 18446744073709551616).toNat < 18446744073709551616 := by
    intro x
    omega
  cases whence with
  | seekSet =>
    cases hp
    exact hwrap _
  | seekCur =>
    simp only [seekTarget] at hp
    split_ifs at hp
    cases hp
    exact hwrap _
  | seekEnd =>
    simp only [seekTarget] at hp
    split_ifs at hp
    cases hp
    omega
  | other => cases hp

/-- **Specification of `_kblockfile_seek`**, to a position. -/
theorem kblockfileSeek_spec (h : Inv s) (hp : seekTarget s off whence = .ok p) :
    ∃ s', kblockfileSeek s off whence = .ok (.keOk, p, s') ∧ Moved s s' p := by
  have hlt := seekTarget_lt h hp
  have hdiv := Nat.div_add_mod p s.bfChunksize
  rw [Nat.mul_comm] at hdiv
  have hmod := Nat.mod_lt p h.pos
  obtain ⟨s1, hval, hcase⟩ := selectchunk_spec h.toHolds (p / s.bfChunksize)
  have hsel : Holds s1 ∧ Keeps s s1 ∧ s1.fcIndex = p / s.bfChunksize := by
    obtain ⟨hidx, rfl⟩ | ⟨-, hsel⟩ := hcase
    · exact ⟨h.toHolds, .refl _, hidx.symm⟩
    · exact ⟨hsel.toHolds, hsel.toKeeps, hsel.fcIndex⟩
  obtain ⟨h1, hk, hidx⟩ := hsel
  have hcs := hk.chunksize
  refine ⟨{ s1 with bfBufpos := p % s1.bfChunksize }, ?_, ⟨⟨{ h1 with }, ?_, ?_⟩,
    hk.trans { Keeps.refl s1 with }, ?_⟩⟩
  · simp only [kblockfileSeek, hp, hval, Except.map]
  · change p % s1.bfChunksize < s1.bfChunksize
    rw [hcs]
    exact hmod
  · change s1.fcIndex * s1.bfChunksize + p % s1.bfChunksize < _
    rw [hidx, hcs]
    omega
  · change s1.fcIndex * s1.bfChunksize + p % s1.bfChunksize = _
    rw [hidx, hcs]
    exact hdiv

/-! ### Truncating -/

/-- The file has a new size. -/
structure Resized (s s' : Blockfile α) (size : Nat) : Prop extends Inv s' where
  chunksize : s'.bfChunksize = s.bfChunksize
  filesize : s'.bfFilesize = size
  contents : ∀ p < size, p < s.bfFilesize → contents s' p = BlockFile.contents s p
  place : BlockFile.cursor s' = BlockFile.cursor s
  append : s'.append = s.append
  canread : s'.canread = s.canread
  canwrite : s'.canwrite = s.canwrite

variable {size : Nat}

section

variable (h : Inv s) (hsize : size + s.bfChunksize ≤ 18446744073709551616)

include h hsize

/-- The size is changed and the current chunk stays one of the file if it was. -/
theorem resized_same {b : Nat} (hb : b ≤ s.bfChunksize)
    (hin : s.fcIndex * s.bfChunksize < s.bfFilesize → s.fcIndex * s.bfChunksize < size) :
    Resized s { s with bfBufend := b, bfFilesize := size } size :=
  ⟨{ h with fits := hsize, inside := fun hd => hin (h.inside hd), within := hb }, rfl, rfl,
    fun _ _ _ => rfl, rfl, rfl, rfl, rfl⟩

omit h hsize in
theorem filter_of_lt {i n : Nat} (h : i < n) : (some i).filter (· < n) = some i := by
  simp [Option.filter, h]

theorem resized_release (junk : Nat → Nat → α) (hidx : s.fcIndex < ceildiv s size) :
    Resized s { bftReleasechunks s (ceildiv s size) junk with bfFilesize := size } size := by
  have hcount := h.chunkcount hsize
  refine ⟨{ h with
    fits := hsize
    address := fun hc => ?_
    prev := fun hc hw => ?_
    inside := fun _ => (hcount _).mp hidx
    clean := fun hd hc off hoff => ?_ }, rfl, rfl, fun p hp _ => ?_, rfl, rfl, rfl, rfl⟩
  · change s.fcData.filter (· < ceildiv s size) = some s.fcIndex
    rw [h.address hc, filter_of_lt hidx]
  · obtain ⟨i, hi, hdata⟩ := h.prev hc hw
    refine ⟨i, hi, ?_⟩
    change s.fcData.filter (· < ceildiv s size) = some i
    rw [hdata, filter_of_lt (by omega)]
  · change s.bfBuffer off = (if s.fcIndex < ceildiv s size then s.chunks s.fcIndex
      else junk s.fcIndex) off
    rw [if_pos hidx]
    exact h.clean hd hc off hoff
  · refine contents_congr h.pos (by rfl) p fun i k hk hpk => ?_
    have hi : i < ceildiv s size := (hcount i).mpr (by omega)
    change (if s.bufdata = true ∧ i = s.fcIndex then s.bfBuffer k
      else (if i < ceildiv s size then s.chunks i else junk i) k) = _
    rw [if_pos hi]

theorem resized_invalid (junk : Nat → Nat → α) (hidx : ceildiv s size ≤ s.fcIndex) :
    Resized s { bftReleasechunks s (ceildiv s size) junk with
      bufdata := false, changed := false, chunk := false, wasprev := false, bfFilesize := size }
      size := by
  have hcount := h.chunkcount hsize
  have hno : ∀ {p : Prop}, false = true → p := fun hh => absurd hh Bool.false_ne_true
  refine ⟨⟨⟨h.pos, h.small, hsize, hno, hno, fun _ => hno, hno, hno, hno, hno, h.saved, h.within⟩,
    h.bufpos, h.cursor⟩, rfl, rfl, fun p hp _ => ?_, rfl, rfl, rfl, rfl⟩
  refine contents_congr h.pos (by rfl) p fun i k hk hpk => ?_
  have hi : i < ceildiv s size := (hcount i).mpr (by omega)
  have hne : ¬(s.bufdata = true ∧ i = s.fcIndex) := fun hh => by omega
  change (if false = true ∧ i = s.fcIndex then s.bfBuffer k
    else (if i < ceildiv s size then s.chunks i else junk i) k) = _
  rw [if_neg (fun hh => absurd hh.1 Bool.false_ne_true), if_pos hi, if_neg hne]

/-- **Specification of `_kblockfile_trunc`.** -/
theorem kblockfileTrunc_spec (hwrite : s.canwrite = true) (junk : Nat → Nat → α) :
    ∃ s', kblockfileTrunc s size junk = (.keOk, s') ∧ Resized s s' size := by
  have hold := h.chunkcount h.fits s.fcIndex
  have hnew := h.chunkcount hsize s.fcIndex
  have hsame := fun hin => resized_same h hsize h.within hin
  rw [kblockfileTrunc, if_neg (not_not.mpr hwrite)]
  refine ⟨_, rfl, ?_⟩
  by_cases hgrow : ceildiv s s.bfFilesize < ceildiv s size
  · have heq : truncChunks s size junk = s := by simp only [truncChunks, if_pos hgrow]
    rw [heq]
    exact hsame fun hin => by omega
  by_cases hshrink : ceildiv s size < ceildiv s s.bfFilesize
  · by_cases hidx : ceildiv s size ≤ s.fcIndex
    · have heq : truncChunks s size junk = { bftReleasechunks s (ceildiv s size) junk with
          bufdata := false, changed := false, chunk := false, wasprev := false } := by
        simp only [truncChunks, if_neg hgrow, if_pos hshrink]
        exact if_pos hidx
      rw [heq]
      exact resized_invalid h hsize junk hidx
    · have heq : truncChunks s size junk = bftReleasechunks s (ceildiv s size) junk := by
        simp only [truncChunks, if_neg hgrow, if_pos hshrink]
        exact if_neg hidx
      rw [heq]
      exact resized_release h hsize junk (Nat.not_le.mp hidx)
  · have hin : s.fcIndex * s.bfChunksize < s.bfFilesize →
        s.fcIndex * s.bfChunksize < size := by omega
    have heq : ∃ b ≤ s.bfChunksize, truncChunks s size junk = { s with bfBufend := b } := by
      simp only [truncChunks, if_neg hgrow, if_neg hshrink]
      split_ifs
      · exact ⟨_, Nat.le_of_lt (Nat.mod_lt size h.pos), rfl⟩
      · exact ⟨s.bfBufend, h.within, rfl⟩
    obtain ⟨b, hb, heq⟩ := heq
    rw [heq]
    exact resized_same h hsize hb hin

end

/-! ### The array of bytes -/

/-- An array of bytes with a cursor, and how it was opened. -/
structure ByteFile (α : Type) where
  bytes : List α
  cursor : Nat
  append : Bool
  canread : Bool
  canwrite : Bool

/-- The array that a block file stands for. -/
def view (s : Blockfile α) : ByteFile α :=
  ⟨slice (contents s) 0 s.bfFilesize, cursor s, s.append, s.canread, s.canwrite⟩

inductive Action (α : Type) where
  | read (bufsize : Nat)
  | write (buf : List α)
  | seek (off : Int) (whence : Whence)
  | trunc (size : Nat) (junk : Nat → Nat → α)
  | flush

inductive Reply (α : Type) where
  | read (error : Errno) (buf : List α)
  | write (error : Errno) (wsize : Nat)
  | seek (error : Errno) (newpos : Nat)
  | trunc (error : Errno)
  | flush
  deriving DecidableEq

/-- A call. -/
def exec (s : Blockfile α) : Action α → Except Fault (Reply α × Blockfile α)
  | .read bufsize => (kblockfileRead s bufsize).map fun r => (.read r.1 r.2.1, r.2.2)
  | .write buf => (kblockfileWrite s buf).map fun r => (.write r.1 r.2.1, r.2.2)
  | .seek off whence => (kblockfileSeek s off whence).map fun r => (.seek r.1 r.2.1, r.2.2)
  | .trunc size junk =>
    .ok (.trunc (kblockfileTrunc s size junk).1, (kblockfileTrunc s size junk).2)
  | .flush => (kblockfileFlush s).map fun s' => (.flush, s')

/-- The bytes at `start` are replaced by `buf`, and the array extended if needed; what lies
between an old end and `start` is left open. -/
structure Replaced (bytes : List α) (start : Nat) (buf bytes' : List α) : Prop where
  length : bytes'.length = if buf = [] then bytes.length else max bytes.length (start + buf.length)
  new : ∀ i < buf.length, bytes'[start + i]? = buf[i]?
  old : ∀ p < bytes.length, p < start ∨ start + buf.length ≤ p → bytes'[p]? = bytes[p]?

namespace ByteFile

/-- Where a write starts. -/
def start (f : ByteFile α) : Nat := if f.append then f.bytes.length else f.cursor

/-- The position to seek to. -/
def target (f : ByteFile α) (off : Int) : Whence → Option Nat
  | .seekSet => some (off % 18446744073709551616).toNat
  | .seekCur =>
    if f.cursor + off < 0 then none
    else some ((f.cursor + off) % 18446744073709551616).toNat
  | .seekEnd =>
    if f.bytes.length < off % 18446744073709551616 then none
    else some (f.bytes.length - (off % 18446744073709551616).toNat)
  | .other => none

end ByteFile

/-- What a call does to the array of bytes. -/
inductive Does : ByteFile α → Action α → Reply α → ByteFile α → Prop
  | read {f : ByteFile α} (n : Nat) (hf : f.canread = true) :
      Does f (.read n) (.read .keOk ((f.bytes.drop f.cursor).take n))
        { f with cursor := f.cursor + ((f.bytes.drop f.cursor).take n).length }
  | readFails {f : ByteFile α} (n : Nat) (hf : f.canread = false) :
      Does f (.read n) (.read .keAcces []) f
  | write {f : ByteFile α} {buf bytes : List α} (hf : f.canwrite = true)
      (h : Replaced f.bytes f.start buf bytes) :
      Does f (.write buf) (.write .keOk buf.length)
        { f with bytes := bytes, cursor := f.start + buf.length }
  | writeFails {f : ByteFile α} (buf : List α) (hf : f.canwrite = false) :
      Does f (.write buf) (.write .keAcces 0) f
  | seek {f : ByteFile α} {off : Int} {whence : Whence} {p : Nat}
      (hp : f.target off whence = some p) :
      Does f (.seek off whence) (.seek .keOk p) { f with cursor := p }
  | seekFails {f : ByteFile α} {off : Int} {whence : Whence}
      (hp : f.target off whence = none) : Does f (.seek off whence) (.seek .keRange 0) f
  | trunc {f : ByteFile α} {size : Nat} (junk : Nat → Nat → α) {bytes : List α}
      (hf : f.canwrite = true) (hlen : bytes.length = size)
      (hold : ∀ p < size, p < f.bytes.length → bytes[p]? = f.bytes[p]?) :
      Does f (.trunc size junk) (.trunc .keOk) { f with bytes := bytes }
  | truncFails {f : ByteFile α} (size : Nat) (junk : Nat → Nat → α) (hf : f.canwrite = false) :
      Does f (.trunc size junk) (.trunc .keAcces) f
  | flush (f : ByteFile α) : Does f .flush .flush f

/-- A call is in order, from where the file is. -/
def Sound (s : Blockfile α) : Action α → Prop
  | .read bufsize => s.canread = true → ReadSound s bufsize
  | .write buf => s.canwrite = true → WriteSound s buf
  | .seek _ whence => whence ≠ .other
  | .trunc size _ => size + s.bfChunksize ≤ 18446744073709551616
  | .flush => True

/-- A run of calls, each in order, and their replies. -/
inductive Run (s₀ : Blockfile α) : List (Action α × Reply α) → Blockfile α → Prop
  | nil : Run s₀ [] s₀
  | step {t : List (Action α × Reply α)} {s s' : Blockfile α} {a : Action α} {r : Reply α}
      (h : Run s₀ t s) (ha : Sound s a) (hexec : exec s a = .ok (r, s')) :
      Run s₀ (t ++ [(a, r)]) s'

/-- What the calls do to the array of bytes, one after the other. -/
inductive DoesAll (f₀ : ByteFile α) : List (Action α × Reply α) → ByteFile α → Prop
  | nil : DoesAll f₀ [] f₀
  | step {t : List (Action α × Reply α)} {f f' : ByteFile α} {a : Action α} {r : Reply α}
      (h : DoesAll f₀ t f) (hdoes : Does f a r f') : DoesAll f₀ (t ++ [(a, r)]) f'

/-! ### One call -/

theorem length_bytes (s : Blockfile α) : (view s).bytes.length = s.bfFilesize := length_slice

theorem Moved.view (h : Moved s s' p) : view s' = { view s with cursor := p } := by
  simp only [BlockFile.view, h.filesize, funext h.contents, h.place, h.append, h.canread,
    h.canwrite]

theorem bytes_read (s : Blockfile α) (n : Nat) : ((view s).bytes.drop (cursor s)).take n =
    slice (contents s) (cursor s) (min n (s.bfFilesize - cursor s)) := by
  by_cases h : cursor s ≤ s.bfFilesize
  · rw [view, slice_drop h, slice_take, Nat.zero_add, Nat.min_comm]
  · rw [drop_eq_nil_of_le (by rw [length_bytes]; omega), take_nil,
      show s.bfFilesize - cursor s = 0 by omega, Nat.min_zero, slice_zero]

/-- A call does to the array what its name says. -/
abbrev Works (s : Blockfile α) (a : Action α) : Prop :=
  ∃ r s', exec s a = .ok (r, s') ∧ Does (view s) a r (view s') ∧ Inv s'

theorem read_does (h : Inv s) {n : Nat} (ha : Sound s (.read n)) : Works s (.read n) := by
  by_cases hread : s.canread = true
  · obtain ⟨s', hval, hmoved⟩ := kblockfileRead_spec h hread (ha hread)
    refine ⟨.read .keOk (slice (contents s) (cursor s) (min n (s.bfFilesize - cursor s))), s',
      by simp only [exec, hval, Except.map], ?_, hmoved.toInv⟩
    have hdoes := Does.read (f := view s) n hread
    rw [show (view s).cursor = cursor s from rfl, bytes_read, length_slice] at hdoes
    rw [hmoved.view]
    exact hdoes
  · refine ⟨.read .keAcces [], s, ?_, .readFails n (Bool.eq_false_iff.mpr hread), h⟩
    simp only [exec, kblockfileRead, if_neg (Nat.not_le.mpr h.bufpos), if_pos hread, Except.map]

theorem Wrote.replaced {start : Nat} {buf : List α} (h : Wrote s s' start buf)
    (hbuf : buf ≠ [] ∨ start ≤ s.bfFilesize) :
    Replaced (BlockFile.view s).bytes start buf (BlockFile.view s').bytes := by
  have hsize := h.filesize
  refine ⟨?_, fun i hi => ?_, fun p hp hout => ?_⟩
  · rw [length_bytes, length_bytes, hsize]
    split_ifs with hnil
    · have hstart := hbuf.resolve_left (not_not.mpr hnil)
      rw [hnil, length_nil]
      omega
    · rfl
  · have hin : start + i < s'.bfFilesize := by omega
    rw [view, getElem?_slice hin, Nat.zero_add, h.contents _ hin, copy_add hi,
      getElem?_eq_getElem hi]
  · rw [length_bytes] at hp
    have hin : p < s'.bfFilesize := by omega
    rw [view, view, getElem?_slice hin, getElem?_slice hp, Nat.zero_add, h.contents _ hin]
    obtain hlt | hge := hout
    · rw [copy_of_lt hlt]
    · rw [copy_of_ge hge]

theorem write_does (h : Inv s) {buf : List α} (ha : Sound s (.write buf)) :
    Works s (.write buf) := by
  by_cases hwrite : s.canwrite = true
  · obtain ⟨s', hval, hw⟩ := kblockfileWrite_spec h hwrite (ha hwrite)
    refine ⟨.write .keOk buf.length, s', by simp only [exec, hval, Except.map], ?_, hw.toInv⟩
    have hstart : writeStart s = (view s).start := by
      rw [ByteFile.start, length_bytes]
      rfl
    have hrep := hw.replaced (ha hwrite).2.1
    rw [hstart] at hrep
    have hview : view s' = { view s with
        bytes := (view s').bytes, cursor := (view s).start + buf.length } := by
      rw [← hstart, ← hw.place]
      simp only [view, hw.append, hw.canread, hw.canwrite]
    rw [hview]
    exact .write hwrite hrep
  · refine ⟨.write .keAcces 0, s, ?_, .writeFails buf (Bool.eq_false_iff.mpr hwrite), h⟩
    simp only [exec, kblockfileWrite, if_pos hwrite, Except.map]

theorem seekTarget_view (h : Inv s) (off : Int) (hw : whence ≠ .other) :
    seekTarget s off whence = match (view s).target off whence with
      | some p => .ok p
      | none => .error .keRange := by
  have hposition : position s = cursor s := h.position
  have hbytes := length_bytes s
  cases whence with
  | seekSet => rfl
  | seekCur =>
    simp only [seekTarget, ByteFile.target, hposition, show (view s).cursor = cursor s from rfl]
    by_cases hneg : (cursor s : Int) + off < 0
    · rw [if_pos (by omega), if_pos hneg]
    · rw [if_neg (by omega), if_neg hneg]
  | seekEnd =>
    simp only [seekTarget, ByteFile.target, hbytes]
    by_cases hneg : (s.bfFilesize : Int) < off % 18446744073709551616
    · rw [if_pos (by omega), if_pos hneg]
    · rw [if_neg (by omega), if_neg hneg]
  | other => exact absurd rfl hw

theorem seek_does (h : Inv s) (ha : Sound s (.seek off whence)) : Works s (.seek off whence) := by
  have htarget := seekTarget_view h off ha
  cases hp : (view s).target off whence with
  | some p =>
    rw [hp] at htarget
    obtain ⟨s', hval, hmoved⟩ := kblockfileSeek_spec h htarget
    refine ⟨.seek .keOk p, s', by simp only [exec, hval, Except.map], ?_, hmoved.toInv⟩
    rw [hmoved.view]
    exact .seek hp
  | none =>
    rw [hp] at htarget
    refine ⟨.seek .keRange 0, s, ?_, .seekFails hp, h⟩
    simp only [exec, kblockfileSeek, htarget, Except.map]

theorem Resized.bytes (h : Resized s s' size) : (BlockFile.view s').bytes.length = size ∧
    ∀ p < size, p < (BlockFile.view s).bytes.length →
      (BlockFile.view s').bytes[p]? = (BlockFile.view s).bytes[p]? := by
  refine ⟨by rw [length_bytes, h.filesize], fun p hp hold => ?_⟩
  rw [length_bytes] at hold
  rw [view, view, getElem?_slice (h.filesize ▸ hp), getElem?_slice hold, Nat.zero_add,
    h.contents p hp hold]

theorem trunc_does (h : Inv s) {junk : Nat → Nat → α} (ha : Sound s (.trunc size junk)) :
    Works s (.trunc size junk) := by
  by_cases hwrite : s.canwrite = true
  · obtain ⟨s', hval, hr⟩ := kblockfileTrunc_spec h ha hwrite junk
    refine ⟨.trunc .keOk, s', by simp only [exec, hval], ?_, hr.toInv⟩
    have hview : view s' = { view s with bytes := (view s').bytes } := by
      simp only [view, hr.place, hr.append, hr.canread, hr.canwrite]
    rw [hview]
    exact .trunc junk hwrite hr.bytes.1 hr.bytes.2
  · refine ⟨.trunc .keAcces, s, ?_, .truncFails size junk (Bool.eq_false_iff.mpr hwrite), h⟩
    simp only [exec, kblockfileTrunc, if_pos hwrite]

theorem flushed_moved (h : Inv s) : Moved s (flushed s) (cursor s) := by
  have hk := h.flushed_keeps
  obtain ⟨-, hidx, hpos, -⟩ := flushed_fields s
  have hplace : cursor (flushed s) = cursor s := by rw [cursor, cursor, hidx, hpos, hk.chunksize]
  refine ⟨⟨h.flushed_holds, ?_, ?_⟩, hk, hplace⟩
  · rw [hpos, hk.chunksize]
    exact h.bufpos
  · change cursor (flushed s) < _
    rw [hplace]
    exact h.cursor

theorem flush_does (h : Inv s) : Works s .flush := by
  have hmoved := flushed_moved h
  refine ⟨.flush, flushed s, by simp only [exec, kblockfileFlush, h.flushbuffer, Except.map], ?_,
    hmoved.toInv⟩
  rw [hmoved.view]
  exact .flush (view s)

theorem exec_does (h : Inv s) {a : Action α} (ha : Sound s a) : Works s a := by
  cases a with
  | read bufsize => exact read_does h ha
  | write buf => exact write_does h ha
  | seek off whence => exact seek_does h ha
  | trunc size junk => exact trunc_does h ha
  | flush => exact flush_does h

/-! ### Runs -/

/-- The bytes in the store. -/
def stored (chunksize : Nat) (chunks : Nat → Nat → α) (p : Nat) : α :=
  chunks (p / chunksize) (p % chunksize)

/-- The array that is opened. -/
def openedFile (mode : OpenMode) (chunksize filesize : Nat) (chunks : Nat → Nat → α) :
    ByteFile α :=
  ⟨if mode.trunc then [] else slice (stored chunksize chunks) 0 filesize, 0, mode.append,
    mode.rdwr || !mode.wronly, mode.rdwr || mode.wronly⟩

section

variable (mode : OpenMode) {chunksize filesize : Nat} (chunks : Nat → Nat → α) (junk : Nat → α)

theorem filesize_open : (kblockfileOpen mode chunksize filesize chunks junk).bfFilesize =
    if mode.trunc then 0 else filesize := by
  by_cases htrunc : mode.trunc = true
  · by_cases hzero : filesize = 0 <;> simp [kblockfileOpen, htrunc, hzero]
  · simp [kblockfileOpen, htrunc]

theorem view_open : view (kblockfileOpen mode chunksize filesize chunks junk) =
    openedFile mode chunksize filesize chunks := by
  have hcontents : contents (kblockfileOpen mode chunksize filesize chunks junk) =
      stored chunksize chunks := funext fun p => if_neg fun hh => absurd hh.1 Bool.false_ne_true
  have hcursor : cursor (kblockfileOpen mode chunksize filesize chunks junk) = 0 :=
    Nat.zero_mul _
  rw [view, hcontents, hcursor, filesize_open, openedFile]
  by_cases htrunc : mode.trunc = true <;> simp [kblockfileOpen, htrunc]

theorem open_inv (hpos : 0 < chunksize) (hsmall : chunksize < 4294967296)
    (hfits : filesize + chunksize ≤ 18446744073709551616) :
    Inv (kblockfileOpen mode chunksize filesize chunks junk) := by
  have hno : ∀ {p : Prop}, false = true → p := fun hh => absurd hh Bool.false_ne_true
  refine ⟨⟨hpos, hsmall, ?_, hno, hno, fun _ => hno, hno, hno, hno, hno, rfl, ?_⟩, hpos, ?_⟩
  · rw [filesize_open]
    change _ + chunksize ≤ _
    split_ifs <;> omega
  · simp only [kblockfileOpen]
    split_ifs <;> omega
  · change 0 * chunksize + 0 < _
    omega

variable {mode chunks junk} {t : List (Action α × Reply α)}

theorem Run.does {s0 : Blockfile α} (h0 : Inv s0) (h : Run s0 t s) :
    Inv s ∧ DoesAll (view s0) t (view s) := by
  induction h with
  | nil => exact ⟨h0, .nil⟩
  | step _ ha hexec ih =>
    obtain ⟨r, s', hexec', hdoes, hinv⟩ := exec_does ih.1 ha
    cases hexec.symm.trans hexec'
    exact ⟨hinv, .step ih.2 hdoes⟩

/-- **A block file is an array of bytes with a cursor**, along every run of calls in order;
and no call in order fails an assertion. -/
theorem kblockfile_refines_bytes (hpos : 0 < chunksize) (hsmall : chunksize < 4294967296)
    (hfits : filesize + chunksize ≤ 18446744073709551616)
    (h : Run (kblockfileOpen mode chunksize filesize chunks junk) t s) :
    DoesAll (openedFile mode chunksize filesize chunks) t (view s) ∧
      ∀ a, Sound s a → ∃ r s', exec s a = .ok (r, s') ∧ Does (view s) a r (view s') := by
  obtain ⟨hinv, hdoes⟩ := h.does (open_inv mode chunks junk hpos hsmall hfits)
  rw [view_open] at hdoes
  refine ⟨hdoes, fun a ha => ?_⟩
  obtain ⟨r, s', hexec, hdoes, -⟩ := exec_does hinv ha
  exact ⟨r, s', hexec, hdoes⟩

/-- A file of `filesize` bytes that are numbered, in chunks of 8 bytes, open for reading and
writing. -/
def numbered (filesize : Nat) : Blockfile Nat :=
  kblockfileOpen ⟨false, false, true, false⟩ 8 filesize (fun i k => 8 * i + k) fun _ => 0

/-- Three bytes are written into a file of 12 bytes, and the calls can go on. -/
theorem kblockfile_refines_bytes_write :
    ∃ s, Run (numbered 12) [(.write [70, 71, 72], .write .keOk 3)] s ∧
      DoesAll (openedFile ⟨false, false, true, false⟩ 8 12 fun i k => 8 * i + k)
        [(.write [70, 71, 72], .write .keOk 3)] (view s) ∧
      ∀ a, Sound s a → ∃ r s', exec s a = .ok (r, s') ∧ Does (view s) a r (view s') := by
  have hrun : Run (numbered 12) ([] ++ [(.write [70, 71, 72], .write .keOk 3)]) _ :=
    .step .nil (fun _ => ⟨fun hh => absurd hh Bool.false_ne_true, .inl (by decide),
      .inr (.inl rfl), by decide⟩) rfl
  exact ⟨_, hrun, kblockfile_refines_bytes (by decide) (by decide) (by decide) hrun⟩

/-- In the last chunk of a file of 16 bytes nothing is read after a seek, and a file that a
write made longer cannot be read to its end. -/
theorem kblockfile_read_fails :
    (∃ s s', exec (numbered 16) (.seek 9 .seekSet) = .ok (.seek .keOk 9, s) ∧
      exec s (.read 4) = .ok (.read .keOk [], s') ∧
      ((view s).bytes.drop (view s).cursor).take 4 = [9, 10, 11, 12]) ∧
    ∃ s s', exec (numbered 0) (.write [1, 2, 3, 4]) = .ok (.write .keOk 4, s) ∧
      exec s (.seek 0 .seekSet) = .ok (.seek .keOk 0, s') ∧
      exec s' (.read 8) = .error .assertion :=
  ⟨⟨_, _, rfl, rfl, rfl⟩, _, _, rfl, rfl, rfl⟩

/-! ### Truncating a file -/

/-- **A truncated file is an array of bytes** with the cursor where it was: the old bytes up to
the new size, for all later calls in order. -/
theorem kblockfile_trunc_bytes (h : Inv s) (hwrite : s.canwrite = true)
    (hsize : size + s.bfChunksize ≤ 18446744073709551616) (junk : Nat → Nat → α) :
    ∃ s₁, kblockfileTrunc s size junk = (.keOk, s₁) ∧ (view s₁).cursor = (view s).cursor ∧
      (view s₁).bytes.length = size ∧
      (∀ p < size, p < (view s).bytes.length → (view s₁).bytes[p]? = (view s).bytes[p]?) ∧
      ∀ t s₂, Run s₁ t s₂ → DoesAll (view s₁) t (view s₂) ∧
        ∀ n, Sound s₂ (.read n) →
          ∃ r s₃, exec s₂ (.read n) = .ok (r, s₃) ∧ Does (view s₂) (.read n) r (view s₃) := by
  obtain ⟨s₁, hval, hr⟩ := kblockfileTrunc_spec h hsize hwrite junk
  refine ⟨s₁, hval, hr.place, hr.bytes.1, hr.bytes.2, fun t s₂ hrun => ?_⟩
  obtain ⟨hinv, hdoes⟩ := hrun.does hr.toInv
  refine ⟨hdoes, fun n hn => ?_⟩
  obtain ⟨r, s₃, hexec, hread, -⟩ := read_does hinv hn
  exact ⟨r, s₃, hexec, hread⟩

theorem numbered_inv : Inv (numbered 20) := open_inv _ _ _ (by decide) (by decide) (by decide)

/-- Twelve of 20 bytes are left. -/
theorem kblockfile_trunc_bytes_shorter :
    ∃ s₁, kblockfileTrunc (numbered 20) 12 (fun _ _ => 0) = (.keOk, s₁) ∧
      (view s₁).bytes.length = 12 ∧
      ∀ p < 12, p < 20 → (view s₁).bytes[p]? = (view (numbered 20)).bytes[p]? := by
  obtain ⟨s₁, hval, -, hlen, hold, -⟩ :=
    kblockfile_trunc_bytes numbered_inv rfl (Nat.le_of_ble_eq_true (n := 12 + 8) rfl) fun _ _ => 0
  exact ⟨s₁, hval, hlen, hold⟩

/-- Of a file that was truncated to two full chunks the second one cannot be read. -/
theorem kblockfile_trunc_hides :
    ∃ s₁ s₂ s₃, exec (numbered 20) (.trunc 16 fun _ _ => 0) = .ok (.trunc .keOk, s₁) ∧
      exec s₁ (.seek 9 .seekSet) = .ok (.seek .keOk 9, s₂) ∧
      exec s₂ (.read 4) = .ok (.read .keOk [], s₃) ∧
      ((view s₁).bytes.drop 9).take 4 = [9, 10, 11, 12] :=
  ⟨_, _, _, rfl, rfl, rfl, rfl⟩

/-! ### Flushing -/

/-- The store has the array. -/
structure Durable (s : Blockfile α) (bytes : List α) : Prop where
  size : s.size = bytes.length
  data : slice (stored s.bfChunksize s.chunks) 0 bytes.length = bytes

/-- When nothing is changed, the contents are those of the store. -/
theorem stored_of_clean (h : Holds s) (hclean : s.changed = false) :
    stored s.bfChunksize s.chunks = contents s := by
  funext p
  unfold contents stored
  split_ifs with hin
  · rw [h.clean hin.1 hclean _ (Nat.mod_lt p h.pos), hin.2]
  · rfl

/-- **What a flush leaves in the store**: the contents always, and the size if the buffer was
changed, or the size was there before. -/
theorem kblockfile_flush_durable (hpos : 0 < chunksize) (hsmall : chunksize < 4294967296)
    (hfits : filesize + chunksize ≤ 18446744073709551616)
    (h : Run (kblockfileOpen mode chunksize filesize chunks junk) t s) :
    ∃ s', kblockfileFlush s = .ok s' ∧ view s' = view s ∧
      (Durable s' (view s).bytes ↔ s.changed = true ∨ s.bfFilesaved = s.bfFilesize) := by
  have hinv := (h.does (open_inv mode chunks junk hpos hsmall hfits)).1
  have hmoved := flushed_moved hinv
  obtain ⟨hclean, -, -, hsaved⟩ := flushed_fields s
  have hview : view (flushed s) = view s := hmoved.view
  have hsize : (flushed s).size = (view s).bytes.length ↔
      s.changed = true ∨ s.bfFilesaved = s.bfFilesize := by
    rw [length_bytes, hmoved.saved, hsaved]
    split_ifs with hc <;> simp [hc]
  refine ⟨flushed s, hinv.flushbuffer, hview, fun hd => hsize.mp hd.size, fun hh => ?_⟩
  refine ⟨hsize.mpr hh, ?_⟩
  rw [length_bytes, stored_of_clean hmoved.toHolds hclean, funext hmoved.contents]
  rfl

/-- A partial chunk is written and then flushed. -/
theorem kblockfile_flush_durable_write :
    ∃ s, Run (numbered 0) [(.write [70, 71, 72], .write .keOk 3)] s ∧
      ∃ s', kblockfileFlush s = .ok s' ∧ Durable s' (view s).bytes := by
  have hrun : Run (numbered 0) ([] ++ [(.write [70, 71, 72], .write .keOk 3)]) _ :=
    .step .nil (fun _ => ⟨fun hh => absurd hh Bool.false_ne_true, .inl (by decide),
      .inr (.inl rfl), by decide⟩) rfl
  obtain ⟨s', hflush, -, hiff⟩ := kblockfile_flush_durable (by decide) (by decide) (by decide) hrun
  exact ⟨_, hrun, s', hflush, hiff.mpr (.inl rfl)⟩

/-- A whole chunk is written and then flushed, but the size in the store stays 0. -/
theorem kblockfile_flush_loses_size :
    ∃ s s', exec (numbered 0) (.write [1, 2, 3, 4, 5, 6, 7, 8]) = .ok (.write .keOk 8, s) ∧
      kblockfileFlush s = .ok s' ∧ s'.bfFilesize = 8 ∧ s'.size = 0 :=
  ⟨_, _, rfl, rfl, rfl, rfl⟩

end

end KosKernel.BlockFile
