import KosKernel.Pty.Basic
import Mathlib.Data.List.Infix

/-!
# KosKernel.Pty.Crlf

**Newline translation** (`kpty_s2m_write_crlf_unlocked` in `src/kernel/pty.c`) into a buffer that
takes any part of what is offered. The size that was written counts a run of text only behind its
line feed, and no line feed; and the call ends behind the first one.
-/

namespace KosKernel.Pty

open List

/-- How `kiobuf_write` answers the writes of a call, numbered from 0: whether it fails, and how
many bytes it took -/
structure Answers where
  write : Nat → List Byte → Bool × Nat
  le : ∀ n piece, (write n piece).2 ≤ piece.length

/-- Whether the call fails, the bytes that it appended to `ty_s2m`, and `*wsize` -/
structure Written where
  isErr : Bool
  out : List Byte
  wsize : Nat

/-- The loop of `kpty_s2m_write_crlf_unlocked`, at `iter`; `flush` are the bytes from
`flush_start` to there, and `n` writes were made. -/
def writeCrlfLoop (kiobuf : Answers) : List Byte → List Byte → Nat → Nat → List Byte → Written
  | [], flush, n, wsize, out =>
    let did := kiobuf.write n flush
    ⟨did.1, out ++ flush.take did.2, wsize⟩
  | ch :: buf, flush, n, wsize, out =>
    if ch = lf then
      let did := kiobuf.write n flush
      if did.1 ∨ did.2 ≠ flush.length then ⟨did.1, out ++ flush.take did.2, wsize⟩
      else
        let part := kiobuf.write (n + 1) [cr, lf]
        let out := out ++ flush ++ [cr, lf].take part.2
        if part.1 then ⟨part.1, out, wsize⟩
        -- `sizeof(sizeof(crlf))`
        else if part.2 ≠ 4 then ⟨part.1, out, wsize + did.2⟩
        else writeCrlfLoop kiobuf buf [] (n + 2) (wsize + did.2 + 1) out
    else writeCrlfLoop kiobuf buf (flush ++ [ch]) n wsize out

/-- `kpty_s2m_write_crlf_unlocked` -/
def kptyS2mWriteCrlf (kiobuf : Answers) (buf : List Byte) : Written :=
  writeCrlfLoop kiobuf buf [] 0 0 []

/-! ### What the translation is for -/

def image (ch : Byte) : List Byte := if ch = lf then [cr, lf] else [ch]

/-- How many bytes have their images in the first `size` bytes of the output -/
def completed : List Byte → Nat → Nat
  | [], _ => 0
  | ch :: buf, size =>
    if (image ch).length ≤ size then completed buf (size - (image ch).length) + 1 else 0

/-- The buffer takes whatever it is offered. -/
def Answers.All (kiobuf : Answers) : Prop := ∀ n piece, kiobuf.write n piece = (false, piece.length)

structure Translated (kiobuf : Answers) (buf : List Byte) (r : Written) : Prop where
  out : r.out <+: buf.flatMap image
  whole : kiobuf.All → r.out = buf.flatMap image
  wsize : r.wsize = completed buf r.out.length

/-- The size is right if nothing was taken of a run of text that is the last one, or is not taken
as a whole; and if of the first line feed only the carriage return was taken. -/
def SizeRight (kiobuf : Answers) (buf : List Byte) : Prop :=
  let run := buf.takeWhile (· ≠ lf)
  let first := kiobuf.write 0 run
  let second := kiobuf.write 1 [cr, lf]
  if run = buf ∨ first.1 ∨ first.2 ≠ run.length then first.2 = 0
  else second.2 ≠ 2 ∧ (second.1 → run = [])

/-! ### Runs of text -/

variable (kiobuf : Answers) {run : List Byte} {size : Nat} (rest : List Byte)

theorem flatMap_image (h : lf ∉ run) : run.flatMap image = run := by
  induction run with
  | nil => rfl
  | cons ch run ih =>
    rw [mem_cons, not_or] at h
    rw [flatMap_cons, ih h.2, image, if_neg (Ne.symm h.1), singleton_append]

theorem completed_zero (buf : List Byte) : completed buf 0 = 0 := by
  cases buf with
  | nil => rfl
  | cons ch buf => simp only [completed, image, apply_ite length]; split_ifs <;> simp_all

theorem completed_append (h : lf ∉ run) (size : Nat) :
    completed (run ++ rest) (run.length + size) = run.length + completed rest size := by
  induction run with
  | nil => simp
  | cons ch run ih =>
    rw [mem_cons, not_or] at h
    simp only [cons_append, completed, image, if_neg (Ne.symm h.1), length_cons, length_nil]
    rw [if_pos (by omega), show run.length + 1 + size - (0 + 1) = run.length + size by omega,
      ih h.2]
    omega

theorem completed_run (h : lf ∉ run) (hle : size ≤ run.length) :
    completed (run ++ rest) size = size := by
  have htake : lf ∉ run.take size := fun hm => h (mem_of_mem_take hm)
  have happ := completed_append (run.drop size ++ rest) htake 0
  rwa [← append_assoc, take_append_drop, length_take, Nat.min_eq_left hle, completed_zero,
    Nat.add_zero] at happ

/-- The loop comes to the end of a run. -/
theorem writeCrlfLoop_run (h : lf ∉ run) (flush : List Byte) (n wsize : Nat) (out : List Byte) :
    writeCrlfLoop kiobuf (run ++ rest) flush n wsize out =
      writeCrlfLoop kiobuf rest (flush ++ run) n wsize out := by
  induction run generalizing flush with
  | nil => rw [nil_append, append_nil]
  | cons ch run ih =>
    rw [mem_cons, not_or] at h
    rw [cons_append, writeCrlfLoop, if_neg (Ne.symm h.1), ih h.2, append_assoc,
      singleton_append]

/-- Every text is a run, or starts with one and a line feed. -/
theorem exists_run (buf : List Byte) : lf ∉ buf.takeWhile (· ≠ lf) ∧
    (buf.takeWhile (· ≠ lf) = buf ∨ ∃ rest, buf = buf.takeWhile (· ≠ lf) ++ lf :: rest) := by
  induction buf with
  | nil => exact ⟨not_mem_nil, .inl rfl⟩
  | cons ch buf ih =>
    by_cases heq : ch = lf
    · exact ⟨by simp [heq], .inr ⟨buf, by simp [heq]⟩⟩
    · simpa [heq, Ne.symm heq] using ih

/-! ### The call -/

variable {kiobuf : Answers} {buf out : List Byte} {e : Bool} {wsize c : Nat}

theorem translated_iff (hout : out <+: buf.flatMap image) (hc : completed buf out.length = c)
    (hwhole : kiobuf.All → wsize = c → out = buf.flatMap image) :
    Translated kiobuf buf ⟨e, out, wsize⟩ ↔ wsize = c :=
  ⟨fun h => h.wsize.trans hc, fun h => ⟨hout, (hwhole · h), h.trans hc.symm⟩⟩

/-- A part of the first run is appended. -/
theorem translated_run_iff (hrun : lf ∉ run) (hle : size ≤ run.length)
    (hwhole : kiobuf.All → size = run.length ∧ rest = []) :
    Translated kiobuf (run ++ rest) ⟨e, run.take size, 0⟩ ↔ size = 0 := by
  have himage : (run ++ rest).flatMap image = run ++ rest.flatMap image := by
    rw [flatMap_append, flatMap_image hrun]
  rw [translated_iff (c := size), eq_comm]
  · rw [himage]
    exact ( take_prefix size run).trans (prefix_append _ _)
  · rw [length_take, Nat.min_eq_left hle, completed_run rest hrun hle]
  · intro hall _
    obtain ⟨rfl, rfl⟩ := hwhole hall
    rw [himage, take_length, flatMap_nil, append_nil]

/-- The first run is appended, and a part of what its line feed becomes. -/
theorem translated_line_iff (hrun : lf ∉ run) (hle : size ≤ 2) (hwhole : kiobuf.All → size = 2)
    (hwsize : wsize ≤ run.length) :
    Translated kiobuf (run ++ lf :: rest) ⟨e, run ++ [cr, lf].take size, wsize⟩ ↔
      size ≠ 2 ∧ wsize = run.length := by
  rw [translated_iff (c := run.length + if size = 2 then 1 else 0)]
  · split_ifs <;> omega
  · rw [flatMap_append, flatMap_image hrun, prefix_append_right_inj]
    exact ( take_prefix size _).trans (prefix_append _ _)
  · rw [length_append, completed_append _ hrun]
    obtain rfl | rfl | rfl : size = 0 ∨ size = 1 ∨ size = 2 := by omega
    all_goals simp [completed, image, completed_zero]
  · intro hall heq
    rw [if_pos (hwhole hall)] at heq
    omega

/-- **The translation is right exactly if the size is.** -/
theorem kpty_s2m_write_crlf_right (kiobuf : Answers) (buf : List Byte) :
    Translated kiobuf buf (kptyS2mWriteCrlf kiobuf buf) ↔ SizeRight kiobuf buf := by
  obtain ⟨hrun, hbuf⟩ := exists_run buf
  unfold SizeRight kptyS2mWriteCrlf
  generalize buf.takeWhile (· ≠ lf) = run at *
  have hle := kiobuf.le 0 run
  rcases hbuf with rfl | ⟨rest, rfl⟩
  · have hloop := writeCrlfLoop_run kiobuf [] hrun [] 0 0 []
    have hiff := translated_run_iff (e := (kiobuf.write 0 run).1) [] hrun hle
      fun hall => ⟨by rw [hall], rfl⟩
    rw [append_nil] at hloop hiff
    rw [hloop, if_pos (.inl rfl)]
    exact hiff
  rw [writeCrlfLoop_run _ _ hrun, nil_append, writeCrlfLoop, if_pos rfl]
  simp only [or_iff_right (a := run = run ++ lf :: rest) (by simp)]
  by_cases hfirst : (kiobuf.write 0 run).1 = true ∨ (kiobuf.write 0 run).2 ≠ run.length
  · rw [if_pos hfirst, if_pos hfirst]
    refine translated_run_iff _ hrun hle fun hall => ?_
    simp [hall _ _] at hfirst
  rw [if_neg hfirst, if_neg hfirst]
  rw [not_or, not_not] at hfirst
  have htwo : (kiobuf.write 1 [cr, lf]).2 ≤ 2 := kiobuf.le 1 [cr, lf]
  have hwhole : kiobuf.All → (kiobuf.write 1 [cr, lf]).2 = 2 := fun hall => by rw [hall]; rfl
  by_cases hsecond : (kiobuf.write 1 [cr, lf]).1 = true
  · rw [if_pos hsecond, nil_append, translated_line_iff _ hrun htwo hwhole (Nat.zero_le _)]
    rw [eq_comm (a := 0), length_eq_zero_iff, imp_iff_right hsecond]
  · rw [if_neg hsecond, if_pos (Nat.ne_of_lt (Nat.lt_of_le_of_lt htwo (by decide))),
      nil_append, translated_line_iff _ hrun htwo hwhole (by omega)]
    simp [hfirst.2, hsecond]

/-- A buffer that takes everything -/
def takesAll : Answers := ⟨fun _ piece => (false, piece.length), fun _ _ => le_rfl⟩

/-- Into such a buffer the call writes what is written as an echo. -/
theorem writeCrlfLoop_takesAll (buf flush : List Byte) (n wsize : Nat) (out : List Byte) :
    (writeCrlfLoop takesAll buf flush n wsize out).out = out ++ s2mWriteCrlf buf flush := by
  induction buf generalizing flush with
  | nil => simp [writeCrlfLoop, s2mWriteCrlf, takesAll]
  | cons ch buf ih =>
    rw [writeCrlfLoop, s2mWriteCrlf]
    split_ifs with hlf
    · simp [takesAll]
    · exact ih _

theorem kptyS2mWriteCrlf_takesAll (buf : List Byte) :
    (kptyS2mWriteCrlf takesAll buf).out = s2mWriteCrlf buf [] :=
  writeCrlfLoop_takesAll ..

/-- Of two lines, only the first one is written, and its line feed is not counted. -/
theorem kpty_s2m_write_crlf_line :
    kptyS2mWriteCrlf takesAll [65, 10, 66] = ⟨false, [65, 13, 10], 1⟩ ∧
      ¬Translated takesAll [65, 10, 66] (kptyS2mWriteCrlf takesAll [65, 10, 66]) :=
  ⟨rfl, fun h => absurd (h.whole fun _ _ => rfl) (by decide)⟩

end KosKernel.Pty
