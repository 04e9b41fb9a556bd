import KosKernel.IoBuf.Fifo

/-!
# KosKernel.IoBuf.Runs

Every sequence of **non-blocking writes and reads** of one I/O buffer, against the
queue it stands for: the bytes the writes accepted, and those the reads delivered.

The buffer is a queue for as long as no write grows it while its bytes wrap, and
none goes past the maximum size while the bytes do not start at its start: the
bytes after `ib_wpos` that such a write takes for free are still unread.
-/

namespace KosKernel.IoBuf

open List

variable {α : Type}

/-- The runs in which every write meets `guard`, with all bytes accepted and all
bytes delivered so far. -/
inductive Run (guard : Heap α → Iobuf α → Nat → Prop) : Iobuf α → List α → List α → Prop
  | init (maxsize : Nat) (junk : Nat → α) : Run guard (kiobufInit maxsize junk) [] []
  | write {b b' : Iobuf α} {accepted delivered : List α} {e : Errno} {wsize : Nat}
      (heap : Heap α) (buf : List α) :
      Run guard b accepted delivered → guard heap b buf.length →
      kiobufWrite heap b buf = some (e, wsize, b') →
      Run guard b' (accepted ++ buf.take wsize) delivered
  | read {b b' : Iobuf α} {accepted delivered out : List α} (destsize : Nat) :
      Run guard b accepted delivered → kiobufRead b destsize = (out, b') →
      Run guard b' accepted (delivered ++ out)

/-- What a run of safe writes keeps: the queue is what was accepted and not yet
delivered. -/
theorem Run.ring {b : Iobuf α} {accepted delivered : List α} (h : Run Safe b accepted delivered) :
    Ring b ∧ accepted = delivered ++ contents b := by
  induction h with
  | init maxsize junk =>
    exact ⟨by constructor <;> simp [kiobufInit], by simp [contents, kiobufInit]⟩
  | write heap buf _ hsafe hw ih =>
    obtain ⟨hring, hq⟩ := ih
    obtain ⟨e, k, b', hval, h', -, hc⟩ := kiobufWrite_spec hring hsafe
    obtain ⟨rfl, rfl, rfl⟩ : e = _ ∧ k = _ ∧ b' = _ := by simpa [hval] using hw
    exact ⟨h', by rw [hq, hc, append_assoc]⟩
  | read destsize _ hr ih =>
    obtain ⟨hring, hq⟩ := ih
    obtain ⟨hout, h', hc⟩ := kiobufRead_spec hring destsize
    simp only [hr] at hout h' hc
    refine ⟨h', ?_⟩
    rw [hq, append_assoc, hout, hc, take_append_drop]

/-- **The I/O buffer is a FIFO.** In every run of safe writes and of reads, what the
reads delivered is a prefix of what the writes accepted, a sufficiently large read
delivers exactly the rest, and every further safe write returns and accepts a part
of its data. -/
theorem kiobuf_run {b : Iobuf α} {accepted delivered : List α}
    (h : Run Safe b accepted delivered) :
    delivered <+: accepted ∧
    (∀ destsize, accepted.length - delivered.length ≤ destsize →
      (kiobufRead b destsize).1.length = accepted.length - delivered.length ∧
      delivered ++ (kiobufRead b destsize).1 = accepted) ∧
    (∀ heap buf, Safe heap b buf.length →
      ∃ e wsize b', kiobufWrite heap b buf = some (e, wsize, b') ∧ wsize ≤ buf.length) := by
  obtain ⟨hring, hq⟩ := h.ring
  have hlen : accepted.length - delivered.length = (contents b).length := by
    rw [hq, length_append, Nat.add_sub_cancel_left]
  refine ⟨⟨contents b, hq.symm⟩, fun destsize hdest => ?_, fun heap buf hsafe => ?_⟩
  · have hout : (kiobufRead b destsize).1 = contents b := by
      rw [(kiobufRead_spec hring destsize).1, take_of_length_le (hlen ▸ hdest)]
    exact ⟨by rw [hout, hlen], by rw [hout, hq]⟩
  · obtain ⟨e, k, b', hval, -, hk, -⟩ := kiobufWrite_spec hring hsafe
    exact ⟨e, k, b', hval, hk⟩

/-- A heap that is never exhausted. -/
def plentiful : Heap Nat := ⟨false, fun _ => 0⟩

/-- A buffer of four bytes that is filled, half read, and filled again over its
end: a large read delivers the four bytes still in it, in order. -/
theorem kiobuf_run_wraps :
    ∃ b : Iobuf Nat, Run Safe b [1, 2, 3, 4, 5, 6] [1, 2] ∧
      [1, 2] ++ (kiobufRead b 9).1 = [1, 2, 3, 4, 5, 6] := by
  have h0 : Run Safe (kiobufInit 4 fun _ => 0) [] [] := .init 4 _
  have h1 := Run.write plentiful [1, 2, 3, 4] h0 ⟨by decide, by decide⟩ rfl
  have h2 := Run.read 2 h1 rfl
  have h3 := Run.write plentiful [5, 6] h2 ⟨by decide, by decide⟩ rfl
  exact ⟨_, h3, ((kiobuf_run h3).2.1 9 (by decide)).2⟩

/-- A buffer of up to eight bytes holds four of them, two of which are wrapped;
one more is written. The buffer grows, the byte overwrites one that is unread, and
the end of the old buffer is no longer where the bytes wrap: five bytes were
accepted and not delivered, and a large read delivers one. -/
theorem kiobuf_grows_wrapped :
    ∃ b : Iobuf Nat, Run (fun _ _ _ => True) b [1, 2, 3, 4, 5, 6, 7] [1, 2] ∧
      (kiobufRead b 9).1 = [7] := by
  have h0 : Run (fun _ _ _ => True) (kiobufInit 8 fun _ => 0) [] [] := .init 8 _
  have h1 := Run.write plentiful [1, 2, 3, 4] h0 trivial rfl
  have h2 := Run.read 2 h1 rfl
  have h3 := Run.write plentiful [5, 6] h2 trivial rfl
  have h4 := Run.write plentiful [7] h3 trivial rfl
  exact ⟨_, h4, by decide⟩

end KosKernel.IoBuf
