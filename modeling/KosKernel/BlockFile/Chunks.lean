import KosKernel.BlockFile.Runs

/-!
# KosKernel.BlockFile.Chunks

**The size of the chunks does not show.** As long as no call leaves bytes open (a write behind the
end of the file, or a truncation that makes it longer), files of the same bytes answer alike.
-/

namespace KosKernel.BlockFile

variable {α : Type} {s₀ s₀' s s' : Blockfile α} {f f' g : ByteFile α} {a : Action α}
  {r r' : Reply α}

/-- The call leaves no byte open. -/
def Closed (f : ByteFile α) : Action α → Prop
  | .write _ => f.start ≤ f.bytes.length
  | .trunc size _ => size ≤ f.bytes.length
  | _ => True

theorem Replaced.unique {bytes buf new new' : List α} {start : Nat}
    (h : Replaced bytes start buf new) (h' : Replaced bytes start buf new')
    (hstart : start ≤ bytes.length) : new = new' := by
  refine List.ext_getElem? fun p => ?_
  by_cases hin : start ≤ p ∧ p < start + buf.length
  · obtain ⟨i, rfl⟩ := Nat.exists_eq_add_of_le hin.1
    rw [h.new i (by omega), h'.new i (by omega)]
  · by_cases hp : p < bytes.length
    · rw [h.old p hp (by omega), h'.old p hp (by omega)]
    · have hend : new.length ≤ p := by
        rw [h.length]
        split_ifs <;> omega
      rw [List.getElem?_eq_none hend, List.getElem?_eq_none (by rwa [h'.length, ← h.length])]

theorem Does.unique (h : Does f a r f') (h' : Does f a r' g) (hclosed : Closed f a) :
    r = r' ∧ f' = g := by
  cases h with
  | write hf hnew =>
    cases h' with
    | write _ hnew' => exact ⟨rfl, by rw [hnew.unique hnew' hclosed]⟩
    | writeFails _ hf' => cases hf.symm.trans hf'
  | @trunc size _ _ hf hlen hold =>
    cases h' with
    | trunc _ _ hlen' hold' =>
      refine ⟨rfl, ?_⟩
      congr 1
      refine List.ext_getElem? fun p => ?_
      by_cases hp : p < size
      · have hin := Nat.lt_of_lt_of_le hp hclosed
        rw [hold p hp hin, hold' p hp hin]
      · rw [List.getElem?_eq_none (by omega), List.getElem?_eq_none (by omega)]
    | truncFails _ _ hf' => cases hf.symm.trans hf'
  | _ => cases h' <;> simp_all

/-- The same calls, each in order, on two files. -/
inductive Twins (s₀ s₀' : Blockfile α) : Blockfile α → Blockfile α → Prop
  | nil : Twins s₀ s₀' s₀ s₀'
  | step {s s' u u' : Blockfile α} {a : Action α} {r r' : Reply α} (h : Twins s₀ s₀' s s')
      (ha : Sound s a) (ha' : Sound s' a) (hclosed : Closed (view s) a)
      (hexec : exec s a = .ok (r, u)) (hexec' : exec s' a = .ok (r', u')) : Twins s₀ s₀' u u'

theorem exec_alike (h : Inv s) (h' : Inv s') (hview : view s = view s') (ha : Sound s a)
    (ha' : Sound s' a) (hclosed : Closed (view s) a) :
    ∃ r u u', exec s a = .ok (r, u) ∧ exec s' a = .ok (r, u') ∧ Inv u ∧ Inv u' ∧
      view u = view u' := by
  obtain ⟨r, u, hexec, hdoes, hinv⟩ := exec_does h ha
  obtain ⟨r', u', hexec', hdoes', hinv'⟩ := exec_does h' ha'
  rw [← hview] at hdoes'
  obtain ⟨rfl, hsame⟩ := hdoes.unique hdoes' hclosed
  exact ⟨r, u, u', hexec, hexec', hinv, hinv', hsame⟩

/-- **Files of the same bytes answer alike** along every run of the same calls, and keep the same
bytes and cursor. -/
theorem kblockfile_twins (h₀ : Inv s₀) (h₀' : Inv s₀') (hview : view s₀ = view s₀')
    (h : Twins s₀ s₀' s s') :
    view s = view s' ∧ ∀ a, Sound s a → Sound s' a → Closed (view s) a →
      ∃ r u u', exec s a = .ok (r, u) ∧ exec s' a = .ok (r, u') := by
  have hinv : Inv s ∧ Inv s' ∧ view s = view s' := by
    induction h with
    | nil => exact ⟨h₀, h₀', hview⟩
    | step _ ha ha' hclosed hexec hexec' ih =>
      obtain ⟨r, u, u', hu, hu', hkept⟩ := exec_alike ih.1 ih.2.1 ih.2.2 ha ha' hclosed
      cases hexec.symm.trans hu
      cases hexec'.symm.trans hu'
      exact hkept
  refine ⟨hinv.2.2, fun a ha ha' hclosed => ?_⟩
  obtain ⟨r, u, u', hu, hu', -⟩ := exec_alike hinv.1 hinv.2.1 hinv.2.2 ha ha' hclosed
  exact ⟨r, u, u', hu, hu'⟩

/-- The file `numbered 20`, in chunks of 4 bytes. -/
def renumbered : Blockfile Nat :=
  kblockfileOpen ⟨false, false, true, false⟩ 4 20 (fun i k => 4 * i + k) fun _ => 0

/-- Five bytes are written into both. -/
theorem kblockfile_twins_write :
    ∃ s s', exec (numbered 20) (.write [1, 2, 3, 4, 5]) = .ok (.write .keOk 5, s) ∧
      exec renumbered (.write [1, 2, 3, 4, 5]) = .ok (.write .keOk 5, s') ∧
      view s = view s' := by
  have hinv : Inv renumbered := open_inv _ _ _ (by decide) (by decide) (by decide)
  have hview : view (numbered 20) = view renumbered := by
    rfl
  refine ⟨_, _, rfl, rfl, (kblockfile_twins numbered_inv hinv hview
    (.step (a := .write [1, 2, 3, 4, 5]) .nil ?_ ?_ (Nat.zero_le _) rfl rfl)).1⟩
  all_goals exact fun _ => ⟨fun hh => absurd hh Bool.false_ne_true, .inl (by decide),
    .inr (.inl rfl), by decide⟩

end KosKernel.BlockFile
