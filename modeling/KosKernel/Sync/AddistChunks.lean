import KosKernel.Sync.Addist

/-!
# KosKernel.Sync.AddistChunks

The **chunk list** of a distributor and its pending counters.

What a ticket still has to receive is the part of the chunk list from its `dt_async`
on (`pend`). So a chunk that a ticket has pending is pending together with all chunks
behind it, and a counter that reaches zero is that of the first chunk: that is why
the source may free a chunk without searching its place.

A ticket gives its pending chunks up one at a time. `Pending` counts the tickets of
`L` for every chunk, and one more for the chunks that are still to be given up.
-/

namespace KosKernel.Addist

open Function LinkedList List

/-! ### Parts of a chunk list -/

/-- The chunks from `p` on. -/
def pend : List Nat → Nat → List Nat
  | [], _ => []
  | c :: C, p => if c = p then c :: C else pend C p

section Pend

variable {C X pre post : List Nat} {c d p r : Nat}

@[simp] theorem pend_nil : pend [] p = [] := rfl

@[simp] theorem pend_cons_self : pend (c :: C) c = c :: C := if_pos rfl

theorem pend_cons_of_ne (h : c ≠ p) : pend (c :: C) p = pend C p := if_neg h

theorem pend_append_of_not_mem (h : p ∉ pre) : pend (pre ++ X) p = pend X p := by
  induction pre with
  | nil => rfl
  | cons c pre ih =>
    rw [cons_append, pend_cons_of_ne (by rintro rfl; simp at h), ih (by simp_all)]

theorem pend_eq_nil (h : p ∉ C) : pend C p = [] := by
  simpa using pend_append_of_not_mem (X := []) h

theorem exists_pend (h : p ∈ C) :
    ∃ pre rest, C = pre ++ p :: rest ∧ p ∉ pre ∧ pend C p = p :: rest := by
  induction C with
  | nil => simp at h
  | cons c C ih =>
    by_cases hc : c = p
    · exact ⟨[], C, by rw [hc]; rfl, by simp, by rw [hc, pend_cons_self]⟩
    obtain ⟨pre, rest, hC, hpre, hpend⟩ := ih (by simpa [Ne.symm hc] using h)
    exact ⟨c :: pre, rest, by rw [hC]; rfl, by simp [hpre, Ne.symm hc],
      by rw [pend_cons_of_ne hc, hpend]⟩

theorem pend_suffix (C : List Nat) (p : Nat) : pend C p <:+ C := by
  by_cases h : p ∈ C
  · obtain ⟨pre, rest, hC, -, hpend⟩ := exists_pend h
    exact ⟨pre, by rw [hpend, hC]⟩
  · rw [pend_eq_nil h]
    exact nil_suffix

theorem pend_headD (h : X <:+ C) (hnd : C.Nodup) (h0 : 0 ∉ C) : pend C (X.headD 0) = X := by
  obtain ⟨pre, rfl⟩ := h
  cases X with
  | nil => exact pend_eq_nil h0
  | cons x X =>
    have hx : x ∉ pre := fun hm => (nodup_append.mp hnd).2.2 x hm x (by simp) rfl
    rw [headD_cons, pend_append_of_not_mem hx, pend_cons_self]

/-- With a chunk, every later one is pending. -/
theorem mem_pend_of_before (hnd : (pre ++ c :: post).Nodup) (hd : d ∈ pre)
    (h : d ∈ pend (pre ++ c :: post) p) : c ∈ pend (pre ++ c :: post) p := by
  induction pre with
  | nil => simp at hd
  | cons x pre ih =>
    rw [cons_append] at h hnd ⊢
    by_cases hx : x = p
    · rw [hx, pend_cons_self]
      simp
    rw [pend_cons_of_ne hx] at h ⊢
    refine ih (nodup_cons.mp hnd).2 ?_ h
    rcases mem_cons.mp hd with rfl | hd
    · exact absurd ((pend_suffix _ _).subset h) (nodup_cons.mp hnd).1
    · exact hd

/-- A ticket registers the last chunk, unless it has one already. -/
theorem pend_register (hnd : (C ++ [r]).Nodup) (h0 : 0 ∉ C)
    (hp : p = 0 ∨ p ∈ C ++ [r]) :
    pend (C ++ [r]) (if p = 0 then r else p) = pend C p ++ [r] := by
  have hr : r ∉ C := fun hm => (nodup_append.mp hnd).2.2 r hm r (by simp) rfl
  by_cases hpC : p ∈ C
  · obtain ⟨pre, rest, rfl, hpre, hpend⟩ := exists_pend hpC
    have hp0 : p ≠ 0 := ne_of_mem_of_not_mem hpC h0
    rw [if_neg hp0, append_assoc, pend_append_of_not_mem hpre, hpend, cons_append,
      pend_cons_self]
  have hpr : (if p = 0 then r else p) = r := by
    split
    · rfl
    rcases hp with hp | hp
    · contradiction
    · simpa [hpC] using hp
  rw [hpr, pend_append_of_not_mem hr, pend_cons_self, pend_eq_nil hpC]
  rfl

theorem mem_pend_append (hnd : (C ++ [r]).Nodup) (hc : c ∈ C) :
    c ∈ pend (C ++ [r]) p ↔ c ∈ pend C p := by
  have hcr : c ≠ r := fun hEq => (nodup_append.mp hnd).2.2 c hc r (by simp) hEq
  by_cases hpC : p ∈ C
  · obtain ⟨pre, rest, rfl, hpre, hpend⟩ := exists_pend hpC
    rw [hpend, append_assoc, pend_append_of_not_mem hpre, cons_append, pend_cons_self]
    simp [hcr]
  rw [pend_append_of_not_mem hpC, pend_eq_nil hpC]
  by_cases hrp : r = p
  · rw [hrp, pend_cons_self]
    simp [← hrp, hcr]
  · rw [pend_cons_of_ne hrp, pend_nil]

end Pend

variable {α : Type} {s : Kaddist α} {C L X : List Nat} {t x : Nat}

/-! ### The chunk list -/

/-- The chunks of a distributor, oldest first. They are the allocated ones. -/
structure Chunks (s : Kaddist α) (C : List Nat) : Prop where
  seg : IsSeg 0 s.sdNext s.sdPrev 0 s.adFront C 0
  nodup : C.Nodup
  back : s.adBack = C.getLastD 0
  count : s.adChunkc = C.length
  heap : s.heap.Perm C
  le_max : C.length ≤ s.adChunkmax

namespace Chunks

theorem not_mem_zero (h : Chunks s C) : 0 ∉ C := fun hm => h.seg.ne_nil 0 hm rfl

theorem seg_pend (h : Chunks s C) {p : Nat} (hp : p = 0 ∨ p ∈ C) :
    ∃ b, IsSeg 0 s.sdNext s.sdPrev b p (pend C p) 0 := by
  rcases hp with rfl | hp
  · exact ⟨0, by rw [pend_eq_nil h.not_mem_zero]; rfl⟩
  obtain ⟨pre, rest, hC, -, hpend⟩ := exists_pend hp
  obtain ⟨m, -, hseg⟩ := isSeg_append.mp (hC ▸ h.seg)
  rw [hpend]
  exact ⟨_, hseg.1 ▸ hseg⟩

theorem pendingChunks_eq (h : Chunks s C) (ht : s.dtAsync t = 0 ∨ s.dtAsync t ∈ C) :
    pendingChunks s t = pend C (s.dtAsync t) := by
  obtain ⟨b, hseg⟩ := h.seg_pend ht
  have hlen := (pend_suffix C (s.dtAsync t)).length_le
  rw [pendingChunks, hseg.walk_eq (by rw [h.count]; omega)]
  rfl

theorem next_eq (h : Chunks s C) (hx : (x :: X) <:+ C) : s.sdNext x = X.headD 0 := by
  obtain ⟨pre, rfl⟩ := hx
  obtain ⟨m, -, rfl, -, -, htl⟩ := isSeg_append.mp h.seg
  cases X with
  | nil => exact htl
  | cons y X => exact htl.1

theorem freeFront (h : Chunks s (x :: X)) : Chunks (freeFront s x) X := by
  obtain ⟨hfront, hx0, -, htl⟩ := h.seg
  have hnd := nodup_cons.mp h.nodup
  have hnext : s.sdNext x = X.headD 0 := h.next_eq suffix_rfl
  refine ⟨?_, hnd.2, ?_, ?_, ?_, ?_⟩
  · exact htl.relink_begin hnd.2 0
  · simp only [Addist.freeFront, h.back, hnext]
    cases X with
    | nil => rfl
    | cons y X =>
      rw [headD_cons, if_neg (h.seg.ne_nil y (by simp))]
      rfl
  · simp only [Addist.freeFront, h.count, length_cons]
    omega
  · have := h.heap.erase x
    rwa [erase_cons_head] at this
  · have := h.le_max
    simp only [Addist.freeFront]
    simp only [length_cons] at this
    omega

theorem appendChunk (h : Chunks s C) {r : Nat} (hr : r ∉ C) (hr0 : r ≠ 0)
    (hlt : s.adChunkc ≠ s.adChunkmax) : Chunks (appendChunk s r) (C ++ [r]) := by
  have hnd : (C ++ [r]).Nodup := by
    rw [nodup_append]
    refine ⟨h.nodup, by simp, fun a ha b hb => ?_⟩
    rw [mem_singleton.mp hb]
    exact ne_of_mem_of_not_mem ha hr
  refine ⟨?_, hnd, by simp [Addist.appendChunk], by simp [Addist.appendChunk, h.count], ?_, ?_⟩
  · simp only [Addist.appendChunk, h.back]
    refine isSeg_append.mpr ⟨r, ?_, rfl, hr0, by simp, ?_⟩
    · refine (h.seg.relink_end h.nodup r).congr (fun y hy => ?_) (fun y hy => ?_)
      · exact linkNext_update_of_ne (ne_of_mem_of_not_mem hy hr)
      · exact update_of_ne (ne_of_mem_of_not_mem hy hr) _ _
    · rw [isSeg_nil, linkNext_of_ne (getLastD_ne hr hr0), update_self]
  · exact (h.heap.cons r).trans (perm_append_singleton r C).symm
  · have := h.le_max
    have := h.count
    simp only [Addist.appendChunk, length_append, length_singleton]
    omega

end Chunks

/-! ### The counters -/

/-- How many of the tickets have the chunk pending. -/
def holders (async : Nat → Nat) (L C : List Nat) (c : Nat) : Nat :=
  L.countP fun t => decide (c ∈ pend C (async t))

/-- The tickets of `L` and the chunks of `C`; `X` are chunks that are still counted
for a ticket that is no longer one of `L`. -/
structure Pending (s : Kaddist α) (L C X : List Nat) : Prop where
  async : ∀ t ∈ L, s.dtAsync t = 0 ∨ s.dtAsync t ∈ C
  suffix : X <:+ C
  count : ∀ c ∈ C, s.sdPending c = holders s.dtAsync L C c + if c ∈ X then 1 else 0
  pos : ∀ c ∈ C, 0 < s.sdPending c

theorem holders_perm {async : Nat → Nat} {L L' : List Nat} (h : L.Perm L') (C : List Nat)
    (c : Nat) : holders async L C c = holders async L' C c := h.countP_eq _

theorem holders_cons {async : Nat → Nat} (t : Nat) (L C : List Nat) (c : Nat) :
    holders async (t :: L) C c =
      holders async L C c + if c ∈ pend C (async t) then 1 else 0 := by
  simp [holders, countP_cons]

theorem holders_congr {async async' : Nat → Nat} {L C C' : List Nat} {c : Nat}
    (h : ∀ t ∈ L, c ∈ pend C (async t) ↔ c ∈ pend C' (async' t)) :
    holders async L C c = holders async' L C' c :=
  countP_congr fun t ht => by simpa using h t ht

theorem holders_pos {async : Nat → Nat} {L C : List Nat} {c : Nat} :
    0 < holders async L C c ↔ ∃ t ∈ L, c ∈ pend C (async t) := by
  simp [holders, countP_pos_iff]

namespace Pending

/-- A ticket leaves, and what it has pending is still counted. -/
theorem leave (h : Pending s L C []) (ht : t ∈ L) :
    Pending s (L.erase t) C (pend C (s.dtAsync t)) where
  async u hu := h.async u (mem_of_mem_erase hu)
  suffix := pend_suffix _ _
  count c hc := by
    rw [h.count c hc, holders_perm (perm_cons_erase ht), holders_cons]
    simp
  pos := h.pos

/-- A ticket joins, with the chunks that are still counted. -/
theorem join (h : Pending s L C X) (ht : s.dtAsync t = 0 ∨ s.dtAsync t ∈ C)
    (hX : pend C (s.dtAsync t) = X) : Pending s (t :: L) C [] where
  async := forall_mem_cons.mpr ⟨ht, h.async⟩
  suffix := nil_suffix
  count c hc := by
    rw [h.count c hc, holders_cons, hX]
    simp
  pos := h.pos

theorem perm {L' : List Nat} (h : Pending s L C X) (hp : L.Perm L') : Pending s L' C X :=
  { h with
    async u hu := h.async u (hp.mem_iff.mpr hu)
    count c hc := by rw [h.count c hc, holders_perm hp] }

theorem congr {s' : Kaddist α} (h : Pending s L C X) (ha : ∀ t ∈ L, s'.dtAsync t = s.dtAsync t)
    (hc : s'.sdPending = s.sdPending) : Pending s' L C X where
  async t ht := by rw [ha t ht]; exact h.async t ht
  suffix := h.suffix
  count c hcC := by
    have hsame : holders s.dtAsync L C c = holders s'.dtAsync L C c :=
      holders_congr fun t ht => by rw [ha t ht]
    rw [hc, h.count c hcC, hsame]
  pos := hc ▸ h.pos

/-- **A chunk is allocated exactly while a ticket has it pending.** -/
theorem mem_heap_iff (h : Pending s L C []) (hC : Chunks s C) (c : Nat) :
    c ∈ s.heap ↔ ∃ t ∈ L, c ∈ pend C (s.dtAsync t) := by
  rw [hC.heap.mem_iff]
  constructor
  · intro hc
    have hpos := h.pos c hc
    rw [h.count c hc] at hpos
    exact holders_pos.mp (by simpa using hpos)
  · rintro ⟨t, -, hc⟩
    exact (pend_suffix _ _).subset hc

end Pending

/-- A chunk is given up by one ticket, and freed by the last one. -/
def dropOne (self : Kaddist α) (chunk : Nat) : Kaddist α :=
  let self := decPending self chunk
  if self.sdPending chunk = 0 then freeFront self chunk else self

/-- Two states that differ in the chunk list and its counters only. -/
structure SameTickets (s s' : Kaddist α) : Prop where
  dead : s'.dead = s.dead
  waiting : s'.waiting = s.waiting
  adReady : s'.adReady = s.adReady
  adKnown : s'.adKnown = s.adKnown
  adTiready : s'.adTiready = s.adTiready
  adTnready : s'.adTnready = s.adTnready
  dtPrev : s'.dtPrev = s.dtPrev
  dtNext : s'.dtNext = s.dtNext
  dtAsync : s'.dtAsync = s.dtAsync
  sdData : s'.sdData = s.sdData
  phase : s'.phase = s.phase
  sending : s'.sending = s.sending

theorem SameTickets.trans {s1 s2 s3 : Kaddist α} (h : SameTickets s1 s2)
    (h' : SameTickets s2 s3) : SameTickets s1 s3 := by
  cases h
  cases h'
  constructor <;> simp only [*]

theorem sameTickets_dropOne (s : Kaddist α) (x : Nat) : SameTickets s (dropOne s x) := by
  unfold dropOne
  dsimp only
  split <;> exact ⟨rfl, rfl, rfl, rfl, rfl, rfl, rfl, rfl, rfl, rfl, rfl, rfl⟩

/-- **Giving up a chunk.** The last ticket that has it pending frees the first chunk
of the list, and no ticket had it pending: the others keep what they have. -/
theorem Pending.giveUp (h : Pending s L C (x :: X)) (hC : Chunks s C) :
    ∃ C', Chunks (dropOne s x) C' ∧ Pending (dropOne s x) L C' X ∧
      ∀ t ∈ L, pend C' (s.dtAsync t) = pend C (s.dtAsync t) := by
  obtain ⟨pre, hpre⟩ := h.suffix
  have hxC : x ∈ C := h.suffix.subset (by simp)
  have hxX : x ∉ X := (nodup_cons.mp (hC.nodup.sublist h.suffix.sublist)).1
  have hcount := h.count x hxC
  have hother : ∀ c ∈ C, c ≠ x →
      s.sdPending c = holders s.dtAsync L C c + if c ∈ X then 1 else 0 := fun c hc hne => by
    rw [h.count c hc]
    simp [hne]
  have hdec : (decPending s x).sdPending x = holders s.dtAsync L C x := by
    simp [decPending, hcount]
  have hdec' : ∀ c, c ≠ x → (decPending s x).sdPending c = s.sdPending c := fun c hne => by
    simp [decPending, hne]
  unfold dropOne
  by_cases hzero : (decPending s x).sdPending x = 0
  · -- Nobody has the chunk pending, so nothing can be before it.
    rw [if_pos hzero]
    have hno : ∀ t ∈ L, x ∉ pend C (s.dtAsync t) := fun t ht hx => by
      have := holders_pos.mpr ⟨t, ht, hx⟩
      omega
    obtain rfl : pre = [] := by
      by_contra hne
      obtain ⟨d, hd⟩ := exists_mem_of_ne_nil pre hne
      have hdC : d ∈ C := by simp [← hpre, hd]
      have hdx : d ∉ x :: X := by
        have := hpre ▸ hC.nodup
        exact fun hm => (nodup_append.mp this).2.2 d hd d hm rfl
      have hpos := h.pos d hdC
      rw [h.count d hdC, if_neg hdx, Nat.add_zero] at hpos
      obtain ⟨t, ht, hdt⟩ := holders_pos.mp hpos
      rw [← hpre] at hdt hno
      exact hno t ht (mem_pend_of_before (hpre ▸ hC.nodup) hd hdt)
    subst hpre
    have hkeep : ∀ t ∈ L, pend X (s.dtAsync t) = pend (x :: X) (s.dtAsync t) := fun t ht => by
      refine (pend_cons_of_ne ?_).symm
      rintro hEq
      have := hno t ht
      rw [← hEq] at this
      simp at this
    refine ⟨X, ({ hC with } : Chunks (decPending s x) _).freeFront,
      ⟨fun t ht => ?_, suffix_rfl, fun c hc => ?_, fun c hc => ?_⟩, hkeep⟩
    · rcases h.async t ht with h0 | hm
      · exact .inl h0
      rcases mem_cons.mp hm with hEq | hm
      · have := hno t ht
        rw [hEq] at this
        simp at this
      · exact .inr hm
    · have hne : c ≠ x := ne_of_mem_of_not_mem hc hxX
      change (decPending s x).sdPending c = _
      rw [hdec' c hne, hother c (by simp [hc]) hne]
      congr 1
      exact holders_congr fun t ht => by rw [nil_append, ← hkeep t ht]; rfl
    · have hne : c ≠ x := ne_of_mem_of_not_mem hc hxX
      change 0 < (decPending s x).sdPending c
      rw [hdec' c hne]
      exact h.pos c (by simp [hc])
  · rw [if_neg hzero]
    refine ⟨C, { hC with },
      ⟨h.async, (suffix_cons x X).trans h.suffix, fun c hc => ?_, fun c hc => ?_⟩,
      fun _ _ => rfl⟩
    · by_cases hne : c = x
      · subst hne
        rw [hdec, if_neg hxX]
        rfl
      · rw [hdec' c hne, hother c hc hne]
        rfl
    · by_cases hne : c = x
      · subst hne
        exact Nat.pos_of_ne_zero hzero
      · rw [hdec' c hne]
        exact h.pos c hc

/-- A round of the loop of `_kaddist_delticket_andunlock` goes on with the next
chunk, whether or not it has freed this one. -/
theorem dropPending_succ (fuel : Nat) (s : Kaddist α) (x : Nat) :
    dropPending (fuel + 1) s x =
      if s.sdNext x = 0 then some (dropOne s x)
      else dropPending fuel (dropOne s x) (s.sdNext x) := by
  rw [dropPending, dropOne]
  split <;> rfl

/-- **The loop of `_kaddist_delticket_andunlock`.** It gives up all that the deleted
ticket has pending. -/
theorem Pending.giveUpAll {fuel : Nat} (h : Pending s L C (x :: X)) (hC : Chunks s C)
    (hf : X.length < fuel) :
    ∃ s' C', dropPending fuel s x = some s' ∧ Chunks s' C' ∧ Pending s' L C' [] ∧
      (∀ t ∈ L, pend C' (s.dtAsync t) = pend C (s.dtAsync t)) ∧ SameTickets s s' := by
  induction X generalizing s C x fuel with
  | nil =>
    obtain _ | fuel := fuel
    · omega
    obtain ⟨C', hC', h', hkeep⟩ := h.giveUp hC
    have hnext : s.sdNext x = 0 := hC.next_eq h.suffix
    refine ⟨dropOne s x, C', ?_, hC', h', hkeep, sameTickets_dropOne s x⟩
    rw [dropPending_succ, if_pos hnext]
  | cons y X ih =>
    obtain _ | fuel := fuel
    · simp at hf
    obtain ⟨C1, hC1, h1, hkeep1⟩ := h.giveUp hC
    have hnext : s.sdNext x = y := hC.next_eq h.suffix
    have hy0 : y ≠ 0 := hC1.seg.ne_nil y (h1.suffix.subset (by simp))
    obtain ⟨s', C', hval, hC', h', hkeep, hsame⟩ :=
      ih h1 hC1 (by simpa using hf)
    have hsame1 := sameTickets_dropOne s x
    refine ⟨s', C', ?_, hC', h', fun t ht => ?_, hsame1.trans hsame⟩
    · rw [dropPending_succ, hnext, if_neg hy0, hval]
    · rw [← hkeep1 t ht, ← hsame1.dtAsync, hkeep t ht]

/-- **Specification of `kaddist_vtryrecv_unlocked`** with something pending: the
ticket receives the first chunk and keeps the rest. -/
theorem Pending.receive (h : Pending s L C []) (hC : Chunks s C) (hnd : L.Nodup) (ht : t ∈ L)
    (hdead : s.dead = false) {c : Nat} {rest : List Nat}
    (hpend : pend C (s.dtAsync t) = c :: rest) :
    ∃ s' C', kaddistVtryrecv s t = (.keOk, some (s.sdData c), s') ∧ Chunks s' C' ∧
      Pending s' L C' [] ∧ pend C' (s'.dtAsync t) = rest ∧
      (∀ u ∈ L, u ≠ t → pend C' (s'.dtAsync u) = pend C (s.dtAsync u)) ∧
      (∀ u, u ≠ t → s'.dtAsync u = s.dtAsync u) ∧
      SameTickets { s with dtAsync := s'.dtAsync } s' := by
  have hasync : s.dtAsync t = c := by
    rcases h.async t ht with h0 | hm
    · rw [h0, pend_eq_nil hC.not_mem_zero] at hpend
      simp at hpend
    · obtain ⟨pre, rest', -, -, hp⟩ := exists_pend hm
      exact (List.cons.inj (hp.symm.trans hpend)).1
  have hleave := h.leave ht
  rw [hpend] at hleave
  have hnext := hC.next_eq hleave.suffix
  have hc0 : c ≠ 0 := hC.seg.ne_nil c (hleave.suffix.subset (by simp))
  -- The ticket's own `dt_async` does not matter while it is out of the list.
  obtain ⟨s0, hs0⟩ : ∃ s0 : Kaddist α,
    s0 = { s with dtAsync := update s.dtAsync t (s.sdNext c) } := ⟨_, rfl⟩
  have hne : ∀ u ∈ L.erase t, u ≠ t := fun u hu => ne_of_mem_of_not_mem hu hnd.not_mem_erase
  have hold : ∀ u, u ≠ t → s0.dtAsync u = s.dtAsync u := fun u hu => by
    rw [hs0]
    exact update_of_ne hu _ _
  have h₀ : Pending s0 (L.erase t) C (c :: rest) :=
    hleave.congr (fun u hu => hold u (hne u hu)) (by rw [hs0])
  have hC0 : Chunks s0 C := by
    rw [hs0]
    exact { hC with }
  obtain ⟨C', hC', h', hkeep⟩ := h₀.giveUp hC0
  have hsame := sameTickets_dropOne s0 c
  have hself : (dropOne s0 c).dtAsync t = rest.headD 0 := by
    rw [hsame.dtAsync, hs0, ← hnext]
    exact update_self _ _ _
  have hrest : pend C' ((dropOne s0 c).dtAsync t) = rest := by
    rw [hself]
    exact pend_headD h'.suffix hC'.nodup hC'.not_mem_zero
  refine ⟨dropOne s0 c, C', ?_, hC', ?_, hrest, fun u hu hut => ?_, fun u hut => ?_, ?_⟩
  · simp only [kaddistVtryrecv, hdead, hasync, hs0, dropOne]
    simp [hc0, decPending]
  · refine (h'.join ?_ hrest).perm (perm_cons_erase ht).symm
    rw [hself]
    cases rest with
    | nil => exact .inl rfl
    | cons y rest => exact .inr (h'.suffix.subset (by simp))
  · rw [hsame.dtAsync, hkeep u ((mem_erase_of_ne hut).mpr hu), hold u hut]
  · rw [hsame.dtAsync, hold u hut]
  · rw [hs0] at hsame ⊢
    exact { hsame with dtAsync := rfl }

end KosKernel.Addist
