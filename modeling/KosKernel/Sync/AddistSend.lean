import KosKernel.Sync.AddistChunks
import KosKernel.Sync.AddistTickets

/-!
# KosKernel.Sync.AddistSend

What **`kaddist_vsend`** does to the tickets and the chunks.

Whether the last chunk is new or re-used, it ends up behind everything a ticket has
pending: `C ++ [r]` is the chunk list of the send, and a ticket that gets the chunk
has `pend C p ++ [r]` pending where it had `pend C p` before the last chunk. A task
that waits in the signal gets the data directly, if all ready tasks do.
-/

namespace KosKernel.Addist

open Function LinkedList List

variable {α : Type} {s s' : Kaddist α} {ideal : Nat → Nat} {C L N R : List Nat} {r : Nat}

theorem foldl_registerChunk (N : List Nat) (async : Nat → Nat) (r t : Nat) :
    N.foldl (registerChunk r) async t =
      if t ∈ N ∧ async t = 0 then r else async t := by
  induction N generalizing async with
  | nil => simp
  | cons n N ih =>
    have hstep : registerChunk r async n t = if t = n ∧ async t = 0 then r else async t := by
      unfold registerChunk
      by_cases htn : t = n
      · subst htn
        split <;> simp_all
      · split <;> simp [htn]
    rw [foldl_cons, ih, hstep]
    by_cases htn : t = n
    · subst htn
      by_cases h0 : async t = 0 <;> simp [h0]
    · simp [htn]

theorem foldl_update (R : List Nat) (async : Nat → Nat) (r t : Nat) :
    R.foldl (fun async t => update async t r) async t =
      if t ∈ R then r else async t := by
  induction R generalizing async with
  | nil => simp
  | cons n R ih =>
    rw [foldl_cons, ih]
    by_cases htn : t = n <;> by_cases hR : t ∈ R <;> simp [htn, hR]

/-- The chunks before the one that is sent. -/
structure Before (s : Kaddist α) (L C : List Nat) (r : Nat) : Prop where
  async : ∀ t ∈ L, s.dtAsync t = 0 ∨ s.dtAsync t ∈ C ++ [r]
  count : ∀ c ∈ C, s.sdPending c = holders s.dtAsync L C c
  pos : ∀ c ∈ C, 0 < s.sdPending c

/-- The last chunk is used again. -/
theorem Pending.before_last (h : Pending s L (C ++ [r]) []) (hnd : (C ++ [r]).Nodup) :
    Before s L C r where
  async := h.async
  count c hc := by
    rw [h.count c (by simp [hc])]
    simpa using holders_congr fun t _ => mem_pend_append hnd hc
  pos c hc := h.pos c (by simp [hc])

/-- A new chunk is used. -/
theorem Pending.before_new (h : Pending s L C []) (ha : s'.dtAsync = s.dtAsync)
    (hp : s'.sdPending = s.sdPending) : Before s' L C r where
  async t ht := by
    rw [ha]
    rcases h.async t ht with h0 | hm
    · exact .inl h0
    · exact .inr (by simp [hm])
  count c hc := by
    rw [hp, ha, h.count c hc]
    simp
  pos := hp ▸ h.pos

/-- The tickets of `A` get the last chunk; the other ones have nothing pending. -/
theorem Before.register (h : Before s L C r) (hC : Chunks s' (C ++ [r])) (A : List Nat)
    (hin : ∀ t ∈ L, t ∈ A → s'.dtAsync t = if s.dtAsync t = 0 then r else s.dtAsync t)
    (hout : ∀ t ∈ L, t ∉ A → s.dtAsync t = 0 ∧ s'.dtAsync t = 0)
    (hr : s'.sdPending r = L.countP (· ∈ A)) (hpos : 0 < s'.sdPending r)
    (hother : ∀ c, c ≠ r → s'.sdPending c = s.sdPending c) :
    Pending s' L (C ++ [r]) [] ∧
      ∀ t ∈ L, pend (C ++ [r]) (s'.dtAsync t) =
        if t ∈ A then pend C (s.dtAsync t) ++ [r] else [] := by
  have h0 := hC.not_mem_zero
  have h0C : 0 ∉ C := fun hm => h0 (by simp [hm])
  have hrC : r ∉ C := fun hm => (nodup_append.mp hC.nodup).2.2 r hm r (by simp) rfl
  have hpend : ∀ t ∈ L, pend (C ++ [r]) (s'.dtAsync t) =
      if t ∈ A then pend C (s.dtAsync t) ++ [r] else [] := by
    intro t ht
    split
    · rename_i hA
      rw [hin t ht hA, pend_register hC.nodup h0C (h.async t ht)]
    · rename_i hA
      rw [(hout t ht hA).2, pend_eq_nil h0]
  refine ⟨⟨fun t ht => ?_, nil_suffix, fun c hc => ?_, fun c hc => ?_⟩, hpend⟩
  · by_cases hA : t ∈ A
    · rw [hin t ht hA]
      split
      · exact .inr (by simp)
      · exact h.async t ht
    · exact .inl (hout t ht hA).2
  · rw [if_neg (not_mem_nil), Nat.add_zero]
    rcases mem_append.mp hc with hcC | hcr
    · rw [hother c (ne_of_mem_of_not_mem hcC hrC), h.count c hcC]
      refine holders_congr fun t ht => ?_
      rw [hpend t ht]
      by_cases hA : t ∈ A
      · rw [if_pos hA]
        simp [ne_of_mem_of_not_mem hcC hrC]
      · rw [if_neg hA, (hout t ht hA).1, pend_eq_nil h0C]
    · rw [mem_singleton.mp hcr, hr, holders]
      refine countP_congr fun t ht => ?_
      rw [hpend t ht]
      by_cases hA : t ∈ A <;> simp [hA]
  · by_cases hcr : c = r
    · rw [hcr]
      exact hpos
    · rw [hother c hcr]
      exact h.pos c (by simpa [hcr] using hc)

section

variable (hT : Tickets s ideal N R) (hC : Chunks s (C ++ [r])) (hB : Before s (N ++ R) C r)
  (hR : ∀ t ∈ R, s.dtAsync t = 0)

include hT hC hB hR

/-- The chunk goes to the tickets that are not ready, the data to the waiting tasks. -/
theorem sendChunk_unbuffered (hN : N ≠ []) (buf : α) :
    ∃ s', sendChunk s buf R.length r = some s' ∧ Tickets s' ideal N R ∧ Chunks s' (C ++ [r]) ∧
      Pending s' (N ++ R) (C ++ [r]) [] ∧
      (∀ t ∈ N, pend (C ++ [r]) (s'.dtAsync t) = pend C (s.dtAsync t) ++ [r]) ∧
      (∀ t ∈ R, s'.dtAsync t = 0) ∧ s'.sdData = update s.sdData r buf ∧
      s'.sending = s.sending ++ [some buf] ∧ s'.waiting = s.waiting ∧ s'.phase = s.phase ∧
      s'.dead = s.dead := by
  obtain ⟨s', hs'⟩ : ∃ s' : Kaddist α, s' = { s with
    sdData := update s.sdData r buf
    dtAsync := N.foldl (registerChunk r) s.dtAsync
    sdPending := update s.sdPending r (s.adKnown - R.length)
    sending := s.sending ++ [some buf] } := ⟨_, rfl⟩
  have hval : sendChunk s buf R.length r = some s' := by
    simp [sendChunk, hT.walk_notReady, hT.count, hs']
  have hasync : ∀ t, s'.dtAsync t = if t ∈ N ∧ s.dtAsync t = 0 then r else s.dtAsync t :=
    fun t => by rw [hs']; exact foldl_registerChunk N s.dtAsync r t
  have hC' : Chunks s' (C ++ [r]) := by
    rw [hs']
    exact { hC with }
  have hready : ∀ t ∈ R, s'.dtAsync t = 0 := fun t ht => by
    rw [hasync t, if_neg fun hm => hT.not_mem_left t ht hm.1, hR t ht]
  have hpending : s'.sdPending r = (N ++ R).countP (· ∈ N) := by
    have hN' : N.countP (· ∈ N) = N.length := countP_eq_length.mpr (by simp)
    have hR' : R.countP (· ∈ N) = 0 :=
      countP_eq_zero.mpr (by simpa using hT.not_mem_left)
    rw [countP_append, hN', hR', hs']
    simp [hT.known]
  have hNpos := length_pos_iff.mpr hN
  obtain ⟨hP, hpend⟩ := hB.register hC' N
    (fun t _ hA => by rw [hasync t]; simp [hA])
    (fun t ht hA => by
      have htR : t ∈ R := by simpa [hA] using ht
      exact ⟨hR t htR, hready t htR⟩)
    hpending
    (by rw [hs']; simp [hT.known]; omega)
    (fun c hc => by rw [hs']; simp [hc])
  refine ⟨s', hval, ?_, hC', hP, fun t ht => ?_, hready, by rw [hs'], by rw [hs'], by rw [hs'],
    by rw [hs'], by rw [hs']⟩
  · rw [hs']
    exact { hT with }
  · rw [hpend t (by simp [ht]), if_pos ht]

/-- The chunk goes to all tickets. -/
theorem sendChunk_buffered (hne : R ≠ []) (buf : α) {recvCount : Nat}
    (hrecv : recvCount ≠ R.length) :
    ∃ s' ideal', sendChunk s buf recvCount r = some s' ∧ Tickets s' ideal' (R ++ N) [] ∧
      Chunks s' (C ++ [r]) ∧ Pending s' (N ++ R) (C ++ [r]) [] ∧
      (∀ t ∈ N ++ R, pend (C ++ [r]) (s'.dtAsync t) = pend C (s.dtAsync t) ++ [r]) ∧
      s'.sdData = update s.sdData r buf ∧
      s'.sending = s.sending ++ [none] ∧ s'.waiting = s.waiting ∧ s'.phase = s.phase ∧
      s'.dead = s.dead := by
  obtain ⟨s1, hs1⟩ : ∃ s1 : Kaddist α, s1 = { s with
    sdData := update s.sdData r buf
    dtAsync := R.foldl (fun async t => update async t r)
      (N.foldl (registerChunk r) s.dtAsync)
    sdPending := update s.sdPending r s.adKnown
    sending := s.sending ++ [none] } := ⟨_, rfl⟩
  have hT1 : Tickets s1 ideal N R := by
    rw [hs1]
    exact { hT with }
  obtain ⟨ideal', hT'⟩ := hT1.moveReady hne
  have hti : s.adTiready ≠ 0 := fun h0 => hne (hT.ready.head_eq_nil_iff.mp h0)
  have hval : sendChunk s buf recvCount r = some (moveReady s1 (R.getLastD 0)) := by
    simp [sendChunk, hT.walk_notReady, hT.walk_ready, hT.count, hs1, hti, Ne.symm hrecv]
  have hasync : ∀ t, s1.dtAsync t =
      if t ∈ R then r else if t ∈ N ∧ s.dtAsync t = 0 then r else s.dtAsync t := fun t => by
    rw [hs1]
    simp only [foldl_update, foldl_registerChunk]
  have hC1 : Chunks s1 (C ++ [r]) := by
    rw [hs1]
    exact { hC with }
  have hNpos := length_pos_iff.mpr hne
  have hall : (N ++ R).countP (· ∈ N ++ R) = (N ++ R).length :=
    countP_eq_length.mpr (by simp)
  obtain ⟨hP, hpend⟩ := hB.register hC1 (N ++ R)
    (fun t _ hA => by
      rw [hasync t]
      by_cases htR : t ∈ R
      · simp [htR, hR t htR]
      · have htN : t ∈ N := by simpa [htR] using hA
        simp [htR, htN])
    (fun t ht hA => absurd ht hA)
    (by rw [hall, hs1]; simp [hT.known])
    (by rw [hs1]; simp [hT.known]; omega)
    (fun c hc => by rw [hs1]; simp [hc])
  refine ⟨moveReady s1 (R.getLastD 0), ideal', hval, hT',
    { hC1 with }, hP.congr (fun _ _ => rfl) rfl, fun t ht => ?_,
    by rw [hs1]; rfl, by rw [hs1]; rfl, by rw [hs1]; rfl, by rw [hs1]; rfl, by rw [hs1]; rfl⟩
  change pend (C ++ [r]) (s1.dtAsync t) = _
  rw [hpend t ht, if_pos ht]

end

end KosKernel.Addist
