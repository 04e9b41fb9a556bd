import KosKernel.Sync.Addist

/-!
# KosKernel.Sync.AddistTickets

The two **ticket lists** of a distributor, and what each section does to them.

A ticket that joins a non-empty ready list leaves the old head without a back link,
so the back links are not those of a list: every one is right or `NULL`, and in the
ready list all are `NULL`. `ideal` is the map of the right ones. A section that takes
a ticket out of a list follows its back link; `BackLinked` is the assertion the
source makes there.
-/

namespace KosKernel.Addist

open Function LinkedList List

variable {α : Type} {s : Kaddist α} {ideal : Nat → Nat} {N R : List Nat} {t : Nat}

/-- `assert((ticket->dt_prev != NULL) == (ticket != head))` -/
def BackLinked (s : Kaddist α) (ticket head : Nat) : Prop :=
  s.dtPrev ticket ≠ 0 ↔ ticket ≠ head

instance (s : Kaddist α) (ticket head : Nat) : Decidable (BackLinked s ticket head) :=
  inferInstanceAs (Decidable (_ ↔ _))

/-- The lists of the tickets that are not ready, and of those that are. -/
structure Tickets (s : Kaddist α) (ideal : Nat → Nat) (N R : List Nat) : Prop where
  notReady : IsSeg 0 s.dtNext ideal 0 s.adTnready N 0
  ready : IsSeg 0 s.dtNext ideal 0 s.adTiready R 0
  nodup : (N ++ R).Nodup
  prev_notReady : ∀ x ∈ N, s.dtPrev x = ideal x ∨ s.dtPrev x = 0
  prev_ready : ∀ x ∈ R, s.dtPrev x = 0
  known : s.adKnown = N.length + R.length
  count : s.adReady = R.length

namespace Tickets

section

variable (h : Tickets s ideal N R)

include h

theorem nodup_left : N.Nodup := (nodup_append.mp h.nodup).1

theorem nodup_right : R.Nodup := (nodup_append.mp h.nodup).2.1

theorem not_mem_right : ∀ x ∈ N, x ∉ R :=
  fun x hx hx' => (nodup_append.mp h.nodup).2.2 x hx x hx' rfl

theorem not_mem_left : ∀ x ∈ R, x ∉ N :=
  fun x hx hx' => h.not_mem_right x hx' hx

/-- A ticket that passes the assertion at the head of the non-ready list is in that
list, and its back link is right. -/
theorem prev_eq (ht : t ∈ N ++ R) (hb : BackLinked s t s.adTnready) :
    t ∈ N ∧ s.dtPrev t = ideal t := by
  have hmem : t ∈ N := by
    rcases mem_append.mp ht with hN | hR
    · exact hN
    -- The head of the other list has a back link that is `NULL`, like this one.
    have hhead : t = s.adTnready := by
      by_contra hne
      exact hb.mpr hne (h.prev_ready t hR)
    exact absurd hhead (h.notReady.ne_head (h.not_mem_left t hR) (h.ready.ne_nil t hR))
  refine ⟨hmem, ?_⟩
  rcases h.prev_notReady t hmem with hp | hp
  · exact hp
  have hhead : t = s.adTnready := by
    by_contra hne
    exact hb.mpr hne hp
  cases N with
  | nil => simp at hmem
  | cons x xs =>
    obtain ⟨hx, -, hpx, -⟩ := h.notReady
    rw [hp, hhead, hx, hpx]

/-- A ready ticket that passes the assertion is the head of the ready list. -/
theorem head_ready (ht : t ∈ R) (hb : BackLinked s t s.adTiready) :
    s.adTiready = t ∧ ∃ R', R = t :: R' := by
  have hhead : t = s.adTiready := by
    by_contra hne
    exact hb.mpr hne (h.prev_ready t ht)
  cases R with
  | nil => simp at ht
  | cons x xs =>
    obtain ⟨hx, -⟩ := h.ready
    exact ⟨hhead.symm, xs, by rw [hhead, hx]⟩

end

/-- A write to back links keeps those that are right. -/
theorem agree_linkPrev {f g : Nat → Nat} {x : Nat} (h : f x = g x ∨ f x = 0) (q v : Nat) :
    linkPrev 0 f q v x = linkPrev 0 g q v x ∨ linkPrev 0 f q v x = 0 := by
  by_cases hx : x = q
  · subst hx
    unfold linkPrev
    split
    · exact h
    · simp
  · rw [linkPrev_of_ne hx, linkPrev_of_ne hx]
    exact h

section

variable (h : Tickets s ideal N R)

include h

theorem genticket (hdead : s.dead = false) (hmax : s.adKnown ≠ userMax) (ht : t ∉ N ++ R)
    (ht0 : t ≠ 0) : ∃ ideal', Tickets (kaddistGenticket s t).2 ideal' (t :: N) R := by
  have htN : t ∉ N := fun hm => ht (mem_append_left _ hm)
  have htR : t ∉ R := fun hm => ht (mem_append_right _ hm)
  rw [kaddistGenticket, hdead, if_neg Bool.false_ne_true, if_neg hmax]
  refine ⟨linkPrev 0 (update ideal t 0) s.adTnready t,
    h.notReady.push h.nodup_left htN ht0, h.notReady.frame_push h.ready h.not_mem_left htR,
    nodup_cons.mpr ⟨ht, h.nodup⟩, fun x hx => agree_linkPrev ?_ _ _, fun x hx => ?_, ?_,
    h.count⟩
  · rcases mem_cons.mp hx with rfl | hx
    · simp
    have hne : x ≠ t := ne_of_mem_of_not_mem hx htN
    rw [update_of_ne hne, update_of_ne hne]
    exact h.prev_notReady x hx
  · simp only
    rw [linkPrev_of_ne (h.notReady.ne_head (h.not_mem_left x hx) (h.ready.ne_nil x hx)),
      update_of_ne (ne_of_mem_of_not_mem hx htR)]
    exact h.prev_ready x hx
  · simp only [h.known, length_cons]
    omega

theorem beginReady (ht : t ∈ N ++ R) (hb : BackLinked s t s.adTnready) :
    t ∈ N ∧ ∃ ideal', Tickets (beginReady s t) ideal' (N.erase t) (t :: R) := by
  obtain ⟨htN, hprev⟩ := h.prev_eq ht hb
  have htR := h.not_mem_right t htN
  have hnd := h.nodup_left
  have htE : t ∉ N.erase t := hnd.not_mem_erase
  have hun := h.notReady.unlink hnd htN
  have hfr := h.notReady.frame_unlink h.ready h.not_mem_left htN
  have hdis : ∀ x ∈ N.erase t, x ∉ R := fun x hx => h.not_mem_right x (mem_of_mem_erase hx)
  refine ⟨htN, linkPrev 0 (update (linkPrev 0 ideal (s.dtNext t) (ideal t)) t 0)
    s.adTiready t, ?_, ?_, ?_, ?_, ?_, ?_, ?_⟩
  · simp only [Addist.beginReady, hprev]
    exact hfr.frame_push hun hdis htE
  · simp only [Addist.beginReady, hprev]
    exact hfr.push h.nodup_right htR (h.notReady.ne_nil t htN)
  · have hp : (N ++ R).Perm (N.erase t ++ t :: R) :=
      ((perm_cons_erase htN).append_right R).trans perm_middle.symm
    exact hp.nodup_iff.mp h.nodup
  · intro x hx
    have hne : x ≠ t := ne_of_mem_of_not_mem hx htE
    have hxN := mem_of_mem_erase hx
    rw [linkPrev_of_ne (h.ready.ne_head (hdis x hx) (h.notReady.ne_nil x hxN))]
    simp only [Addist.beginReady, hprev, update_of_ne hne]
    exact agree_linkPrev (h.prev_notReady x hxN) _ _
  · intro x hx
    simp only [Addist.beginReady]
    rcases mem_cons.mp hx with rfl | hx
    · simp
    rw [update_of_ne (ne_of_mem_of_not_mem hx htR), linkPrev_of_ne]
    · exact h.prev_ready x hx
    · rintro rfl
      exact (h.notReady.link_mem htN).1.elim (h.ready.ne_nil _ hx) (h.not_mem_left _ hx)
  · have hpos := length_pos_of_mem htN
    simp only [Addist.beginReady, h.known, length_erase_of_mem htN, length_cons]
    omega
  · simp only [Addist.beginReady, h.count, length_cons]

theorem deleteReadyTicket (ht : t ∈ R) (hb : BackLinked s t s.adTiready) :
    ∃ ideal', Tickets (deleteReadyTicket s t) ideal' (t :: N) (R.erase t) := by
  obtain ⟨hhead, R', rfl⟩ := h.head_ready ht hb
  have hprev : s.dtPrev t = ideal t := by
    rw [h.prev_ready t ht]
    exact h.ready.2.2.1.symm
  have htN := h.not_mem_left t ht
  have hnd := h.nodup_right
  have htE : t ∉ (t :: R').erase t := hnd.not_mem_erase
  have hun := h.ready.unlink hnd ht
  have hfr := h.ready.frame_unlink h.notReady h.not_mem_right ht
  have hdis : ∀ x ∈ (t :: R').erase t, x ∉ N :=
    fun x hx => h.not_mem_left x (mem_of_mem_erase hx)
  refine ⟨linkPrev 0 (update (linkPrev 0 ideal (s.dtNext t) (ideal t)) t 0)
    s.adTnready t, ?_, ?_, ?_, ?_, ?_, ?_, ?_⟩
  · simp only [Addist.deleteReadyTicket, hprev]
    exact hfr.push h.nodup_left htN (h.ready.ne_nil t ht)
  · simp only [Addist.deleteReadyTicket, hprev]
    exact hfr.frame_push hun hdis htE
  · have hp : (N ++ t :: R').Perm (t :: N ++ (t :: R').erase t) := by
      rw [erase_cons_head]
      exact perm_middle
    exact hp.nodup_iff.mp h.nodup
  · intro x hx
    simp only [Addist.deleteReadyTicket, hprev]
    refine agree_linkPrev ?_ _ _
    rcases mem_cons.mp hx with rfl | hx
    · simp
    have hne : x ≠ t := ne_of_mem_of_not_mem hx htN
    rw [update_of_ne hne, update_of_ne hne]
    exact agree_linkPrev (h.prev_notReady x hx) _ _
  · intro x hx
    have hxR := mem_of_mem_erase hx
    simp only [Addist.deleteReadyTicket]
    rw [linkPrev_of_ne (h.notReady.ne_head (hdis x hx) (h.ready.ne_nil x hxR)),
      update_of_ne (ne_of_mem_of_not_mem hx htE)]
    have hp0 : s.dtPrev t = 0 := h.prev_ready t ht
    rcases agree_linkPrev (f := s.dtPrev) (g := fun _ => 0) (.inr (h.prev_ready x hxR))
      (s.dtNext t) (s.dtPrev t) with hx0 | hx0
    · rw [hx0, hp0]
      unfold linkPrev
      split
      · rfl
      · simp [update_apply]
    · exact hx0
  · simp only [Addist.deleteReadyTicket, h.known, erase_cons_head, length_cons]
    omega
  · simp only [Addist.deleteReadyTicket, h.count, erase_cons_head, length_cons]
    omega

/-- A deleted ticket leaves the non-ready list; it is no longer known. -/
theorem removeTicket (ht : t ∈ N ++ R) (hb : BackLinked s t s.adTnready) :
    t ∈ N ∧ ∃ ideal', Tickets { removeTicket s t with adKnown := s.adKnown - 1 } ideal'
      (N.erase t) R := by
  obtain ⟨htN, hprev⟩ := h.prev_eq ht hb
  have hnd := h.nodup_left
  -- Both branches of the source are the same relinking.
  have hlink : Addist.removeTicket s t =
      { s with
        adTnready := linkHead 0 s.adTnready (s.dtPrev t) (s.dtNext t)
        dtNext := linkNext 0 s.dtNext (s.dtPrev t) (s.dtNext t)
        dtPrev := linkPrev 0 s.dtPrev (s.dtNext t) (s.dtPrev t) } := by
    unfold Addist.removeTicket linkHead linkNext
    by_cases hhead : t = s.adTnready
    · have hp0 : s.dtPrev t = 0 := by
        by_contra hne
        exact hb.mp hne hhead
      simp [← hhead, hp0]
    · have hp0 : s.dtPrev t ≠ 0 := hb.mpr hhead
      simp [hhead, hp0]
  rw [hlink, hprev]
  refine ⟨htN, linkPrev 0 ideal (s.dtNext t) (ideal t), h.notReady.unlink hnd htN,
    h.notReady.frame_unlink h.ready h.not_mem_left htN, ?_, ?_, ?_, ?_, h.count⟩
  · exact h.nodup.sublist (erase_sublist.append_right R)
  · exact fun x hx => agree_linkPrev (h.prev_notReady x (mem_of_mem_erase hx)) _ _
  · intro x hx
    simp only
    rw [linkPrev_of_ne]
    · exact h.prev_ready x hx
    · rintro rfl
      exact (h.notReady.link_mem htN).1.elim (h.ready.ne_nil _ hx) (h.not_mem_left _ hx)
  · have hpos := length_pos_of_mem htN
    simp only [h.known, length_erase_of_mem htN]
    omega

/-- A send puts the ready list before the non-ready one. -/
theorem moveReady (hne : R ≠ []) :
    ∃ ideal', Tickets (moveReady s (R.getLastD 0)) ideal' (R ++ N) [] := by
  have hnd : (R ++ N).Nodup := nodup_append_comm.mp h.nodup
  refine ⟨linkPrev 0 ideal s.adTnready (R.getLastD 0), h.ready.concat h.notReady hnd hne, rfl,
    by simpa using hnd, fun x hx => agree_linkPrev ?_ _ _, by simp, ?_, rfl⟩
  · rcases mem_append.mp hx with hx | hx
    · exact .inr (h.prev_ready x hx)
    · exact h.prev_notReady x hx
  · simp only [Addist.moveReady, h.known, length_append, length_nil]
    omega

theorem congr {s' : Kaddist α} (hn : s'.dtNext = s.dtNext) (hp : s'.dtPrev = s.dtPrev)
    (htn : s'.adTnready = s.adTnready) (hti : s'.adTiready = s.adTiready)
    (hk : s'.adKnown = s.adKnown) (hr : s'.adReady = s.adReady) : Tickets s' ideal N R :=
  ⟨hn ▸ htn ▸ h.notReady, hn ▸ hti ▸ h.ready, h.nodup, hp ▸ h.prev_notReady, hp ▸ h.prev_ready,
    hk ▸ h.known, hr ▸ h.count⟩

/-- The loops over the ticket lists end. -/
theorem walk_notReady : walk 0 s.dtNext (s.adKnown + 1) s.adTnready = some N :=
  h.notReady.walk_eq (by have := h.known; omega)

theorem walk_ready : walk 0 s.dtNext (s.adKnown + 1) s.adTiready = some R :=
  h.ready.walk_eq (by have := h.known; omega)

theorem hasreadyticket (t : Nat) : kaddistHasreadyticket s t = some (decide (t ∈ R)) := by
  simp [kaddistHasreadyticket, h.walk_ready]

end

end Tickets

end KosKernel.Addist
