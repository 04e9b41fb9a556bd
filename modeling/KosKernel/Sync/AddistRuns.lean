import KosKernel.Lib.Mailbox
import KosKernel.Sync.AddistSend
import Mathlib.Data.List.Perm.Subperm

/-!
# KosKernel.Sync.AddistRuns

**Every interleaving of the calls** on one distributor, against the mailboxes its
tickets stand for: what was sent since a ticket was registered, and what its calls
returned.

A send that finds the buffer full puts its message in place of the newest one, which
the tickets that have not received that one yet never get. Otherwise every ticket
receives every message, in order, in all runs that meet two conditions.

* A ticket is taken out of a list only if it passes the assertion of that section,
  `BackLinked`. It fails for a ticket that is not the head of its list and has no
  back link, and for a ticket that is still in the ready list although its task got
  the data of a send that not all tickets were ready for.
* While a send wakes the tasks that were waiting, none of them gives up, none joins
  them, and no other send starts: the tasks are woken without the lock, one by one,
  until nobody waits.
-/

namespace KosKernel.Addist

open Function LinkedList List

variable {α : Type}

/-- What a send does to the mailbox of a registered ticket. -/
def posted (error : Errno) (buf : α) (waits : Bool) (b : Mailbox α) : Mailbox α :=
  match error with
  | .keOk | .ksBlocking => b.post buf
  | .ksFull => b.replace buf
  -- Without chunks only the waiting tasks are reached.
  | .ksFound => if waits then b.post buf else b
  | _ => b

/-- What a receive does to the mailbox of its ticket. -/
def taken (out : Option α) (b : Mailbox α) : Mailbox α :=
  match out with
  | some m => b.take m
  | none => b

/-- The sections, each with its ticket. -/
inductive Action (α : Type) where
  | genticket (t : Nat)
  | delticket (t : Nat)
  | vtryrecv (t : Nat)
  | vrecv (t : Nat)
  /-- A waiting task times out or is interrupted. -/
  | leaveQueue (t : Nat)
  | vrecvFailed (t : Nat)
  /-- With the data, and with what `malloc` returns if it is called. -/
  | vsend (buf : α) (mem : Nat)
  /-- The next wakeup of one of the sends. -/
  | sendone (i : Nat)

/-- A distributor, its registered tickets and their mailboxes. -/
structure Conf (α : Type) where
  dist : Kaddist α
  live : List Nat
  box : Nat → Mailbox α

/-- A section and what its result tells the tickets. -/
def exec (c : Conf α) : Action α → Option (Conf α)
  | .genticket t =>
    let (error, s) := kaddistGenticket c.dist t
    if error = .keOk then some ⟨s, t :: c.live, update c.box t .empty⟩ else some c
  | .delticket t => (kaddistDelticket c.dist t).map fun s => ⟨s, c.live.erase t, c.box⟩
  | .vtryrecv t =>
    let (_, out, s) := kaddistVtryrecv c.dist t
    some ⟨s, c.live, update c.box t (taken out (c.box t))⟩
  | .vrecv t =>
    let (ret, s) := kaddistVrecv c.dist t
    some ⟨s, c.live, update c.box t (taken (ret.bind Prod.snd) (c.box t))⟩
  | .leaveQueue t => some { c with dist := leaveQueue c.dist t }
  | .vrecvFailed t => (kaddistVrecvFailed c.dist t).map fun s => { c with dist := s }
  | .vsend buf mem => (kaddistVsend c.dist buf mem).map fun (error, s) =>
    ⟨s, c.live, fun t =>
      if t ∈ c.live then posted error buf (decide (t ∈ c.dist.waiting)) (c.box t)
      else c.box t⟩
  | .sendone i => (sendone c.dist i).map fun (res, s) =>
    ⟨s, c.live, match res with
      | some (t, m) => update c.box t ((c.box t).take m)
      | none => c.box⟩

/-- The rules of use: a ticket is registered once, is used while it is registered, and
by one call at a time; `malloc` returns free memory. -/
def Allowed (c : Conf α) : Action α → Prop
  | .genticket t => t ≠ 0 ∧ t ∉ c.live
  | .delticket t | .vtryrecv t => t ∈ c.live ∧ c.dist.phase t = .idle
  | .vrecv t => t ∈ c.live ∧ (c.dist.phase t = .idle ∨ c.dist.phase t = .nodata)
  | .leaveQueue t => t ∈ c.dist.waiting
  | .vrecvFailed t => c.dist.phase t = .failed
  | .vsend _ mem => mem ∉ c.dist.heap
  | .sendone i => i < c.dist.sending.length

/-- The conditions under which the distributor delivers. -/
def Sound (c : Conf α) : Action α → Prop
  | .delticket t => BackLinked c.dist t c.dist.adTnready
  | .vrecv t => c.dist.dtAsync t = 0 → BackLinked c.dist t c.dist.adTnready ∧ c.dist.sending = []
  | .vrecvFailed t =>
    kaddistHasreadyticket c.dist t = some true → BackLinked c.dist t c.dist.adTiready
  | .leaveQueue _ | .vsend _ _ => c.dist.sending = []
  | .genticket _ | .vtryrecv _ | .sendone _ => True

instance (c : Conf α) : (a : Action α) → Decidable (Allowed c a)
  | .genticket _ | .delticket _ | .vtryrecv _ | .vrecv _ => inferInstanceAs (Decidable (_ ∧ _))
  | .leaveQueue _ => inferInstanceAs (Decidable (_ ∈ _))
  | .vrecvFailed _ => inferInstanceAs (Decidable (_ = _))
  | .vsend _ _ => inferInstanceAs (Decidable (¬_))
  | .sendone _ => inferInstanceAs (Decidable (_ < _))

instance (c : Conf α) : (a : Action α) → Decidable (Sound c a)
  | .delticket _ => inferInstanceAs (Decidable (BackLinked _ _ _))
  | .vrecv t => inferInstanceAs (Decidable
      (c.dist.dtAsync t = 0 → BackLinked c.dist t c.dist.adTnready ∧ c.dist.sending = []))
  | .vrecvFailed _ => inferInstanceAs (Decidable (_ → _))
  | .leaveQueue _ | .vsend _ _ => inferInstanceAs (Decidable (c.dist.sending = []))
  | .genticket _ | .vtryrecv _ | .sendone _ => inferInstanceAs (Decidable True)

/-- The runs of sections that are allowed and meet the conditions. -/
inductive Run : Conf α → Prop
  | init (mem : Kaddist α) (chunkmax : Nat) : Run ⟨kaddistInit mem chunkmax, [], fun _ => .empty⟩
  | step {c c' : Conf α} (a : Action α) :
      Run c → Allowed c a → Sound c a → exec c a = some c' → Run c'

/-- A section, if it is allowed and meets the conditions. -/
def execSound (c : Conf α) (a : Action α) : Option (Conf α) :=
  if Allowed c a ∧ Sound c a then exec c a else none

theorem Run.foldlM {c c' : Conf α} (h : Run c) {as : List (Action α)}
    (hval : as.foldlM execSound c = some c') : Run c' := by
  induction as generalizing c with
  | nil =>
    obtain rfl : c = c' := by simpa using hval
    exact h
  | cons a as ih =>
    obtain ⟨c1, hc1, hrest⟩ : ∃ c1, execSound c a = some c1 ∧ as.foldlM execSound c1 = some c' := by
      simpa [Option.bind_eq_some_iff] using hval
    unfold execSound at hc1
    split at hc1
    · rename_i hok
      exact ih (h.step a hok.1 hok.2 hc1) hrest
    · simp at hc1

/-! ### The invariant -/

/-- What every run keeps. -/
structure Inv (s : Kaddist α) (live : List Nat) (box : Nat → Mailbox α) (ideal : Nat → Nat)
    (N R C : List Nat) : Prop where
  tickets : Tickets s ideal N R
  chunks : Chunks s C
  pending : Pending s live C []
  live_perm : live.Perm (N ++ R)
  alive : s.dead = false
  ready_async : ∀ t ∈ R, s.dtAsync t = 0
  waiting_nodup : s.waiting.Nodup
  mem_waiting : ∀ t, t ∈ s.waiting ↔ s.phase t = .waiting
  phase_live : ∀ t, s.phase t ≠ .idle → t ∈ live
  /-- A send has passed its data to a chunk, or is about to pass it to tasks that have
  nothing else pending. -/
  sends : (s.sending = [] ∧ ∀ t ∈ s.waiting, t ∈ R) ∨ s.sending = [none] ∨
    ∃ m, s.sending = [some m] ∧ ∀ t ∈ s.waiting, s.dtAsync t = 0
  boxes : ∀ t ∈ live, (box t).received ++ inTransit s t ++
    (pend C (s.dtAsync t)).map s.sdData = (box t).kept

variable {s s' : Kaddist α} {live : List Nat} {box : Nat → Mailbox α} {ideal : Nat → Nat}
  {N R C : List Nat} {t : Nat} {error : Errno} {out : Option α}

theorem inTransit_of_not_mem (h : t ∉ s.waiting) : inTransit s t = [] := if_neg h

theorem inTransit_of_quiet (h : s.sending = []) : inTransit s t = [] := by
  simp [inTransit, h]

namespace Inv

theorem nodup (h : Inv s live box ideal N R C) : live.Nodup :=
  h.live_perm.nodup_iff.mpr h.tickets.nodup

theorem mem_live (h : Inv s live box ideal N R C) : t ∈ live ↔ t ∈ N ++ R := h.live_perm.mem_iff

theorem not_waiting (h : Inv s live box ideal N R C) (ht : s.phase t ≠ .waiting) :
    t ∉ s.waiting := fun hm => ht ((h.mem_waiting t).mp hm)

theorem init (mem : Kaddist α) (chunkmax : Nat) :
    Inv (kaddistInit mem chunkmax) [] (fun _ => .empty) (fun _ => 0) [] [] [] where
  tickets := ⟨rfl, rfl, by simp, by simp, by simp, rfl, rfl⟩
  chunks := ⟨rfl, by simp, rfl, rfl, List.Perm.refl _, by simp⟩
  pending := ⟨by simp, nil_suffix, by simp, by simp⟩
  live_perm := List.Perm.refl _
  alive := rfl
  ready_async := by simp
  waiting_nodup := by simp [kaddistInit]
  mem_waiting := by simp [kaddistInit]
  phase_live := by simp [kaddistInit]
  sends := .inl ⟨rfl, by simp [kaddistInit]⟩
  boxes := by simp

section

variable (h : Inv s live box ideal N R C)

include h

theorem genticket (ht0 : t ≠ 0) (ht : t ∉ live) (hval : kaddistGenticket s t = (.keOk, s')) :
    ∃ ideal', Inv s' (t :: live) (update box t .empty) ideal' (t :: N) R C := by
  have hmax : s.adKnown ≠ userMax := by
    intro hEq
    simp [kaddistGenticket, h.alive, hEq] at hval
  obtain ⟨ideal', hT⟩ := h.tickets.genticket h.alive hmax (h.mem_live.not.mp ht) ht0
  rw [hval] at hT
  rw [kaddistGenticket, h.alive, if_neg Bool.false_ne_true, if_neg hmax] at hval
  cases hval
  have hne : ∀ u ∈ live, u ≠ t := fun u hu => ne_of_mem_of_not_mem hu ht
  have hasync : ∀ u ∈ live, update s.dtAsync t 0 u = s.dtAsync u := fun u hu =>
    update_of_ne (hne u hu) _ _
  have hself : update s.dtAsync t 0 t = 0 := update_self ..
  have hlive : ∀ u ∈ s.waiting, u ∈ live := fun u hu =>
    h.phase_live u (by rw [(h.mem_waiting u).mp hu]; simp)
  refine ⟨ideal', { h with
    tickets := hT
    chunks := { h.chunks with }
    pending := Pending.join (h.pending.congr hasync rfl) (.inl hself) ?_
    live_perm := h.live_perm.cons t
    alive := rfl
    ready_async := fun u hu => ?_
    phase_live := fun u hu => mem_cons_of_mem _ (h.phase_live u hu)
    sends := h.sends.imp_right (Or.imp_right (Exists.imp fun m => And.imp_right fun hw u hu => ?_))
    boxes := fun u hu => ?_ }⟩
  · dsimp only
    rw [hself, pend_eq_nil h.chunks.not_mem_zero]
  · exact (hasync u (h.mem_live.mpr (mem_append_right _ hu))).trans (h.ready_async u hu)
  · exact (hasync u (hlive u hu)).trans (hw u hu)
  · dsimp only
    rcases mem_cons.mp hu with rfl | hu
    · rw [inTransit, if_neg fun hm => ht (hlive _ hm), hself, pend_eq_nil h.chunks.not_mem_zero]
      simp
    · rw [hasync u hu, update_of_ne (hne u hu)]
      exact h.boxes u hu

theorem delticket (ht : t ∈ live) (hidle : s.phase t = .idle) (hb : BackLinked s t s.adTnready) :
    ∃ s' ideal' C', kaddistDelticket s t = some s' ∧
      Inv s' (live.erase t) box ideal' (N.erase t) R C' := by
  obtain ⟨htN, ideal', hT⟩ := h.tickets.removeTicket (h.mem_live.mp ht) hb
  obtain ⟨s1, hs1⟩ : ∃ s1, s1 = removeTicket s t := ⟨_, rfl⟩
  have hsame1 : SameTickets { s with
      adTnready := s1.adTnready, dtNext := s1.dtNext, dtPrev := s1.dtPrev } s1 ∧
      s1.sdPending = s.sdPending ∧ Chunks s1 C := by
    rw [hs1]
    unfold removeTicket
    split <;> exact ⟨by constructor <;> rfl, rfl,
      { h.chunks with }⟩
  obtain ⟨hsame1, hpend1, hC1⟩ := hsame1
  rw [← hs1] at hT
  have hP1 : Pending s1 (live.erase t) C (pend C (s.dtAsync t)) :=
    (h.pending.leave ht).congr (fun u _ => congrFun hsame1.dtAsync u) hpend1
  -- The loop runs if there is something pending.
  obtain ⟨s2, C', hval, hC2, hP2, hkeep, hsame2⟩ : ∃ s2 C',
      (if s.dtAsync t ≠ 0 then dropPending (s1.adChunkc + 1) s1 (s.dtAsync t) else some s1) =
        some s2 ∧ Chunks s2 C' ∧ Pending s2 (live.erase t) C' [] ∧
      (∀ u ∈ live.erase t, pend C' (s1.dtAsync u) = pend C (s1.dtAsync u)) ∧
      SameTickets s1 s2 := by
    rcases h.pending.async t ht with h0 | hm
    · refine ⟨s1, C, by simp [h0], hC1, ?_, fun _ _ => rfl, by constructor <;> rfl⟩
      rwa [h0, pend_eq_nil h.chunks.not_mem_zero] at hP1
    obtain ⟨pre, rest, hC, -, hp⟩ := exists_pend hm
    rw [hp] at hP1
    rw [if_pos (h.chunks.seg.ne_nil _ hm)]
    exact hP1.giveUpAll hC1 (by rw [hC1.count, hC]; simp; omega)
  have hsame := hsame1.trans hsame2
  have hiter : s1.dtAsync t = s.dtAsync t := congrFun hsame1.dtAsync t
  have hsub : ∀ u ∈ live.erase t, u ∈ live := fun u hu => mem_of_mem_erase hu
  have htransit : ∀ u, inTransit { s2 with adKnown := s2.adKnown - 1 } u = inTransit s u :=
    fun u => by simp [inTransit, hsame.waiting, hsame.sending]
  refine ⟨{ s2 with adKnown := s2.adKnown - 1 }, ideal', C', ?_, ?_, ?_, ?_, ?_, ?_, ?_, ?_, ?_, ?_,
    ?_, ?_⟩
  · simp only [kaddistDelticket, ← hs1, hiter, hval, Option.map_some]
  · exact hT.congr hsame2.dtNext hsame2.dtPrev hsame2.adTnready hsame2.adTiready
      (by rw [hsame.adKnown]) hsame2.adReady
  · exact { hC2 with }
  · exact hP2.congr (fun _ _ => rfl) rfl
  · rw [← erase_append_left R htN]
    exact h.live_perm.erase t
  · exact hsame.dead.trans h.alive
  · exact fun u hu => (congrFun hsame.dtAsync u).trans (h.ready_async u hu)
  · exact hsame.waiting ▸ h.waiting_nodup
  · intro u
    simp only [hsame.waiting, hsame.phase]
    exact h.mem_waiting u
  · intro u hu
    simp only [hsame.phase] at hu
    refine (mem_erase_of_ne ?_).mpr (h.phase_live u hu)
    rintro rfl
    exact hu hidle
  · simp only [hsame.sending, hsame.waiting, hsame.dtAsync]
    exact h.sends
  · intro u hu
    rw [htransit]
    simp only [hsame.sdData]
    rw [hsame2.dtAsync, hkeep u hu, hsame1.dtAsync]
    exact h.boxes u (hsub u hu)

/-- A ticket receives what it has pending, or nothing. -/
theorem vtryrecv (ht : t ∈ live) (hw : t ∉ s.waiting)
    (hval : kaddistVtryrecv s t = (error, out, s')) :
    (error = .keOk ∨ error = .keWouldblock ∧ s' = s ∧ s.dtAsync t = 0) ∧
    s'.phase = s.phase ∧ out = ((pend C (s.dtAsync t)).map s.sdData).head? ∧
    ∃ C', Inv s' live (update box t (taken out (box t))) ideal N R C' := by
  rcases h.pending.async t ht with h0 | hm
  · simp only [kaddistVtryrecv, h.alive, h0] at hval
    obtain ⟨rfl, rfl, rfl⟩ : .keWouldblock = error ∧ none = out ∧ s = s' := by simpa using hval
    rw [h0, pend_eq_nil h.chunks.not_mem_zero, taken, update_eq_self]
    exact ⟨.inr ⟨rfl, rfl, rfl⟩, rfl, rfl, C, h⟩
  obtain ⟨pre, rest, -, -, hp⟩ := exists_pend hm
  obtain ⟨s1, C', hval1, hC, hP, hrest, hkeep, hasync, hsame⟩ :=
    h.pending.receive h.chunks h.nodup ht h.alive hp
  obtain ⟨rfl, rfl, rfl⟩ : .keOk = error ∧ some (s.sdData (s.dtAsync t)) = out ∧ s1 = s' := by
    simpa [hval1] using hval
  have hne : ∀ u ∈ R, u ≠ t := by
    rintro u hu rfl
    exact h.chunks.seg.ne_nil _ hm (h.ready_async u hu)
  refine ⟨.inl rfl, hsame.phase, by rw [hp]; rfl, C', ?_, hC, hP, h.live_perm,
    hsame.dead.trans h.alive, ?_, hsame.waiting ▸ h.waiting_nodup, ?_, ?_, ?_, ?_⟩
  · exact h.tickets.congr hsame.dtNext hsame.dtPrev hsame.adTnready hsame.adTiready
      hsame.adKnown hsame.adReady
  · exact fun u hu => (hasync u (hne u hu)).trans (h.ready_async u hu)
  · rw [hsame.waiting, hsame.phase]
    exact h.mem_waiting
  · rw [hsame.phase]
    exact h.phase_live
  · rw [hsame.sending, hsame.waiting]
    rcases h.sends with hs | hs | ⟨m, hs, hall⟩
    · exact .inl hs
    · exact .inr (.inl hs)
    refine .inr (.inr ⟨m, hs, fun u hu => ?_⟩)
    rw [hasync u (ne_of_mem_of_not_mem hu hw)]
    exact hall u hu
  · intro u hu
    have htransit : inTransit s1 u = inTransit s u := by
      simp [inTransit, hsame.waiting, hsame.sending]
    have hbox := h.boxes u hu
    rw [htransit, hsame.sdData]
    by_cases hut : u = t
    · subst hut
      rw [update_self, hrest, taken, Mailbox.received_take, Mailbox.kept_take]
      rw [hp, inTransit_of_not_mem hw] at hbox
      rw [inTransit_of_not_mem hw, ← hbox]
      simp
    · rw [update_of_ne hut, hkeep u hu hut]
      exact hbox

theorem waiting_subset (hquiet : s.sending = []) : ∀ t ∈ s.waiting, t ∈ R := by
  rcases h.sends with ⟨-, hR⟩ | hs | ⟨m, hs, -⟩
  · exact hR
  · simp [hquiet] at hs
  · simp [hquiet] at hs

theorem boxes_quiet (hquiet : s.sending = []) (ht : t ∈ live) :
    (box t).received ++ (pend C (s.dtAsync t)).map s.sdData = (box t).kept := by
  have hbox := h.boxes t ht
  rwa [inTransit_of_quiet hquiet, append_nil] at hbox

/-- One task goes to another place, and in or out of the queue. -/
theorem mem_waiting_update {waiting : List Nat} {p : Phase} (hself : t ∈ waiting ↔ p = .waiting)
    (hother : ∀ u ≠ t, (u ∈ waiting ↔ u ∈ s.waiting)) (u : Nat) :
    u ∈ waiting ↔ update s.phase t p u = .waiting := by
  by_cases hut : u = t
  · rwa [hut, update_self]
  · rw [update_of_ne hut, hother u hut]
    exact h.mem_waiting u

theorem phase_live_update (ht : t ∈ live) {p : Phase} (u : Nat)
    (hu : update s.phase t p u ≠ .idle) : u ∈ live := by
  by_cases hut : u = t
  · rwa [hut]
  · rw [update_of_ne hut] at hu
    exact h.phase_live u hu

/-- A task that is not waiting goes to another place outside the queue. -/
theorem setPhase (ht : t ∈ live) (hw : t ∉ s.waiting) {p : Phase} (hp : p ≠ .waiting) :
    Inv { s with phase := update s.phase t p } live box ideal N R C :=
  { h with
    tickets := { h.tickets with }
    chunks := { h.chunks with }
    pending := { h.pending with }
    mem_waiting := h.mem_waiting_update (iff_of_false hw hp) fun _ _ => .rfl
    phase_live := h.phase_live_update ht }

theorem beginReady (ht : t ∈ live) (hw : t ∉ s.waiting) (h0 : s.dtAsync t = 0)
    (hb : BackLinked s t s.adTnready) (hquiet : s.sending = []) :
    ∃ ideal', Inv (beginReady s t) live box ideal' (N.erase t) (t :: R) C := by
  obtain ⟨htN, ideal', hT⟩ := h.tickets.beginReady (h.mem_live.mp ht) hb
  refine ⟨ideal', { h with
    tickets := hT
    chunks := { h.chunks with }
    pending := { h.pending with }
    live_perm := ?_
    ready_async := ?_
    waiting_nodup := ?_
    mem_waiting := h.mem_waiting_update (by simp [Addist.beginReady]) fun u hut => by
      simp [Addist.beginReady, hut]
    phase_live := h.phase_live_update ht
    sends := .inl ⟨hquiet, fun u hu => ?_⟩
    boxes := fun u hu => ?_ }⟩
  · refine h.live_perm.trans ?_
    exact ((perm_cons_erase htN).append_right R).trans perm_middle.symm
  · exact forall_mem_cons.mpr ⟨h0, h.ready_async⟩
  · rw [Addist.beginReady, nodup_append]
    exact ⟨h.waiting_nodup, by simp, fun u hu v hv => by
      rw [mem_singleton.mp hv]
      exact ne_of_mem_of_not_mem hu hw⟩
  · rcases mem_append.mp hu with hu | hu
    · exact mem_cons_of_mem _ (h.waiting_subset hquiet u hu)
    · simp [mem_singleton.mp hu]
  · rw [inTransit_of_quiet (s := Addist.beginReady s t) hquiet, append_nil]
    exact h.boxes_quiet hquiet hu

theorem leaveQueue (ht : t ∈ s.waiting) (hquiet : s.sending = []) :
    Inv (leaveQueue s t) live box ideal N R C :=
  { h with
    tickets := { h.tickets with }
    chunks := { h.chunks with }
    pending := { h.pending with }
    waiting_nodup := h.waiting_nodup.erase t
    mem_waiting := h.mem_waiting_update (by simp [Addist.leaveQueue, h.waiting_nodup.mem_erase_iff])
      fun u hut => mem_erase_of_ne hut
    phase_live := h.phase_live_update (h.phase_live t (by rw [(h.mem_waiting t).mp ht]; simp))
    sends := .inl ⟨hquiet, fun u hu => h.waiting_subset hquiet u (mem_of_mem_erase hu)⟩
    boxes := fun u hu => by
      rw [inTransit_of_quiet (s := Addist.leaveQueue s t) hquiet, append_nil]
      exact h.boxes_quiet hquiet hu }

theorem deleteReadyTicket (hw : t ∉ s.waiting) (ht : t ∈ R) (hb : BackLinked s t s.adTiready) :
    ∃ ideal', Inv (deleteReadyTicket s t) live box ideal' (t :: N) (R.erase t) C := by
  obtain ⟨ideal', hT⟩ := h.tickets.deleteReadyTicket ht hb
  refine ⟨ideal', { h with
    tickets := hT
    chunks := { h.chunks with }
    pending := { h.pending with }
    live_perm := ?_
    ready_async := fun u hu => h.ready_async u (mem_of_mem_erase hu)
    sends := h.sends.imp_left (And.imp_right fun hR u hu => ?_) }⟩
  · refine h.live_perm.trans ?_
    exact ((perm_cons_erase ht).append_left N).trans perm_middle
  · exact (mem_erase_of_ne (ne_of_mem_of_not_mem hu hw)).mpr (hR u hu)

theorem vrecvFailed (hphase : s.phase t = .failed)
    (hb : kaddistHasreadyticket s t = some true → BackLinked s t s.adTiready) :
    ∃ s' ideal' N' R', kaddistVrecvFailed s t = some s' ∧ Inv s' live box ideal' N' R' C := by
  have hw : t ∉ s.waiting := h.not_waiting (by rw [hphase]; simp)
  have ht : t ∈ live := h.phase_live t (by rw [hphase]; simp)
  have hready := h.tickets.hasreadyticket t
  by_cases hR : t ∈ R
  · rw [decide_eq_true hR] at hready
    obtain ⟨ideal', h'⟩ := h.deleteReadyTicket hw hR (hb hready)
    exact ⟨_, ideal', _, _, by simp [kaddistVrecvFailed, hready],
      h'.setPhase ht hw (p := .idle) (by simp)⟩
  · rw [decide_eq_false hR] at hready
    exact ⟨_, ideal, N, R, by simp [kaddistVrecvFailed, hready],
      h.setPhase ht hw (p := .idle) (by simp)⟩

/-- One task is woken, or the send ends. -/
theorem sendone {i : Nat} {res : Option (Nat × α)} (hval : sendone s i = some (res, s')) :
    (res = none → Inv s' live box ideal N R C) ∧
    ∀ m, res = some (t, m) → Inv s' live (update box t ((box t).take m)) ideal N R C := by
  have hi : ∃ data, s.sending = [data] ∧ s.sending[i]? = some data ∧ s.sending.eraseIdx i = [] := by
    have hsome : (s.sending[i]?).isSome := by
      by_contra hnone
      simp only [Option.not_isSome_iff_eq_none] at hnone
      simp [Addist.sendone, hnone] at hval
    rcases h.sends with ⟨hs, -⟩ | hs | ⟨m, hs, -⟩
    · simp [hs] at hsome
    all_goals
      have hi0 : i = 0 := by simpa [hs] using hsome
      exact ⟨_, hs, by simp [hs, hi0], by simp [hs, hi0]⟩
  obtain ⟨data, hsend, hdata, herase⟩ := hi
  cases hwait : s.waiting with
  | nil =>
    -- Nobody is left.
    obtain ⟨rfl, rfl⟩ : none = res ∧ { s with sending := [] } = s' := by
      simpa [Addist.sendone, hdata, hwait, herase] using hval
    refine ⟨fun _ => { h with
      tickets := { h.tickets with }
      chunks := { h.chunks with }
      pending := { h.pending with }
      sends := .inl ⟨rfl, by simp [hwait]⟩
      boxes := fun u hu => ?_ }, by simp⟩
    have hbox := h.boxes u hu
    rw [inTransit_of_not_mem (by simp [hwait])] at hbox ⊢
    exact hbox
  | cons u rest =>
    have hnd := hwait ▸ h.waiting_nodup
    have hu : u ∈ s.waiting := by simp [hwait]
    have hurest : u ∉ rest := (nodup_cons.mp hnd).1
    have hulive : u ∈ live := h.phase_live u (by rw [(h.mem_waiting u).mp hu]; simp)
    obtain ⟨hres, rfl⟩ : data.map (u, ·) = res ∧ wakeTask s u rest data = s' := by
      simpa [Addist.sendone, hdata, hwait] using hval
    have htransit : ∀ v, v ≠ u → inTransit (wakeTask s u rest data) v = inTransit s v :=
      fun v hv => by simp [inTransit, wakeTask, hwait, hv]
    -- Everything but the mailboxes.
    have hbase : ∀ box', (∀ v ∈ live, (box' v).received ++ inTransit (wakeTask s u rest data) v ++
          (pend C (s.dtAsync v)).map s.sdData = (box' v).kept) →
        Inv (wakeTask s u rest data) live box' ideal N R C := by
      intro box' hbox
      refine { h with
        tickets := { h.tickets with }
        chunks := { h.chunks with }
        pending := { h.pending with }
        waiting_nodup := (nodup_cons.mp hnd).2
        mem_waiting := h.mem_waiting_update (by cases data <;> simp [wakeTask, hurest])
          fun v hvu => ?_
        phase_live := h.phase_live_update hulive
        sends := ?_
        boxes := hbox }
      · simp [wakeTask, hwait, hvu]
      · rcases h.sends with ⟨hs, -⟩ | hs | ⟨m, hs, hall⟩
        · simp [hsend] at hs
        · exact .inr (.inl hs)
        refine .inr (.inr ⟨m, hs, fun v hv => hall v ?_⟩)
        rw [hwait]
        exact mem_cons_of_mem u hv
    cases data with
    | none =>
      refine ⟨fun _ => hbase box fun v hv => ?_, by simp [← hres]⟩
      by_cases hvu : v = u
      · subst hvu
        have hbox := h.boxes v hv
        simpa [inTransit, wakeTask, hsend] using hbox
      · rw [htransit v hvu]
        exact h.boxes v hv
    | some m =>
      refine ⟨by simp [← hres], fun m' hm' => ?_⟩
      obtain ⟨rfl, rfl⟩ : u = t ∧ m = m' := by simpa [← hres] using hm'
      refine hbase _ fun v hv => ?_
      by_cases hvu : v = u
      · subst hvu
        have hbox := h.boxes v hv
        rw [update_self, Mailbox.received_take, Mailbox.kept_take, ← hbox,
          inTransit_of_not_mem hurest]
        simp [inTransit, hsend, hu]
      · rw [htransit v hvu, update_of_ne hvu]
        exact h.boxes v hv

theorem waiting_length_le (hquiet : s.sending = []) : s.waiting.length ≤ R.length :=
  (subperm_of_subset h.waiting_nodup (h.waiting_subset hquiet)).length_le

/-- If the counts agree, the tasks of all ready tickets are waiting. -/
theorem mem_waiting_iff_ready (hquiet : s.sending = []) (hlen : s.waiting.length = R.length)
    (t : Nat) : t ∈ s.waiting ↔ t ∈ R :=
  ((subperm_of_subset h.waiting_nodup (h.waiting_subset hquiet)).perm_of_length_le
    (Nat.le_of_eq hlen.symm)).mem_iff

/-- A send that passes its data through a chunk, new or re-used, behind those of `C'`. -/
theorem sendChunk {s1 : Kaddist α} (hquiet : s.sending = []) (hsame : SameTickets s s1)
    {C' : List Nat} {r : Nat} (hC1 : Chunks s1 (C' ++ [r])) (hB : Before s1 live C' r)
    (hlt : s.waiting.length ≠ s.adKnown) (buf : α) (box' : Nat → Mailbox α)
    (hkept : ∀ t ∈ live, (box' t).received = (box t).received ∧
      (box' t).kept = (box t).received ++ ((pend C' (s.dtAsync t)).map s.sdData ++ [buf])) :
    ∃ s' ideal' N' R', sendChunk s1 buf s.waiting.length r = some s' ∧
      Inv s' live box' ideal' N' R' (C' ++ [r]) := by
  have hT1 : Tickets s1 ideal N R := h.tickets.congr hsame.dtNext hsame.dtPrev hsame.adTnready
    hsame.adTiready hsame.adKnown hsame.adReady
  have hB1 : Before s1 (N ++ R) C' r :=
    ⟨fun t ht => hB.async t (h.mem_live.mpr ht), fun c hc => by
      rw [hB.count c hc, holders_perm h.live_perm], hB.pos⟩
  have hR1 : ∀ t ∈ R, s1.dtAsync t = 0 := fun t ht => by
    rw [hsame.dtAsync]
    exact h.ready_async t ht
  have hrC' : r ∉ C' := fun hm => (nodup_append.mp hC1.nodup).2.2 r hm r (by simp) rfl
  have h0C' : 0 ∉ C' := fun hm => hC1.not_mem_zero (by simp [hm])
  have hdata : ∀ p, (pend C' p ++ [r]).map (update s.sdData r buf) =
      (pend C' p).map s.sdData ++ [buf] := fun p => by
    rw [map_append, map_singleton, update_self]
    congr 1
    refine map_congr_left fun c hc => update_of_ne ?_ _ _
    exact ne_of_mem_of_not_mem ((pend_suffix _ _).subset hc) hrC'
  have hwaitR := h.waiting_subset hquiet
  have hwaitlen := h.waiting_length_le hquiet
  by_cases hcan : s.waiting.length = R.length
  · -- All ready tasks get the data directly.
    have hiff := h.mem_waiting_iff_ready hquiet hcan
    have hN : N ≠ [] := by
      rintro rfl
      exact hlt (by rw [hcan, h.tickets.known]; simp)
    obtain ⟨s', hval, hT', hC', hP', hpend, hready, hsd, hsending, hwait, hphase, hdead⟩ :=
      sendChunk_unbuffered hT1 hC1 hB1 hR1 hN buf
    rw [hsame.sdData] at hsd
    rw [hsame.waiting] at hwait
    rw [hsame.phase] at hphase
    rw [hsame.sending, hquiet, nil_append] at hsending
    refine ⟨s', ideal, N, R, by rw [hcan]; exact hval, hT', hC', hP'.perm h.live_perm.symm,
      h.live_perm, by rw [hdead, hsame.dead]; exact h.alive, hready, hwait ▸ h.waiting_nodup,
      by rw [hwait, hphase]; exact h.mem_waiting, by rw [hphase]; exact h.phase_live, ?_, ?_⟩
    · exact .inr (.inr ⟨buf, hsending, fun t ht => hready t (hwaitR t (hwait ▸ ht))⟩)
    · intro t ht
      obtain ⟨hrec, hk⟩ := hkept t ht
      rw [hrec, hk, hsd, inTransit, hwait, hsending]
      by_cases htR : t ∈ R
      · rw [if_pos ((hiff t).mpr htR), hready t htR, h.ready_async t htR,
          pend_eq_nil hC'.not_mem_zero, pend_eq_nil h0C']
        simp
      have htN : t ∈ N := by simpa [htR] using h.mem_live.mp ht
      rw [if_neg fun hm => htR ((hiff t).mp hm), hpend t htN, hsame.dtAsync, hdata]
      simp
  · -- Some ready task has given up: everybody gets the chunk.
    have hne : R ≠ [] := by
      rintro rfl
      simp at hwaitlen
      simp [hwaitlen] at hcan
    obtain ⟨s', ideal', hval, hT', hC', hP', hpend, hsd, hsending, hwait, hphase, hdead⟩ :=
      sendChunk_buffered hT1 hC1 hB1 hR1 hne buf hcan
    rw [hsame.sdData] at hsd
    rw [hsame.waiting] at hwait
    rw [hsame.phase] at hphase
    rw [hsame.sending, hquiet, nil_append] at hsending
    refine ⟨s', ideal', R ++ N, [], hval, hT', hC', hP'.perm h.live_perm.symm, ?_,
      by rw [hdead, hsame.dead]; exact h.alive, by simp, hwait ▸ h.waiting_nodup,
      by rw [hwait, hphase]; exact h.mem_waiting, by rw [hphase]; exact h.phase_live,
      .inr (.inl hsending), ?_⟩
    · rw [append_nil]
      exact h.live_perm.trans perm_append_comm
    · intro t ht
      obtain ⟨hrec, hk⟩ := hkept t ht
      have htransit : inTransit s' t = [] := by simp [inTransit, hsending]
      rw [hrec, hk, hsd, htransit, hpend t (h.mem_live.mp ht), hsame.dtAsync, hdata]
      simp

theorem congr_box {box' : Nat → Mailbox α} (hbox : ∀ t ∈ live, box' t = box t) :
    Inv s live box' ideal N R C :=
  { h with boxes := fun t ht => by rw [hbox t ht]; exact h.boxes t ht }

/-- Every ready task is waiting and gets the data; nobody else does. -/
theorem sendDirect (hquiet : s.sending = []) (hlen : s.waiting.length = R.length) (buf : α) :
    Inv { s with sending := [some buf] } live
      (fun t => if t ∈ s.waiting then (box t).post buf else box t) ideal N R C := by
  have hiff := h.mem_waiting_iff_ready hquiet hlen
  refine { h with
    tickets := { h.tickets with }
    chunks := { h.chunks with }
    pending := { h.pending with }
    sends := .inr (.inr ⟨buf, rfl, fun t ht => h.ready_async t ((hiff t).mp ht)⟩)
    boxes := fun t ht => ?_ }
  have hbox := h.boxes_quiet hquiet ht
  by_cases hw : t ∈ s.waiting
  · rw [h.ready_async t ((hiff t).mp hw), pend_eq_nil h.chunks.not_mem_zero] at hbox
    simp only [inTransit, hw, if_true, h.ready_async t ((hiff t).mp hw),
      pend_eq_nil h.chunks.not_mem_zero, Mailbox.received_post, Mailbox.kept_post, ← hbox]
    simp
  · simp only [inTransit, hw, if_false, append_nil]
    exact hbox

/-- The ready tickets move to the other list while a send is about to wake all tasks. -/
theorem moveReady (hne : R ≠ []) (hsend : s.sending ≠ []) :
    ∃ ideal', Inv (moveReady s (R.getLastD 0)) live box ideal' (R ++ N) [] C := by
  obtain ⟨ideal', hT⟩ := h.tickets.moveReady hne
  refine ⟨ideal', { h with
    tickets := hT
    chunks := { h.chunks with }
    pending := { h.pending with }
    live_perm := ?_
    ready_async := by simp
    sends := .inr (h.sends.resolve_left fun hs => hsend hs.1) }⟩
  rw [append_nil]
  exact h.live_perm.trans perm_append_comm

/-- **Specification of `kaddist_vsend`.** -/
theorem vsend (hquiet : s.sending = []) (buf : α) {mem : Nat} (hmem : mem ∉ s.heap) :
    ∃ error s' ideal' N' R' C', kaddistVsend s buf mem = some (error, s') ∧
      Inv s' live
        (fun t => if t ∈ live then posted error buf (decide (t ∈ s.waiting)) (box t) else box t)
        ideal' N' R' C' := by
  have hlen := h.waiting_length_le hquiet
  have hknown := h.tickets.known
  by_cases hall : s.waiting.length = s.adKnown
  · have hN : N = [] := length_eq_zero_iff.mp (by omega)
    subst hN
    by_cases hti : s.adTiready = 0
    · -- There are no tickets.
      refine ⟨.ksEmpty, s, ideal, [], R, C, by simp [kaddistVsend, h.alive, hall, hti],
        h.congr_box fun t ht => by simp [posted]⟩
    have hR : R ≠ [] := fun hR => hti (h.tickets.ready.head_eq_nil_iff.mpr hR)
    have hlenR : s.waiting.length = R.length := by simp at hknown; omega
    obtain ⟨ideal', h'⟩ := (h.sendDirect hquiet hlenR buf).moveReady hR (by simp)
    refine ⟨.keOk, _, ideal', R ++ [], [], C, ?_, h'.congr_box fun t ht => ?_⟩
    · simp [kaddistVsend, h.alive, hall, hti, hquiet, h.tickets.walk_ready, Addist.moveReady]
    · have hw : t ∈ s.waiting :=
        (h.mem_waiting_iff_ready hquiet hlenR t).mpr (by simpa using h.mem_live.mp ht)
      simp [ht, hw, posted]
  · by_cases hmax : s.adChunkc = s.adChunkmax
    · by_cases hback : s.adBack = 0
      · by_cases hcan : s.adReady = s.waiting.length
        · refine ⟨.ksFound, _, ideal, N, R, C, ?_,
            (h.sendDirect hquiet (by rw [← hcan, h.tickets.count]) buf).congr_box fun t ht => ?_⟩
          · simp [kaddistVsend, h.alive, hall, hmax, hback, hcan, hquiet]
          · by_cases hw : t ∈ s.waiting <;> simp [ht, hw, posted]
        · exact ⟨.keBusy, s, ideal, N, R, C,
            by simp [kaddistVsend, h.alive, hall, hmax, hback, hcan],
            h.congr_box fun t ht => by simp [posted]⟩
      · -- The last chunk is overwritten.
        obtain ⟨C', r, rfl⟩ : ∃ C' r, C = C' ++ [r] := by
          rcases eq_nil_or_concat C with rfl | ⟨C', r, hC⟩
          · exact absurd h.chunks.back hback
          · exact ⟨C', r, by simpa using hC⟩
        have hr : s.adBack = r := by simpa using h.chunks.back
        obtain ⟨s', ideal', N', R', hval, h'⟩ := h.sendChunk hquiet
          (by constructor <;> rfl) h.chunks
          (h.pending.before_last h.chunks.nodup) hall buf
          (fun t => (box t).replace buf) (fun t ht => by
            refine ⟨Mailbox.received_replace _ _, ?_⟩
            rw [Mailbox.kept_replace (h.boxes_quiet hquiet ht), ← map_dropLast]
            congr 3
            have h0 : 0 ∉ C' := fun hm => h.chunks.not_mem_zero (by simp [hm])
            rcases h.pending.async t ht with hz | hm
            · rw [hz, pend_eq_nil h.chunks.not_mem_zero, pend_eq_nil h0]
              rfl
            have hreg := pend_register h.chunks.nodup h0 (.inr hm)
            rw [if_neg (h.chunks.seg.ne_nil _ hm)] at hreg
            rw [hreg, dropLast_concat])
        refine ⟨.ksFull, s', ideal', N', R', C' ++ [r], ?_, h'.congr_box fun t ht => ?_⟩
        · simp [kaddistVsend, h.alive, hall, hmax, hr, hr ▸ hback, hval]
        · simp [ht, posted]
    · by_cases hm0 : mem = 0
      · exact ⟨.keNomem, s, ideal, N, R, C, by simp [kaddistVsend, h.alive, hall, hmax, hm0],
          h.congr_box fun t ht => by simp [posted]⟩
      have hmC : mem ∉ C := fun hm => hmem (h.chunks.heap.mem_iff.mpr hm)
      have hsame : SameTickets s (appendChunk s mem) := by constructor <;> rfl
      obtain ⟨s', ideal', N', R', hval, h'⟩ := h.sendChunk hquiet hsame
        (h.chunks.appendChunk hmC hm0 hmax) (h.pending.before_new rfl rfl) hall buf
        (fun t => (box t).post buf) (fun t ht => by
          refine ⟨rfl, ?_⟩
          rw [Mailbox.kept_post, ← h.boxes_quiet hquiet ht]
          simp)
      refine ⟨.ksBlocking, s', ideal', N', R', C ++ [mem], ?_, h'.congr_box fun t ht => ?_⟩
      · simp [kaddistVsend, h.alive, hall, hmax, hm0, hval]
      · simp [ht, posted]

end

end Inv

/-- A receive takes what is pending, or waits. -/
theorem Inv.vrecv (h : Inv s live box ideal N R C) (ht : t ∈ live) (hw : t ∉ s.waiting)
    (hsound : s.dtAsync t = 0 → BackLinked s t s.adTnready ∧ s.sending = [])
    (hval : kaddistVrecv s t = (ret, s')) : ∃ ideal' N' R' C',
      Inv s' live (update box t (taken (ret.bind Prod.snd) (box t))) ideal' N' R' C' := by
  obtain ⟨e, o, s1, htry⟩ : ∃ e o s1, kaddistVtryrecv s t = (e, o, s1) := ⟨_, _, _, rfl⟩
  obtain ⟨he, hphase, -, C', h'⟩ := h.vtryrecv ht hw htry
  rcases he with rfl | ⟨rfl, rfl, h0⟩
  · obtain ⟨rfl, rfl⟩ : some (.keOk, o) = ret ∧
        { s1 with phase := update s1.phase t .idle } = s' := by
      simpa [kaddistVrecv, htry] using hval
    refine ⟨_, _, _, C', h'.setPhase ht ?_ (by simp)⟩
    rw [h'.mem_waiting, hphase, ← h.mem_waiting]
    exact hw
  · obtain ⟨rfl, rfl⟩ : none = ret ∧ Addist.beginReady s1 t = s' := by
      simpa [kaddistVrecv, htry] using hval
    obtain ⟨ideal', hready⟩ := h.beginReady ht hw h0 (hsound h0).1 (hsound h0).2
    exact ⟨ideal', _, _, C, by simpa [taken] using hready⟩

theorem Inv.exec {c : Conf α} (h : Inv c.dist c.live c.box ideal N R C) {a : Action α}
    (hallow : Allowed c a) (hsound : Sound c a) :
    ∃ c' ideal' N' R' C', exec c a = some c' ∧
      Inv c'.dist c'.live c'.box ideal' N' R' C' := by
  cases a with
  | genticket t =>
    by_cases hok : (kaddistGenticket c.dist t).1 = .keOk
    · obtain ⟨ideal', h'⟩ := h.genticket hallow.1 hallow.2 (Prod.ext hok rfl)
      exact ⟨_, _, _, _, _, if_pos hok, h'⟩
    · exact ⟨_, _, _, _, _, if_neg hok, h⟩
  | delticket t =>
    obtain ⟨s', ideal', C', hval, h'⟩ := h.delticket hallow.1 hallow.2 hsound
    exact ⟨_, _, _, _, _, by rw [Addist.exec, hval]; rfl, h'⟩
  | vtryrecv t =>
    obtain ⟨-, -, -, C', h'⟩ :=
      h.vtryrecv hallow.1 (h.not_waiting (by rw [hallow.2]; simp)) rfl
    exact ⟨_, _, _, _, _, rfl, h'⟩
  | vrecv t =>
    have hw : t ∉ c.dist.waiting :=
      h.not_waiting (by rcases hallow.2 with hp | hp <;> rw [hp] <;> simp)
    obtain ⟨ideal', N', R', C', h'⟩ := h.vrecv hallow.1 hw hsound rfl
    exact ⟨_, _, _, _, _, rfl, h'⟩
  | leaveQueue t => exact ⟨_, _, _, _, _, rfl, h.leaveQueue hallow hsound⟩
  | vrecvFailed t =>
    obtain ⟨s', ideal', N', R', hval, h'⟩ := h.vrecvFailed hallow hsound
    exact ⟨_, _, _, _, _, by rw [Addist.exec, hval]; rfl, h'⟩
  | vsend buf mem =>
    obtain ⟨e, s', ideal', N', R', C', hval, h'⟩ := h.vsend hsound buf hallow
    exact ⟨_, _, _, _, _, by rw [Addist.exec, hval]; rfl, h'⟩
  | sendone i =>
    obtain ⟨⟨res, s'⟩, hval⟩ : ∃ r, Addist.sendone c.dist i = some r := by
      rw [Addist.sendone, getElem?_eq_getElem hallow]
      cases c.dist.waiting <;> exact ⟨_, rfl⟩
    refine ⟨_, ideal, N, R, C, by rw [Addist.exec, hval]; rfl, ?_⟩
    cases res with
    | none => exact (h.sendone (t := 0) hval).1 rfl
    | some tm => exact (h.sendone hval).2 _ rfl

theorem Run.inv {c : Conf α} (h : Run c) :
    ∃ ideal N R C, Inv c.dist c.live c.box ideal N R C := by
  induction h with
  | init mem chunkmax => exact ⟨_, _, _, _, Inv.init mem chunkmax⟩
  | step a _ hallow hsound hval ih =>
    obtain ⟨ideal, N, R, C, h⟩ := ih
    obtain ⟨c', ideal', N', R', C', hval', h'⟩ := h.exec hallow hsound
    obtain rfl := Option.some.inj (hval'.symm.trans hval)
    exact ⟨_, _, _, _, h'⟩

/-- **Delivery.** In every run, what a registered ticket has received, is about to be
passed, and has pending is everything that was sent since its registration and not
replaced, each message once and in order; a chunk is allocated exactly while a
registered ticket has it pending; a receive delivers the first pending message; and
every further section ends. -/
theorem kaddist_run {c : Conf α} (h : Run c) :
    (∀ t ∈ c.live, (c.box t).received ++ inTransit c.dist t ++
      (pendingChunks c.dist t).map c.dist.sdData = (c.box t).kept) ∧
    (∀ chunk, chunk ∈ c.dist.heap ↔ ∃ t ∈ c.live, chunk ∈ pendingChunks c.dist t) ∧
    (∀ t ∈ c.live, c.dist.phase t = .idle → (kaddistVtryrecv c.dist t).2.1 =
      ((pendingChunks c.dist t).map c.dist.sdData).head?) ∧
    (∀ a, Allowed c a → Sound c a → (exec c a).isSome) := by
  obtain ⟨ideal, N, R, C, hinv⟩ := h.inv
  have hpend : ∀ t ∈ c.live, pendingChunks c.dist t = pend C (c.dist.dtAsync t) :=
    fun t ht => hinv.chunks.pendingChunks_eq (hinv.pending.async t ht)
  refine ⟨fun t ht => ?_, fun chunk => ?_, fun t ht hidle => ?_, fun a hallow hsound => ?_⟩
  · rw [hpend t ht]
    exact hinv.boxes t ht
  · rw [hinv.pending.mem_heap_iff hinv.chunks]
    exact exists_congr fun t => and_congr_right fun ht => by rw [hpend t ht]
  · rw [hpend t ht]
    exact (hinv.vtryrecv ht (hinv.not_waiting (by rw [hidle]; simp)) rfl).2.2.1
  · obtain ⟨c', -, -, -, -, hval, -⟩ := hinv.exec hallow hsound
    rw [hval]
    rfl

/-- A new distributor of two chunks, in memory that is all zero. -/
def newDist : Conf Nat where
  dist := kaddistInit
    { dead := false, waiting := [], adReady := 0, adKnown := 0, adTiready := 0, adTnready := 0,
      adChunkmax := 0, adChunkc := 0, adFront := 0, adBack := 0, dtPrev := fun _ => 0,
      dtNext := fun _ => 0, dtAsync := fun _ => 0, sdPending := fun _ => 0, sdPrev := fun _ => 0,
      sdNext := fun _ => 0, sdData := fun _ => 0, heap := [], phase := fun _ => .idle,
      sending := [] } 2
  live := []
  box := fun _ => .empty

/-- Two tickets, of which the second waits when a message is sent: it is passed the
message, and the first one has it pending. -/
theorem kaddist_run_mixed :
    ∃ c : Conf Nat, Run c ∧ 10 ∈ c.live ∧ (c.box 20).received = [7] ∧ (c.box 10).kept = [7] ∧
      (c.box 10).received ++ inTransit c.dist 10 ++
        (pendingChunks c.dist 10).map c.dist.sdData = (c.box 10).kept := by
  have hexec : (([.genticket 10, .genticket 20, .vrecv 20, .vsend 7 100, .sendone 0].foldlM
      execSound newDist).map fun c =>
        (decide (10 ∈ c.live), (c.box 20).received, (c.box 10).kept)) =
      some (true, [7], [7]) := by
    decide +kernel
  obtain ⟨c, hval, hc⟩ := Option.map_eq_some_iff.mp hexec
  obtain ⟨hlive, hrec, hkept⟩ : 10 ∈ c.live ∧ (c.box 20).received = [7] ∧
      (c.box 10).kept = [7] := by
    simpa using hc
  have hrun : Run c := (Run.init _ _).foldlM hval
  exact ⟨c, hrun, hlive, hrec, hkept, (kaddist_run hrun).1 10 hlive⟩

/-- Three messages are sent to a distributor of two chunks. The third one replaces
the second: the ticket receives the oldest message and not the newest ones. -/
theorem kaddist_replaces_newest :
    ∃ c : Conf Nat, Run c ∧ 10 ∈ c.live ∧
      ((c.box 10).posted.map Prod.fst).reverse = [1, 2, 3] ∧ (c.box 10).received = [1, 3] ∧
      pendingChunks c.dist 10 = [] := by
  have hexec : (([.genticket 10, .vsend 1 100, .sendone 0, .vsend 2 101, .sendone 0,
      .vsend 3 102, .sendone 0, .vtryrecv 10, .vtryrecv 10].foldlM execSound newDist).map fun c =>
        (decide (10 ∈ c.live), ((c.box 10).posted.map Prod.fst).reverse, (c.box 10).received,
          pendingChunks c.dist 10)) =
      some (true, [1, 2, 3], [1, 3], []) := by
    decide +kernel
  obtain ⟨c, hval, hc⟩ := Option.map_eq_some_iff.mp hexec
  exact ⟨c, (Run.init _ _).foldlM hval, by simpa using hc⟩

end KosKernel.Addist
