import KosKernel.Sched.Task
import Mathlib.Data.List.Perm.Subperm

/-!
# KosKernel.Sched.Lists

The **ring and the sleepers** of a CPU, and what the primitive operations of the
scheduler do to them. Both are linked through the same fields, so every operation on
one of them leaves the other alone because their tasks are different.
-/

namespace KosKernel.Sched

open Function LinkedList List

variable {s s' : Cpu} {ring sleep : List Nat} {t : Nat}

/-- The ring from the current task on, and the sleepers by their timeouts. -/
structure Lists (s : Cpu) (ring sleep : List Nat) : Prop where
  ring_list : IsRing 0 s.tNext s.tPrev ring
  current : s.cCurrent = ring.headD 0
  sleep_list : IsSeg 0 s.tNext s.tPrev 0 s.cSleeping sleep 0
  nodup : (ring ++ sleep).Nodup
  sorted : sleep.Pairwise fun a b => s.tAbstime a ≤ s.tAbstime b

/-- Two states that differ in the links only. -/
structure SameTasks (s s' : Cpu) : Prop where
  tasks : s'.tasks = s.tasks
  tState : s'.tState = s.tState
  tNewstate : s'.tNewstate = s.tNewstate
  tCpu : s'.tCpu = s.tCpu
  tAbstime : s'.tAbstime = s.tAbstime
  alarmed : s'.alarmed = s.alarmed
  locked : s'.locked = s.locked

namespace Lists

section

variable (h : Lists s ring sleep)

include h

theorem nodup_ring : ring.Nodup := (nodup_append.mp h.nodup).1

theorem nodup_sleep : sleep.Nodup := (nodup_append.mp h.nodup).2.1

/-- The loop over the sleepers ends. -/
theorem sleep_length_le (hsub : ∀ u ∈ ring ++ sleep, u ∈ s.tasks) :
    sleep.length ≤ s.tasks.length :=
  (subperm_of_subset h.nodup_sleep fun u hu => hsub u (mem_append_right _ hu)).length_le

theorem not_mem_sleep : ∀ x ∈ ring, x ∉ sleep :=
  fun x hx hx' => (nodup_append.mp h.nodup).2.2 x hx x hx' rfl

theorem not_mem_ring : ∀ x ∈ sleep, x ∉ ring :=
  fun x hx hx' => h.not_mem_sleep x hx' hx

theorem setAbstime (ht : t ∉ sleep) {time : Nat} : Lists (setAbstime s t time) ring sleep :=
  { h with
    sorted := h.sorted.imp_of_mem fun hx hy hle => by
      simp only [Sched.setAbstime, update_of_ne (ne_of_mem_of_not_mem hx ht),
        update_of_ne (ne_of_mem_of_not_mem hy ht)]
      exact hle }

/-! ### The ring -/

/-- Writes to tasks of the ring, or to one that is in neither list, leave the sleepers. -/
theorem frame_sleep {next' prev' : Nat → Nat} (hn : ∀ x ∈ sleep, next' x = s.tNext x)
    (hp : ∀ x ∈ sleep, prev' x = s.tPrev x) :
    IsSeg 0 next' prev' 0 s.cSleeping sleep 0 := h.sleep_list.congr hn hp

/-- `insertNext` and `insertPrev` before a task of the ring leave the sleepers. -/
theorem frame_insert {x : Nat} (hx : x ∈ ring) (ht : t ∉ ring ++ sleep) :
    IsSeg 0 (insertNext s.tNext s.tPrev x t) (insertPrev s.tPrev x t) 0 s.cSleeping sleep 0 := by
  have htS : t ∉ sleep := fun hm => ht (by simp [hm])
  refine h.frame_sleep (fun y hy => ?_) (fun y hy => ?_)
  · rw [insertNext, update_of_ne, update_of_ne (ne_of_mem_of_not_mem hy htS)]
    exact ne_of_mem_of_not_mem hy (h.not_mem_sleep _ (h.ring_list.link_mem hx).2)
  · rw [insertPrev, update_of_ne, update_of_ne (ne_of_mem_of_not_mem hy htS)]
    exact ne_of_mem_of_not_mem hy (h.not_mem_sleep _ hx)

theorem nodup_insert (ht : t ∉ ring ++ sleep) {ring' : List Nat} (hp : ring'.Perm (t :: ring)) :
    (ring' ++ sleep).Nodup :=
  (hp.append_right sleep).nodup_iff.mpr (nodup_cons.mpr ⟨ht, h.nodup⟩)

end

theorem scheduleFirst (h : Lists s [] sleep) (ht : t ∉ sleep) (ht0 : t ≠ 0) :
    Lists (scheduleFirst s t) [t] sleep where
  ring_list := ⟨rfl, ht0, by simp [Sched.scheduleFirst], by simp [Sched.scheduleFirst]⟩
  current := rfl
  sleep_list := h.sleep_list.congr
    (fun x hx => update_of_ne (ne_of_mem_of_not_mem hx ht) _ _)
    (fun x hx => update_of_ne (ne_of_mem_of_not_mem hx ht) _ _)
  nodup := nodup_cons.mpr ⟨ht, h.nodup⟩
  sorted := h.sorted

theorem current_ne_zero {x : Nat} {rest : List Nat} (h : Lists s (x :: rest) sleep) :
    s.cCurrent = x ∧ s.cCurrent ≠ 0 :=
  ⟨h.current, by rw [h.current]; exact h.ring_list.ne_nil x (by simp)⟩

section

variable (h : Lists s ring sleep) (ht : t ∉ ring ++ sleep) (ht0 : t ≠ 0)

include h ht ht0

theorem scheduleLast : Lists (scheduleLast s t) (ring ++ [t]) sleep := by
  cases ring with
  | nil =>
    rw [Sched.scheduleLast, if_neg (by simp [h.current])]
    exact h.scheduleFirst ht ht0
  | cons x rest =>
    obtain ⟨hx, hx0⟩ := h.current_ne_zero
    rw [Sched.scheduleLast, if_pos hx0, hx]
    have htR : t ∉ x :: rest := fun hm => ht (mem_append_left _ hm)
    exact ⟨h.ring_list.insert h.nodup_ring htR ht0, by simp,
      h.frame_insert (by simp) ht, h.nodup_insert ht (perm_append_singleton t _), h.sorted⟩

theorem scheduleCurrent : Lists (scheduleCurrent s t) (t :: ring) sleep := by
  have h' := h.scheduleLast ht ht0
  exact ⟨h'.ring_list.rotate, rfl, h'.sleep_list, nodup_cons.mpr ⟨ht, h.nodup⟩, h'.sorted⟩

theorem scheduleNext : ∃ ring', ring'.Perm (t :: ring) ∧ Lists (scheduleNext s t) ring' sleep := by
  cases ring with
  | nil =>
    rw [Sched.scheduleNext, if_neg (by simp [h.current])]
    exact ⟨[t], List.Perm.refl _, h.scheduleFirst ht ht0⟩
  | cons x rest =>
    obtain ⟨hx, hx0⟩ := h.current_ne_zero
    rw [Sched.scheduleNext, if_pos hx0, hx]
    have hrot : IsRing 0 s.tNext s.tPrev (rest ++ [x]) := h.ring_list.rotate_one
    -- Read from the next task on, this is an insertion behind the last task, the current one.
    obtain ⟨y, ys, hy⟩ : ∃ y ys, rest ++ [x] = y :: ys :=
      exists_cons_of_ne_nil (by simp)
    rw [hy] at hrot
    have hlast : s.tPrev y = x := by
      rw [hrot.2.2.1, ← hy, getLastD_concat]
    have hnext : s.tNext x = y := by
      cases rest with
      | nil =>
        obtain ⟨rfl, -⟩ : x = y ∧ [] = ys := by simpa using hy
        exact h.ring_list.2.2.2
      | cons z zs =>
        obtain ⟨rfl, -⟩ : z = y ∧ _ := by simpa using hy
        exact h.ring_list.2.2.2.1
    have hperm : (y :: ys).Perm (x :: rest) := hy ▸ perm_append_singleton x rest
    have htY : t ∉ y :: ys := fun hm => ht (mem_append_left _ (hperm.mem_iff.mp hm))
    have hyR : y ∈ x :: rest := hperm.mem_iff.mp (by simp)
    have hins := hrot.insert (hperm.nodup_iff.mpr h.nodup_ring) htY ht0
    have hfr := h.frame_insert hyR ht
    rw [← hy, append_assoc, insertNext, insertPrev, hlast] at hins
    rw [insertNext, insertPrev, hlast] at hfr
    have hp : (x :: t :: rest).Perm (t :: x :: rest) := List.Perm.swap _ _ _
    refine ⟨x :: t :: rest, hp, ?_, rfl, ?_, h.nodup_insert ht hp, h.sorted⟩
    · simp only [hnext]
      exact hins.rotate
    · simp only [hnext]
      exact hfr

end

theorem frame_remove (h : Lists s ring sleep) (ht : t ∈ ring) :
    IsSeg 0 (update s.tNext (s.tPrev t) (s.tNext t))
      (update s.tPrev (s.tNext t) (s.tPrev t)) 0 s.cSleeping sleep 0 :=
  h.frame_sleep
    (fun _ hy => update_of_ne
      (ne_of_mem_of_not_mem hy (h.not_mem_sleep _ (h.ring_list.link_mem ht).2)) _ _)
    (fun _ hy => update_of_ne
      (ne_of_mem_of_not_mem hy (h.not_mem_sleep _ (h.ring_list.link_mem ht).1)) _ _)

theorem unlinkRing (h : Lists s ring sleep) (ht : t ∈ ring) (hcur : t ≠ s.cCurrent) :
    Lists (unlinkRing s t) (ring.erase t) sleep where
  ring_list := h.ring_list.remove h.nodup_ring ht
  current := by
    cases ring with
    | nil => simp at ht
    | cons x rest =>
      obtain ⟨hx, -⟩ := h.current_ne_zero
      have hxt : x ≠ t := fun hEq => hcur (hEq ▸ hx.symm)
      rw [erase_cons_tail (by simpa using hxt)]
      exact hx
  sleep_list := h.frame_remove ht
  nodup := h.nodup.sublist (erase_sublist.append_right sleep)
  sorted := h.sorted

theorem removeCurrent {rest : List Nat} (h : Lists s (t :: rest) sleep) :
    (s.tNext t = t → rest = []) ∧ rest.headD 0 = (if s.tNext t = t then 0 else s.tNext t) ∧
    IsRing 0 (update s.tNext (s.tPrev t) (s.tNext t))
      (update s.tPrev (s.tNext t) (s.tPrev t)) rest := by
  have hnd := nodup_cons.mp h.nodup_ring
  rw [← and_assoc]
  refine ⟨?_, h.ring_list.remove_head h.nodup_ring⟩
  cases rest with
  | nil => exact ⟨fun _ => rfl, (if_pos h.ring_list.2.2.2).symm⟩
  | cons y ys =>
    have hy : s.tNext t = y := h.ring_list.2.2.2.1
    have hne : y ≠ t := (ne_of_not_mem_cons hnd.1).symm
    rw [hy, if_neg hne]
    exact ⟨fun hself => absurd hself hne, rfl⟩

/-! ### The sleepers -/

theorem unschedulesleep (h : Lists s ring sleep) (ht : t ∈ sleep) :
    Lists (kcpuUnschedulesleep s t) ring (sleep.erase t) where
  ring_list := by
    obtain ⟨hn, hp⟩ := h.sleep_list.link_mem ht
    refine h.ring_list.congr (fun x hx => linkNext_of_ne ?_) (fun x hx => linkPrev_of_ne ?_)
    · rintro rfl
      exact hp.elim (h.ring_list.ne_nil _ hx) (h.not_mem_sleep _ hx)
    · rintro rfl
      exact hn.elim (h.ring_list.ne_nil _ hx) (h.not_mem_sleep _ hx)
  current := h.current
  sleep_list := h.sleep_list.unlink h.nodup_sleep ht
  nodup := h.nodup.sublist (erase_sublist.append_left ring)
  sorted := h.sorted.sublist erase_sublist

/-- The place where a sleeper is inserted: behind those that are not later. -/
theorem findSleep_spec {b p : Nat} {xs : List Nat} (hseg : IsSeg 0 s.tNext s.tPrev b p xs 0)
    (hne : xs ≠ []) {fuel : Nat} (hf : xs.length ≤ fuel) :
    ∃ pre post, xs = pre ++ post ∧ (∀ x ∈ pre, s.tAbstime x ≤ s.tAbstime t) ∧
      (∀ y ∈ post.head?, s.tAbstime t < s.tAbstime y) ∧
      findSleep s t fuel p = some (match post with
        | [] => .behind (pre.getLastD 0)
        | y :: _ => .before y) := by
  induction xs generalizing b p fuel with
  | nil => exact absurd rfl hne
  | cons x xs ih =>
    obtain _ | fuel := fuel
    · simp at hf
    obtain ⟨rfl, hp0, -, htl⟩ := hseg
    by_cases hle : s.tAbstime p ≤ s.tAbstime t
    · by_cases hxs : xs = []
      · subst hxs
        have hnext : s.tNext p = 0 := htl
        exact ⟨[p], [], by simp, by simpa using hle, by simp, by simp [findSleep, hle, hnext]⟩
      obtain ⟨pre, post, rfl, hpre, hpost, hval⟩ := ih htl hxs (by simpa using hf)
      have hnext : s.tNext p ≠ 0 := fun h0 => hxs (htl.head_eq_nil_iff.mp h0)
      refine ⟨p :: pre, post, rfl, forall_mem_cons.mpr ⟨hle, hpre⟩, hpost, ?_⟩
      · rw [findSleep, if_pos hle]
        simp only [if_neg hnext, hval]
        cases post with
        | nil =>
          have hpn : pre ≠ [] := by simpa using hxs
          obtain ⟨z, zs, rfl⟩ := exists_cons_of_ne_nil hpn
          rfl
        | cons y ys => rfl
    · exact ⟨[], p :: xs, rfl, by simp, by simpa using hle, by simp [findSleep, hle]⟩

/-- A sleeper is inserted behind those that are not later, and before all others. -/
theorem schedulesleep (h : Lists s ring sleep) (ht : t ∉ ring ++ sleep) (ht0 : t ≠ 0)
    (hlen : sleep.length ≤ s.tasks.length) :
    ∃ s' pre post, kcpuSchedulesleep s t = some s' ∧ sleep = pre ++ post ∧
      (∀ x ∈ pre, s.tAbstime x ≤ s.tAbstime t) ∧ (∀ y ∈ post, s.tAbstime t < s.tAbstime y) ∧
      Lists s' ring (pre ++ t :: post) ∧ SameTasks s s' := by
  have htR : t ∉ ring := fun hm => ht (by simp [hm])
  have htS : t ∉ sleep := fun hm => ht (by simp [hm])
  have hneR : ∀ x ∈ ring, x ≠ t := fun x hx => ne_of_mem_of_not_mem hx htR
  by_cases hs : sleep = []
  · subst hs
    have hsl : s.cSleeping = 0 := h.sleep_list
    refine ⟨sleepFirst s t, [], [], if_pos hsl, rfl, by simp, by simp,
      ⟨?_, h.current, ?_, ?_, by simp⟩, ⟨rfl, rfl, rfl, rfl, rfl, rfl, rfl⟩⟩
    · exact h.ring_list.congr (fun x hx => update_of_ne (hneR x hx) _ _)
        (fun x hx => update_of_ne (hneR x hx) _ _)
    · exact ⟨rfl, ht0, by simp [sleepFirst], by simp [sleepFirst]⟩
    · have hp : (ring ++ [t]).Perm (t :: ring) := perm_append_singleton t ring
      exact hp.nodup_iff.mpr (nodup_cons.mpr ⟨htR, h.nodup_ring⟩)
  · have hsl : s.cSleeping ≠ 0 := fun h0 => hs (h.sleep_list.head_eq_nil_iff.mp h0)
    obtain ⟨pre, post, rfl, hpre, hpost, hval⟩ :=
      findSleep_spec (t := t) h.sleep_list hs (show _ ≤ s.tasks.length + 1 by omega)
    obtain ⟨m, hsegpre, hsegpost⟩ := isSeg_append.mp h.sleep_list
    obtain ⟨hndpre, hndpost, -⟩ := nodup_append.mp h.nodup_sleep
    have hnepre : ∀ x ∈ pre, x ≠ t :=
      fun x hx => ne_of_mem_of_not_mem hx fun hm => htS (by simp [hm])
    have hnepost : ∀ x ∈ post, x ≠ t :=
      fun x hx => ne_of_mem_of_not_mem hx fun hm => htS (by simp [hm])
    have hlast : t ≠ pre.getLastD 0 := getLastD_ne (fun hm => htS (by simp [hm])) ht0
    have hlastR : ∀ x ∈ ring, x ≠ pre.getLastD 0 := fun x hx => by
      refine getLastD_ne (fun hm => h.not_mem_sleep x hx (by simp [hm])) (h.ring_list.ne_nil x hx)
    have hnd : (ring ++ (pre ++ ([t] ++ post))).Nodup := by
      have hp : (ring ++ (pre ++ ([t] ++ post))).Perm (t :: (ring ++ (pre ++ post))) :=
        (perm_middle.append_left ring).trans perm_middle
      exact hp.nodup_iff.mpr (nodup_cons.mpr ⟨ht, h.nodup⟩)
    obtain ⟨hs1, hs2, hs3⟩ := pairwise_append.mp h.sorted
    have hpost' : ∀ y ∈ post, s.tAbstime t < s.tAbstime y := by
      cases post with
      | nil => simp
      | cons y ys =>
        have hy : s.tAbstime t < s.tAbstime y := hpost y (by simp)
        exact forall_mem_cons.mpr
          ⟨hy, fun z hz => Nat.lt_of_lt_of_le hy ((pairwise_cons.mp hs2).1 z hz)⟩
    have hsorted : (pre ++ ([t] ++ post)).Pairwise fun a b => s.tAbstime a ≤ s.tAbstime b :=
      pairwise_append.mpr ⟨hs1, pairwise_cons.mpr ⟨fun y hy => Nat.le_of_lt (hpost' y hy), hs2⟩,
        fun x hx => forall_mem_cons.mpr ⟨hpre x hx, hs3 x hx⟩⟩
    cases post with
    | nil =>
      have hpn : pre ≠ [] := by simpa using hs
      have hlast0 := hsegpre.getLastD_ne_nil hpn
      refine ⟨sleepBehind s t (pre.getLastD 0), pre, [],
        by rw [kcpuSchedulesleep, if_neg hsl, hval]; rfl, rfl, hpre, hpost',
        ⟨?_, h.current, ?_, hnd, hsorted⟩, ⟨rfl, rfl, rfl, rfl, rfl, rfl, rfl⟩⟩
      · refine h.ring_list.congr (fun x hx => ?_) (fun x hx => ?_)
        · simp only [sleepBehind, update_of_ne (hlastR x hx),
            update_of_ne (hneR x hx)]
        · exact update_of_ne (hneR x hx) _ _
      · refine IsSeg.splice [t] hsegpre hsegpost hndpre hndpost ⟨rfl, ht0, ?_, ?_⟩ ?_
          (fun x hx => ?_) (fun x hx => ?_) (by simp) (by simp)
        · simp [sleepBehind]
        · simp only [sleepBehind, update_of_ne hlast, update_self]
          exact hsegpost.symm
        · exact (if_neg hlast0).symm
        · simp only [sleepBehind, linkNext, if_neg hlast0]
          rw [update_comm hlast, update_of_ne (hnepre x hx)]
        · exact update_of_ne (hnepre x hx) _ _
    | cons q qs =>
      obtain ⟨rfl, hq0, hbq, -⟩ := id hsegpost
      have hqt : t ≠ m := (hnepost m (by simp)).symm
      refine ⟨sleepBefore s t m, pre, m :: qs,
        by rw [kcpuSchedulesleep, if_neg hsl, hval]; rfl, rfl, hpre, hpost',
        ⟨?_, h.current, ?_, hnd, hsorted⟩, ⟨rfl, rfl, rfl, rfl, rfl, rfl, rfl⟩⟩
      · refine h.ring_list.congr (fun x hx => ?_) (fun x hx => ?_)
        · simp only [sleepBefore, hbq, linkNext_of_ne (hlastR x hx), update_of_ne (hneR x hx)]
        · have hxm : x ≠ m := ne_of_mem_of_not_mem hx (h.not_mem_ring m (by simp))
          simp only [sleepBefore, update_of_ne hxm, update_of_ne (hneR x hx)]
      · refine IsSeg.splice [t] hsegpre hsegpost hndpre hndpost ⟨rfl, ht0, ?_, ?_⟩ ?_
          (fun x hx => ?_) (fun x hx => ?_) (fun x hx => ?_) (fun x hx => ?_)
        · simp only [sleepBefore, update_of_ne hqt, update_self, hbq]
        · simp only [sleepBefore, hbq, linkNext_of_ne hlast, update_self]
          rfl
        · simp only [sleepBefore, hbq]
        · simp only [sleepBefore, hbq]
          exact linkNext_update_of_ne (hnepre x hx)
        · have hxm : x ≠ m := fun hEq =>
            (nodup_append.mp h.nodup_sleep).2.2 x hx m (by simp) hEq
          simp only [sleepBefore, update_of_ne hxm, update_of_ne (hnepre x hx)]
        · simp only [sleepBefore, hbq]
          have hxl : x ≠ pre.getLastD 0 := getLastD_ne (fun hm =>
            (nodup_append.mp h.nodup_sleep).2.2 x hm x hx rfl) (hsegpost.ne_nil x hx)
          rw [linkNext_of_ne hxl, update_of_ne (hnepost x hx)]
        · rw [linkPrev, if_neg hq0]
          by_cases hxm : x = m
          · subst hxm
            simp [sleepBefore]
          · simp only [sleepBefore, update_of_ne hxm, update_of_ne (hnepost x hx)]

end Lists

end KosKernel.Sched
