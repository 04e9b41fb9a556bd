import KosKernel.Sched.Invariant

/-!
# KosKernel.Sched.Sleepers

**The order of the sleepers** of a CPU, in any sequence of calls that put a task to sleep
or take one out of its sleep, and of ticks. A tick stops at a task whose state it cannot
lock.
-/

namespace KosKernel.Sched

open Function LinkedList List

/-! ### Ticks -/

/-- The loop of `kcpu_ticktime_unlocked2`; `trylock` tells which tasks can be locked. -/
def tickTrylock (trylock : Nat → Bool) (now : Nat) : Nat → Cpu → Option Cpu
  | 0, _ => none
  | fuel + 1, s =>
    let iter := s.cSleeping
    if iter = 0 then some s
    else if trylock iter = false then some s
    else if s.tAbstime iter ≤ now then tickTrylock trylock now fuel (wakeSleeper s iter)
    else some s

theorem tickLoop_eq (now fuel : Nat) (s : Cpu) :
    tickLoop now fuel s = tickTrylock (fun _ => true) now fuel s := by
  induction fuel generalizing s with
  | zero => rfl
  | succ fuel ih => simp [tickLoop, tickTrylock, ih]

/-- Some tasks are set running; what else is known of the tasks stays. -/
structure Woken (woken : List Nat) (s s' : Cpu) : Prop where
  tasks : s'.tasks = s.tasks
  tState : ∀ u, s'.tState u = if u ∈ woken then .running else s.tState u
  tNewstate : s'.tNewstate = s.tNewstate
  tCpu : s'.tCpu = s.tCpu
  tAbstime : s'.tAbstime = s.tAbstime
  alarmed : s'.alarmed = s.alarmed
  locked : s'.locked = s.locked

variable {s s' : Cpu} {ring sleep : List Nat} {t : Nat}

theorem woken_nil (s : Cpu) : Woken [] s s := ⟨rfl, fun _ => by simp, rfl, rfl, rfl, rfl, rfl⟩

theorem Lists.wakeSleeper (h : Lists s ring (t :: sleep)) :
    Lists (wakeSleeper s t) (ring ++ [t]) sleep ∧ Woken [t] s (wakeSleeper s t) := by
  have hprev : s.tPrev t = 0 := h.sleep_list.2.2.1
  -- It has no predecessor, so it is linked out as any sleeper is.
  have hEq : Sched.wakeSleeper s t = Sched.scheduleLast
      (setTimedout (setState (kcpuUnschedulesleep s t) t .running) t true) t := by
    simp [Sched.wakeSleeper, kcpuUnschedulesleep, setTimedout, setState, linkNext, linkHead, hprev]
  have h1 := h.unschedulesleep mem_cons_self
  rw [erase_cons_head] at h1
  have hnd := nodup_cons.mp (perm_middle.nodup_iff.mp h.nodup)
  obtain ⟨htasks, hstate, hnew, hcpu, habs, halarm, hlock⟩ := sameTasks_scheduleLast
    (setTimedout (setState (kcpuUnschedulesleep s t) t .running) t true) t
  rw [hEq]
  refine ⟨Lists.scheduleLast { h1 with } hnd.1 (h.sleep_list.ne_nil t mem_cons_self), htasks,
    fun u => ?_, hnew, hcpu, habs, halarm, hlock⟩
  rw [hstate]
  simp [setTimedout, setState, kcpuUnschedulesleep, update_apply]

/-- A tick wakes the first sleepers, up to one whose time has not come or that it cannot
lock. -/
theorem Lists.tickTrylock (h : Lists s ring sleep) (trylock : Nat → Bool) (now : Nat)
    {fuel : Nat} (hf : sleep.length < fuel) :
    ∃ s' woken rest, tickTrylock trylock now fuel s = some s' ∧ sleep = woken ++ rest ∧
      Lists s' (ring ++ woken) rest ∧ Woken woken s s' ∧ (∀ u ∈ woken, s.tAbstime u ≤ now) ∧
      ((∀ u, trylock u = true) → ∀ u ∈ rest, now < s.tAbstime u) := by
  induction sleep generalizing s ring fuel with
  | nil =>
    obtain _ | fuel := fuel
    · simp at hf
    have h0 : s.cSleeping = 0 := h.sleep_list
    exact ⟨s, [], [], if_pos h0, rfl, by simpa using h, woken_nil s, by simp, by simp⟩
  | cons x xs ih =>
    obtain _ | fuel := fuel
    · simp at hf
    obtain ⟨hx, hx0, -⟩ := h.sleep_list
    simp only [Sched.tickTrylock, hx, if_neg hx0]
    split_ifs with hlock hdue
    · exact ⟨s, [], x :: xs, rfl, rfl, by simpa using h, woken_nil s, by simp,
        fun hall => absurd (hall x) (by simp [hlock])⟩
    · obtain ⟨h1, hw1⟩ := h.wakeSleeper
      obtain ⟨s', woken, rest, hval, rfl, hL, hw, hdue', hrest⟩ := ih h1 (by simpa using hf)
      rw [hw1.tAbstime] at hdue' hrest
      refine ⟨s', x :: woken, rest, hval, rfl, by simpa using hL, ?_,
        forall_mem_cons.mpr ⟨hdue, hdue'⟩, hrest⟩
      refine ⟨hw.tasks.trans hw1.tasks, fun u => ?_, hw.tNewstate.trans hw1.tNewstate,
        hw.tCpu.trans hw1.tCpu, hw.tAbstime.trans hw1.tAbstime, hw.alarmed.trans hw1.alarmed,
        hw.locked.trans hw1.locked⟩
      rw [hw.tState, hw1.tState]
      by_cases hu : u = x <;> simp [hu]
    · -- The list is sorted: if the first one sleeps on, all do.
      have hx : now < s.tAbstime x := Nat.lt_of_not_le hdue
      exact ⟨s, [], x :: xs, rfl, rfl, by simpa using h, woken_nil s, by simp,
        fun _ => forall_mem_cons.mpr
          ⟨hx, fun u hu => Nat.lt_of_lt_of_le hx ((pairwise_cons.mp h.sorted).1 u hu)⟩⟩

/-! ### Runs -/

theorem Lists.ringTasks_eq (h : Lists s ring sleep) (hsub : ∀ u ∈ ring ++ sleep, u ∈ s.tasks) :
    ringTasks s = ring := by
  unfold ringTasks
  cases ring with
  | nil => exact if_pos h.current
  | cons x rest =>
    obtain ⟨hx, hx0⟩ := h.current_ne_zero
    have hlen : (x :: rest).length ≤ s.tasks.length :=
      (subperm_of_subset h.nodup_ring fun u hu => hsub u (mem_append_left _ hu)).length_le
    rw [if_neg hx0, hx]
    exact h.ring_list.cycle_eq h.nodup_ring hlen

theorem Lists.sleepTasks_eq (h : Lists s ring sleep) (hsub : ∀ u ∈ ring ++ sleep, u ∈ s.tasks) :
    sleepTasks s = sleep := by
  unfold sleepTasks
  rw [h.sleep_list.walk_eq (Nat.lt_succ_of_le (h.sleep_length_le hsub))]
  rfl

/-- The states that calls and ticks lead to, with any deadlines and clocks. `calls` counts
the calls that put a task to sleep, and `stamp` is the number of that call. In between the
ring may be changed by others, who leave the sleepers alone. -/
inductive SleepRun : Cpu → (Nat → Nat) → Nat → Prop
  | start {s : Cpu} {ring : List Nat} (stamp : Nat → Nat) : Lists s ring [] →
      (∀ u ∈ ring ++ [], u ∈ s.tasks) → SleepRun s stamp 0
  | sleep {s s' : Cpu} {stamp : Nat → Nat} {calls t : Nat} (abstime : Nat) :
      SleepRun s stamp calls → t ≠ 0 → t ∈ s.tasks → t ∉ ringTasks s ++ sleepTasks s →
      kcpuSchedulesleep (setAbstime s t abstime) t = some s' →
      SleepRun s' (update stamp t calls) (calls + 1)
  | unsleep {s : Cpu} {stamp : Nat → Nat} {calls t : Nat} : SleepRun s stamp calls →
      t ∈ sleepTasks s → SleepRun (kcpuUnschedulesleep s t) stamp calls
  | tick {s s' : Cpu} {stamp : Nat → Nat} {calls : Nat} (trylock : Nat → Bool) (now : Nat) :
      SleepRun s stamp calls → tickTrylock trylock now (s.tasks.length + 1) s = some s' →
      SleepRun s' stamp calls
  | other {s s' : Cpu} {stamp : Nat → Nat} {calls : Nat} {ring : List Nat} :
      SleepRun s stamp calls → Lists s' ring (sleepTasks s) →
      (∀ u ∈ ring ++ sleepTasks s, u ∈ s'.tasks) →
      (∀ u ∈ sleepTasks s, s'.tAbstime u = s.tAbstime u) → SleepRun s' stamp calls

/-- Earlier, or at the same time and put to sleep before. -/
def Before (s : Cpu) (stamp : Nat → Nat) (a b : Nat) : Prop :=
  s.tAbstime a < s.tAbstime b ∨ s.tAbstime a = s.tAbstime b ∧ stamp a < stamp b

variable {stamp : Nat → Nat} {calls : Nat}

theorem SleepRun.order (h : SleepRun s stamp calls) : ∃ ring sleep, Lists s ring sleep ∧
    (∀ u ∈ ring ++ sleep, u ∈ s.tasks) ∧ sleep.Pairwise (Before s stamp) ∧
    ∀ u ∈ sleep, stamp u < calls := by
  induction h with
  | start stamp hL hsub => exact ⟨_, [], hL, hsub, by simp, by simp⟩
  | @sleep s _ stamp calls t abstime _ ht0 htask hnot hcall ih =>
    obtain ⟨ring, sleep, hL, hsub, horder, hstamp⟩ := ih
    rw [hL.ringTasks_eq hsub, hL.sleepTasks_eq hsub] at hnot
    have htS : t ∉ sleep := fun hm => hnot (mem_append_right _ hm)
    have hL1 : Lists (setAbstime s t abstime) ring sleep := hL.setAbstime htS
    obtain ⟨s', pre, post, hval, rfl, hpre, hpost, hL', hsame⟩ :=
      hL1.schedulesleep hnot ht0 (hL.sleep_length_le hsub)
    obtain rfl := Option.some.inj (hval.symm.trans hcall)
    have hne : ∀ u ∈ pre ++ post, u ≠ t := fun u hu => ne_of_mem_of_not_mem hu htS
    have habs : s'.tAbstime = (Sched.setAbstime s t abstime).tAbstime := hsame.tAbstime
    have hold : (pre ++ post).Pairwise (Before s' (update stamp t calls)) := by
      refine horder.imp_of_mem fun ha hb hlt => ?_
      rw [Before, habs]
      simpa [Before, Sched.setAbstime, hne _ ha, hne _ hb] using hlt
    obtain ⟨horder1, horder2, horder3⟩ := pairwise_append.mp hold
    refine ⟨ring, _, hL', ?_,
      pairwise_append.mpr ⟨horder1, pairwise_cons.mpr ⟨?_, horder2⟩, ?_⟩, ?_⟩
    · rw [hsame.tasks]
      simp only [mem_append, mem_cons] at hsub ⊢
      rintro u (hu | hu | rfl | hu)
      · exact hsub u (.inl hu)
      · exact hsub u (.inr (.inl hu))
      · exact htask
      · exact hsub u (.inr (.inr hu))
    · intro y hy
      rw [Before, habs]
      exact .inl (hpost y hy)
    · intro x hx
      refine forall_mem_cons.mpr ⟨?_, horder3 x hx⟩
      have hx' : x ∈ pre ++ post := mem_append_left _ hx
      rw [Before, habs, update_self, update_of_ne (hne x hx')]
      exact (Nat.lt_or_eq_of_le (hpre x hx)).imp_right fun heq => ⟨heq, hstamp x hx'⟩
    · intro u hu
      by_cases hut : u = t
      · rw [hut, update_self]
        exact Nat.lt_succ_self _
      · rw [update_of_ne hut]
        have hu' : u ∈ pre ++ post := by simpa [hut] using hu
        exact Nat.lt_succ_of_lt (hstamp u hu')
  | unsleep _ ht ih =>
    obtain ⟨ring, sleep, hL, hsub, horder, hstamp⟩ := ih
    rw [hL.sleepTasks_eq hsub] at ht
    exact ⟨ring, _, hL.unschedulesleep ht,
      fun u hu => hsub u ((erase_sublist.append_left _).subset hu),
      horder.sublist erase_sublist, fun u hu => hstamp u (mem_of_mem_erase hu)⟩
  | tick trylock now _ hcall ih =>
    obtain ⟨ring, sleep, hL, hsub, horder, hstamp⟩ := ih
    obtain ⟨s', woken, rest, hval, rfl, hL', hw, -⟩ :=
      hL.tickTrylock trylock now (Nat.lt_succ_of_le (hL.sleep_length_le hsub))
    obtain rfl := Option.some.inj (hval.symm.trans hcall)
    refine ⟨_, rest, hL', by simpa [hw.tasks] using hsub, ?_, fun u hu => hstamp u (by simp [hu])⟩
    unfold Before
    rw [hw.tAbstime]
    exact horder.sublist (sublist_append_right ..)
  | other _ hL' hsub' habs ih =>
    obtain ⟨ring, sleep, hL, hsub, horder, hstamp⟩ := ih
    rw [hL.sleepTasks_eq hsub] at hL' hsub' habs
    refine ⟨_, sleep, hL', hsub', horder.imp_of_mem fun ha hb hlt => ?_, hstamp⟩
    rw [Before, habs _ ha, habs _ hb]
    exact hlt

end KosKernel.Sched
