import KosKernel.Sched.Sleepers

/-!
# KosKernel.Sched.Calls

Every **call of the scheduler** returns and keeps the states and the lists in
agreement, if it meets the conditions that its lemma names. Without one of them a
call does not: a current task that cannot leave the CPU, a timeout that is taken from a
waiting task, a task that is resumed into a timeout or with an alarm, and a switch to a task
on a CPU that runs none.
-/

namespace KosKernel.Sched

open Function LinkedList List

variable {s s' : Cpu} {ring sleep ring' sleep' : List Nat} {t : Nat} {env : Env}

/-! ### Unscheduling -/

/-- A task that could not leave runs again, as the current one. -/
theorem Others.rescheduleRunning (h : Others t s ring sleep) (hnew : GoesOn s t) (e : Errno)
    {held : Bool} (hheld : held = false) : Keeps (rescheduleRunning held s t e) := by
  rw [Sched.rescheduleRunning, hheld, withTasks_unlocked h.unlocked]
  have h1 := h.setCpu true
  have hL := h1.lists.scheduleCurrent h1.not_mem h1.ne_zero
  have hinv := h1.run hL (.refl _) (sameTasks_scheduleCurrent _ _)
    (update_self ..) hnew
  exact hinv.keeps e

variable {newstate : TaskState}

/-- There is no reference for a timeout, or the signals cannot be received. -/
def Blocked (env : Env) (newstate : TaskState) : Prop :=
  newstate = .waitingtmo ∧ env.noref ∨ newstate.isWaiting ∧ env.nosigs

instance (env : Env) (newstate : TaskState) : Decidable (Blocked env newstate) :=
  inferInstanceAs (Decidable (_ ∨ _))

theorem Others.dopostunscheduling (h : Others t s ring sleep) (hst : s.tState t = .running)
    (hcpu : s.tCpu t = false) (hnew : GoesOn s t) (hns : newstate ≠ .running)
    (halarm : newstate.isWaiting → s.alarmed t = false) {held : Bool}
    (hheld : Blocked env newstate → held = false) (arg : Nat) :
    Keeps (ktaskDopostunscheduling env held s t newstate arg) := by
  have hsus : ¬s.tState t = .suspended := by simp [hst]
  have hstop : (newstate.hasCpu = false) → Inv (Sched.setState s t newstate) ring sleep := by
    intro hc
    refine (h.setState newstate).inv ?_ hcpu (fun _ _ => hnew) fun hw => halarm ?_
    · simpa [Sched.setState] using hc
    · simpa [Sched.setState] using hw
  cases newstate with
  | running => exact absurd rfl hns
  | suspended | terminated =>
    simp only [ktaskDopostunscheduling, if_neg hsus]
    exact (hstop rfl).keeps .keOk
  | waiting =>
    simp only [ktaskDopostunscheduling, if_neg hsus]
    by_cases hsig : env.nosigs = true
    · simp only [hsig, if_true]
      exact h.rescheduleRunning hnew .keNomem (hheld (.inr ⟨rfl, hsig⟩))
    · simp only [hsig]
      exact (hstop rfl).keeps .keOk
  | waitingtmo =>
    simp only [ktaskDopostunscheduling, if_neg hsus]
    by_cases href : env.noref = true
    · simp only [href, if_true]
      exact h.rescheduleRunning hnew .keOverflow (hheld (.inl ⟨rfl, href⟩))
    simp only [href, Bool.false_eq_true, if_false]
    have h1 := (h.setAbstime arg).setCpu true
    have hcpu1 : (Sched.setCpu (Sched.setAbstime s t arg) t true).tCpu t = true :=
      update_self ..
    obtain ⟨s1, sleep1, hval, hsame, hinv⟩ := h1.scheduletimeout hcpu1 hnew (halarm rfl)
    rw [hval]
    by_cases hsig : env.nosigs = true
    · -- The signals cannot be had: the task is no sleeper after all.
      have hout := hinv.leaveSleep (update_self ..)
      have hback : Others t (kcpuUnschedulesleep s1 t) ring (sleep1.erase t) :=
        hout.frame { hout.lists with }
          ⟨rfl, fun u hu => (update_of_ne hu _ _).symm, fun _ _ => rfl, fun _ _ => rfl,
            fun _ _ => rfl, rfl⟩
      have hcpu2 : s1.tCpu t = true := (congrFun hsame.tCpu t).trans hcpu1
      simp only [hsig, if_true, Option.bind_eq_bind, Option.bind_some, ktaskUnscheduletimeout,
        hcpu2]
      exact hback.rescheduleRunning (hsame.goesOn hnew) .keNomem (hheld (.inr ⟨rfl, hsig⟩))
    · simp only [hsig, Option.bind_eq_bind, Option.bind_some]
      exact hinv.keeps .keOk

/-- The caller would have to take the lock that it holds. -/
theorem dopostunscheduling_blocked (hst : s.tState t = .running) (hb : Blocked env newstate)
    (arg : Nat) : ktaskDopostunscheduling env true s t newstate arg = none := by
  unfold ktaskDopostunscheduling
  rw [if_neg (by simp [hst])]
  cases newstate with
  | waitingtmo =>
    rcases hb with ⟨-, href⟩ | ⟨-, hsig⟩
    · simp [href, rescheduleRunning]
    · simp [hsig, rescheduleRunning]
  | waiting =>
    have hsig : env.nosigs = true := by simpa [Blocked, TaskState.isWaiting] using hb
    simp [hsig, rescheduleRunning]
  | running | suspended | terminated => simp [Blocked, TaskState.isWaiting] at hb

/-- The current task cannot leave the CPU: it was interrupted, or it would have to come back. -/
def Stays (env : Env) (s : Cpu) (t : Nat) (newstate : TaskState) : Prop :=
  t = s.cCurrent ∧ (s.wasintr t ∧ ¬s.nointr t ∨ Blocked env newstate)

instance (env : Env) (s : Cpu) (t : Nat) (newstate : TaskState) :
    Decidable (Stays env s t newstate) :=
  inferInstanceAs (Decidable (_ ∧ _))

theorem Inv.unscheduleRunning (h : Inv s ring sleep) (hst : s.tState t = .running)
    (hns : newstate ≠ .running) (halarm : newstate.isWaiting → s.alarmed t = false)
    (hstays : ¬Stays env s t newstate) (arg : Nat) :
    Keeps (unscheduleRunning env s t newstate arg) := by
  have hnew := h.goesOn hst rfl
  rw [Sched.unscheduleRunning, withTasks_unlocked h.unlocked]
  split_ifs with hcur hintr hone
  · exact absurd ⟨hcur, .inl hintr⟩ hstays
  · exact ((h.leaveOnly hst hcur hone).setCpu false).dopostunscheduling hst
      (update_self ..) hnew hns halarm (fun hb => absurd ⟨hcur, .inr hb⟩ hstays) arg
  · have hl := h.leaveCurrent hst hcur
    rw [if_neg hone] at hl
    exact (hl.setCpu false).dopostunscheduling hst (update_self ..) hnew hns halarm
      (fun hb => absurd ⟨hcur, .inr hb⟩ hstays) arg
  have hL := h.lists.unlinkRing ((h.mem_ring t).mpr hst) hcur
  have hl := h.leaveRing hst hL ⟨rfl, rfl, rfl, rfl, rfl, rfl, rfl⟩
  exact (hl.setCpu false).dopostunscheduling hst (update_self ..) hnew hns halarm
    (fun _ => rfl) arg

/-- **A current task that cannot leave** keeps the CPU locked, if its call returns at all. -/
theorem unscheduleRunning_stays (hst : s.tState t = .running) (hstays : Stays env s t newstate)
    {arg : Nat} {e : Errno} (hval : unscheduleRunning env s t newstate arg = some (e, s')) :
    s'.locked = true := by
  obtain ⟨hcur, hcase⟩ := hstays
  unfold Sched.unscheduleRunning withTasks at hval
  by_cases hintr : s.wasintr t = true ∧ ¬s.nointr t = true
  · rw [if_pos hintr] at hval
    split_ifs at hval
    cases hval
    rfl
  have hnone : ∀ s1 : Cpu, s1.tState t = .running →
      ktaskDopostunscheduling env true s1 t newstate arg ≠ some (e, s') := by
    intro s1 hst1
    rw [dopostunscheduling_blocked hst1 (hcase.resolve_left hintr)]
    simp
  split_ifs at hval <;> exact absurd hval (hnone _ hst)

/-- A task that waits already waits for more, or with another timeout; a suspended task
stays so. -/
theorem Inv.unscheduleAgain (h : Inv s ring sleep) (ht : t ∈ s.tasks) (hns : newstate ≠ .running)
    (hst : s.tState t = newstate ∨ (s.tState t).isWaiting ∧ newstate.isWaiting) (arg : Nat) :
    Keeps (unscheduleAgain env s t newstate arg) := by
  unfold Sched.unscheduleAgain
  split_ifs with hsig hw htmo href hless htmo
  · exact h.keeps .keNomem
  · exact h.keeps .keOverflow
  · -- A waiting task gets a timeout.
    obtain rfl := hw
    have hwait : s.tState t = .waiting := by
      revert hst htmo
      cases s.tState t <;> simp [TaskState.isWaiting]
    have h1 := ((h.others ht (by simp [hwait, TaskState.hasCpu])).setCpu true).setAbstime arg
    have hcpu1 : (Sched.setAbstime (Sched.setCpu s t true) t arg).tCpu t = true :=
      update_self ..
    have hnew := h.goesOn hwait rfl
    have halarm := h.alarm hwait rfl
    obtain ⟨s1, sleep1, hval, -, hinv⟩ := h1.scheduletimeout hcpu1 hnew halarm
    rw [hval]
    exact hinv.keeps .ksUnchanged
  · -- The timeout becomes an earlier one.
    obtain rfl := hw
    have htmo : s.tState t = .waitingtmo := not_not.mp htmo
    have hcpu : s.tCpu t = true := by rw [h.cpu, htmo]; rfl
    have h1 := (h.leaveSleep htmo).setAbstime arg
    have hnew := h.goesOn htmo rfl
    have halarm := h.alarm htmo rfl
    obtain ⟨s1, sleep1, hval, -, hinv⟩ := h1.scheduletimeout hcpu hnew halarm
    have hval' : ktaskUpgradetimeout (Sched.setAbstime s t arg) t = some s1 := hval
    rw [hval']
    exact hinv.keeps .ksUnchanged
  · rw [hw, ← not_not.mp htmo]
    exact h.setState_self.keeps .ksUnchanged
  · -- A task that waits with a timeout waits without one.
    have hwait : newstate = .waiting := by
      revert hst hw
      rw [htmo]
      cases newstate <;> simp [TaskState.isWaiting]
    subst hwait
    rw [h.unscheduletimeout htmo]
    have h1 := ((h.leaveSleep htmo).setCpu false).setState .waiting
    refine Inv.keeps (h1.inv ?_ (update_self ..) (fun _ _ => ?_) fun _ => ?_) .ksUnchanged
    · simp [Sched.setState, TaskState.hasCpu]
    · exact h.goesOn htmo rfl
    · exact h.alarm htmo rfl
  · have hEq : newstate = s.tState t := by
      revert hst hw htmo
      cases newstate <;> cases s.tState t <;> simp [TaskState.isWaiting]
    rw [hEq]
    exact h.setState_self.keeps .ksUnchanged

/-- A task that is woken to terminate runs next. -/
theorem Others.runNext (h : Others t s ring sleep) (hcpu : s.tCpu t = true) (hnew : GoesOn s t) :
    ∃ ring', Inv (Sched.setState (scheduleNext s t) t .running) ring' sleep := by
  obtain ⟨ring', hperm, hL⟩ := h.lists.scheduleNext h.not_mem h.ne_zero
  exact ⟨ring', h.run hL hperm (sameTasks_scheduleNext _ _) hcpu hnew⟩

section

variable (h : Inv s ring sleep) (ht : t ∈ s.tasks)

include h ht

theorem Inv.unscheduleCritical : Keeps (unscheduleCritical env s t) := by
  have h1 : Inv (Sched.setNewstate s t .terminated) ring sleep := h.setNewstate (.inr rfl)
  have hnew : (Sched.setNewstate s t .terminated).tNewstate t = .terminated :=
    update_self ..
  have ht1 : t ∈ (Sched.setNewstate s t .terminated).tasks := ht
  unfold Sched.unscheduleCritical
  by_cases hterm : s.tNewstate t = .terminated
  · rw [if_pos hterm]
    exact h.keeps .keDestroyed
  generalize Sched.setNewstate s t .terminated = s1 at h1 hnew ht1
  dsimp only
  split_ifs with hnointr hcur hrun htmo href
  · exact (h1.setWasintr true).keeps .ksBlocking
  · exact h1.keeps .keIntr
  · -- The task is a sleeper and keeps its CPU.
    have hcpu : s1.tCpu t = true := by rw [h1.cpu, htmo]; rfl
    obtain ⟨ring', h2⟩ := (h1.leaveSleep htmo).runNext hcpu (.inr hnew)
    rw [h1.unscheduletimeout htmo, Option.bind_eq_bind, Option.bind_some,
      withTasks_unlocked (s := kcpuUnschedulesleep s1 t) h1.unlocked]
    exact (h2.setWasintr true).keeps .ksBlocking
  · exact h1.keeps .keOverflow
  · have hc : (s1.tState t).hasCpu = false := by
      revert hrun htmo
      cases s1.tState t <;> simp [TaskState.hasCpu]
    obtain ⟨ring', h2⟩ :=
      ((h1.others ht1 hc).setCpu true).runNext (update_self ..) (.inr hnew)
    rw [withTasks_unlocked (s := Sched.setCpu s1 t true) h1.unlocked]
    exact (h2.setWasintr true).keeps .ksBlocking
  · exact (h1.setWasintr true).keeps .ksBlocking

/-- A waiting task gives up its timeout, if it has one. -/
theorem Inv.leaveWaiting (hst : (s.tState t).isWaiting = true) :
    ∃ s1 sleep1, leaveWaiting s t = some s1 ∧ Others t s1 ring sleep1 ∧ s1.tCpu t = false := by
  unfold Sched.leaveWaiting
  by_cases htmo : s.tState t = .waitingtmo
  · rw [if_pos htmo, h.unscheduletimeout htmo]
    exact ⟨_, _, rfl, (h.leaveSleep htmo).setCpu false, update_self ..⟩
  have hw : s.tState t = .waiting := by
    revert hst htmo
    cases s.tState t <;> simp [TaskState.isWaiting]
  have hc : (s.tState t).hasCpu = false := by rw [hw]; rfl
  rw [if_neg htmo]
  exact ⟨s, sleep, rfl, h.others ht hc, by rw [h.cpu, hc]⟩

/-- A waiting task is suspended or terminated. -/
theorem Inv.unscheduleWaiting (hst : (s.tState t).isWaiting = true)
    (hns : newstate = .suspended ∨ newstate = .terminated) :
    Keeps (unscheduleWaiting s t newstate) := by
  obtain ⟨s1, sleep1, hval, h1, hcpu⟩ := h.leaveWaiting ht hst
  unfold Sched.unscheduleWaiting
  rw [hval]
  rcases hns with rfl | rfl
  · exact ((h1.setNewstate (s1.tState t)).stop hcpu (.inl rfl)).keeps .keOk
  · exact (h1.stop hcpu (.inr rfl)).keeps .keOk

theorem Inv.unscheduleNocpu (hst : s.tState t = .suspended) (hns : newstate ≠ .running)
    (arg : Nat) : Keeps (ktaskUnscheduleNocpu env s t newstate arg) := by
  have habs : Inv (deferAbstime s t newstate arg) ring sleep ∧
      (deferAbstime s t newstate arg).tState = s.tState := by
    unfold deferAbstime
    split_ifs
    · exact ⟨h.setAbstime (by simp [hst]) arg, rfl⟩
    · exact ⟨h, rfl⟩
  have hwait : Keeps (if env.nosigs then some (.keNomem, deferAbstime s t newstate arg)
      else some (.keOk, Sched.setNewstate (deferAbstime s t newstate arg) t newstate)) := by
    split_ifs
    · exact habs.1.keeps .keNomem
    · exact (habs.1.setNewstate (.inl (habs.2 ▸ hst))).keeps .keOk
  unfold ktaskUnscheduleNocpu
  by_cases hterm : s.tNewstate t = .terminated
  · rw [if_pos hterm]
    exact h.keeps .keDestroyed
  rw [if_neg hterm]
  cases newstate with
  | running => exact absurd rfl hns
  | suspended =>
    have h1 : Inv (Sched.setState s t .suspended) ring sleep := hst ▸ h.setState_self
    exact (h1.setNewstate (.inl (update_self ..))).keeps .keOk
  | waiting => exact hwait
  | waitingtmo => exact hwait
  | terminated =>
    have hc : (s.tState t).hasCpu = false := by rw [hst]; rfl
    exact ((h.others ht hc).stop ((h.cpu t).trans hc) (.inr rfl)).keeps .keOk

end

section

variable (h : Inv s ring sleep)

include h

/-- A task does not start to wait with a pending alarm. -/
theorem Inv.applyAlarm (hns : newstate ≠ .running) {arg : Nat} {next : Option (TaskState × Nat)}
    (hval : applyAlarm env s t newstate arg = (s', next)) :
    Inv s' ring sleep ∧ s'.tState = s.tState ∧ s'.tasks = s.tasks ∧
      ∀ p ∈ next, p.1 ≠ .running ∧ (p.1.isWaiting → s'.alarmed t = false) := by
  unfold Sched.applyAlarm at hval
  split_ifs at hval with hal
  · have h1 : Inv (Sched.setAlarmed s t false) ring sleep := h.setAlarmed fun _ => rfl
    have hal1 : (Sched.setAlarmed s t false).alarmed t = false := update_self ..
    cases newstate with
    | waiting =>
      dsimp only at hval
      split_ifs at hval <;> cases hval <;> exact ⟨h1, rfl, rfl, by simp [hal1]⟩
    | waitingtmo =>
      cases hval
      exact ⟨h1, rfl, rfl, by simp [hal1]⟩
    | running => exact absurd rfl hns
    | suspended | terminated =>
      cases hval
      exact ⟨h, rfl, rfl, by simp [TaskState.isWaiting]⟩
  · cases hval
    exact ⟨h, rfl, rfl, by simp [hns, hal]⟩

/-- A task that runs can leave the CPU for a state. -/
def LeaveSound (env : Env) (s : Cpu) (t : Nat) (newstate : TaskState) : Prop :=
  s.tState t = .running → ¬(newstate = .terminated ∧ s.critical t) → ¬Stays env s t newstate

instance (s : Cpu) (t : Nat) (newstate : TaskState) : Decidable (LeaveSound env s t newstate) :=
  inferInstanceAs (Decidable (_ → _))

theorem Inv.unscheduleState (ht : t ∈ s.tasks) (hns : newstate ≠ .running)
    (hnt : s.tState t ≠ .terminated) (halarm : newstate.isWaiting → s.alarmed t = false)
    (hs : LeaveSound env s t newstate) (arg : Nat) :
    Keeps (unscheduleState env s t newstate arg) := by
  unfold Sched.unscheduleState
  split_ifs with hagain hcrit hwait hcpu
  · exact h.unscheduleAgain ht hns hagain arg
  · exact h.unscheduleCritical ht
  · refine h.unscheduleWaiting ht hwait ?_
    revert hagain hns
    rw [hwait]
    cases newstate <;> simp [TaskState.isWaiting]
  · have hst : s.tState t = .running := by
      rw [h.cpu] at hcpu
      revert hcpu hwait
      cases s.tState t <;> simp [TaskState.isWaiting, TaskState.hasCpu]
    exact h.unscheduleRunning hst hns halarm (hs hst hcrit) arg
  refine h.unscheduleNocpu ht ?_ hns arg
  rw [h.cpu] at hcpu
  revert hcpu hwait hnt
  cases s.tState t <;> simp [TaskState.isWaiting, TaskState.hasCpu]

/-- A task that cannot leave keeps the CPU locked, if the call returns at all. -/
theorem Inv.unscheduleState_unsound (hns : newstate ≠ .running)
    (hs : ¬LeaveSound env s t newstate) {arg : Nat} {e : Errno}
    (hval : Sched.unscheduleState env s t newstate arg = some (e, s')) : s'.locked = true := by
  unfold LeaveSound at hs
  push Not at hs
  obtain ⟨hst, hcrit, hstays⟩ := hs
  have hcpu : s.tCpu t = true := by rw [h.cpu, hst]; rfl
  unfold Sched.unscheduleState at hval
  rw [if_neg (by simp [hst, TaskState.isWaiting, hns.symm]),
    if_neg fun hc => hcrit hc.1 hc.2, if_neg (by simp [hst, TaskState.isWaiting]),
    if_pos hcpu] at hval
  exact unscheduleRunning_stays hst hstays hval

/-- When `ktask_unschedule_ex` is sound: the task can leave for the state that it is given, or
that a pending alarm makes of it, or the time has passed. -/
def UnscheduleSound (env : Env) (s : Cpu) (t : Nat) (newstate : TaskState) (arg : Nat) : Prop :=
  newstate = .waitingtmo ∧ arg ≤ env.now ∨
    ∀ p ∈ (applyAlarm env s t newstate arg).2,
      LeaveSound env (applyAlarm env s t newstate arg).1 t p.1

instance (s : Cpu) (t : Nat) (newstate : TaskState) (arg : Nat) :
    Decidable (UnscheduleSound env s t newstate arg) :=
  inferInstanceAs (Decidable (_ ∨ _))

/-- **`ktask_unschedule_ex`** if it is sound, of any task into any state but the running one. -/
theorem Inv.unscheduleEx (ht : t ∈ s.tasks) (hns : newstate ≠ .running) {arg : Nat}
    (hs : UnscheduleSound env s t newstate arg) :
    Keeps (ktaskUnscheduleEx env s t newstate arg) := by
  unfold ktaskUnscheduleEx
  split_ifs with hterm htmo
  · exact h.keeps .keDestroyed
  · exact h.keeps .keTimedout
  have hleave := hs.resolve_left htmo
  rcases hval : Sched.applyAlarm env s t newstate arg with ⟨s1, _ | ⟨newstate', arg'⟩⟩
  · exact (h.applyAlarm hns hval).1.keeps .keTimedout
  obtain ⟨h1, hst1, htasks1, hnext⟩ := h.applyAlarm hns hval
  obtain ⟨hns', halarm⟩ := hnext _ rfl
  rw [hval] at hleave
  exact h1.unscheduleState (htasks1 ▸ ht) hns' (hst1 ▸ hterm) halarm (hleave _ rfl) arg'

/-- **`ktask_unschedule_ex` if it is not sound** keeps the CPU locked, if it returns at all. -/
theorem Inv.unscheduleEx_unsound (hns : newstate ≠ .running) {arg : Nat}
    (hs : ¬UnscheduleSound env s t newstate arg) {e : Errno}
    (hval : ktaskUnscheduleEx env s t newstate arg = some (e, s')) : s'.locked = true := by
  obtain ⟨htmo, hleave⟩ := not_or.mp hs
  rcases happly : Sched.applyAlarm env s t newstate arg with ⟨s1, next⟩
  obtain ⟨h1, hst1, -, hnext⟩ := h.applyAlarm hns happly
  rw [happly] at hleave
  push Not at hleave
  obtain ⟨⟨newstate', arg'⟩, hmem, hleave⟩ := hleave
  have hterm : s.tState t ≠ .terminated := by
    intro hterm
    refine hleave fun hrun => ?_
    rw [hst1, hterm] at hrun
    cases hrun
  unfold ktaskUnscheduleEx at hval
  rw [if_neg hterm, if_neg htmo, happly] at hval
  cases hmem
  exact h1.unscheduleState_unsound (hnext _ rfl).1 hleave hval

theorem Inv.unschedulecurrent (hst : s.tState t = .running) (hcur : t = s.cCurrent) :
    ∃ s1 ring1, ktaskUnschedulecurrent s t = some s1 ∧ Others t s1 ring1 sleep ∧
      s1.tCpu t = false := by
  have hcpu : s.tCpu t = true := by rw [h.cpu, hst]; rfl
  have hl := (h.leaveCurrent hst hcur).setCpu false
  refine ⟨_, _, ?_, hl, update_self ..⟩
  rw [ktaskUnschedulecurrent, if_pos hcpu]
  simp only [withTasks_unlocked h.unlocked, hcur, if_true, eq_comm]

/-- **`ktask_unschedule_aftercrit`** of the current task, whose deferred state is to run
or to terminate. -/
theorem Inv.unscheduleAftercrit (hst : s.tState t = .running) (hcur : t = s.cCurrent) :
    ∃ s', ktaskUnscheduleAftercrit env s t = some s' ∧ Good s' := by
  have h1 : Inv (Sched.setCritical s t false) ring sleep := h.setCritical false
  unfold ktaskUnscheduleAftercrit
  rcases h.goesOn hst rfl with hnew | hnew
  · have hnew1 : (Sched.setCritical s t false).tNewstate t = .running := hnew
    simp only [hnew1]
    exact ⟨_, rfl, ring, sleep, h1⟩
  have hnew1 : (Sched.setCritical s t false).tNewstate t = .terminated := hnew
  obtain ⟨s1, ring1, hval, h2, hcpu⟩ := h1.unschedulecurrent hst hcur
  simp only [hnew1, hval]
  exact ⟨_, rfl, ring1, sleep, h2.stop hcpu (.inr rfl)⟩

/-! ### Rescheduling -/

variable {hint : Hint}

omit h in
/-- A task without a CPU runs again; a switch to it needs a task to switch from. -/
theorem Others.doResched (h : Others t s ring sleep) (hst : s.tState t = .running)
    (hnew : GoesOn s t) (hcur : hint = .current → s.cCurrent ≠ 0) :
    Keeps (doResched env s t hint) := by
  have h1 := h.setCpu true
  unfold Sched.doResched
  rw [withTasks_unlocked h1.unlocked]
  have hrun : ∀ {s1 ring1}, Lists s1 ring1 sleep → ring1.Perm (t :: ring) →
      SameTasks (Sched.setCpu s t true) s1 → Keeps (some (.keOk, s1)) := by
    intro s1 ring1 hL hperm hsame
    have hinv := h1.run hL hperm hsame (update_self ..) hnew
    have hst1 : s1.tState t = .running := (congrFun hsame.tState t).trans hst
    rw [← hst1, Sched.setState, update_eq_self] at hinv
    exact hinv.keeps .keOk
  obtain ⟨ring', hperm, hnext⟩ := h1.lists.scheduleNext h1.not_mem h1.ne_zero
  cases hint with
  | current =>
    have hcur0 : (Sched.setCpu s t true).cCurrent ≠ 0 := hcur rfl
    simp only [if_neg hcur0]
    split_ifs
    · exact hrun hnext hperm (sameTasks_scheduleNext _ _)
    · exact hrun (h1.lists.scheduleCurrent h1.not_mem h1.ne_zero) (.refl _)
        (sameTasks_scheduleCurrent _ _)
  | next => exact hrun hnext hperm (sameTasks_scheduleNext _ _)
  | last =>
    exact hrun (h1.lists.scheduleLast h1.not_mem h1.ne_zero) (perm_append_singleton t ring)
      (sameTasks_scheduleLast _ _)

/-- The calls that set a task running, and so may switch to it. -/
def Resumes (s : Cpu) (t : Nat) (undo : Bool) : Prop :=
  (s.tState t).isWaiting ∨
    s.tState t = .suspended ∧ undo ∧
      (s.tNewstate t = .running ∨ s.tNewstate t = .terminated ∧ s.critical t)

instance (s : Cpu) (t : Nat) (undo : Bool) : Decidable (Resumes s t undo) :=
  inferInstanceAs (Decidable (_ ∨ _))

/-- When `ktask_reschedule_ex` is sound: it does not resume a task into a timeout, or into
waiting with an alarm, and it switches to a task only if there is a task to switch from. -/
def RescheduleSound (env : Env) (s : Cpu) (t : Nat) (hint : Hint) (undo : Bool) : Prop :=
  env.noref ∨
    ¬(s.tState t = .suspended ∧ undo ∧
        (s.tNewstate t = .waitingtmo ∨ s.tNewstate t = .waiting ∧ s.alarmed t)) ∧
      ¬(hint = .current ∧ s.cCurrent = 0 ∧ Resumes s t undo)

instance (s : Cpu) (t : Nat) (hint : Hint) (undo : Bool) :
    Decidable (RescheduleSound env s t hint undo) :=
  inferInstanceAs (Decidable (_ ∨ _))

theorem Inv.undoSuspend (ht : t ∈ s.tasks) (hst : s.tState t = .suspended)
    (hns : s.tNewstate t ≠ .suspended) (hnw : s.tNewstate t ≠ .waitingtmo)
    (hal : s.tNewstate t = .waiting → s.alarmed t = false)
    (hcur : s.tNewstate t = .running ∨ s.tNewstate t = .terminated ∧ s.critical t →
      hint = .current → s.cCurrent ≠ 0) :
    Keeps (undoSuspend env s t hint) := by
  have hc : (s.tState t).hasCpu = false := by rw [hst]; rfl
  have hcpu : s.tCpu t = false := by rw [h.cpu, hc]
  have h1 := h.others ht hc
  unfold Sched.undoSuspend
  by_cases hrun : s.tNewstate t = .running ∨ s.tNewstate t = .terminated ∧ s.critical t
  · rw [if_pos hrun]
    refine (h1.setState .running).doResched (update_self ..) ?_ (hcur hrun)
    exact hrun.imp_right And.left
  rw [if_neg hrun]
  -- Otherwise the task takes on the state that was deferred.
  have h2 := (h1.setState (s.tNewstate t)).setNewstate .running
  have hst2 : (Sched.setNewstate (Sched.setState s t (s.tNewstate t)) t .running).tState t =
      s.tNewstate t := update_self ..
  cases hnew : s.tNewstate t with
  | running => exact absurd (.inl hnew) hrun
  | suspended => exact absurd hnew hns
  | waitingtmo => exact absurd hnew hnw
  | waiting =>
    rw [hnew] at h2 hst2
    refine Inv.keeps (h2.inv (by rw [hst2]; rfl) hcpu (fun _ _ => ?_) fun _ => hal hnew) .keOk
    exact .inl (update_self ..)
  | terminated =>
    rw [hnew] at h2 hst2
    have hinv := h2.inv (by rw [hst2]; rfl) hcpu (fun _ hnt => absurd hst2 hnt)
      (by simp [hst2, TaskState.isWaiting])
    exact (hinv.setNewstate (t := t) (.inr rfl)).keeps .keDestroyed

omit h in
theorem doResched_of_current_zero (h0 : s.cCurrent = 0) : doResched env s t .current = none := by
  simp [doResched, withTasks, Sched.setCpu, h0]

/-- **`ktask_reschedule_ex`** if it is sound. -/
theorem Inv.rescheduleEx (ht : t ∈ s.tasks) {undo : Bool} (hs : RescheduleSound env s t hint undo) :
    Keeps (ktaskRescheduleEx env s t hint undo) := by
  unfold ktaskRescheduleEx
  by_cases href : env.noref = true
  · rw [if_pos href]
    exact h.keeps .keOverflow
  rw [if_neg href]
  obtain ⟨htmo, hsw⟩ := hs.resolve_left href
  have hcur : Resumes s t undo → hint = .current → s.cCurrent ≠ 0 :=
    fun hr hc h0 => hsw ⟨hc, h0, hr⟩
  cases hst : s.tState t with
  | terminated => exact h.keeps .keDestroyed
  | running => exact h.keeps .ksUnchanged
  | waiting =>
    have h1 := (h.others ht (by rw [hst]; rfl)).setState .running
    have hnew := h.goesOn hst rfl
    exact h1.doResched (update_self ..) hnew (hcur (.inl (by rw [hst]; rfl)))
  | waitingtmo =>
    have h1 := (h.leaveSleep hst).setState .running
    have hnew := h.goesOn hst rfl
    simp only [h.unscheduletimeout hst, Option.bind_eq_bind, Option.bind_some]
    exact h1.doResched (update_self ..) hnew (hcur (.inl (by rw [hst]; rfl)))
  | suspended =>
    by_cases hund : undo = true ∧ s.tNewstate t ≠ .suspended
    · simp only [if_pos hund]
      have hnew : s.tNewstate t ≠ .waitingtmo := fun hnew => htmo ⟨hst, hund.1, .inl hnew⟩
      have hal : s.tNewstate t = .waiting → s.alarmed t = false := fun hnew =>
        Bool.eq_false_iff.mpr fun hal => htmo ⟨hst, hund.1, .inr ⟨hnew, hal⟩⟩
      exact h.undoSuspend ht hst hund.2 hnew hal fun hr => hcur (.inr ⟨hst, hund.1, hr⟩)
    · simp only [if_neg hund]
      exact (h.setNewstate (.inl hst)).keeps .ksBlocking

variable {e : Errno}

/-- A task that is resumed into a timeout: without a CPU it cannot be a sleeper, and it is
left waiting, in no list, if the time has passed. -/
theorem Inv.undoSuspend_timeout (hst : s.tState t = .suspended)
    (hnew : s.tNewstate t = .waitingtmo) (hval : Sched.undoSuspend env s t hint = some (e, s')) :
    s'.tCpu t = false ∧ s'.tState t = .waitingtmo := by
  have hcpu : s.tCpu t = false := by rw [h.cpu, hst]; rfl
  have hrun : ¬(s.tNewstate t = .running ∨ s.tNewstate t = .terminated ∧ s.critical t) := by
    simp [hnew]
  unfold Sched.undoSuspend at hval
  rw [if_neg hrun] at hval
  simp only [hnew] at hval
  split_ifs at hval with htime
  · obtain ⟨-, rfl⟩ : Errno.keOk = e ∧ _ = s' := by simpa using hval
    exact ⟨hcpu, update_self ..⟩
  · simp [ktaskScheduletimeout, Sched.setNewstate, Sched.setState, hcpu] at hval

/-- **`ktask_reschedule_ex` if it is not sound**: where it returns, it has left a task
without a CPU in a state that needs one, or waiting for good with an alarm. -/
theorem Inv.rescheduleEx_unsound {undo : Bool} (hs : ¬RescheduleSound env s t hint undo)
    (hval : ktaskRescheduleEx env s t hint undo = some (e, s')) :
    s'.tCpu t = false ∧ s'.tState t = .waitingtmo ∨
      s'.tState t = .waiting ∧ s'.alarmed t = true := by
  unfold ktaskRescheduleEx at hval
  have href : ¬env.noref = true := fun href => hs (.inl href)
  rw [if_neg href] at hval
  by_cases htmo : s.tState t = .suspended ∧ undo = true ∧
      (s.tNewstate t = .waitingtmo ∨ s.tNewstate t = .waiting ∧ s.alarmed t = true)
  · obtain ⟨hst, hund, hnew | ⟨hnew, hal⟩⟩ := htmo
    · simp only [hst, hund, hnew, ne_eq, reduceCtorEq, not_false_eq_true, and_self, if_true] at hval
      exact .inl (h.undoSuspend_timeout hst hnew hval)
    · simp only [hst, hund, hnew, ne_eq, reduceCtorEq, not_false_eq_true, and_self, if_true,
        Sched.undoSuspend, false_and, or_self, if_false] at hval
      obtain ⟨-, rfl⟩ : Errno.keOk = e ∧ _ = s' := by simpa using hval
      exact .inr ⟨update_self .., hal⟩
  -- There is no task to switch from: the call does not return.
  have hsw : hint = .current ∧ s.cCurrent = 0 ∧ Resumes s t undo :=
    not_not.mp fun hsw => hs (.inr ⟨htmo, hsw⟩)
  obtain ⟨rfl, h0, hres⟩ := hsw
  rcases hres with hw | ⟨hst, hundo, hnew⟩
  · cases hst : s.tState t with
    | waiting =>
      simp only [hst] at hval
      rw [doResched_of_current_zero (s := Sched.setState s t .running) h0] at hval
      simp at hval
    | waitingtmo =>
      simp only [hst, h.unscheduletimeout hst, Option.bind_eq_bind, Option.bind_some] at hval
      rw [doResched_of_current_zero
        (s := Sched.setState (kcpuUnschedulesleep s t) t .running) h0] at hval
      simp at hval
    | running | suspended | terminated => simp [hst, TaskState.isWaiting] at hw
  · have hns : s.tNewstate t ≠ .suspended := by
      rcases hnew with hnew | ⟨hnew, -⟩ <;> simp [hnew]
    simp only [hst, hundo, hns, ne_eq, not_false_eq_true, and_self, if_true] at hval
    rw [Sched.undoSuspend, if_pos hnew,
      doResched_of_current_zero (s := Sched.setState s t .running) h0] at hval
    simp at hval

/-! ### Alarms -/

/-- When `ktask_setalarm_k` is sound: it does not take the timeout of a waiting task. -/
def SetalarmSound (s : Cpu) (t : Nat) (abstime : Option Nat) : Prop :=
  ¬(s.tState t = .waitingtmo ∧ abstime = none)

instance (s : Cpu) (t : Nat) (abstime : Option Nat) : Decidable (SetalarmSound s t abstime) :=
  inferInstanceAs (Decidable (¬_))

omit h in
/-- A sleeper that is linked in is in the state that it was given before. -/
theorem Others.wait_of_state (h : Others t s ring sleep) (hcpu : s.tCpu t = true)
    (hnew : GoesOn s t) (hst : s.tState t = .waitingtmo) (halarm : s.alarmed t = false) :
    ∃ s' sleep', ktaskScheduletimeout s t = some s' ∧ Inv s' ring sleep' := by
  obtain ⟨s', sleep', hval, hsame, hinv⟩ := h.scheduletimeout hcpu hnew halarm
  have hst1 : s'.tState t = .waitingtmo := (congrFun hsame.tState t).trans hst
  rw [← hst1, Sched.setState, update_eq_self] at hinv
  exact ⟨s', sleep', hval, hinv⟩

/-- **`ktask_setalarm_k`** if it is sound. -/
theorem Inv.setalarm (ht : t ∈ s.tasks) {abstime : Option Nat} (hs : SetalarmSound s t abstime) :
    ∃ e old s', ktaskSetalarm s t abstime = some (e, old, s') ∧ Good s' := by
  unfold ktaskSetalarm
  cases hst : s.tState t with
  | terminated => exact ⟨_, _, _, rfl, ring, sleep, h⟩
  | waiting =>
    cases abstime with
    | none => exact ⟨_, _, _, rfl, ring, sleep, h⟩
    | some time =>
      have h1 := (((h.others ht (by rw [hst]; rfl)).setCpu true).setAbstime time).setState
        .waitingtmo
      have hcpu1 : (Sched.setState (Sched.setAbstime (Sched.setCpu s t true) t time) t
          .waitingtmo).tCpu t = true := update_self ..
      have hnew := h.goesOn hst rfl
      have halarm := h.alarm hst rfl
      obtain ⟨s1, sleep1, hval, hinv⟩ := h1.wait_of_state hcpu1 hnew (update_self ..) halarm
      exact ⟨_, _, s1, by simp only [hval]; rfl, ring, sleep1, hinv⟩
  | waitingtmo =>
    have hcpu : s.tCpu t = true := by rw [h.cpu, hst]; rfl
    cases abstime with
    | none => exact absurd ⟨hst, rfl⟩ hs
    | some time =>
      have h1 := (h.leaveSleep hst).setAbstime time
      have hnew := h.goesOn hst rfl
      have halarm := h.alarm hst rfl
      obtain ⟨s1, sleep1, hval, hinv⟩ := h1.wait_of_state hcpu hnew hst halarm
      refine ⟨.ksUnchanged, some (s.tAbstime t), s1, ?_, ring, sleep1, hinv⟩
      simp only [h.unscheduletimeout hst, Option.bind_eq_bind, Option.bind_some, hval]
      rfl
  | running | suspended =>
    have hnw : s.tState t ≠ .waitingtmo := by simp [hst]
    have hw : ¬(s.tState t).isWaiting = true := by simp [hst, TaskState.isWaiting]
    split_ifs with hal
    · cases abstime with
      | none => exact ⟨_, _, _, rfl, ring, sleep, h.setAlarmed fun _ => rfl⟩
      | some time => exact ⟨_, _, _, rfl, ring, sleep, h.setAbstime hnw time⟩
    cases abstime with
    | none => exact ⟨_, _, _, rfl, ring, sleep, h⟩
    | some time =>
      exact ⟨_, _, _, rfl, ring, sleep,
        (h.setAlarmed fun hwait => absurd hwait hw).setAbstime hnw time⟩

/-- **`ktask_setalarm_k` if it is not sound** leaves a task with a CPU that waits without
a timeout. -/
theorem Inv.setalarm_unsound {abstime : Option Nat} (hs : ¬SetalarmSound s t abstime)
    {old : Option Nat} (hval : ktaskSetalarm s t abstime = some (e, old, s')) :
    s'.tCpu t = true ∧ s'.tState t = .waiting := by
  obtain ⟨hst, rfl⟩ := not_not.mp hs
  have hcpu : s.tCpu t = true := by rw [h.cpu, hst]; rfl
  simp only [ktaskSetalarm, hst, h.unscheduletimeout hst, Option.bind_eq_bind,
    Option.bind_some] at hval
  obtain ⟨-, -, rfl⟩ : _ ∧ _ ∧ _ = s' := by simpa using hval
  exact ⟨hcpu, update_self ..⟩

/-! ### Ticks -/

/-- **`kcpu_ticktime_unlocked2`** sets the sleepers running whose time has passed. -/
theorem Inv.ticktime (now : Nat) :
    ∃ s', kcpuTicktime s now = some s' ∧ Good s' ∧
      ∀ u, s'.tState u =
        if s.tState u = .waitingtmo ∧ s.tAbstime u ≤ now then .running else s.tState u := by
  obtain ⟨s', woken, rest, hval, rfl, hL, hw, hdue, hrest⟩ := h.lists.tickTrylock (fun _ => true)
    now (Nat.lt_succ_of_le (h.lists.sleep_length_le h.subset))
  have hwait : ∀ u ∈ woken, s.tState u = .waitingtmo :=
    fun u hu => (h.mem_sleep u).mp (mem_append_left _ hu)
  refine ⟨s', (tickLoop_eq ..).trans hval, ⟨ring ++ woken, rest, hL, hw.tasks ▸ h.zero, ?_,
    fun u => ?_, hw.locked.trans h.unlocked⟩, fun u => ?_⟩
  · simpa [hw.tasks] using h.subset
  all_goals by_cases hu : u ∈ woken
  · have hnot : u ∉ rest := fun hm => (nodup_append.mp h.lists.nodup_sleep).2.2 u hu u hm rfl
    have hst := hwait u hu
    rw [Agrees, GoesOn, hw.tState, if_pos hu, hw.tCpu, h.cpu, hst, hw.tNewstate]
    refine ⟨by simp [hu], by simp [hnot], rfl, fun _ _ => ?_, by simp [TaskState.isWaiting]⟩
    exact h.goesOn hst rfl
  · rw [Agrees, GoesOn, hw.tState, if_neg hu, hw.tCpu, hw.tNewstate, hw.alarmed]
    simpa [Agrees, hu] using h.agrees u
  · simp [hw.tState, hu, hwait u hu, hdue u hu]
  · rw [hw.tState, if_neg hu, if_neg]
    rintro ⟨hst, hle⟩
    have hm : u ∈ rest := (mem_append.mp ((h.mem_sleep u).mpr hst)).resolve_left hu
    exact Nat.not_le.mpr (hrest (fun _ => rfl) u hm) hle

end

end KosKernel.Sched
