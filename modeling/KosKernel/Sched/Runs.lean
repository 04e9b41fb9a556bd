import KosKernel.Sched.Calls

/-!
# KosKernel.Sched.Runs

**Runs of the scheduler** of one CPU: any calls, by any task, for any task, in any
order, with timer ticks and task switches in between. A switch to another task of
the ring may pick any of them; which one it is depends on priorities, and nothing
here does.

In every run all of whose calls are sound, the states of the tasks and the lists of
the CPU agree, and a tick leaves no task asleep whose time has passed. A call that is
not sound breaks this: `ktask_setalarm_k` without a timeout for a task that waits with
one keeps `t_cpu`; `ktask_reschedule_ex` of a suspended task that waited with a timeout
sets the state only, and the alarm of one that waited without is forgotten;
`ktask_unschedule_ex` of a current task that was interrupted, or that cannot be put to
sleep, does not release `KCPU_LOCK_TASKS`.
-/

namespace KosKernel.Sched

open Function LinkedList List

/-! ### Runs -/

inductive Action where
  | unschedule (env : Env) (t : Nat) (newstate : TaskState) (arg : Nat)
  /-- The current task returns from a call that has switched it out. -/
  | unscheduleReturn (newstate : TaskState)
  | unscheduleAftercrit (env : Env)
  | reschedule (env : Env) (t : Nat) (hint : Hint) (undo : Bool)
  | setalarm (t : Nat) (abstime : Option Nat)
  | tick (now : Nat)
  /-- `kcpu_rotate_unlocked` -/
  | rotate (t : Nat)
  /-- The current task enters a critical block. -/
  | critBegin
  | setNointr (b : Bool)

def exec (s : Cpu) : Action → Option Cpu
  | .unschedule env t newstate arg => (ktaskUnscheduleEx env s t newstate arg).map Prod.snd
  | .unscheduleReturn newstate => some (unscheduleReturn s s.cCurrent newstate).2
  | .unscheduleAftercrit env => ktaskUnscheduleAftercrit env s s.cCurrent
  | .reschedule env t hint undo => (ktaskRescheduleEx env s t hint undo).map Prod.snd
  | .setalarm t abstime => (ktaskSetalarm s t abstime).map fun r => r.2.2
  -- The timer does nothing if `KCPU_LOCK_TASKS` cannot be had.
  | .tick now => if s.locked then some s else kcpuTicktime s now
  | .rotate t => if s.locked then some s else some { s with cCurrent := t }
  | .critBegin => some (setCritical s s.cCurrent true)
  | .setNointr b => some (setNointr s s.cCurrent b)

/-- What the calls are made for: tasks that exist, and the current task where it is the
caller. A task is not unscheduled into the running state. -/
def Allowed (s : Cpu) : Action → Prop
  | .unschedule _ t newstate _ => t ∈ s.tasks ∧ newstate ≠ .running
  | .unscheduleAftercrit _ => s.cCurrent ≠ 0 ∧ s.critical s.cCurrent
  | .reschedule _ t _ _ => t ∈ s.tasks
  | .setalarm t _ => t ∈ s.tasks
  | .tick _ => True
  | .rotate t => t ∈ ringTasks s
  | .unscheduleReturn _ | .critBegin | .setNointr _ => s.cCurrent ≠ 0

instance (s : Cpu) (a : Action) : Decidable (Allowed s a) := by
  cases a <;> unfold Allowed <;> infer_instance

/-- The calls that do what they are for. -/
def Sound (s : Cpu) : Action → Prop
  | .unschedule env t newstate arg => UnscheduleSound env s t newstate arg
  | .reschedule env t hint undo => RescheduleSound env s t hint undo
  | .setalarm t abstime => SetalarmSound s t abstime
  | _ => True

instance (s : Cpu) (a : Action) : Decidable (Sound s a) := by
  cases a <;> unfold Sound <;> infer_instance

/-- One task is running, all others have not been started; `mem` is whatever their other
fields hold. -/
def boot (mem : Cpu) (tasks : List Nat) (main : Nat) : Cpu :=
  { mem with
    tasks := tasks
    cCurrent := main
    cSleeping := 0
    tState := fun t => if t = main then .running else .suspended
    tNewstate := fun _ => .running
    tCpu := fun t => t = main
    tPrev := update mem.tPrev main main
    tNext := update mem.tNext main main
    locked := false }

/-- The states that sound calls lead to. -/
inductive Run : Cpu → Prop
  | boot (mem : Cpu) (tasks : List Nat) (main : Nat) :
      0 ∉ tasks → main ∈ tasks → Run (boot mem tasks main)
  | step {s s' : Cpu} (a : Action) :
      Run s → Allowed s a → Sound s a → exec s a = some s' → Run s'

/-- A call, if it is allowed and sound. -/
def execSound (s : Cpu) (a : Action) : Option Cpu :=
  if Allowed s a ∧ Sound s a then exec s a else none

theorem Run.foldlM {s s' : Cpu} (h : Run s) {as : List Action}
    (hval : as.foldlM execSound s = some s') : Run s' := by
  induction as generalizing s with
  | nil =>
    obtain rfl : s = s' := by simpa using hval
    exact h
  | cons a as ih =>
    obtain ⟨s1, hs1, hrest⟩ : ∃ s1, execSound s a = some s1 ∧ as.foldlM execSound s1 = some s' := by
      simpa [Option.bind_eq_some_iff] using hval
    unfold execSound at hs1
    split at hs1
    · rename_i hok
      exact ih (h.step a hok.1 hok.2 hs1) hrest
    · simp at hs1

/-! ### What agrees -/

/-- The states of the tasks, their CPUs and the lists of the CPU agree, and the CPU is not
locked. -/
structure Consistent (s : Cpu) : Prop where
  cpu : ∀ t, s.tCpu t = true ↔ s.tState t = .running ∨ s.tState t = .waitingtmo
  ring : ∀ t, (ringTasks s).count t = if s.tState t = .running then 1 else 0
  sleep : ∀ t, (sleepTasks s).count t = if s.tState t = .waitingtmo then 1 else 0
  /-- A task in no list is suspended, is terminated, or waits for good, without an alarm. -/
  listed : ∀ t, s.tState t ≠ .suspended → s.tState t ≠ .terminated →
    (s.tState t = .waiting → s.alarmed t = true) → t ∈ ringTasks s ∨ t ∈ sleepTasks s
  unlocked : s.locked = false

section Steps

variable {s s' : Cpu} {ring sleep : List Nat} {t : Nat}

theorem Good.consistent (h : Good s) : Consistent s := by
  obtain ⟨ring, sleep, h⟩ := h
  refine ⟨fun t => ?_, fun t => ?_, fun t => ?_, fun t => ?_, h.unlocked⟩
  · rw [h.cpu]
    cases s.tState t <;> simp [TaskState.hasCpu]
  · rw [h.lists.ringTasks_eq h.subset, h.lists.nodup_ring.count]
    simp only [h.mem_ring]
  · rw [h.lists.sleepTasks_eq h.subset, h.lists.nodup_sleep.count]
    simp only [h.mem_sleep]
  · rw [h.lists.ringTasks_eq h.subset, h.lists.sleepTasks_eq h.subset, h.mem_ring, h.mem_sleep]
    have halarm := (h.agrees t).2.2.2.2
    revert halarm
    cases s.tState t <;> simp +contextual [TaskState.isWaiting]

theorem Consistent.hasCpu (h : Consistent s) (t : Nat) : s.tCpu t = (s.tState t).hasCpu := by
  have hcpu := h.cpu t
  revert hcpu
  cases s.tState t <;> simp [TaskState.hasCpu]

theorem Good.boot {mem : Cpu} {tasks : List Nat} {main : Nat} (h0 : 0 ∉ tasks)
    (hm : main ∈ tasks) : Good (boot mem tasks main) := by
  refine ⟨[main], [], ⟨⟨rfl, ne_of_mem_of_not_mem hm h0, ?_, ?_⟩, rfl, rfl, ?_, ?_⟩, h0, ?_,
    fun u => ?_, rfl⟩
  · exact update_self ..
  · exact update_self ..
  · simp
  · simp
  · intro u hu
    obtain rfl : u = main := by simpa using hu
    exact hm
  · by_cases hu : u = main <;>
      simp [Agrees, GoesOn, Sched.boot, hu, TaskState.hasCpu, TaskState.isWaiting]

theorem Inv.rotate (h : Inv s ring sleep) (ht : t ∈ ring) : Good { s with cCurrent := t } := by
  obtain ⟨pre, post, rfl⟩ := append_of_mem ht
  have hperm : (t :: post ++ pre).Perm (pre ++ t :: post) := perm_append_comm
  have hnd : (t :: post ++ pre ++ sleep).Nodup :=
    (hperm.append_right sleep).nodup_iff.mpr h.lists.nodup
  refine ⟨t :: post ++ pre, sleep,
    ⟨h.lists.ring_list.rotate, rfl, h.lists.sleep_list, hnd, h.lists.sorted⟩, h.zero, ?_,
    fun u => ?_, h.unlocked⟩
  · exact fun u hu => h.subset u ((hperm.append_right sleep).mem_iff.mp hu)
  · rw [Agrees, hperm.mem_iff]
    exact h.agrees u

theorem Inv.current_running (h : Inv s ring sleep) (h0 : s.cCurrent ≠ 0) :
    s.tState s.cCurrent = .running := by
  rw [← h.mem_ring, h.lists.current]
  cases ring with
  | nil => exact absurd h.lists.current h0
  | cons x rest => simp

theorem Inv.unscheduleReturn (h : Inv s ring sleep) (newstate : TaskState) :
    Good (unscheduleReturn s t newstate).2 := by
  unfold Sched.unscheduleReturn
  split_ifs
  · exact ⟨ring, sleep, h.setWasintr false⟩
  · exact ⟨ring, sleep, h.setTimedout false⟩
  · exact ⟨ring, sleep, h⟩

theorem Keeps.map_snd {r : Option (Errno × Cpu)} (h : Keeps r) :
    ∃ s', r.map Prod.snd = some s' ∧ Good s' := by
  obtain ⟨e, s', rfl, hgood⟩ := h
  exact ⟨s', rfl, hgood⟩

/-- **A sound call** returns and keeps the states and the lists in agreement. -/
theorem Good.exec (h : Good s) {a : Action} (ha : Allowed s a) (hs : Sound s a) :
    ∃ s', exec s a = some s' ∧ Good s' := by
  obtain ⟨ring, sleep, h⟩ := h
  cases a with
  | unschedule env t newstate arg => exact (h.unscheduleEx ha.1 ha.2 hs).map_snd
  | unscheduleReturn newstate => exact ⟨_, rfl, h.unscheduleReturn newstate⟩
  | unscheduleAftercrit env => exact h.unscheduleAftercrit (h.current_running ha.1) rfl
  | reschedule env t hint undo => exact (h.rescheduleEx ha hs).map_snd
  | setalarm t abstime =>
    obtain ⟨e, old, s', hval, hgood⟩ := h.setalarm ha hs
    exact ⟨s', by simp [Sched.exec, hval], hgood⟩
  | tick now =>
    obtain ⟨s', hval, hgood, -⟩ := h.ticktime now
    exact ⟨s', by simp [Sched.exec, h.unlocked, hval], hgood⟩
  | rotate t =>
    have ht : t ∈ ring := h.lists.ringTasks_eq h.subset ▸ ha
    exact ⟨_, by rw [Sched.exec, h.unlocked]; rfl, h.rotate ht⟩
  | critBegin => exact ⟨_, rfl, ring, sleep, h.setCritical true⟩
  | setNointr b => exact ⟨_, rfl, ring, sleep, h.setNointr b⟩

/-- **A call that is not sound** leaves a state and a CPU that contradict each other, a lost
alarm or a locked CPU, if it returns at all. -/
theorem Good.exec_unsound (h : Good s) {a : Action} (ha : Allowed s a) (hs : ¬Sound s a)
    (hval : Sched.exec s a = some s') : ¬Consistent s' := by
  obtain ⟨ring, sleep, h⟩ := h
  intro hc
  cases a with
  | unschedule env t newstate arg =>
    obtain ⟨⟨e, s1⟩, hcall, rfl⟩ := Option.map_eq_some_iff.mp hval
    have hlock := h.unscheduleEx_unsound ha.2 hs hcall
    rw [hc.unlocked] at hlock
    cases hlock
  | reschedule env t hint undo =>
    obtain ⟨⟨e, s1⟩, hcall, rfl⟩ := Option.map_eq_some_iff.mp hval
    obtain ⟨hcpu, hst⟩ | ⟨hst, hal⟩ := h.rescheduleEx_unsound hs hcall
    · have hhas := hc.hasCpu t
      rw [hcpu, hst] at hhas
      simp [TaskState.hasCpu] at hhas
    -- The task waits in no list, but its alarm is to come.
    have hlisted := hc.listed t (by simp [hst]) (by simp [hst]) fun _ => hal
    rw [← count_pos_iff, ← count_pos_iff, hc.ring, hc.sleep, hst] at hlisted
    simp at hlisted
  | setalarm t abstime =>
    obtain ⟨⟨e, old, s1⟩, hcall, rfl⟩ := Option.map_eq_some_iff.mp hval
    obtain ⟨hcpu, hst⟩ := h.setalarm_unsound hs hcall
    have hhas := hc.hasCpu t
    rw [hcpu, hst] at hhas
    simp [TaskState.hasCpu] at hhas
  | unscheduleReturn | unscheduleAftercrit | tick | rotate | critBegin | setNointr =>
    exact hs trivial

end Steps

theorem Run.good {s : Cpu} (h : Run s) : Good s := by
  induction h with
  | boot mem tasks main h0 hm => exact Good.boot h0 hm
  | step a _ ha hs hval ih =>
    obtain ⟨s1, hval1, hgood⟩ := ih.exec ha hs
    rw [hval1] at hval
    obtain rfl := Option.some.inj hval
    exact hgood

/-- Three tasks, of which the first one is running. -/
def threeTasks : Cpu :=
  boot ⟨[], 0, 0, fun _ => .suspended, fun _ => .running, fun _ => false, fun _ => 0, fun _ => 0,
    fun _ => 0, fun _ => false, fun _ => false, fun _ => false, fun _ => false, fun _ => false,
    false⟩ [1, 2, 3] 1

theorem threeTasks_run : Run threeTasks := .boot _ [1, 2, 3] 1 (by decide) (by decide)

/-- Nothing fails. -/
def calmAt (now : Nat) : Env := ⟨now, false, false, false⟩

/-- The second and the third task are started, and then `calls` are made. -/
def execStarted (calls : List Action) : Option Cpu :=
  (.reschedule (calmAt 0) 2 .last true :: .reschedule (calmAt 0) 3 .next true :: calls).foldlM
    execSound threeTasks

end KosKernel.Sched
