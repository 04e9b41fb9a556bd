import KosKernel.Lib.Ring

/-!
# KosKernel.Sched.Task

The **scheduler of one CPU** (`src/kernel/sched/task.c`,
`src/kernel/sched/task-timetick.c.inl`, `include/kos/kernel/task.h`).

The running tasks of the CPU are a ring, which `c_current` points into; the tasks
that wait with a timeout are a list sorted by timeout, from `c_sleeping` on. Both
are linked through `t_prev` and `t_next`. With one CPU, `t_cpu` is either that CPU
or `NULL`, and `ktask_self()` is the current task. Times are numbers.

Every call that the source makes with interrupts disabled is one definition; `none`
is an access through a CPU pointer or a task pointer that is `NULL`, or a call that does
not return: a loop over the sleepers that does not end, or a second `kcpu_lock`.
Assertions are compiled out. `Env` is what a call finds around it: the time, and whether a
reference or a signal slot can be had. Reference counters, exit codes and the signals
themselves are left out, and so are the locks that every call that takes them releases
again. That is not so for `KCPU_LOCK_TASKS`.
-/

namespace KosKernel.Sched

open Function LinkedList

inductive TaskState where
  | running | suspended | terminated | waiting | waitingtmo
  deriving DecidableEq, Repr

/-- `KTASK_STATE_ISWAITING` -/
def TaskState.isWaiting : TaskState → Bool
  | .waiting | .waitingtmo => true
  | _ => false

/-- `KTASK_STATE_HASCPU` -/
def TaskState.hasCpu : TaskState → Bool
  | .running | .waitingtmo => true
  | _ => false

inductive Errno where
  | keOk | ksUnchanged | ksBlocking
  | keDestroyed | keTimedout | keIntr | keOverflow | keNomem
  deriving DecidableEq, Repr

/-- `KTASK_RESCHEDULE_HINT_*` -/
inductive Hint where
  | current | next | last
  deriving DecidableEq, Repr

/-- One CPU and its tasks. -/
structure Cpu where
  /-- The tasks that exist. -/
  tasks : List Nat
  cCurrent : Nat
  cSleeping : Nat
  tState : Nat → TaskState
  tNewstate : Nat → TaskState
  /-- Whether `t_cpu` is set. -/
  tCpu : Nat → Bool
  tPrev : Nat → Nat
  tNext : Nat → Nat
  tAbstime : Nat → Nat
  alarmed : Nat → Bool
  timedout : Nat → Bool
  wasintr : Nat → Bool
  nointr : Nat → Bool
  critical : Nat → Bool
  /-- `KCPU_LOCK_TASKS` of `c_locks` -/
  locked : Bool

/-- What a call finds around it. -/
structure Env where
  now : Nat
  /-- `ktask_incref` of the task fails. -/
  noref : Bool
  /-- `ktask_incref` of the caller fails. -/
  norefCaller : Bool
  /-- The signals cannot be received. -/
  nosigs : Bool

/-! ### Field updates -/

def setState (s : Cpu) (t : Nat) (st : TaskState) : Cpu :=
  { s with tState := update s.tState t st }

def setNewstate (s : Cpu) (t : Nat) (st : TaskState) : Cpu :=
  { s with tNewstate := update s.tNewstate t st }

def setCpu (s : Cpu) (t : Nat) (b : Bool) : Cpu :=
  { s with tCpu := update s.tCpu t b }

def setAbstime (s : Cpu) (t : Nat) (time : Nat) : Cpu :=
  { s with tAbstime := update s.tAbstime t time }

def setAlarmed (s : Cpu) (t : Nat) (b : Bool) : Cpu :=
  { s with alarmed := update s.alarmed t b }

def setTimedout (s : Cpu) (t : Nat) (b : Bool) : Cpu :=
  { s with timedout := update s.timedout t b }

def setWasintr (s : Cpu) (t : Nat) (b : Bool) : Cpu :=
  { s with wasintr := update s.wasintr t b }

def setNointr (s : Cpu) (t : Nat) (b : Bool) : Cpu :=
  { s with nointr := update s.nointr t b }

def setCritical (s : Cpu) (t : Nat) (b : Bool) : Cpu :=
  { s with critical := update s.critical t b }

/-- What is done with `KCPU_LOCK_TASKS`, which is released after it. -/
def withTasks {β : Type} (s : Cpu) (result : Option β) : Option β :=
  if s.locked then none else result

@[simp] theorem withTasks_unlocked {β : Type} {s : Cpu} (h : s.locked = false)
    (result : Option β) : withTasks s result = result := by
  rw [withTasks, h]
  rfl

/-! ### The ring of running tasks -/

/-- The only task of the ring. -/
def scheduleFirst (s : Cpu) (t : Nat) : Cpu :=
  { s with
    tPrev := update s.tPrev t t
    tNext := update s.tNext t t
    cCurrent := t }

/-- `schedule_next:` -/
def scheduleNext (s : Cpu) (t : Nat) : Cpu :=
  if s.cCurrent ≠ 0 then
    let next := s.tNext s.cCurrent
    { s with
      tPrev := update (update s.tPrev t s.cCurrent) next t
      tNext := update (update s.tNext t next) s.cCurrent t }
  else scheduleFirst s t

/-- `KTASK_RESCHEDULE_HINT_LAST` -/
def scheduleLast (s : Cpu) (t : Nat) : Cpu :=
  if s.cCurrent ≠ 0 then
    { s with
      tNext := insertNext s.tNext s.tPrev s.cCurrent t
      tPrev := insertPrev s.tPrev s.cCurrent t }
  else scheduleFirst s t

/-- As the last task, and as the current one at that. -/
def scheduleCurrent (s : Cpu) (t : Nat) : Cpu :=
  { scheduleLast s t with cCurrent := t }

/-- A task is linked out of the ring. -/
def unlinkRing (s : Cpu) (t : Nat) : Cpu :=
  { s with
    tNext := update s.tNext (s.tPrev t) (s.tNext t)
    tPrev := update s.tPrev (s.tNext t) (s.tPrev t) }

def ktaskUnschedulecurrent (s : Cpu) (t : Nat) : Option Cpu :=
  if s.tCpu t then
    let current :=
      if t = s.cCurrent then (if t = s.tNext t then 0 else s.tNext t) else s.cCurrent
    withTasks s (some (setCpu { unlinkRing s t with cCurrent := current } t false))
  else none

/-! ### The sleepers -/

/-- Where a task is to be inserted. -/
inductive SleepPos where
  | behind (task : Nat)
  | before (task : Nat)

/-- The loop of `kcpu_schedulesleep_unlocked`. -/
def findSleep (s : Cpu) (task : Nat) : Nat → Nat → Option SleepPos
  | 0, _ => none
  | fuel + 1, insertBefore =>
    if s.tAbstime insertBefore ≤ s.tAbstime task then
      let next := s.tNext insertBefore
      if next = 0 then some (.behind insertBefore) else findSleep s task fuel next
    else some (.before insertBefore)

/-- The first of all sleepers. -/
def sleepFirst (s : Cpu) (task : Nat) : Cpu :=
  { s with
    tPrev := update s.tPrev task 0
    tNext := update s.tNext task 0
    cSleeping := task }

/-- A sleeper at the end. -/
def sleepBehind (s : Cpu) (task last : Nat) : Cpu :=
  { s with
    tPrev := update s.tPrev task last
    tNext := update (update s.tNext task 0) last task }

/-- A sleeper before another one. -/
def sleepBefore (s : Cpu) (task insertBefore : Nat) : Cpu :=
  let prev := s.tPrev insertBefore
  { s with
    tNext := linkNext 0 (update s.tNext task insertBefore) prev task
    tPrev := update (update s.tPrev task prev) insertBefore task
    cSleeping := linkHead 0 s.cSleeping prev task }

/-- `kcpu_schedulesleep_unlocked` -/
def kcpuSchedulesleep (s : Cpu) (task : Nat) : Option Cpu :=
  if s.cSleeping = 0 then some (sleepFirst s task)
  else
    (findSleep s task (s.tasks.length + 1) s.cSleeping).map fun pos =>
      match pos with
      | .behind last => sleepBehind s task last
      | .before insertBefore => sleepBefore s task insertBefore

/-- `kcpu_unschedulesleep_unlocked` -/
def kcpuUnschedulesleep (s : Cpu) (task : Nat) : Cpu :=
  { s with
    tNext := linkNext 0 s.tNext (s.tPrev task) (s.tNext task)
    tPrev := linkPrev 0 s.tPrev (s.tNext task) (s.tPrev task)
    cSleeping := linkHead 0 s.cSleeping (s.tPrev task) (s.tNext task) }

def ktaskScheduletimeout (s : Cpu) (t : Nat) : Option Cpu :=
  if s.tCpu t then kcpuSchedulesleep s t else none

def ktaskUnscheduletimeout (s : Cpu) (t : Nat) : Option Cpu :=
  if s.tCpu t then some (kcpuUnschedulesleep s t) else none

def ktaskUpgradetimeout (s : Cpu) (t : Nat) : Option Cpu :=
  if s.tCpu t then kcpuSchedulesleep (kcpuUnschedulesleep s t) t else none

/-- The first sleeper is woken: the body of the loop of `kcpu_ticktime_unlocked2`. -/
def wakeSleeper (s : Cpu) (iter : Nat) : Cpu :=
  let s := setState (setTimedout s iter true) iter .running
  let sleeping := s.tNext iter
  let s := { s with cSleeping := sleeping, tPrev := linkPrev 0 s.tPrev sleeping 0 }
  scheduleLast s iter

/-- The loop of `kcpu_ticktime_unlocked2`. -/
def tickLoop (now : Nat) : Nat → Cpu → Option Cpu
  | 0, _ => none
  | fuel + 1, s =>
    let iter := s.cSleeping
    if iter = 0 then some s
    else if s.tAbstime iter ≤ now then tickLoop now fuel (wakeSleeper s iter)
    else some s

/-- `kcpu_ticktime_unlocked2` -/
def kcpuTicktime (s : Cpu) (now : Nat) : Option Cpu := tickLoop now (s.tasks.length + 1) s

/-! ### Unscheduling -/

/-- `reschedule_running:` of `ktask_dopostunscheduling` -/
def rescheduleRunning (held : Bool) (s : Cpu) (self : Nat) (error : Errno) :
    Option (Errno × Cpu) :=
  if held then none
  else withTasks s
    (some (error, setState (scheduleCurrent (setCpu s self true) self) self .running))

/-- `ktask_dopostunscheduling`, of a task that is already out of the ring. The caller may hold
`KCPU_LOCK_TASKS`. -/
def ktaskDopostunscheduling (env : Env) (held : Bool) (s : Cpu) (self : Nat)
    (newstate : TaskState) (arg : Nat) : Option (Errno × Cpu) :=
  if s.tState self = .suspended then
    if env.nosigs then some (.keNomem, s)
    else
      let s := if newstate = .waitingtmo then setAbstime s self arg else s
      some (.ksBlocking, setNewstate s self newstate)
  else
    match newstate with
    | .waitingtmo =>
      if env.noref then rescheduleRunning held s self .keOverflow
      else do
        let s ← ktaskScheduletimeout (setCpu (setAbstime s self arg) self true) self
        if env.nosigs then
          let s ← ktaskUnscheduletimeout s self
          rescheduleRunning held s self .keNomem
        else return (.keOk, setState s self newstate)
    | .waiting =>
      if env.nosigs then rescheduleRunning held s self .keNomem
      else some (.keOk, setState s self newstate)
    | .suspended | .terminated => some (.keOk, setState s self newstate)
    | .running => none

/-- The timeout that a suspended task is to wait with. -/
def deferAbstime (s : Cpu) (self : Nat) (newstate : TaskState) (arg : Nat) : Cpu :=
  if newstate = .waitingtmo ∧ (s.tNewstate self ≠ .waitingtmo ∨ arg < s.tAbstime self) then
    setAbstime s self arg
  else s

/-- `__ktask_unschedule_nocpu`, for the states that get there. -/
def ktaskUnscheduleNocpu (env : Env) (s : Cpu) (self : Nat) (newstate : TaskState) (arg : Nat) :
    Option (Errno × Cpu) :=
  if s.tNewstate self = .terminated then some (.keDestroyed, s)
  else
    match newstate with
    | .suspended => some (.keOk, setNewstate (setState s self .suspended) self .waiting)
    | .waiting | .waitingtmo =>
      let s := deferAbstime s self newstate arg
      if env.nosigs then some (.keNomem, s) else some (.keOk, setNewstate s self newstate)
    | .terminated => some (.keOk, setState s self newstate)
    | .running => none

/-- The same state again, or another waiting state. -/
def unscheduleAgain (env : Env) (s : Cpu) (self : Nat) (newstate : TaskState) (arg : Nat) :
    Option (Errno × Cpu) :=
  if env.nosigs then some (.keNomem, s)
  else if newstate = .waitingtmo then
    if s.tState self ≠ .waitingtmo then
      if env.noref then some (.keOverflow, s)
      else do
        let s ← ktaskScheduletimeout (setAbstime (setCpu s self true) self arg) self
        return (.ksUnchanged, setState s self newstate)
    else if arg < s.tAbstime self then do
      let s ← ktaskUpgradetimeout (setAbstime s self arg) self
      return (.ksUnchanged, setState s self newstate)
    else some (.ksUnchanged, setState s self newstate)
  else if s.tState self = .waitingtmo then do
    let s ← ktaskUnscheduletimeout s self
    return (.ksUnchanged, setState (setCpu s self false) self newstate)
  else some (.ksUnchanged, setState s self newstate)

/-- A critical task is to terminate later; unless it must not be interrupted, it is
woken for that. -/
def unscheduleCritical (env : Env) (s : Cpu) (self : Nat) : Option (Errno × Cpu) :=
  if s.tNewstate self = .terminated then some (.keDestroyed, s)
  else
    let s := setNewstate s self .terminated
    if s.nointr self then some (.ksBlocking, setWasintr s self true)
    else if self = s.cCurrent then some (.keIntr, s)
    else if s.tState self ≠ .running then
      if s.tState self = .waitingtmo then do
        let s ← ktaskUnscheduletimeout s self
        withTasks s
          (some (.ksBlocking, setWasintr (setState (scheduleNext s self) self .running) self true))
      else if env.noref then some (.keOverflow, s)
      else
        let s := setCpu s self true
        withTasks s
          (some (.ksBlocking, setWasintr (setState (scheduleNext s self) self .running) self true))
    else some (.ksBlocking, setWasintr s self true)

/-- A waiting task gives up its timeout, if it has one. -/
def leaveWaiting (s : Cpu) (self : Nat) : Option Cpu :=
  if s.tState self = .waitingtmo then
    (ktaskUnscheduletimeout s self).map fun s => setCpu s self false
  else some s

/-- A waiting task is suspended or terminated. -/
def unscheduleWaiting (s : Cpu) (self : Nat) (newstate : TaskState) : Option (Errno × Cpu) :=
  (leaveWaiting s self).map fun s =>
    if newstate = .terminated then (.keOk, setState s self .terminated)
    else (.keOk, setState (setNewstate s self (s.tState self)) self newstate)

/-- A task that is on the CPU leaves it. The current task holds `KCPU_LOCK_TASKS` until it is
switched out. -/
def unscheduleRunning (env : Env) (s : Cpu) (self : Nat) (newstate : TaskState) (arg : Nat) :
    Option (Errno × Cpu) :=
  withTasks s <|
    if self = s.cCurrent then
      -- `goto end` does not unlock the CPU.
      if s.wasintr self ∧ ¬s.nointr self then
        some (.keIntr, { setWasintr s self false with locked := true })
      else
        let s :=
          if s.tNext self = self then { s with cCurrent := 0 }
          else { unlinkRing s self with cCurrent := s.tNext self }
        ktaskDopostunscheduling env true (setCpu s self false) self newstate arg
    else
      ktaskDopostunscheduling env false (setCpu (unlinkRing s self) self false) self newstate arg

/-- A pending alarm becomes the timeout of a task that starts to wait: the new state
and its argument, or nothing if the time has passed. -/
def applyAlarm (env : Env) (s : Cpu) (self : Nat) (newstate : TaskState) (arg : Nat) :
    Cpu × Option (TaskState × Nat) :=
  if s.alarmed self then
    match newstate with
    | .waiting =>
      let s := setAlarmed s self false
      if s.tAbstime self ≤ env.now then (s, none) else (s, some (.waitingtmo, s.tAbstime self))
    | .waitingtmo => (setAlarmed s self false, some (newstate, arg))
    | _ => (s, some (newstate, arg))
  else (s, some (newstate, arg))

/-- `ktask_unschedule_ex` after the checks of the timeouts. -/
def unscheduleState (env : Env) (s : Cpu) (self : Nat) (newstate : TaskState) (arg : Nat) :
    Option (Errno × Cpu) :=
  if s.tState self = newstate ∨ (s.tState self).isWaiting ∧ newstate.isWaiting then
    unscheduleAgain env s self newstate arg
  else if newstate = .terminated ∧ s.critical self then unscheduleCritical env s self
  else if (s.tState self).isWaiting then unscheduleWaiting s self newstate
  else if s.tCpu self then unscheduleRunning env s self newstate arg
  else ktaskUnscheduleNocpu env s self newstate arg

/-- `ktask_unschedule_ex`, up to where the caller is switched out; `arg` is the timeout
of `KTASK_STATE_WAITINGTMO`. -/
def ktaskUnscheduleEx (env : Env) (s : Cpu) (self : Nat) (newstate : TaskState) (arg : Nat) :
    Option (Errno × Cpu) :=
  if s.tState self = .terminated then some (.keDestroyed, s)
  else if newstate = .waitingtmo ∧ arg ≤ env.now then some (.keTimedout, s)
  else
    match applyAlarm env s self newstate arg with
    | (s, none) => some (.keTimedout, s)
    | (s, some (newstate, arg)) => unscheduleState env s self newstate arg

/-- `ktask_unschedule_ex` after the caller has been switched back in. -/
def unscheduleReturn (s : Cpu) (self : Nat) (newstate : TaskState) : Errno × Cpu :=
  if s.wasintr self ∧ ¬s.nointr self then (.keIntr, setWasintr s self false)
  else if newstate = .waitingtmo ∧ s.timedout self then (.keTimedout, setTimedout s self false)
  else (.keOk, s)

/-- `ktask_unschedule_aftercrit`, of the current task. -/
def ktaskUnscheduleAftercrit (env : Env) (s : Cpu) (self : Nat) : Option Cpu :=
  let s := setCritical s self false
  match s.tNewstate self with
  | .running => some s
  | .waitingtmo =>
    if s.tAbstime self ≤ env.now then some (setTimedout s self true)
    else do
      let s ← ktaskUnschedulecurrent s self
      let s ← ktaskScheduletimeout s self
      return setNewstate s self .running
  | .terminated => (ktaskUnschedulecurrent s self).map fun s => setState s self .terminated
  | newstate => (ktaskUnschedulecurrent s self).map fun s =>
    setNewstate (setState s self newstate) self .running

/-! ### Rescheduling -/

/-- `do_resched:` -/
def doResched (env : Env) (s : Cpu) (self : Nat) (hint : Hint) : Option (Errno × Cpu) :=
  let s := setCpu s self true
  withTasks s <|
    match hint with
    | .current =>
      -- The reference to the caller is taken before it is checked.
      if s.cCurrent = 0 then none
      else if env.norefCaller then some (.keOk, scheduleNext s self)
      else some (.keOk, scheduleCurrent s self)
    | .next => some (.keOk, scheduleNext s self)
    | .last => some (.keOk, scheduleLast s self)

/-- `ktask_reschedule_ex` of a suspended task that is resumed. -/
def undoSuspend (env : Env) (s : Cpu) (self : Nat) (hint : Hint) : Option (Errno × Cpu) :=
  if s.tNewstate self = .running ∨ s.tNewstate self = .terminated ∧ s.critical self then
    doResched env (setState s self .running) self hint
  else
    let newstate := s.tNewstate self
    let s := setNewstate (setState s self newstate) self .running
    match newstate with
    | .terminated => some (.keDestroyed, setNewstate s self .terminated)
    | .waitingtmo =>
      if s.tAbstime self ≤ env.now then some (.keOk, setTimedout s self true)
      else (ktaskScheduletimeout s self).map fun s => (.keOk, s)
    | _ => some (.keOk, s)

/-- `ktask_reschedule_ex`; `undo` is `KTASK_RESCHEDULE_HINTFLAG_UNDOSUSPEND`. -/
def ktaskRescheduleEx (env : Env) (s : Cpu) (self : Nat) (hint : Hint) (undo : Bool) :
    Option (Errno × Cpu) :=
  if env.noref then some (.keOverflow, s)
  else
    match s.tState self with
    | .suspended =>
      if undo ∧ s.tNewstate self ≠ .suspended then undoSuspend env s self hint
      else some (.ksBlocking, setNewstate s self .running)
    | .terminated => some (.keDestroyed, s)
    | .running => some (.ksUnchanged, s)
    | .waitingtmo => do
        let s ← ktaskUnscheduletimeout s self
        doResched env (setState s self .running) self hint
    | .waiting => doResched env (setState s self .running) self hint

/-! ### Alarms -/

/-- `ktask_setalarm_k`: the error, `*oldabstime` if it is written, and the CPU. -/
def ktaskSetalarm (s : Cpu) (self : Nat) (abstime : Option Nat) :
    Option (Errno × Option Nat × Cpu) :=
  match s.tState self with
  | .terminated => some (.keDestroyed, none, s)
  | .waiting =>
    match abstime with
    | some time => do
        let s := setState (setAbstime (setCpu s self true) self time) self .waitingtmo
        let s ← ktaskScheduletimeout s self
        return (.keOk, none, s)
    | none => some (.keOk, none, s)
  | .waitingtmo => do
      let oldabstime := s.tAbstime self
      let s ← ktaskUnscheduletimeout s self
      match abstime with
      | some time =>
        let s ← ktaskScheduletimeout (setAbstime s self time) self
        return (.ksUnchanged, oldabstime, s)
      -- The task keeps its `t_cpu`.
      | none => return (.ksUnchanged, oldabstime, setState s self .waiting)
  | .running | .suspended =>
    if s.alarmed self then
      let oldabstime := s.tAbstime self
      match abstime with
      | some time => some (.ksUnchanged, oldabstime, setAbstime s self time)
      | none => some (.ksUnchanged, oldabstime, setAlarmed s self false)
    else
      match abstime with
      | some time => some (.keOk, none, setAbstime (setAlarmed s self true) self time)
      | none => some (.keOk, none, s)

/-! ### What is scheduled -/

/-- The ring of the CPU, from the current task on. -/
def ringTasks (s : Cpu) : List Nat :=
  if s.cCurrent = 0 then [] else cycle s.tNext s.cCurrent s.tasks.length s.cCurrent

/-- The sleepers of the CPU. -/
def sleepTasks (s : Cpu) : List Nat :=
  (walk 0 s.tNext (s.tasks.length + 1) s.cSleeping).getD []

end KosKernel.Sched
