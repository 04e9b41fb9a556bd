import KosKernel.Sched.Lists

/-!
# KosKernel.Sched.Invariant

That the **states of the tasks agree with the lists** they are in, and how a call
keeps this.

A call changes one task. It takes the task out of the list it is in, changes it, and
puts it into the list that its new state asks for. In between, everything holds for
the other tasks (`Others`), and nothing has to hold for this one.
-/

namespace KosKernel.Sched

open Function LinkedList List

variable {s s' : Cpu} {ring sleep ring' sleep' : List Nat} {t : Nat}

/-- The state that a task takes on when it is resumed. -/
abbrev GoesOn (s : Cpu) (t : Nat) : Prop :=
  s.tNewstate t = .running ∨ s.tNewstate t = .terminated

theorem SameTasks.goesOn (h : SameTasks s s') (hnew : GoesOn s t) : GoesOn s' t := by
  rwa [GoesOn, h.tNewstate]

/-- The state of a task agrees with the lists, and with what else is known of the task. -/
def Agrees (s : Cpu) (ring sleep : List Nat) (u : Nat) : Prop :=
  (u ∈ ring ↔ s.tState u = .running) ∧ (u ∈ sleep ↔ s.tState u = .waitingtmo) ∧
  s.tCpu u = (s.tState u).hasCpu ∧
  -- A task that is not suspended goes on running, or terminates after a critical block.
  (s.tState u ≠ .suspended → s.tState u ≠ .terminated → GoesOn s u) ∧
  -- The alarm of a task that waits is its timeout.
  ((s.tState u).isWaiting → s.alarmed u = false)

/-- The states and the lists agree. -/
structure Inv (s : Cpu) (ring sleep : List Nat) : Prop where
  lists : Lists s ring sleep
  zero : 0 ∉ s.tasks
  subset : ∀ u ∈ ring ++ sleep, u ∈ s.tasks
  agrees : ∀ u, Agrees s ring sleep u
  unlocked : s.locked = false

/-- The states and the lists agree for all tasks but one, which is in neither list. -/
structure Others (t : Nat) (s : Cpu) (ring sleep : List Nat) : Prop where
  lists : Lists s ring sleep
  not_mem : t ∉ ring ++ sleep
  task : t ∈ s.tasks
  zero : 0 ∉ s.tasks
  subset : ∀ u ∈ ring ++ sleep, u ∈ s.tasks
  agrees : ∀ u, u ≠ t → Agrees s ring sleep u
  unlocked : s.locked = false

/-- Two states that agree on the other tasks. -/
structure Frame (t : Nat) (s s' : Cpu) : Prop where
  tasks : s'.tasks = s.tasks
  tState : ∀ u, u ≠ t → s'.tState u = s.tState u
  tNewstate : ∀ u, u ≠ t → s'.tNewstate u = s.tNewstate u
  tCpu : ∀ u, u ≠ t → s'.tCpu u = s.tCpu u
  alarmed : ∀ u, u ≠ t → s'.alarmed u = s.alarmed u
  locked : s'.locked = s.locked

namespace Frame

theorem trans {s1 s2 s3 : Cpu} (h : Frame t s1 s2) (h' : Frame t s2 s3) : Frame t s1 s3 where
  tasks := h'.tasks.trans h.tasks
  tState u hu := (h'.tState u hu).trans (h.tState u hu)
  tNewstate u hu := (h'.tNewstate u hu).trans (h.tNewstate u hu)
  tCpu u hu := (h'.tCpu u hu).trans (h.tCpu u hu)
  alarmed u hu := (h'.alarmed u hu).trans (h.alarmed u hu)
  locked := h'.locked.trans h.locked

theorem of_same (h : SameTasks s s') : Frame t s s' :=
  ⟨h.tasks, fun _ _ => by rw [h.tState], fun _ _ => by rw [h.tNewstate],
    fun _ _ => by rw [h.tCpu], fun _ _ => by rw [h.alarmed], h.locked⟩

theorem setState (s : Cpu) (st : TaskState) : Frame t s (setState s t st) :=
  ⟨rfl, fun _ hu => update_of_ne hu _ _, fun _ _ => rfl, fun _ _ => rfl, fun _ _ => rfl, rfl⟩

theorem setNewstate (s : Cpu) (st : TaskState) : Frame t s (setNewstate s t st) :=
  ⟨rfl, fun _ _ => rfl, fun _ hu => update_of_ne hu _ _, fun _ _ => rfl, fun _ _ => rfl, rfl⟩

theorem setCpu (s : Cpu) (b : Bool) : Frame t s (setCpu s t b) :=
  ⟨rfl, fun _ _ => rfl, fun _ _ => rfl, fun _ hu => update_of_ne hu _ _, fun _ _ => rfl, rfl⟩

theorem agrees {u : Nat} (hf : Frame t s s') (hu : u ≠ t) (hring : u ∈ ring' ↔ u ∈ ring)
    (hsleep : u ∈ sleep' ↔ u ∈ sleep) (h : Agrees s ring sleep u) : Agrees s' ring' sleep' u := by
  rw [Agrees, GoesOn, hring, hsleep, hf.tState u hu, hf.tNewstate u hu, hf.tCpu u hu,
    hf.alarmed u hu]
  exact h

end Frame

theorem sameTasks_scheduleLast (s : Cpu) (t : Nat) : SameTasks s (scheduleLast s t) := by
  unfold scheduleLast
  split <;> exact ⟨rfl, rfl, rfl, rfl, rfl, rfl, rfl⟩

theorem sameTasks_scheduleNext (s : Cpu) (t : Nat) : SameTasks s (scheduleNext s t) := by
  unfold scheduleNext
  split <;> exact ⟨rfl, rfl, rfl, rfl, rfl, rfl, rfl⟩

theorem sameTasks_scheduleCurrent (s : Cpu) (t : Nat) : SameTasks s (scheduleCurrent s t) :=
  let h := sameTasks_scheduleLast s t
  { h with }

/-! ### Taking a task out of its list -/

namespace Inv

section

variable (h : Inv s ring sleep)

include h

theorem mem_ring (u : Nat) : u ∈ ring ↔ s.tState u = .running := (h.agrees u).1

theorem mem_sleep (u : Nat) : u ∈ sleep ↔ s.tState u = .waitingtmo := (h.agrees u).2.1

theorem cpu (u : Nat) : s.tCpu u = (s.tState u).hasCpu := (h.agrees u).2.2.1

theorem goesOn {st : TaskState} (hst : s.tState t = st)
    (hgo : (st.hasCpu || st.isWaiting) = true) : GoesOn s t := by
  subst hst
  refine (h.agrees t).2.2.2.1 ?_ ?_ <;>
  · intro hst
    rw [hst] at hgo
    cases hgo

theorem alarm {st : TaskState} (hst : s.tState t = st) (hw : st.isWaiting) :
    s.alarmed t = false :=
  (h.agrees t).2.2.2.2 (hst ▸ hw)

theorem not_mem_of_not_hasCpu (hst : (s.tState t).hasCpu = false) : t ∉ ring ++ sleep := by
  intro hm
  rcases mem_append.mp hm with hm | hm
  · rw [(h.mem_ring t).mp hm] at hst
    simp [TaskState.hasCpu] at hst
  · rw [(h.mem_sleep t).mp hm] at hst
    simp [TaskState.hasCpu] at hst

theorem others (ht : t ∈ s.tasks) (hst : (s.tState t).hasCpu = false) : Others t s ring sleep :=
  ⟨h.lists, h.not_mem_of_not_hasCpu hst, ht, h.zero, h.subset, fun u _ => h.agrees u, h.unlocked⟩

theorem leaveRing (hst : s.tState t = .running) (hL : Lists s' (ring.erase t) sleep)
    (hsame : SameTasks s s') : Others t s' (ring.erase t) sleep where
  lists := hL
  not_mem hm := by
    have htR := (h.mem_ring t).mpr hst
    rcases mem_append.mp hm with hm | hm
    · exact h.lists.nodup_ring.not_mem_erase hm
    · exact h.lists.not_mem_sleep t htR hm
  task := hsame.tasks ▸ h.subset t (mem_append_left _ ((h.mem_ring t).mpr hst))
  zero := hsame.tasks ▸ h.zero
  subset u hu := by
    rw [hsame.tasks]
    exact h.subset u ((erase_sublist.append_right _).subset hu)
  agrees u hu := (Frame.of_same hsame).agrees hu (mem_erase_of_ne hu) .rfl (h.agrees u)
  unlocked := hsame.locked.trans h.unlocked

theorem leaveSleep (hst : s.tState t = .waitingtmo) :
    Others t (kcpuUnschedulesleep s t) ring (sleep.erase t) where
  lists := h.lists.unschedulesleep ((h.mem_sleep t).mpr hst)
  not_mem hm := by
    have htS := (h.mem_sleep t).mpr hst
    rcases mem_append.mp hm with hm | hm
    · exact h.lists.not_mem_ring t htS hm
    · exact h.lists.nodup_sleep.not_mem_erase hm
  task := h.subset t (mem_append_right _ ((h.mem_sleep t).mpr hst))
  zero := h.zero
  subset u hu := h.subset u ((erase_sublist.append_left _).subset hu)
  agrees u hu :=
    (Frame.of_same ⟨rfl, rfl, rfl, rfl, rfl, rfl, rfl⟩).agrees hu .rfl (mem_erase_of_ne hu)
      (h.agrees u)
  unlocked := h.unlocked

theorem unscheduletimeout (hst : s.tState t = .waitingtmo) :
    ktaskUnscheduletimeout s t = some (kcpuUnschedulesleep s t) := by
  rw [ktaskUnscheduletimeout, h.cpu t, hst]
  rfl

end

end Inv

/-! ### Changing a task, and putting it back -/

namespace Others

section

variable (h : Others t s ring sleep)

include h

theorem ne_zero : t ≠ 0 := ne_of_mem_of_not_mem h.task h.zero

theorem frame (hL : Lists s' ring sleep) (hf : Frame t s s') :
    Others t s' ring sleep where
  lists := hL
  not_mem := h.not_mem
  task := hf.tasks ▸ h.task
  zero := hf.tasks ▸ h.zero
  subset := hf.tasks ▸ h.subset
  agrees u hu := hf.agrees hu .rfl .rfl (h.agrees u hu)
  unlocked := hf.locked.trans h.unlocked

theorem setState (st : TaskState) : Others t (setState s t st) ring sleep :=
  h.frame { h.lists with } (Frame.setState s st)

theorem setNewstate (st : TaskState) : Others t (setNewstate s t st) ring sleep :=
  h.frame { h.lists with } (Frame.setNewstate s st)

theorem setCpu (b : Bool) : Others t (setCpu s t b) ring sleep :=
  h.frame { h.lists with } (Frame.setCpu s b)

theorem setAbstime (time : Nat) : Others t (setAbstime s t time) ring sleep :=
  { h with lists := h.lists.setAbstime fun hm => h.not_mem (mem_append_right _ hm) }

/-- The task is where its state asks for. -/
theorem join (hL : Lists s' ring' sleep') (hf : Frame t s s')
    (hring : ∀ u ≠ t, (u ∈ ring' ↔ u ∈ ring)) (hsleep : ∀ u ≠ t, (u ∈ sleep' ↔ u ∈ sleep))
    (ht : Agrees s' ring' sleep' t) :
    Inv s' ring' sleep' where
  lists := hL
  zero := hf.tasks ▸ h.zero
  subset u hm := by
    rw [hf.tasks]
    by_cases hu : u = t
    · rw [hu]
      exact h.task
    · rw [mem_append, hring u hu, hsleep u hu] at hm
      exact h.subset u (mem_append.mpr hm)
  agrees u := by
    by_cases hu : u = t
    · rwa [hu]
    · exact hf.agrees hu (hring u hu) (hsleep u hu) (h.agrees u hu)
  unlocked := hf.locked.trans h.unlocked

theorem inv (hst : (s.tState t).hasCpu = false) (hcpu : s.tCpu t = false)
    (hnew : s.tState t ≠ .suspended → s.tState t ≠ .terminated → GoesOn s t)
    (halarm : (s.tState t).isWaiting → s.alarmed t = false) : Inv s ring sleep := by
  refine h.join h.lists (Frame.of_same ⟨rfl, rfl, rfl, rfl, rfl, rfl, rfl⟩) (fun _ _ => .rfl)
    (fun _ _ => .rfl) ⟨iff_of_false (fun hm => h.not_mem (mem_append_left _ hm)) fun hr => ?_,
    iff_of_false (fun hm => h.not_mem (mem_append_right _ hm)) fun hr => ?_,
    hcpu.trans hst.symm, hnew, halarm⟩
  all_goals
    rw [hr] at hst
    simp [TaskState.hasCpu] at hst

theorem joinRing (hL : Lists s' ring' sleep) (hperm : ring'.Perm (t :: ring)) (hf : Frame t s s')
    (hst : s'.tState t = .running) (hcpu : s'.tCpu t = true) (hnew : GoesOn s' t) :
    Inv s' ring' sleep :=
  h.join hL hf (fun _ hu => by rw [hperm.mem_iff, mem_cons, or_iff_right hu]) (fun _ _ => .rfl)
    ⟨iff_of_true (hperm.mem_iff.mpr mem_cons_self) hst,
      iff_of_false (fun hm => h.not_mem (mem_append_right _ hm)) (by simp [hst]),
      by rw [hcpu, hst]; rfl, fun _ _ => hnew, by simp [hst, TaskState.isWaiting]⟩

theorem stop (hcpu : s.tCpu t = false) {st : TaskState} (hst : st = .suspended ∨ st = .terminated) :
    Inv (Sched.setState s t st) ring sleep := by
  refine (h.setState st).inv ?_ hcpu ?_ ?_ <;> rcases hst with rfl | rfl
  all_goals simp [Sched.setState, TaskState.hasCpu, TaskState.isWaiting]

theorem run (hL : Lists s' ring' sleep) (hperm : ring'.Perm (t :: ring)) (hsame : SameTasks s s')
    (hcpu : s.tCpu t = true) (hnew : GoesOn s t) :
    Inv (Sched.setState s' t .running) ring' sleep := by
  refine h.joinRing { hL with } hperm
    ((Frame.of_same hsame).trans (Frame.setState s' .running)) ?_ ?_ ?_
  · exact update_self ..
  · exact (congrFun hsame.tCpu t).trans hcpu
  · exact hsame.goesOn hnew

theorem scheduletimeout (hcpu : s.tCpu t = true) (hnew : GoesOn s t)
    (halarm : s.alarmed t = false) :
    ∃ s' sleep', ktaskScheduletimeout s t = some s' ∧ SameTasks s s' ∧
      Inv (Sched.setState s' t .waitingtmo) ring sleep' := by
  obtain ⟨s', pre, post, hval, rfl, -, -, hL, hsame⟩ :=
    h.lists.schedulesleep h.not_mem h.ne_zero (h.lists.sleep_length_le h.subset)
  have hperm : (pre ++ t :: post).Perm (t :: (pre ++ post)) := perm_middle
  have hst : (Sched.setState s' t .waitingtmo).tState t = .waitingtmo := update_self ..
  refine ⟨s', _, by rw [ktaskScheduletimeout, hcpu]; exact hval, hsame,
    h.join { hL with } ((Frame.of_same hsame).trans (Frame.setState s' .waitingtmo))
      (fun _ _ => .rfl) (fun _ hu => by rw [hperm.mem_iff, mem_cons, or_iff_right hu])
      ⟨iff_of_false (fun hm => h.not_mem (mem_append_left _ hm)) (by simp [hst]),
        iff_of_true (hperm.mem_iff.mpr mem_cons_self) hst, ?_, fun _ _ => ?_, fun _ => ?_⟩⟩
  · rw [hst]
    exact (congrFun hsame.tCpu t).trans hcpu
  · exact hsame.goesOn hnew
  · exact (congrFun hsame.alarmed t).trans halarm

end

end Others

/-! ### Changes that keep every task in its list -/

/-- A CPU whose states and lists agree. -/
def Good (s : Cpu) : Prop := ∃ ring sleep, Inv s ring sleep

/-- A call that returns, with states and lists that agree. -/
def Keeps (r : Option (Errno × Cpu)) : Prop := ∃ e s', r = some (e, s') ∧ Good s'

section

variable (h : Inv s ring sleep)

include h

theorem Inv.keeps (e : Errno) : Keeps (some (e, s)) :=
  ⟨e, s, rfl, ring, sleep, h⟩

theorem Inv.setState_self : Inv (setState s t (s.tState t)) ring sleep := by
  rw [setState, update_eq_self]
  exact h

theorem Inv.setWasintr (b : Bool) : Inv (setWasintr s t b) ring sleep :=
  { h with lists := { h.lists with } }

/-- What is changed of one task alone, and keeps it where it is. -/
theorem Inv.change (hf : Frame t s s') (hL : Lists s' ring sleep) (ht : Agrees s' ring sleep t) :
    Inv s' ring sleep where
  lists := hL
  zero := hf.tasks ▸ h.zero
  subset := hf.tasks ▸ h.subset
  agrees u := by
    by_cases hu : u = t
    · rwa [hu]
    · exact hf.agrees hu .rfl .rfl (h.agrees u)
  unlocked := hf.locked.trans h.unlocked

/-- A task that waits gets no other alarm. -/
theorem Inv.setAlarmed {b : Bool} (hb : (s.tState t).isWaiting → b = false) :
    Inv (setAlarmed s t b) ring sleep :=
  h.change
    ⟨rfl, fun _ _ => rfl, fun _ _ => rfl, fun _ _ => rfl, fun _ hu => update_of_ne hu _ _, rfl⟩
    { h.lists with } ⟨h.mem_ring t, h.mem_sleep t, h.cpu t, (h.agrees t).2.2.2.1,
      fun hw => (update_self ..).trans (hb hw)⟩

theorem Inv.setTimedout (b : Bool) : Inv (setTimedout s t b) ring sleep :=
  { h with lists := { h.lists with } }

theorem Inv.setCritical (b : Bool) : Inv (setCritical s t b) ring sleep :=
  { h with lists := { h.lists with } }

theorem Inv.setNointr (b : Bool) : Inv (setNointr s t b) ring sleep :=
  { h with lists := { h.lists with } }

theorem Inv.setAbstime (hst : s.tState t ≠ .waitingtmo) (time : Nat) :
    Inv (setAbstime s t time) ring sleep :=
  { h with lists := h.lists.setAbstime fun hm => hst ((h.mem_sleep t).mp hm) }

/-- The deferred state of a suspended task is free; one that is not suspended may be
told to terminate. -/
theorem Inv.setNewstate {st : TaskState} (hst : s.tState t = .suspended ∨ st = .terminated) :
    Inv (setNewstate s t st) ring sleep := by
  refine h.change (Frame.setNewstate s st) { h.lists with }
    ⟨h.mem_ring t, h.mem_sleep t, h.cpu t, fun hs _ => .inr ?_, (h.agrees t).2.2.2.2⟩
  rw [hst.resolve_left hs]
  exact update_self ..

/-! ### The current task -/

theorem Inv.leaveCurrent (hst : s.tState t = .running) (hcur : t = s.cCurrent) :
    Others t { unlinkRing s t with cCurrent := if s.tNext t = t then 0 else s.tNext t }
      (ring.erase t) sleep := by
  have htR := (h.mem_ring t).mpr hst
  refine h.leaveRing hst ?_ ⟨rfl, rfl, rfl, rfl, rfl, rfl, rfl⟩
  obtain ⟨x, rest, rfl⟩ := exists_cons_of_ne_nil (ne_nil_of_mem htR)
  obtain rfl : t = x := hcur.trans h.lists.current
  obtain ⟨-, hhead, hring⟩ := h.lists.removeCurrent
  rw [erase_cons_head]
  exact ⟨hring, hhead.symm, h.lists.frame_remove htR,
    h.lists.nodup.sublist (sublist_cons_self ..), h.lists.sorted⟩

/-- The only task of the ring need not be unlinked. -/
theorem Inv.leaveOnly (hst : s.tState t = .running) (hcur : t = s.cCurrent) (hone : s.tNext t = t) :
    Others t { s with cCurrent := 0 } (ring.erase t) sleep := by
  have htR := (h.mem_ring t).mpr hst
  refine h.leaveRing hst ?_ ⟨rfl, rfl, rfl, rfl, rfl, rfl, rfl⟩
  obtain ⟨x, rest, rfl⟩ := exists_cons_of_ne_nil (ne_nil_of_mem htR)
  obtain rfl : t = x := hcur.trans h.lists.current
  obtain rfl := h.lists.removeCurrent.1 hone
  rw [erase_cons_head]
  exact ⟨rfl, rfl, h.lists.sleep_list, h.lists.nodup_sleep, h.lists.sorted⟩

end

end KosKernel.Sched
