import Mathlib.Logic.Function.Basic

/-!
# KosKernel.Sync.Mutex

**Wake-ups of the mutexes**: `kmutex_lock` and `kmutex_unlock` (`sched/sync/mutex.c.inl`), and
`kmmutex_lock` and `kmmutex_unlock` for one lock bit (`sched/sync/mmutex-impl.c.inl`), used by
any number of tasks.

Every exchange of the lock word and every section under the signal lock is one step. The two
differ in how many tasks an unlock wakes: `ksignal_sendone` takes one from the queue,
`ksignal_sendall` goes on until it finds the queue empty. The test of the lock word and the
entering of the queue are two steps, and nothing looks at the word again in between: a task
that failed to lock may go to sleep after the wake-up it waits for.
-/

namespace KosKernel.Mutex

open Function

/-- Where a task is. -/
inductive Pc where
  | idle
  /-- Before the exchange of the lock word. -/
  | trying
  /-- The lock is in use: before `ksignal_recv`. -/
  | failed
  | asleep
  | holding
  /-- The word is cleared: before `ksignal_sendone`, or in the loop of `ksignal_sendall`. -/
  | waking
  deriving DecidableEq, Repr

/-- A mutex and its users. -/
structure State (T : Type) where
  /-- `m_locked`, or the bit of `mmx_locks`. -/
  locked : Bool
  /-- The queue of the signal. -/
  waiting : List T
  pc : T → Pc

inductive Action (T : Type) where
  | lock (t : T)
  | cmpxch (t : T)
  | recv (t : T)
  | unlock (t : T)
  | send (t : T)

variable {T : Type}

/-- A mutex that nobody has used. -/
def State.init : State T := ⟨false, [], fun _ => .idle⟩

/-- A wake-up is lost: the mutex is free and tasks sleep, but nobody is about to wake one. -/
def Lost (s : State T) : Prop := s.locked = false ∧ s.waiting ≠ [] ∧ ∀ t, s.pc t ≠ .waking

/-- The condition for a step, of `kmutex` or (`all`) of `kmmutex`: a task goes to sleep while the
mutex is in use or a wake-up is coming, and the wake-up of one task leaves no other one asleep
unless the mutex is in use or a task that neither sends nor is woken is about to send. -/
def Sound (all : Bool) (s : State T) : Action T → Prop
  | .recv _ => s.locked = true ∨ ∃ u, s.pc u = .waking
  | .send t => all = true ∨ s.locked = true ∨ s.waiting.tail = [] ∨
      ∃ u ≠ t, s.waiting.head? ≠ some u ∧ s.pc u = .waking
  | _ => True

variable [DecidableEq T]

/-- The task goes on to another program point. -/
def State.goto (s : State T) (t : T) (p : Pc) : State T := { s with pc := update s.pc t p }

/-- A step of a task that is before it. -/
def exec (all : Bool) (s : State T) : Action T → Option (State T)
  | .lock t => if s.pc t = .idle then some (s.goto t .trying) else none
  | .cmpxch t =>
    if s.pc t = .trying then
      if s.locked then some (s.goto t .failed)
      else some ({ s with locked := true }.goto t .holding)
    else none
  | .recv t =>
    if s.pc t = .failed then some ({ s with waiting := s.waiting ++ [t] }.goto t .asleep)
    else none
  | .unlock t =>
    if s.pc t = .holding then some ({ s with locked := false }.goto t .waking) else none
  | .send t =>
    if s.pc t = .waking then
      match s.waiting with
      | [] => some (s.goto t .idle)
      | w :: ws =>
        -- the one that is woken tries again
        some (({ s with waiting := ws }.goto w .trying).goto t (if all then .waking else .idle))
    else none

/-- The runs in which every step meets the condition. -/
inductive Run (all : Bool) : State T → Prop
  | init : Run all .init
  | step {s s' : State T} {a : Action T} (h : Run all s) (ha : Sound all s a)
      (hexec : exec all s a = some s') : Run all s'

variable {s s' : State T} {t : T} {p : Pc} {all : Bool}

theorem not_lost_waking : ¬Lost (s.goto t .waking) := fun hl => hl.2.2 t (update_self ..)

/-- A task that is not about to wake one comes to another such place. -/
theorem lost_goto (h : s.pc t ≠ .waking) (hp : p ≠ .waking) : Lost (s.goto t p) ↔ Lost s := by
  have hpc : (∀ u, update s.pc t p u ≠ .waking) ↔ ∀ u, s.pc u ≠ .waking := by
    refine forall_congr' fun u => ?_
    by_cases hu : u = t
    · rw [hu, update_self]
      exact iff_of_true hp h
    · rw [update_of_ne hu]
  exact and_congr_right fun _ => and_congr_right fun _ => hpc

/-- **One step.** From a state in which no wake-up is lost, a step loses one iff it does not meet
the condition. -/
theorem not_lost_iff (h : ¬Lost s) {a : Action T} (hexec : exec all s a = some s') :
    ¬Lost s' ↔ Sound all s a := by
  cases a with
  | lock t =>
    simp only [exec, Option.ite_none_right_eq_some, Option.some.injEq] at hexec
    obtain ⟨ht, rfl⟩ := hexec
    exact iff_of_true ((lost_goto (by simp [ht]) (by decide)).not.mpr h) trivial
  | cmpxch t =>
    simp only [exec, Option.ite_none_right_eq_some] at hexec
    obtain ⟨ht, hexec⟩ := hexec
    refine iff_of_true ?_ trivial
    split at hexec
    · cases hexec
      exact (lost_goto (by simp [ht]) (by decide)).not.mpr h
    · cases hexec
      exact fun hl => Bool.noConfusion hl.1
  | recv t =>
    simp only [exec, Option.ite_none_right_eq_some, Option.some.injEq] at hexec
    obtain ⟨ht, rfl⟩ := hexec
    rw [lost_goto (by simp [ht]) (by decide)]
    simp [Lost, Sound, imp_iff_not_or]
  | unlock t =>
    simp only [exec, Option.ite_none_right_eq_some, Option.some.injEq] at hexec
    obtain ⟨ht, rfl⟩ := hexec
    exact iff_of_true (not_lost_waking) trivial
  | send t =>
    simp only [exec, Option.ite_none_right_eq_some] at hexec
    obtain ⟨ht, hexec⟩ := hexec
    cases hw : s.waiting with
    | nil =>
      rw [hw] at hexec
      cases hexec
      exact iff_of_true (fun hl => hl.2.1 hw) (.inr (.inr (.inl (by rw [hw]; rfl))))
    | cons w ws =>
      rw [hw] at hexec
      cases hexec
      cases all with
      | true => exact iff_of_true (not_lost_waking) (.inl rfl)
      | false =>
        have hpc : (∀ u, update (update s.pc w .trying) t .idle u ≠ .waking) ↔
            ∀ u, u ≠ t → u ≠ w → s.pc u ≠ .waking := by
          refine forall_congr' fun u => ?_
          by_cases hut : u = t
          · simp [hut]
          by_cases huw : u = w
          · rw [update_of_ne hut, huw, update_self]
            simp
          · simp [hut, huw]
        change ¬(s.locked = false ∧ ws ≠ [] ∧
          ∀ u, update (update s.pc w .trying) t .idle u ≠ .waking) ↔ _
        rw [hpc, Sound, hw]
        grind

/-- **No wake-up is lost** in any run whose steps all meet the condition, and a further step loses
one iff it does not meet it. -/
theorem kmutex_no_lost_wakeup (h : Run all s) :
    ¬Lost s ∧ ∀ a s', exec all s a = some s' → (¬Lost s' ↔ Sound all s a) := by
  suffices hs : ¬Lost s from ⟨hs, fun a s' => not_lost_iff hs⟩
  induction h with
  | init => exact fun hl => hl.2.1 rfl
  | step _ ha hexec ih => exact (not_lost_iff ih hexec).mpr ha

/-- One task goes to sleep while another one holds the mutex. -/
theorem kmutex_no_lost_wakeup_waits :
    ∃ s : State Bool, Run false s ∧ s.waiting = [true] ∧ ¬Lost s := by
  have h₀ : Run false (.init : State Bool) := .init
  have h₁ := h₀.step (a := .lock false) trivial rfl
  have h₂ := h₁.step (a := .cmpxch false) trivial rfl
  have h₃ := h₂.step (a := .lock true) trivial rfl
  have h₄ := h₃.step (a := .cmpxch true) trivial rfl
  have h₅ := h₄.step (a := .recv true) (.inl rfl) rfl
  exact ⟨_, h₅, rfl, (kmutex_no_lost_wakeup h₅).1⟩

/-- A task fails to lock, the mutex is unlocked and nobody is found asleep, then the task goes to
sleep; with `kmutex` and with `kmmutex`. -/
theorem kmutex_loses_wakeup :
    (∃ s, [.lock false, .cmpxch false, .lock true, .cmpxch true, .unlock false, .send false,
        .recv true].foldlM (exec false) (.init : State Bool) = some s ∧ Lost s) ∧
    ∃ s, [.lock false, .cmpxch false, .lock true, .cmpxch true, .unlock false, .send false,
        .recv true].foldlM (exec true) (.init : State Bool) = some s ∧ Lost s :=
  ⟨⟨_, rfl, rfl, by decide, by decide⟩, _, rfl, rfl, by decide, by decide⟩

end KosKernel.Mutex
