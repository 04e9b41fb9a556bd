import KosKernel.Lib.Holders
import KosKernel.Sync.RwLock

/-!
# KosKernel.Sync.RwLockRuns

**Mutual exclusion of the read/write lock**, over every interleaving of its users.

The invariant has two parts. `LockInv` ties the lock's own fields to what the
tasks hold; each way the source changes those fields has one lemma. `TaskOk` is
what a task may rely on at its program point. A step changes the lock in one of
those ways and moves one task; everything else is a frame.

A lock that was closed and reset stays in write-mode with no writer, a reader
counter that overflows forgets its readers, and a `krwlock_tryupgrade` that fails
keeps the lock its documentation says is lost. `Sound` names those three steps;
the theorem is about the runs without them.
-/

namespace KosKernel.RwLock

open Function Finset

variable {T : Type} {s s' : State T} {t : T}

/-! ### The lock and its holders -/

section

variable [Fintype T]

/-- The lock's fields say what the tasks hold. -/
structure LockInv (s : State T) : Prop where
  readc_eq : s.readc = ∑ t, s.reads t
  lt_limit : s.readc < readerLimit
  unique : ∀ t u, s.writes t = true → s.writes u = true → t = u
  exclusive : ∀ t, s.writes t = true → s.readc = 0
  mode : s.writeMode = true ↔ (∃ t, s.writes t = true) ∨ s.dead = true
  closed : s.dead = true → s.readc = 0 ∧ ∀ t, s.writes t = false

/-- What the tasks hold. -/
def State.holders (s : State T) : Holders T := ⟨s.reads, s.writes⟩

theorem LockInv.holds (h : LockInv s) : s.holders.Exclusive :=
  ⟨h.unique, fun t hw => h.readc_eq.symm.trans (h.exclusive t hw)⟩

theorem reads_le_readc (h : LockInv s) (t : T) : s.reads t ≤ s.readc := by
  rw [h.readc_eq]
  exact s.holders.reads_le_total t

theorem lockInv_init : LockInv (State.init : State T) := by
  constructor <;> simp [State.init, readerLimit]

variable (h : LockInv s)

include h

/-- Program points, calls and results are no part of the lock. -/
theorem LockInv.congr (hm : s'.writeMode = s.writeMode) (hd : s'.dead = s.dead)
    (hc : s'.readc = s.readc) (hr : s'.reads = s.reads) (hw : s'.writes = s.writes) :
    LockInv s' := by
  constructor
  · rw [hc, hr]; exact h.readc_eq
  · rw [hc]; exact h.lt_limit
  · rw [hw]; exact h.unique
  · rw [hc, hw]; exact h.exclusive
  · rw [hm, hd, hw]; exact h.mode
  · rw [hc, hd, hw]; exact h.closed

theorem LockInv.unlocked (hm : s.writeMode = false) :
    (∀ u, s.writes u = false) ∧ s.dead = false := by
  have hmode := h.mode.not.mp (by simp [hm])
  simpa using hmode

theorem LockInv.not_writer (hr : 0 < s.reads t) (u : T) : s.writes u = false :=
  h.holds.not_writer hr u

theorem LockInv.read_mode (hr : 0 < s.reads t) : s.writeMode = false ∧ s.dead = false := by
  have hle := reads_le_readc h t
  have hnd : s.dead = false := by
    by_contra hd
    have := (h.closed (by simpa using hd)).1
    omega
  refine ⟨?_, hnd⟩
  by_contra hm
  rcases h.mode.mp (by simpa using hm) with ⟨u, hu⟩ | hd
  · simp [h.not_writer hr u] at hu
  · simp [hnd] at hd

variable [DecidableEq T]

theorem LockInv.addreader (hm : s.writeMode = false) (hlt : s.readc + 1 < readerLimit) :
    LockInv (s.addreader t) := by
  obtain ⟨hnow, hnd⟩ := h.unlocked hm
  have hc : (s.addreader t).readc = s.readc + 1 := if_neg (Nat.ne_of_lt hlt)
  constructor
  · rw [hc, h.readc_eq]
    exact (s.holders.total_addReader t).symm
  · rw [hc]; exact hlt
  · exact h.unique
  · intro u hu; simp [State.addreader, hnow u] at hu
  · exact h.mode
  · intro hd; simp [State.addreader, hnd] at hd

theorem LockInv.delreader (hr : 0 < s.reads t) : LockInv (s.delreader t) := by
  have hle := reads_le_readc h t
  have hlim := h.lt_limit
  have hc : (s.delreader t).readc = s.readc - 1 := if_neg (by omega)
  have hnow := h.not_writer hr
  constructor
  · rw [hc, h.readc_eq]
    exact Nat.sub_eq_of_eq_add (s.holders.total_delReader hr).symm
  · rw [hc]; omega
  · exact h.unique
  · intro u hu; simp [State.delreader, hnow u] at hu
  · exact h.mode
  · intro hd
    have := (h.closed hd).1
    omega

theorem LockInv.setwriter (hm : s.writeMode = false) (hc : s.readc = 0) :
    LockInv (s.setwriter t) := by
  obtain ⟨hnow, hnd⟩ := h.unlocked hm
  constructor
  · exact h.readc_eq
  · exact h.lt_limit
  · exact (s.holders.exclusive_setWriter hnow (h.readc_eq.symm.trans hc) t).unique
  · intro u _; exact hc
  · exact iff_of_true rfl (.inl ⟨t, by simp [State.setwriter]⟩)
  · intro hd; simp [State.setwriter, hnd] at hd

theorem LockInv.delwriter (hw : s.writes t = true) : LockInv (s.delwriter t) := by
  have hnow : ∀ u, (s.delwriter t).writes u = false := h.holds.delWriter_writes hw
  have hnd : s.dead = false := by
    by_contra hd
    have := (h.closed (by simpa using hd)).2 t
    simp [hw] at this
  constructor
  · exact h.readc_eq
  · exact h.lt_limit
  · intro u v hu; simp [hnow u] at hu
  · intro u hu; simp [hnow u] at hu
  · simp only [hnow]
    simp [State.delwriter, hnd]
  · intro hd; simp [State.delwriter, hnd] at hd

theorem LockInv.upgradeOnly (hr : 0 < s.reads t) (hc : s.readc = 1) :
    LockInv (s.upgradeOnly t) := by
  have hdel : LockInv { s with readc := 0, reads := update s.reads t (s.reads t - 1) } := by
    have hcount : (s.delreader t).readc = 0 := by simp [State.delreader, decr, hc]
    exact (h.delreader hr).congr rfl rfl hcount.symm rfl rfl
  exact hdel.setwriter (h.read_mode hr).1 rfl

theorem LockInv.downgradeOnly (hw : s.writes t = true) : LockInv (s.downgradeOnly t) := by
  have hdel := h.delwriter hw
  have hadd := hdel.addreader (t := t) rfl (by
    have : (s.delwriter t).readc = 0 := h.exclusive t hw
    rw [this]
    decide)
  have hcount : ((s.delwriter t).addreader t).readc = 1 := by
    simp [State.addreader, State.delwriter, h.exclusive t hw, incr, readerLimit]
  exact hadd.congr rfl rfl hcount.symm rfl rfl

theorem LockInv.kill (hw : s.writes t = true) : LockInv (s.kill t) := by
  have hdel := h.delwriter hw
  have hnow : ∀ u, (s.kill t).writes u = false := h.holds.delWriter_writes hw
  constructor
  · exact h.readc_eq
  · exact h.lt_limit
  · exact hdel.unique
  · exact hdel.exclusive
  · exact iff_of_true (h.mode.mpr (.inl ⟨t, hw⟩)) (.inr rfl)
  · exact fun _ => ⟨h.exclusive t hw, hnow⟩

end

/-! ### The tasks -/

/-- The three ways to upgrade. -/
def Call.Upgrades (c : Call) : Prop := c = .upgrade ∨ c = .atomicUpgrade ∨ c = .tryupgrade

/-- What holds of a task, by its program point. -/
structure TaskOk (pc : Pc) (call : Call) (reads : Nat) (writes : Bool) (entry : Nat)
    (result : Option Errno) : Prop where
  running : pc ≠ .idle → result = none
  allowed : pc = .once → call.Allowed reads writes
  attempting : pc = .once → call = .tryupgrade → reads = entry
  reading : pc = .readAgain ∨ pc = .readWait → call = .beginread
  writing : pc = .writeAgain ∨ pc = .writeWait → call ≠ .atomicUpgrade ∧ call ≠ .tryupgrade
  /-- An upgrade starts with the read lock. -/
  upgrading : pc = .upgradeFirst → 0 < reads ∧ reads = entry
  /-- An upgrade that has to wait has lost it. -/
  dropped : pc = .upgradeWait ∨ pc = .upgradeSecond ∨
    call = .upgrade ∧ (pc = .writeAgain ∨ pc = .writeWait) → reads + 1 = entry ∧ writes = false
  closing : pc = .closing → writes = true
  /-- So has an upgrade that failed. -/
  failed : ∀ e, result = some e → e.isErr = true → call.Upgrades →
    reads + 1 = entry ∧ writes = false

/-- Every task is where it should be. -/
def TaskInv (s : State T) : Prop :=
  ∀ t, TaskOk (s.pc t) (s.call t) (s.reads t) (s.writes t) (s.entry t) (s.result t)

variable {call : Call} {reads entry : Nat} {writes : Bool}

/-- A task whose call returns needs only the clause on failed upgrades. -/
theorem TaskOk.ret {e : Errno}
    (h : e.isErr = true → call.Upgrades → reads + 1 = entry ∧ writes = false) :
    TaskOk .idle call reads writes entry (some e) := by
  constructor <;> simp
  exact h

/-- An upgrade that waits as a writer has lost its read lock. -/
theorem TaskOk.lost {pc : Pc} {result : Option Errno}
    (h : TaskOk pc call reads writes entry result) (hpc : pc = .writeAgain ∨ pc = .writeWait)
    (hup : call.Upgrades) : reads + 1 = entry ∧ writes = false := by
  obtain ⟨hna, hnt⟩ := h.writing hpc
  rcases hup with hc | hc | hc
  · exact h.dropped (.inr (.inr ⟨hc, hpc⟩))
  · exact absurd hc hna
  · exact absurd hc hnt

theorem TaskOk.sendall {count : Nat} : TaskOk (.sendall count) call reads writes entry none := by
  constructor <;> simp

/-- Receiving the signal keeps what a waiting task may rely on. -/
theorem TaskOk.woken {pc : Pc} {result : Option Errno}
    (h : TaskOk pc call reads writes entry result) :
    TaskOk pc.woken call reads writes entry result := by
  cases pc with
  | readWait =>
    have := h.reading (.inr rfl)
    constructor <;> simp [Pc.woken, this, h.running, Call.Upgrades]
  | writeWait =>
    have hw := h.writing (.inr rfl)
    have hd := h.dropped
    constructor <;> simp_all [Pc.woken, h.running]
  | upgradeWait =>
    have hd := h.dropped (.inl rfl)
    constructor <;> simp_all [Pc.woken, h.running]
  | _ => exact h

/-- Between `s` and `s'` only the lock changed, and what the task `t` holds. -/
structure Locally (t : T) (s s' : State T) : Prop where
  pc : s'.pc = s.pc
  call : s'.call = s.call
  entry : s'.entry = s.entry
  result : s'.result = s.result
  reads : ∀ u, u ≠ t → s'.reads u = s.reads u
  writes : ∀ u, u ≠ t → s'.writes u = s.writes u

theorem locally_refl : Locally t s s :=
  ⟨rfl, rfl, rfl, rfl, fun _ _ => rfl, fun _ _ => rfl⟩

variable [DecidableEq T]

theorem locally_addreader : Locally t s (s.addreader t) :=
  ⟨rfl, rfl, rfl, rfl, fun _ hu => update_of_ne hu _ _, fun _ _ => rfl⟩

theorem locally_delreader : Locally t s (s.delreader t) :=
  ⟨rfl, rfl, rfl, rfl, fun _ hu => update_of_ne hu _ _, fun _ _ => rfl⟩

theorem locally_setwriter : Locally t s (s.setwriter t) :=
  ⟨rfl, rfl, rfl, rfl, fun _ _ => rfl, fun _ hu => update_of_ne hu _ _⟩

theorem locally_delwriter : Locally t s (s.delwriter t) :=
  ⟨rfl, rfl, rfl, rfl, fun _ _ => rfl, fun _ hu => update_of_ne hu _ _⟩

theorem locally_upgradeOnly : Locally t s (s.upgradeOnly t) :=
  ⟨rfl, rfl, rfl, rfl, fun _ hu => update_of_ne hu _ _,
    fun _ hu => update_of_ne hu _ _⟩

theorem locally_downgradeOnly : Locally t s (s.downgradeOnly t) :=
  ⟨rfl, rfl, rfl, rfl, fun _ hu => update_of_ne hu _ _,
    fun _ hu => update_of_ne hu _ _⟩

theorem locally_kill : Locally t s (s.kill t) :=
  ⟨rfl, rfl, rfl, rfl, fun _ _ => rfl, fun _ hu => update_of_ne hu _ _⟩

/-- It does not matter whether the reader leaves before or after the signal is sent. -/
theorem sendone_delreader (hEq : sendone (s.delreader t) = some s') :
    ∃ s1, sendone s = some s1 ∧ s1.reads = s.reads ∧ s' = s1.delreader t := by
  simp only [sendone, State.delreader] at hEq
  split at hEq
  · cases hEq
  rename_i w ws hw
  cases hEq
  exact ⟨{ s with waiting := ws, pc := update s.pc w (s.pc w).woken },
    by simp [sendone, hw], rfl, rfl⟩

/-- A step of one task: the others stay as they are. -/
theorem TaskInv.frame (h : TaskInv s) (t : T)
    (hothers : ∀ u ≠ t, s'.pc u = s.pc u ∧ s'.call u = s.call u ∧ s'.reads u = s.reads u ∧
      s'.writes u = s.writes u ∧ s'.entry u = s.entry u ∧ s'.result u = s.result u)
    (ht : TaskOk (s'.pc t) (s'.call t) (s'.reads t) (s'.writes t) (s'.entry t) (s'.result t)) :
    TaskInv s' := by
  intro u
  by_cases hu : u = t
  · subst hu; exact ht
  · obtain ⟨hpc, hcall, hreads, hwrites, hentry, hresult⟩ := hothers u hu
    rw [hpc, hcall, hreads, hwrites, hentry, hresult]
    exact h u

variable {a : Action}

/-- A task that is in a call and does not wait can do nothing else. -/
theorem Step.exec_of_busy (h : Step s t a s') (hpc : s.pc t = .once ∨ s.pc t = .readAgain) :
    RwLock.exec s t = some s' := by
  cases h with
  | call c hidle => simp [hidle] at hpc
  | exec hEq => exact hEq
  | fail e _ hwait =>
    rcases hwait with h | h | h <;> simp [h] at hpc

theorem Step.exec_of_once (h : Step s t a s') (hpc : s.pc t = .once) : s' = execOnce s t := by
  simpa [RwLock.exec, hpc] using (h.exec_of_busy (.inl hpc)).symm

/-! ### The sections keep both -/

variable [Fintype T]

/-- The invariant of a lock and its users. -/
structure Inv (s : State T) : Prop where
  lock : LockInv s
  task : TaskInv s

/-- The steps that the source's own contract survives: no reset of a closed lock,
no read lock beyond the width of the counter, no upgrade attempt that keeps the
lock it fails to upgrade. -/
structure Sound (s : State T) (t : T) : Prop where
  reset : s.pc t = .once → s.call t = .reset → s.dead = false
  readers : s.pc t = .readAgain ∨ s.pc t = .once ∧ s.call t = .trybeginread →
    s.writeMode = false → s.readc + 1 < readerLimit
  tryupgrade : s.pc t = .once → s.call t = .tryupgrade → s.readc = 1

/-- Waking a task is no matter of the lock, and keeps its place in its call. -/
theorem Inv.sendone (h : Inv s) (hEq : sendone s = some s') : Inv s' := by
  rw [RwLock.sendone] at hEq
  split at hEq
  · cases hEq
  rename_i w ws _
  cases hEq
  refine ⟨{ h.lock with }, h.task.frame w (fun u hu => by simp [hu]) ?_⟩
  simpa using (h.task w).woken

section

variable (h : Inv s)

include h

theorem Inv.ret {e : Errno} (hl : LockInv s') (hs : Locally t s s')
    (he : e.isErr = true → (s.call t).Upgrades → s'.reads t + 1 = s.entry t ∧ s'.writes t = false) :
    Inv (s'.ret t e) := by
  refine ⟨{ hl with }, h.task.frame t (fun u hu => ?_) ?_⟩
  · simp [State.ret, hu, hs.pc, hs.call, hs.entry, hs.result, hs.reads u hu, hs.writes u hu]
  · simp only [State.ret, update_self, hs.call, hs.entry]
    exact TaskOk.ret he

theorem Inv.succeed {e : Errno} (he : e.isErr = false) (hl : LockInv s') (hs : Locally t s s') :
    Inv (s'.ret t e) :=
  h.ret hl hs (by simp [he])

theorem Inv.goto {p : Pc} (hl : LockInv s') (hs : Locally t s s')
    (ht : TaskOk p (s.call t) (s'.reads t) (s'.writes t) (s.entry t) (s.result t)) :
    Inv (s'.goto t p) := by
  refine ⟨{ hl with }, h.task.frame t (fun u hu => ?_) ?_⟩
  · simp [State.goto, hu, hs.pc, hs.call, hs.entry, hs.result, hs.reads u hu, hs.writes u hu]
  · simp only [State.goto, update_self, hs.call, hs.entry, hs.result]
    exact ht

/-- Entering the queue is going to a waiting point. -/
theorem Inv.enqueue {p : Pc} (hl : LockInv s') (hs : Locally t s s')
    (ht : TaskOk p (s.call t) (s'.reads t) (s'.writes t) (s.entry t) (s.result t)) :
    Inv (s'.enqueue t p) := by
  have hgo := h.goto hl hs ht
  exact ⟨{ hgo.lock with }, hgo.task⟩

theorem execRead_inv (hpc : s.pc t = .readAgain) (hok : Sound s t) : Inv (execRead s t) := by
  have htask := h.task t
  have hcall := htask.reading (.inl hpc)
  rw [execRead]
  by_cases hm : s.writeMode = true
  · rw [if_pos hm]
    by_cases hd : s.dead = true
    · rw [if_pos hd]
      exact h.ret h.lock locally_refl (by simp [hcall, Call.Upgrades])
    rw [if_neg hd]
    refine h.enqueue h.lock locally_refl ?_
    have hres := htask.running (by simp [hpc])
    constructor <;> simp [hcall, hres]
  · have hm' : s.writeMode = false := by simpa using hm
    rw [if_neg hm]
    exact h.succeed rfl (h.lock.addreader hm' (hok.readers (.inl hpc) hm')) locally_addreader

theorem execWrite_inv (hpc : s.pc t = .writeAgain) : Inv (execWrite s t) := by
  have htask := h.task t
  obtain ⟨hna, hnt⟩ := htask.writing (.inl hpc)
  have hdrop : s.call t = .upgrade → s.reads t + 1 = s.entry t ∧ s.writes t = false :=
    fun hcall => htask.dropped (.inr (.inr ⟨hcall, .inl hpc⟩))
  have hres := htask.running (by simp [hpc])
  rw [execWrite]
  by_cases hbusy : s.writeMode = true ∨ s.readc ≠ 0
  · rw [if_pos hbusy]
    by_cases hd : s.dead = true
    · rw [if_pos hd]
      exact h.ret h.lock locally_refl fun _ => htask.lost (.inl hpc)
    rw [if_neg hd]
    refine h.enqueue h.lock locally_refl ?_
    constructor <;> simp_all
  rw [if_neg hbusy]
  push Not at hbusy
  have hlock := h.lock.setwriter (t := t) (by simpa using hbusy.1) hbusy.2
  have hcalls : (s.setwriter t).call t = s.call t := rfl
  simp only [hcalls]
  split
  · refine h.goto hlock locally_setwriter ?_
    constructor <;> simp_all [State.setwriter]
  · exact h.succeed rfl hlock locally_setwriter
  · exact h.succeed rfl hlock locally_setwriter

theorem execUpgrade_inv (hpc : s.pc t = .upgradeFirst) : Inv (execUpgrade s t) := by
  have htask := h.task t
  obtain ⟨hr, hentry⟩ := htask.upgrading hpc
  have hres := htask.running (by simp [hpc])
  have hdrop : (s.delreader t).reads t + 1 = s.entry t ∧ (s.delreader t).writes t = false := by
    refine ⟨?_, h.lock.not_writer hr t⟩
    simp only [State.delreader, update_self]
    omega
  rw [execUpgrade]
  by_cases hc : s.readc = 1
  · rw [if_pos hc]
    exact h.succeed rfl (h.lock.upgradeOnly hr hc) locally_upgradeOnly
  rw [if_neg hc]
  have hlock := h.lock.delreader hr
  simp only
  split
  · exact h.ret hlock locally_delreader (fun _ _ => hdrop)
  · refine h.enqueue hlock locally_delreader ?_
    constructor <;> simp [hres, hdrop]

theorem execUpgraded_inv (hpc : s.pc t = .upgradeSecond) : Inv (execUpgraded s t) := by
  have htask := h.task t
  have hdrop := htask.dropped (.inr (.inl hpc))
  have hres := htask.running (by simp [hpc])
  rw [execUpgraded]
  split
  · exact h.ret h.lock locally_refl (fun _ _ => hdrop)
  split
  · rename_i hfree
    exact h.succeed rfl (h.lock.setwriter hfree.2 hfree.1) locally_setwriter
  split
  · rename_i hcall
    refine h.goto h.lock locally_refl ?_
    constructor <;> simp [hres, hdrop, hcall]
  · exact h.ret h.lock locally_refl (fun _ _ => hdrop)

theorem execOnce_inv (hpc : s.pc t = .once) (hok : Sound s t) : Inv (execOnce s t) := by
  have htask := h.task t
  have hallow := htask.allowed hpc
  have hres := htask.running (by simp [hpc])
  have hfree : ¬(s.writeMode = true ∨ s.readc ≠ 0) → LockInv (s.setwriter t) := by
    intro hbusy
    push Not at hbusy
    exact h.lock.setwriter (by simpa using hbusy.1) hbusy.2
  cases hcall : s.call t with
  | trybeginread =>
    simp only [execOnce, hcall]
    split
    · exact h.ret h.lock locally_refl (by simp [hcall, Call.Upgrades])
    rename_i hm
    have hm' : s.writeMode = false := by simpa using hm
    exact h.succeed rfl (h.lock.addreader hm' (hok.readers (.inr ⟨hpc, hcall⟩) hm'))
      locally_addreader
  | trybeginwrite =>
    simp only [execOnce, hcall]
    split
    · exact h.ret h.lock locally_refl (by simp [hcall, Call.Upgrades])
    · rename_i hbusy
      exact h.succeed rfl (hfree hbusy) locally_setwriter
  | endread =>
    have hr : 0 < s.reads t := by simpa [hcall, Call.Allowed] using hallow
    simp only [execOnce, hcall]
    split
    · split
      · rename_i s2 hEq
        obtain ⟨s1, hEq1, hreads, rfl⟩ := sendone_delreader hEq
        have h1 := h.sendone hEq1
        exact h1.succeed rfl (h1.lock.delreader (hreads ▸ hr)) locally_delreader
      · exact h.succeed rfl (h.lock.delreader hr) locally_delreader
    · exact h.succeed rfl (h.lock.delreader hr) locally_delreader
  | endwrite =>
    have hw : s.writes t = true := by simpa [hcall, Call.Allowed] using hallow
    simp only [execOnce, hcall]
    exact h.goto (h.lock.delwriter hw) locally_delwriter (hres ▸ TaskOk.sendall)
  | endAny =>
    have hheld : 0 < s.reads t ∨ s.writes t = true := by simpa [hcall, Call.Allowed] using hallow
    simp only [execOnce, hcall]
    by_cases hm : s.writeMode = true
    · have hw : s.writes t = true :=
        hheld.resolve_left fun hr => by simp [(h.lock.read_mode hr).1] at hm
      rw [if_pos hm]
      exact h.goto (h.lock.delwriter hw) locally_delwriter (hres ▸ TaskOk.sendall)
    have hr : 0 < s.reads t :=
      hheld.resolve_right fun hw => hm (h.lock.mode.mpr (.inl ⟨t, hw⟩))
    rw [if_neg hm]
    split
    · exact h.goto (h.lock.delreader hr) locally_delreader (hres ▸ TaskOk.sendall)
    · exact h.succeed rfl (h.lock.delreader hr) locally_delreader
  | downgrade =>
    have hw : s.writes t = true := by simpa [hcall, Call.Allowed] using hallow
    simp only [execOnce, hcall]
    exact h.goto (h.lock.downgradeOnly hw) locally_downgradeOnly (hres ▸ TaskOk.sendall)
  | tryupgrade =>
    have hr : 0 < s.reads t := by simpa [hcall, Call.Allowed] using hallow
    have hc := hok.tryupgrade hpc hcall
    simp only [execOnce, hcall, if_pos hc]
    exact h.succeed rfl (h.lock.upgradeOnly hr hc) locally_upgradeOnly
  | reset =>
    have hd := hok.reset hpc hcall
    simp only [execOnce, hcall, hd, Bool.false_eq_true, if_false]
    exact h.ret h.lock locally_refl (by simp [hcall, Call.Upgrades])
  | tryclose =>
    simp only [execOnce, hcall]
    split
    · exact h.ret h.lock locally_refl (by simp [hcall, Call.Upgrades])
    rename_i hbusy
    refine h.goto (hfree hbusy) locally_setwriter ?_
    constructor <;> simp [hcall, hres, State.setwriter]
  | beginread | beginwrite | upgrade | atomicUpgrade | close => simpa only [execOnce, hcall] using h

theorem execSendall_inv {count : Nat} (hpc : s.pc t = .sendall count) :
    Inv (execSendall s t count) := by
  have hres := (h.task t).running (by simp [hpc])
  rw [execSendall]
  split
  · rename_i s1 hEq
    have h1 := h.sendone hEq
    refine h1.goto h1.lock locally_refl ?_
    have hres1 : s1.result t = none := by
      rw [sendone] at hEq
      split at hEq
      · cases hEq
      · cases hEq; exact hres
    rw [hres1]
    exact TaskOk.sendall
  · split
    · exact h.succeed rfl h.lock locally_refl
    · exact h.succeed rfl h.lock locally_refl
    · refine h.ret h.lock locally_refl ?_
      split <;> simp [Errno.isErr]

theorem exec_inv (hok : Sound s t) (hEq : exec s t = some s') : Inv s' := by
  rw [exec] at hEq
  have htask := h.task t
  split at hEq
  any_goals cases hEq
  · rename_i hpc; exact execOnce_inv h hpc hok
  · rename_i hpc; exact execRead_inv h hpc hok
  · rename_i hpc; exact execWrite_inv h hpc
  · rename_i hpc; exact execUpgrade_inv h hpc
  · rename_i hpc; exact execUpgraded_inv h hpc
  · -- The closing task is the writer, so nobody has closed the lock before it.
    rename_i hpc
    have hw := htask.closing hpc
    have hd : ¬s.dead = true := by
      intro hd
      have := (h.lock.closed hd).2 t
      simp [hw] at this
    rw [if_neg hd]
    have hres := htask.running (by simp [hpc])
    exact h.goto (h.lock.kill hw) locally_kill (hres ▸ TaskOk.sendall)
  · rename_i hpc; exact execSendall_inv h hpc

theorem step_inv (hok : Sound s t) (hstep : Step s t a s') : Inv s' := by
  cases hstep with
  | call c hidle hallow =>
    refine ⟨{ h.lock with }, h.task.frame t (fun u hu => by simp [hu]) ?_⟩
    cases c <;> constructor <;> simp_all [Call.first, Call.Allowed]
  | exec hEq => exact exec_inv h hok hEq
  | fail e he hwait =>
    have htask := h.task t
    refine Inv.ret h ({ h.lock with })
      ⟨rfl, rfl, rfl, rfl, fun _ _ => rfl, fun _ _ => rfl⟩ ?_
    intro _ hup
    -- Only an upgrade waits in the queue after an upgrade call.
    rcases hwait with hpc | hpc | hpc
    · have := htask.reading (.inr hpc)
      simp [this, Call.Upgrades] at hup
    · exact htask.lost (.inr hpc) hup
    · exact htask.dropped (.inl hpc)

/-! ### Runs -/

/-- The states of all runs on a new lock whose steps are all `Sound`. -/
inductive Run : State T → Prop
  | start : Run State.init
  | step {s s' : State T} {t : T} {a : Action} : Run s → Sound s t → Step s t a s' → Run s'

/-- The states of all runs. -/
inductive AnyRun : State T → Prop
  | start : AnyRun State.init
  | step {s s' : State T} {t : T} {a : Action} : AnyRun s → Step s t a s' → AnyRun s'

omit h in
theorem Run.inv (h : Run s) : Inv s := by
  induction h with
  | start =>
    refine ⟨lockInv_init, fun t => ?_⟩
    constructor <;> simp [State.init]
  | step _ hok hstep ih => exact step_inv ih hok hstep

/-- What the lock promises in a state: a writer is alone, the reader counter
counts the read locks, write-mode is set exactly when one task writes or the lock
is closed, a failed upgrade has lost its read lock, and a lock that is neither
closed nor written can be acquired. -/
structure Contract (s : State T) : Prop where
  exclusion : ∀ t u, t ≠ u → s.writes t = true → s.reads u = 0 ∧ s.writes u = false
  counted : s.readc = ∑ t, s.reads t
  mode : s.writeMode = true ↔ (∃! t, s.writes t = true) ∨ s.dead = true
  failed : ∀ t e, s.result t = some e → e.isErr = true → (s.call t).Upgrades →
    s.reads t + 1 = s.entry t ∧ s.writes t = false
  available : s.dead = false → (∀ t, s.writes t = false) → ∀ t, s.pc t = .once →
    s.call t = .trybeginread → (execOnce s t).result t = some .keOk

theorem Inv.contract : Contract s := by
  obtain ⟨hlock, htask⟩ := h
  refine ⟨?_, hlock.readc_eq, ?_, fun t e hres he hup => (htask t).failed e hres he hup, ?_⟩
  · intro t u hne hw
    refine ⟨?_, ?_⟩
    · have := hlock.exclusive t hw
      have := reads_le_readc hlock u
      omega
    · by_contra hu
      exact hne (hlock.unique t u hw (by simpa using hu))
  · rw [hlock.mode]
    refine or_congr_left ⟨?_, fun hu => hu.exists⟩
    rintro ⟨t, ht⟩
    exact ⟨t, ht, fun u hu => hlock.unique u t hu ht⟩
  · intro hd hnow t hpc hcall
    have hm : ¬s.writeMode = true := by
      rw [hlock.mode]
      simp [hd, hnow]
    simp [execOnce, hcall, hm, State.ret]

/-- A closed lock that is reset stays in write-mode, without a writer. -/
theorem reset_breaks (hcall : s.call t = .reset) (hd : s.dead = true) :
    ¬Contract (execOnce s t) := by
  intro hc
  have hm : s.writeMode = true := h.lock.mode.mpr (.inr hd)
  have hnow := (h.lock.closed hd).2
  have := hc.mode.mp (by simp [execOnce, hcall, hd, State.ret, hm])
  simp [execOnce, hcall, hd, State.ret, hnow] at this

/-- An upgrade attempt that fails keeps its read lock. -/
theorem tryupgrade_breaks (hpc : s.pc t = .once) (hcall : s.call t = .tryupgrade)
    (hne : s.readc ≠ 1) : ¬Contract (execOnce s t) := by
  intro hc
  have := (h.task t).attempting hpc hcall
  have := (hc.failed t .keWouldblock (by simp [execOnce, hcall, hne, State.ret]) rfl
    (by simp [execOnce, hcall, hne, State.ret, Call.Upgrades])).1
  simp only [execOnce, hcall, if_neg hne, State.ret] at this
  omega

end

/-- A reader that overflows the counter makes it forget all readers. -/
theorem overflow_breaks (hover : s.readc + 1 = readerLimit) :
    ¬Contract ((s.addreader t).ret t .keOk) := by
  intro hc
  have hsum := Holders.sum_update s.reads t (s.reads t + 1)
  have := hc.counted
  simp only [State.addreader, State.ret, incr, if_pos hover] at this
  omega

/-- A step that keeps the contract is `Sound`. -/
theorem sound_of_contract (h : Inv s) (hstep : Step s t a s') (hc : Contract s') : Sound s t := by
  refine ⟨?_, ?_, ?_⟩
  · intro hpc hcall
    by_contra hd
    rw [hstep.exec_of_once hpc] at hc
    exact reset_breaks h hcall (by simpa using hd) hc
  · intro hread hm
    by_contra hlim
    have hover : s.readc + 1 = readerLimit := by
      have := h.lock.lt_limit
      omega
    rcases hread with hpc | ⟨hpc, hcall⟩
    · have hEq : s' = execRead s t := by
        simpa [RwLock.exec, hpc] using (hstep.exec_of_busy (.inr hpc)).symm
      rw [hEq, execRead, hm] at hc
      exact overflow_breaks hover hc
    · rw [hstep.exec_of_once hpc] at hc
      simp only [execOnce, hcall, hm] at hc
      exact overflow_breaks hover hc
  · intro hpc hcall
    by_contra hne
    rw [hstep.exec_of_once hpc] at hc
    exact tryupgrade_breaks h hpc hcall hne hc

/-- **The read/write lock keeps its contract exactly as long as every step is
`Sound`.** The contract holds in every state of a run of such steps, and a further
step keeps it if and only if it is one. -/
theorem krwlock_run (h : Run s) :
    Contract s ∧ ∀ t a s', Step s t a s' → (Contract s' ↔ Sound s t) := by
  have hi := h.inv
  refine ⟨hi.contract, fun t a s' hstep => ⟨sound_of_contract hi hstep, fun hok => ?_⟩⟩
  exact (step_inv hi hok hstep).contract

/-- While one task reads, another waits to write. -/
theorem krwlock_run_writer_waits :
    ∃ s : State Bool, s.reads false = 1 ∧ s.waiting = [true] ∧ Contract s := by
  have hread : Run (T := Bool) _ :=
    .step (t := false) (.step (t := false) .start
      ⟨by simp [State.init], by simp [State.init], by simp [State.init]⟩
      (.call .beginread rfl trivial))
      ⟨by simp [State.init, Call.first], by simp [State.init, readerLimit],
        by simp [State.init, Call.first]⟩
      (.exec rfl)
  have hwait : Run (T := Bool) _ :=
    .step (t := true) (.step (t := true) hread
      ⟨by simp [execRead, State.init, State.ret, State.addreader],
        by simp [execRead, State.init, State.ret, State.addreader],
        by simp [execRead, State.init, State.ret, State.addreader]⟩
      (.call .beginwrite rfl trivial))
      ⟨by simp [Call.first], by simp [Call.first], by simp [Call.first]⟩
      (.exec rfl)
  exact ⟨_, rfl, rfl, (krwlock_run hwait).1⟩

/-- A lock is closed and reset. The reset succeeds and nobody holds the lock, but
write-mode is still set, and the next attempt to read is told to wait. -/
theorem krwlock_reset_unusable :
    ∃ s : State Unit, AnyRun s ∧ s.call () = .reset ∧ s.result () = some .keOk ∧
      s.writes () = false ∧ s.reads () = 0 ∧ s.dead = false ∧ s.writeMode = true ∧
      ¬Contract s ∧
      ∃ s', AnyRun s' ∧ s'.call () = .trybeginread ∧ s'.result () = some .keWouldblock := by
  have hcall := AnyRun.step AnyRun.start (.call (t := ()) .close rfl trivial)
  have hwriter := hcall.step (.exec (t := ()) rfl)
  have hkilled := hwriter.step (.exec (t := ()) rfl)
  have hclosed := hkilled.step (.exec (t := ()) rfl)
  have hreset := (hclosed.step (.call (t := ()) .reset rfl trivial)).step (.exec (t := ()) rfl)
  have htry := (hreset.step (.call (t := ()) .trybeginread rfl trivial)).step (.exec (t := ()) rfl)
  refine ⟨_, hreset, rfl, rfl, rfl, rfl, rfl, rfl, ?_, _, htry, rfl, rfl⟩
  intro hc
  have := hc.mode.mp rfl
  simp [execOnce, execSendall, execWrite, sendone, State.ret, State.goto, State.kill,
    State.setwriter, State.init, Call.first] at this

end KosKernel.RwLock
