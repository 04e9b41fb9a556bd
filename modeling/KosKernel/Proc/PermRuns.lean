import KosKernel.Proc.Perm

/-!
# KosKernel.Proc.PermRuns

**Permissions only shrink**, along every interleaving of the calls of a process, as long
as no exchange puts a level behind the word it is packed into, or a priority bound across
the other one. The second cannot happen to a call that runs alone.
-/

namespace KosKernel.Perm

open Function

variable {T : Type} {p p' : Procperm} {c c' : Call}

/-- Nothing is given back. -/
structure Shrinks (p p' : Procperm) : Prop where
  priomin : p.ppPriomin ≤ p'.ppPriomin
  priomax : p'.ppPriomax ≤ p.ppPriomax
  flags : ∀ group i, (p'.ppFlags group).getLsbD i = true → (p.ppFlags group).getLsbD i = true
  sizes : ∀ field : SizeField, field.get p' ≤ field.get p
  limits : ∀ field : LockField, field.get p' ≤ field.get p
  level : logpriv p.ppState ≤ logpriv p'.ppState

theorem Shrinks.refl (p : Procperm) : Shrinks p p :=
  ⟨le_refl _, le_refl _, fun _ _ h => h, fun _ => le_refl _, fun _ => le_refl _, le_refl _⟩

theorem Shrinks.trans {p'' : Procperm} (h : Shrinks p p') (h' : Shrinks p' p'') : Shrinks p p'' :=
  ⟨h.priomin.trans h'.priomin, h'.priomax.trans h.priomax,
    fun group i hi => h.flags group i (h'.flags group i hi),
    fun field => (h'.sizes field).trans (h.sizes field),
    fun field => (h'.limits field).trans (h.limits field), h.level.trans h'.level⟩

/-! ### The syslog level -/

/-- The level that ends up in the word is the requested one without its upper bits. -/
theorem logpriv_newstate (perm : Kperm) (oldstate : BitVec 32) :
    logpriv (Call.newstate perm oldstate) = perm.pData.toNat % 16 := by
  have hlow : (oldstate &&& ~~~logprivMask).toNat < 2 ^ 28 := by
    exact lt_of_le_of_lt Nat.and_le_right (by decide)
  rw [logpriv, Call.newstate, logprivShift, BitVec.toNat_ushiftRight, BitVec.toNat_or,
    BitVec.toNat_shiftLeft, Nat.shiftRight_or_distrib, Nat.shiftRight_eq_div_pow,
    Nat.div_eq_of_lt hlow, Nat.zero_or, Nat.shiftLeft_eq, Nat.shiftRight_eq_div_pow]
  omega

/-! ### What a task knows -/

/-- What a task knows from its loads. Bounds only move towards each other, so it stays
true. -/
def Knows (p : Procperm) (c : Call) : Prop :=
  match c.pc with
  | .minLoadMax oldMinval => oldMinval ≤ p.ppPriomin ∧ oldMinval ≤ c.perm.dPrio
  | .minKeepMax oldMinval oldMaxval => oldMinval ≤ oldMaxval ∧ oldMinval ≤ c.perm.dPrio
  | .minSwap oldMinval oldMaxval => oldMinval ≤ oldMaxval ∧ oldMinval ≤ c.perm.dPrio
  | .maxLoadMin oldMaxval => p.ppPriomax ≤ oldMaxval ∧ c.perm.dPrio ≤ oldMaxval
  | .maxKeepMin oldMinval oldMaxval => oldMinval ≤ oldMaxval ∧ c.perm.dPrio ≤ oldMaxval
  | .maxSwap oldMinval oldMaxval => oldMinval ≤ oldMaxval ∧ c.perm.dPrio ≤ oldMaxval
  | .sizeSwap _ oldval => c.perm.dSize ≤ oldval
  | _ => True

theorem Knows.shrink (h : Knows p c) (hs : Shrinks p p') : Knows p' c := by
  unfold Knows at *
  split at h
  · exact ⟨h.1.trans hs.priomin, h.2⟩
  · exact h
  · exact h
  · exact ⟨hs.priomax.trans h.1, h.2⟩
  · exact h
  · exact h
  · exact h
  · trivial

/-- An exchange is right: a priority bound does not get across the other one, and the level
not below the old one. -/
def SwapSound (p : Procperm) (c : Call) : Prop :=
  match c.pc with
  | .minSwap oldMinval oldMaxval =>
    p.ppPriomin = oldMinval → min c.perm.dPrio oldMaxval ≤ p.ppPriomax
  | .maxSwap oldMinval oldMaxval =>
    p.ppPriomax = oldMaxval → p.ppPriomin ≤ max c.perm.dPrio oldMinval
  | .syslogSwap oldstate =>
    p.ppState = oldstate → logpriv oldstate ≤ c.perm.pData.toNat % 16
  | _ => True

theorem shrinks_flags (p : Procperm) (group : Nat) (mask : BitVec 16) :
    Shrinks p { p with
      ppFlags := update p.ppFlags group (p.ppFlags group &&& ~~~mask) } := by
  refine ⟨le_refl _, le_refl _, fun g i hi => ?_, fun field => ?_, fun field => ?_, le_refl _⟩
  · change (update p.ppFlags group (p.ppFlags group &&& ~~~mask) g).getLsbD i = true at hi
    by_cases hg : g = group
    · rw [hg, update_self, BitVec.getLsbD_and] at hi
      rw [hg]
      exact (Bool.and_eq_true_iff.mp hi).1
    · rwa [update_of_ne hg] at hi
  · cases field <;> exact le_refl _
  · cases field <;> exact le_refl _

theorem shrinks_size {field : SizeField} {x : Nat} (hx : x ≤ field.get p) :
    Shrinks p (field.set p x) := by
  have hsizes : ∀ field' : SizeField, field'.get (field.set p x) ≤ field'.get p := by
    intro field'
    cases field <;> cases field' <;> first | exact le_refl _ | exact hx
  cases field <;>
    exact ⟨le_refl _, le_refl _, fun _ _ h => h, hsizes, fun field' => by cases field' <;> rfl,
      le_refl _⟩

/-- A limit is changed and its lock released, or the other way round. -/
theorem shrinks_limit {field : LockField} {x : Nat} (hx : x ≤ field.get p) (locked : Bool) :
    Shrinks p (field.setLocked (field.set p x) locked) := by
  have hlimits : ∀ field' : LockField,
      field'.get (field.setLocked (field.set p x) locked) ≤ field'.get p := by
    intro field'
    cases field <;> cases field' <;> first | exact le_refl _ | exact hx
  cases field <;>
    exact ⟨le_refl _, le_refl _, fun _ _ h => h, fun field' => by cases field' <;> rfl, hlimits,
      le_refl _⟩

theorem shrinks_locked (field : LockField) (locked : Bool) :
    Shrinks p (field.setLocked p locked) := by
  have hlimit := shrinks_limit (le_refl (field.get p)) locked
  cases field <;> exact hlimit

theorem shrinks_level {lo hi : Int} {state : BitVec 32} (hlo : p.ppPriomin ≤ lo)
    (hhi : hi ≤ p.ppPriomax) (hstate : logpriv p.ppState ≤ logpriv state) :
    Shrinks p { p with ppPriomin := lo, ppPriomax := hi, ppState := state } :=
  ⟨hlo, hhi, fun _ _ h => h, fun field => by cases field <;> rfl,
    fun field => by cases field <;> rfl, hstate⟩

/-! ### One step -/

/-- A program point before any load. -/
def Pc.fresh : Pc → Bool
  | .start | .minLoad | .maxLoad | .sizeLoad _ | .lockBody _ | .syslogLoad | .done _ => true
  | _ => false

theorem Knows.of_fresh (h : c.pc.fresh = true) : Knows p c := by
  obtain ⟨xch, perm, pc⟩ := c
  cases pc <;> trivial

theorem switch_cases (h : c.switch p = some (p', c')) :
    c'.pc.fresh = true ∧ (p' = p ∨
      (∃ group mask, p' = { p with
        ppFlags := update p.ppFlags group (p.ppFlags group &&& ~~~mask) }) ∨
      ∃ field : LockField, p' = field.setLocked p true) := by
  have hsized : ∀ {size : Nat} {pc : Pc},
      some (p, if c.perm.pSize < size then c.fail .keBufsiz else c.goto pc) = some (p', c') →
      pc.fresh = true → c'.pc.fresh = true ∧ p' = p := by
    intro size pc heq hpc
    cases heq
    refine ⟨?_, rfl⟩
    split_ifs
    · rfl
    · exact hpc
  have hlock : ∀ field : LockField, (if field.locked p then none
      else some (field.setLocked p true, c.goto (.lockBody field))) = some (p', c') →
      c'.pc.fresh = true ∧ ∃ field : LockField, p' = field.setLocked p true := by
    intro field heq
    split_ifs at heq
    cases heq
    exact ⟨rfl, field, rfl⟩
  have hnone : some (p, if c.perm.pSize < 4 then c.fail .keBufsiz
      else c.ok (c.perm.setData 0xffffffff#32)) = some (p', c') →
      c'.pc.fresh = true ∧ p' = p := by
    intro heq
    cases heq
    refine ⟨?_, rfl⟩
    split_ifs <;> rfl
  unfold Call.switch at h
  simp only at h
  split at h
  · split_ifs at h <;> cases h
    · exact ⟨rfl, .inl rfl⟩
    · exact ⟨rfl, .inl rfl⟩
    · exact ⟨rfl, .inl rfl⟩
    · exact ⟨rfl, .inr (.inl ⟨_, _, rfl⟩)⟩
  iterate 5 · exact (hsized h rfl).imp_right .inl
  iterate 2 · exact (hlock _ h).imp_right fun hl => .inr (.inr hl)
  · exact (hsized h rfl).imp_right .inl
  iterate 2 · exact (hnone h).imp_right .inl
  · cases h
    exact ⟨rfl, .inl rfl⟩

/-- **One access**: permissions shrink and the bounds stay in order if and only if the
exchange, if it is one, is right. -/
theorem step_shrinks_iff (hp : p.ppPriomin ≤ p.ppPriomax) (hc : Knows p c)
    (h : c.step p = some (p', c')) :
    Shrinks p p' ∧ p'.ppPriomin ≤ p'.ppPriomax ↔ SwapSound p c := by
  have htrue : ∀ {q : Prop}, q → (q ↔ True) := fun hq => iff_true_intro hq
  obtain ⟨xch, perm, pc⟩ := c
  cases pc with
  | start =>
    -- At the `switch` no bound is exchanged.
    obtain ⟨-, rfl | ⟨group, mask, rfl⟩ | ⟨field, rfl⟩⟩ := switch_cases h
    · exact htrue ⟨.refl _, hp⟩
    · exact htrue ⟨shrinks_flags _ group mask, hp⟩
    · exact htrue ⟨shrinks_locked field true, by cases field <;> exact hp⟩
  | minLoad | minLoadMax _ | minKeepMax _ _ | maxLoad | maxLoadMin _ | maxKeepMin _ _
  | sizeLoad _ | syslogLoad =>
    cases h
    exact htrue ⟨.refl p, hp⟩
  | minSwap oldMinval oldMaxval =>
    obtain ⟨hle, hprio⟩ : oldMinval ≤ oldMaxval ∧ oldMinval ≤ perm.dPrio := hc
    simp only [Call.step] at h
    split_ifs at h with heq <;> cases h
    · exact ⟨fun hs _ => hs.2, fun hs => ⟨shrinks_level (by omega) le_rfl le_rfl, hs heq⟩⟩
    · exact ⟨fun _ he => absurd he heq, fun _ => ⟨.refl p, hp⟩⟩
  | maxSwap oldMinval oldMaxval =>
    obtain ⟨hle, hprio⟩ : oldMinval ≤ oldMaxval ∧ perm.dPrio ≤ oldMaxval := hc
    simp only [Call.step] at h
    split_ifs at h with heq <;> cases h
    · exact ⟨fun hs _ => hs.2, fun hs => ⟨shrinks_level le_rfl (by omega) le_rfl, hs heq⟩⟩
    · exact ⟨fun _ he => absurd he heq, fun _ => ⟨.refl p, hp⟩⟩
  | sizeSwap field oldval =>
    simp only [Call.step] at h
    split_ifs at h with heq <;> cases h
    · have hle : perm.dSize ≤ field.get p := heq ▸ hc
      exact htrue ⟨shrinks_size hle, by cases field <;> exact hp⟩
    · exact htrue ⟨.refl p, hp⟩
  | lockBody field =>
    simp only [Call.step] at h
    split_ifs at h with hsize hlt <;> cases h
    · exact htrue ⟨.refl p, hp⟩
    · exact htrue ⟨.refl p, hp⟩
    · exact htrue ⟨shrinks_limit (not_lt.mp hlt) false, by cases field <;> exact hp⟩
  | syslogSwap oldstate =>
    simp only [Call.step] at h
    split_ifs at h with heq <;> cases h
    · have hlevel := logpriv_newstate perm oldstate
      refine ⟨fun hs _ => ?_, fun hs => ⟨shrinks_level le_rfl le_rfl ?_, hp⟩⟩
      · have hle : logpriv p.ppState ≤ logpriv (Call.newstate perm oldstate) := hs.1.level
        rw [heq, hlevel] at hle
        exact hle
      · rw [heq, hlevel]
        exact hs heq
    · exact ⟨fun _ he => absurd he heq, fun _ => ⟨.refl p, hp⟩⟩
  | done error => cases h

theorem Knows.step (hp : p.ppPriomin ≤ p.ppPriomax) (hc : Knows p c)
    (h : c.step p = some (p', c')) : Knows p' c' := by
  obtain ⟨xch, perm, pc⟩ := c
  cases pc with
  | start => exact .of_fresh (switch_cases h).1
  | minLoad | maxLoad =>
    cases h
    split_ifs with hlt
    · trivial
    · exact ⟨le_refl _, not_lt.mp hlt⟩
  | minLoadMax oldMinval =>
    cases h
    obtain ⟨hold, hprio⟩ := hc
    exact ⟨hold.trans hp, hprio⟩
  | minKeepMax _ _ | maxKeepMin _ _ =>
    cases h
    split_ifs
    · exact hc
    · trivial
  | maxLoadMin oldMaxval =>
    cases h
    obtain ⟨hold, hprio⟩ := hc
    exact ⟨hp.trans hold, hprio⟩
  | sizeLoad field =>
    cases h
    split_ifs with hlt
    · trivial
    · exact not_lt.mp hlt
  | syslogLoad =>
    cases h
    split_ifs <;> trivial
  | minSwap _ _ | maxSwap _ _ | sizeSwap _ _ | lockBody _ | syslogSwap _ =>
    simp only [Call.step] at h
    split_ifs at h <;> cases h <;> trivial
  | done error => cases h

/-! ### Runs -/

section

variable [DecidableEq T] {s s' : State T}

/-- The exchange that a task is about to make is right. -/
def Sound (s : State T) : Action T → Prop
  | .call .. => True
  | .access t => ∀ c, s.calls t = some c → SwapSound s.perm c

/-- The states that right steps reach. -/
inductive Run (s₀ : State T) : State T → Prop
  | refl : Run s₀ s₀
  | step {s s' : State T} {a : Action T} (h : Run s₀ s) (ha : Sound s a)
      (hstep : s.step a = some s') : Run s₀ s'

/-- The bounds are in order, and every task knows what it has loaded. -/
structure Inv (s : State T) : Prop where
  prio : s.perm.ppPriomin ≤ s.perm.ppPriomax
  knows : ∀ t c, s.calls t = some c → Knows s.perm c

theorem call_cases {t : T} {xch : Bool} {perm : Kperm} (h : s.step (.call t xch perm) = some s') :
    s' = { s with calls := update s.calls t (some ⟨xch, perm, .start⟩) } := by
  simp only [State.step] at h
  split at h
  · exact (Option.some.inj h).symm
  · exact (Option.some.inj h).symm
  · cases h

theorem access_cases {t : T} (h : s.step (.access t) = some s') :
    ∃ c p' c', s.calls t = some c ∧ c.step s.perm = some (p', c') ∧
      s' = ⟨p', update s.calls t (some c')⟩ := by
  simp only [State.step] at h
  split at h
  · cases h
  next c hc =>
    obtain ⟨⟨p', c'⟩, hstep, rfl⟩ := Option.map_eq_some_iff.mp h
    exact ⟨c, p', c', hc, hstep, rfl⟩

theorem State.step_shrinks_iff (h : Inv s) {a : Action T} (hstep : s.step a = some s') :
    Shrinks s.perm s'.perm ∧ s'.perm.ppPriomin ≤ s'.perm.ppPriomax ↔ Sound s a := by
  cases a with
  | call t xch perm =>
    rw [call_cases hstep]
    exact iff_true_intro ⟨.refl _, h.prio⟩
  | access t =>
    obtain ⟨c, p', c', hc, hacc, rfl⟩ := access_cases hstep
    refine (Perm.step_shrinks_iff h.prio (h.knows t c hc) hacc).trans ?_
    refine ⟨fun hs c'' hc'' => ?_, fun hs => hs c hc⟩
    rw [hc] at hc''
    cases hc''
    exact hs

theorem Inv.step (h : Inv s) {a : Action T} (ha : Sound s a) (hstep : s.step a = some s') :
    Inv s' := by
  obtain ⟨hshrinks, hprio⟩ := (State.step_shrinks_iff h hstep).mpr ha
  refine ⟨hprio, fun t' c hc => ?_⟩
  cases a with
  | call t xch perm =>
    rw [call_cases hstep] at hc ⊢
    by_cases ht : t' = t
    · subst ht
      cases (update_self ..).symm.trans hc
      trivial
    · exact h.knows t' c ((update_of_ne ht ..).symm.trans hc)
  | access t =>
    obtain ⟨c0, p', c', hc0, hacc, rfl⟩ := access_cases hstep
    by_cases ht : t' = t
    · subst ht
      cases (update_self ..).symm.trans hc
      exact (h.knows t' c0 hc0).step h.prio hacc
    · exact (h.knows t' c ((update_of_ne ht ..).symm.trans hc)).shrink hshrinks

theorem Run.inv {p : Procperm} (hp : p.ppPriomin ≤ p.ppPriomax)
    (h : Run (⟨p, fun _ => none⟩ : State T) s) : Inv s ∧ Shrinks p s.perm := by
  induction h with
  | refl => exact ⟨⟨hp, fun _ _ hc => by cases hc⟩, .refl p⟩
  | step _ ha hstep ih =>
    obtain ⟨hinv, hshrinks⟩ := ih
    exact ⟨hinv.step ha hstep,
      hshrinks.trans ((State.step_shrinks_iff hinv hstep).mpr ha).1⟩

/-- **Permissions only shrink** and the priority bounds stay in order, in every state that
right steps reach; and there a step keeps that if and only if it is right. -/
theorem kproc_perm_shrinks {p : Procperm} (hp : p.ppPriomin ≤ p.ppPriomax)
    (h : Run (⟨p, fun _ => none⟩ : State T) s) :
    s.perm.ppPriomin ≤ s.perm.ppPriomax ∧ Shrinks p s.perm ∧
      ∀ a s', s.step a = some s' →
        (Shrinks s.perm s'.perm ∧ s'.perm.ppPriomin ≤ s'.perm.ppPriomax ↔ Sound s a) := by
  obtain ⟨hinv, hshrinks⟩ := h.inv hp
  exact ⟨hinv.prio, hshrinks, fun _ _ hstep => State.step_shrinks_iff hinv hstep⟩

end

/-- `kprocperm_initroot`, with limits for the environment and the descriptors, and a syslog
level. -/
def rootPerm (level : BitVec 32) : Procperm where
  ppPriomin := -32768
  ppPriomax := 32767
  ppNamemax := 4294967295
  ppPipemax := 4294967295
  ppThrdmax := 4294967295
  ppFlags := fun _ => 0xffff#16
  ppState := level <<< logprivShift
  peMemmax := 4294967295
  fdmMax := 4294967295
  environLocked := false
  fdmanLocked := false

/-- A process at level 3 takes level 5. -/
theorem kproc_perm_shrinks_syslog : ∃ s : State Nat, Run ⟨rootPerm 3, fun _ => none⟩ s ∧
    logpriv s.perm.ppState = 5 ∧ s.perm.ppPriomin ≤ s.perm.ppPriomax ∧
    Shrinks (rootPerm 3) s.perm ∧ ∀ a s', s.step a = some s' →
      (Shrinks s.perm s'.perm ∧ s'.perm.ppPriomin ≤ s'.perm.ppPriomax ↔ Sound s a) := by
  have hcall : Run (⟨rootPerm 3, fun _ => none⟩ : State Nat) _ :=
    .step (a := .call 0 false ⟨6, 4, 5⟩) .refl trivial rfl
  have hswitch : Run _ _ := .step (a := .access 0) hcall (fun _ hc => by cases hc; trivial) rfl
  have hload : Run _ _ := .step (a := .access 0) hswitch (fun _ hc => by cases hc; trivial) rfl
  have hswap : Run _ _ := .step (a := .access 0) hload (fun _ hc => by
      cases hc
      exact fun _ => (show 3 ≤ 5 by decide)) rfl
  exact ⟨_, hswap, rfl, kproc_perm_shrinks (by decide) hswap⟩

/-- Level 16 is level 0 in the word, so a process at level 3 gets back what it gave away; and
when two tasks set the two bounds at once, the minimum ends up above the maximum. -/
theorem kproc_perm_set_regains :
    (∃ s : State Nat, List.foldlM State.step ⟨rootPerm 3, fun _ => none⟩
        [.call 0 false ⟨6, 4, 16⟩, .access 0, .access 0, .access 0] = some s ∧
      logpriv (rootPerm 3).ppState = 3 ∧ logpriv s.perm.ppState = 0) ∧
    ∃ s : State Nat, List.foldlM State.step ⟨rootPerm 0, fun _ => none⟩
        [.call 0 false ⟨2, 2, 5⟩, .access 0, .access 0, .access 0, .access 0,
          .call 1 false ⟨3, 2, 3⟩, .access 1, .access 1, .access 1, .access 1, .access 1,
          .access 0] = some s ∧
      s.perm.ppPriomin = 5 ∧ s.perm.ppPriomax = 3 :=
  ⟨⟨_, rfl, rfl, rfl⟩, _, rfl, rfl, rfl⟩

/-! ### A call that runs alone -/

/-- What is reached by a call while no other task makes a step. -/
inductive Alone : Procperm → Call → Prop
  | start (p : Procperm) (xch : Bool) (perm : Kperm) : Alone p ⟨xch, perm, .start⟩
  | step {p p' : Procperm} {c c' : Call} (h : Alone p c) (hstep : c.step p = some (p', c')) :
      Alone p' c'

/-- What was loaded is still there. -/
def Current (p : Procperm) (c : Call) : Prop :=
  match c.pc with
  | .minLoadMax oldMinval => p.ppPriomin = oldMinval
  | .minKeepMax oldMinval oldMaxval => p.ppPriomin = oldMinval ∧ p.ppPriomax = oldMaxval
  | .minSwap oldMinval oldMaxval => p.ppPriomin = oldMinval ∧ p.ppPriomax = oldMaxval
  | .maxLoadMin oldMaxval => p.ppPriomax = oldMaxval
  | .maxKeepMin oldMinval oldMaxval => p.ppPriomin = oldMinval ∧ p.ppPriomax = oldMaxval
  | .maxSwap oldMinval oldMaxval => p.ppPriomin = oldMinval ∧ p.ppPriomax = oldMaxval
  | .syslogSwap oldstate => (logpriv oldstate : Int) ≤ c.perm.dInt
  | _ => True

theorem Current.of_fresh (h : c.pc.fresh = true) : Current p c := by
  obtain ⟨xch, perm, pc⟩ := c
  cases pc <;> trivial

theorem Current.step (hc : Current p c) (h : c.step p = some (p', c')) : Current p' c' := by
  obtain ⟨xch, perm, pc⟩ := c
  cases pc with
  | start => exact .of_fresh (switch_cases h).1
  | minLoad | maxLoad =>
    cases h
    split_ifs
    · trivial
    · rfl
  | minLoadMax oldMinval =>
    cases h
    exact ⟨hc, rfl⟩
  | minKeepMax _ _ | maxKeepMin _ _ =>
    cases h
    split_ifs
    · exact hc
    · trivial
  | maxLoadMin oldMaxval =>
    cases h
    exact ⟨rfl, hc⟩
  | syslogLoad =>
    cases h
    split_ifs with hlt
    · trivial
    · exact not_lt.mp hlt
  | sizeLoad field =>
    cases h
    split_ifs <;> trivial
  | minSwap _ _ | maxSwap _ _ | sizeSwap _ _ | lockBody _ | syslogSwap _ =>
    simp only [Call.step] at h
    split_ifs at h <;> cases h <;> trivial
  | done error => cases h

theorem Alone.current (h : Alone p c) : Current p c := by
  induction h with
  | start => trivial
  | step _ hstep ih => exact ih.step hstep

/-- **A call that runs alone** never gets a bound across the other one; of its requests only
a syslog level that does not fit into four bits can be wrong. -/
theorem Alone.sound (h : Alone p c) (hlevel : c.perm.dInt < 16) : SwapSound p c := by
  have hcur := h.current
  obtain ⟨xch, perm, pc⟩ := c
  cases pc with
  | minSwap oldMinval oldMaxval =>
    obtain ⟨-, hmax⟩ : p.ppPriomin = oldMinval ∧ p.ppPriomax = oldMaxval := hcur
    exact fun _ => hmax ▸ min_le_right _ _
  | maxSwap oldMinval oldMaxval =>
    obtain ⟨hmin, -⟩ : p.ppPriomin = oldMinval ∧ p.ppPriomax = oldMaxval := hcur
    exact fun _ => hmin ▸ le_max_right _ _
  | syslogSwap oldstate =>
    intro _
    have hle : (logpriv oldstate : Int) ≤ perm.dInt := hcur
    have hdata : perm.dInt = perm.pData.toNat := by
      unfold Kperm.dInt at hle ⊢
      rw [BitVec.toInt_eq_toNat_cond] at hle ⊢
      split_ifs at hle ⊢ with hsmall
      · rfl
      · omega
    change perm.dInt < 16 at hlevel
    change logpriv oldstate ≤ perm.pData.toNat % 16
    omega
  | _ => trivial

end KosKernel.Perm
