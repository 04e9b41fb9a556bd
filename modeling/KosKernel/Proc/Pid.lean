import KosKernel.Lib.Slots

/-!
# KosKernel.Proc.Pid

**Process ids** (`kernel/sched/proc-pid.c.inl`). The id of a process is its index in the vector of
all processes. `pl_free` hints at a free slot; the slot "may be used, or out-of-bounds", but the
second search of `kproclist_addproc` and the test in `kproclist_delproc` go up to it all the same.

An access outside of the vector is `none`. Each call is told whether its allocation succeeds.
-/

namespace KosKernel.Pid

open Function List Slots

inductive Errno where
  | keOk
  | keNomem
  | keOverflow
  deriving DecidableEq, Repr

/-- `PID_MAX` -/
def pidMax : Nat := 2147483647

/-- `struct kproclist`, where `pl_proca` is the length of the vector, and every `p_pid` -/
structure Kproclist (P : Type) where
  plFree : Nat
  plProcv : List (Option P)
  pPid : P → Nat

variable {P : Type} [DecidableEq P]

/-- The loops over the slots; reading one outside of the vector fails. -/
def searchFree (procv : List (Option P)) : List Nat → Option (Option Nat)
  | [] => some none
  | result :: slots =>
    match procv[result]? with
    | none => none
    | some none => some (some result)
    | some (some _) => searchFree procv slots

/-- From `found:` on -/
def foundSlot (s : Kproclist P) (newvec : List (Option P)) (result : Nat) (proc : P) :
    Kproclist P × Errno :=
  if result > pidMax then
    ({ s with plFree := result, plProcv := newvec.set result none }, .keOverflow)
  else
    (⟨result + 1, newvec.set result (some proc), update s.pPid proc result⟩, .keOk)

/-- `kproclist_addproc`; the slots before `pl_free` are searched after those from it on. -/
def kproclistAddproc (s : Kproclist P) (proc : P) (granted : Bool) :
    Option (Kproclist P × Errno) :=
  let proca := s.plProcv.length
  (searchFree s.plProcv (range' s.plFree (proca - s.plFree) ++ range s.plFree)).map fun
    | some result => foundSlot s s.plProcv result proc
    | none =>
      let newsize := if proca ≠ 0 then proca * 2 else 2
      if granted then
        foundSlot s (s.plProcv ++ replicate (newsize - proca) none) proca proc
      else (s, .keNomem)

/-- `kproclist_delproc`; without processes the vector is freed, which cannot fail. -/
def kproclistDelproc (s : Kproclist P) (proc : P) (granted : Bool) : Option (Kproclist P) :=
  let procpid := s.pPid proc
  let procv := s.plProcv.set procpid none
  if s.plProcv[procpid]? = some (some proc) then
    if procpid + 1 = s.plProcv.length then
      some { s with plProcv := if granted ∨ trim procv = [] then trim procv else procv }
    else if s.plFree > s.plProcv.length then
      some { s with plFree := procpid, plProcv := procv }
    else
      (procv[s.plFree]?).map fun used =>
        { s with plFree := if used.isSome then procpid else s.plFree, plProcv := procv }
  else some s

/-- `kproclist_getproc_k`, of a process that a reference can be taken of -/
def kproclistGetprocK (s : Kproclist P) (pid : Nat) : Option P :=
  if pid ≥ s.plProcv.length then none else slot s.plProcv pid

/-! ### Runs -/

inductive Call (P : Type) where
  | addproc (proc : P) (granted : Bool)
  | delproc (proc : P) (granted : Bool)

def exec (s : Kproclist P) : Call P → Option (Kproclist P × Errno)
  | .addproc proc granted => kproclistAddproc s proc granted
  | .delproc proc granted => (kproclistDelproc s proc granted).map (·, .keOk)

/-- The processes that are alive after a call -/
def Call.alive (live : Set P) (e : Errno) : Call P → Set P
  | .addproc proc _ => if e = .keOk then insert proc live else live
  | .delproc proc _ => live \ {proc}

/-- **When the hint does no harm**: it is not behind the vector or there is a free slot anyway,
and when a process other than the last one is deleted, it is not just at the end. -/
def Sound (s : Kproclist P) : Call P → Prop
  | .addproc _ _ => s.plFree ≤ s.plProcv.length ∨ ∃ i : Nat, s.plProcv[i]? = some none
  | .delproc proc _ => s.plProcv[s.pPid proc]? = some (some proc) →
      s.pPid proc + 1 = s.plProcv.length ∨ s.plFree ≠ s.plProcv.length

/-- What calls make of the list that `kernel_initialize_process` sets up, and of the set of the
processes that are alive, if they all meet the condition. -/
inductive Run (kernel : P) : Kproclist P → Set P → Prop
  | init {pid : P → Nat} (hpid : pid kernel = 0) : Run kernel ⟨0, [some kernel], pid⟩ {kernel}
  | step {s s' : Kproclist P} {live : Set P} {c : Call P} {e : Errno} (h : Run kernel s live)
      (hsound : Sound s c) (hexec : exec s c = some (s', e)) : Run kernel s' (c.alive live e)

variable {s s' : Kproclist P} {live : Set P} {proc kernel : P} {granted : Bool} {e : Errno}

/-- The slot that a live process has an id of is its own. -/
def Listed (s : Kproclist P) (live : Set P) : Prop :=
  ∀ p ∈ live, slot s.plProcv (s.pPid p) = some p

/-! ### Adding a process -/

omit [DecidableEq P] in
theorem searchFree_free {slots : List Nat} {r : Nat}
    (h : searchFree s.plProcv slots = some (some r)) : s.plProcv[r]? = some none := by
  induction slots with
  | nil => cases h
  | cons result slots ih =>
    rw [searchFree] at h
    split at h
    · cases h
    · rename_i hfree
      cases h
      exact hfree
    · exact ih h

omit [DecidableEq P] in
/-- The search of an interval that begins in the vector leaves it if there is no free slot. -/
theorem searchFree_eq_none {n i : Nat} (hi : i ≤ s.plProcv.length) :
    searchFree s.plProcv (range' i n) = none ↔
      s.plProcv.length < i + n ∧ ∀ j : Nat, i ≤ j → s.plProcv[j]? ≠ some none := by
  induction n generalizing i with
  | zero => exact iff_of_false (by simp [searchFree]) (by omega)
  | succ n ih =>
    rw [range'_succ, searchFree]
    split
    · rename_i hget
      have hend := List.getElem?_eq_none_iff.mp hget
      refine iff_of_true rfl ⟨by omega, fun j hj => ?_⟩
      rw [getElem?_eq_none (by omega)]
      exact (Option.some_ne_none _).symm
    · rename_i hget
      exact iff_of_false (Option.some_ne_none _) fun hall => hall.2 i le_rfl hget
    · rename_i p hget
      rw [ih (List.getElem?_eq_some_iff.mp hget).1]
      refine and_congr (by omega) ⟨fun hall j hj => ?_, fun hall j hj => hall j (by omega)⟩
      rcases Nat.eq_or_lt_of_le hj with rfl | hj
      · simp [hget]
      · exact hall j hj

omit [DecidableEq P] in
theorem searchFree_inside {slots : List Nat} (h : ∀ i ∈ slots, i < s.plProcv.length) :
    searchFree s.plProcv slots ≠ none := by
  induction slots with
  | nil => exact Option.some_ne_none _
  | cons result slots ih =>
    rw [searchFree, getElem?_eq_getElem (h result mem_cons_self)]
    split
    · cases ‹_›
    · exact Option.some_ne_none _
    · exact ih fun i hi => h i (mem_cons_of_mem _ hi)

theorem foundSlot_listed {newvec : List (Option P)} {result : Nat} (h : Listed s live)
    (hslot : slot newvec = slot s.plProcv) (hfree : newvec[result]? = some none)
    (hfound : foundSlot s newvec result proc = (s', e)) :
    Listed s' ((Call.addproc proc granted).alive live e) := by
  obtain ⟨hlt, -⟩ := List.getElem?_eq_some_iff.mp hfree
  have hne : ∀ p ∈ live, s.pPid p ≠ result := by
    rintro p hp rfl
    have hused := h p hp
    rw [← hslot, slot, hfree] at hused
    cases hused
  rw [foundSlot] at hfound
  split_ifs at hfound <;> cases hfound
  · rw [Call.alive, if_neg (by decide)]
    intro p hp
    rw [slot_set hlt, update_of_ne (hne p hp), hslot]
    exact h p hp
  · rw [Call.alive, if_pos rfl]
    intro p hp
    dsimp only
    rw [slot_set hlt]
    by_cases heq : p = proc
    · rw [heq, update_self, update_self]
    · have hlive : p ∈ live := hp.resolve_left heq
      rw [update_of_ne heq, update_of_ne (hne p hlive), hslot]
      exact h p hlive

omit [DecidableEq P] in
theorem slot_append_replicate (procv : List (Option P)) (n : Nat) :
    slot (procv ++ replicate n none) = slot procv := by
  induction n with
  | zero => rw [replicate_zero, append_nil]
  | succ n ih => rw [replicate_succ', ← append_assoc, slot_append_none, ih]

theorem kproclistAddproc_listed (h : Listed s live)
    (hadd : kproclistAddproc s proc granted = some (s', e)) :
    Listed s' ((Call.addproc proc granted).alive live e) := by
  obtain ⟨found, hsearch, hfound⟩ := Option.map_eq_some_iff.mp hadd
  cases found with
  | some result => exact foundSlot_listed h rfl (searchFree_free hsearch) hfound
  | none =>
    cases granted with
    | false =>
      cases hfound
      exact h
    | true =>
      refine foundSlot_listed h (slot_append_replicate _ _) ?_ hfound
      rw [getElem?_append_right le_rfl, Nat.sub_self, getElem?_replicate, if_pos]
      split_ifs <;> omega

theorem kproclistAddproc_eq_none : kproclistAddproc s proc granted = none ↔
    s.plProcv.length < s.plFree ∧ ∀ i : Nat, s.plProcv[i]? ≠ some none := by
  rw [kproclistAddproc, Option.map_eq_none_iff]
  rcases Nat.lt_or_ge s.plProcv.length s.plFree with hbehind | hle
  · rw [Nat.sub_eq_zero_of_le hbehind.le, range'_zero, nil_append, range_eq_range',
      searchFree_eq_none (Nat.zero_le _)]
    simp
  · refine iff_of_false (searchFree_inside fun i hi => ?_) fun h => Nat.not_lt.mpr hle h.1
    rw [mem_append, mem_range'_1, mem_range] at hi
    omega

/-! ### Deleting a process -/

/-- A listed process that is deleted loses its slot, and nothing else changes. -/
theorem kproclistDelproc_slot (hused : s.plProcv[s.pPid proc]? = some (some proc))
    (hdel : kproclistDelproc s proc granted = some s') :
    slot s'.plProcv = update (slot s.plProcv) (s.pPid proc) none ∧ s'.pPid = s.pPid := by
  obtain ⟨hlt, -⟩ := List.getElem?_eq_some_iff.mp hused
  have hset := slot_set hlt none
  simp only [kproclistDelproc, if_pos hused] at hdel
  split_ifs at hdel with hlast hshrink hbehind
  · cases hdel
    exact ⟨(slot_trim _).trans hset, rfl⟩
  · cases hdel
    exact ⟨hset, rfl⟩
  · cases hdel
    exact ⟨hset, rfl⟩
  · obtain ⟨used, -, rfl⟩ := Option.map_eq_some_iff.mp hdel
    exact ⟨hset, rfl⟩

theorem kproclistDelproc_listed (h : Listed s live)
    (hdel : kproclistDelproc s proc granted = some s') : Listed s' (live \ {proc}) := by
  rintro p ⟨hp, hne⟩
  by_cases hused : s.plProcv[s.pPid proc]? = some (some proc)
  · obtain ⟨hslot, hpid⟩ := kproclistDelproc_slot hused hdel
    rw [hslot, hpid, update_of_ne, h p hp]
    intro heq
    have hp := h p hp
    rw [heq, slot_eq_some_iff.mpr hused] at hp
    exact hne (Option.some.inj hp).symm
  · rw [kproclistDelproc, if_neg hused] at hdel
    cases hdel
    exact h p hp

theorem kproclistDelproc_eq_none : kproclistDelproc s proc granted = none ↔
    s.plProcv[s.pPid proc]? = some (some proc) ∧ s.pPid proc + 1 ≠ s.plProcv.length ∧
      s.plFree = s.plProcv.length := by
  rw [kproclistDelproc]
  split_ifs with hused hlast hbehind
  · exact iff_of_false id fun hall => hall.2.1 hlast
  · exact iff_of_false id fun hall => by omega
  · rw [Option.map_eq_none_iff, List.getElem?_eq_none_iff, length_set]
    exact ⟨fun hle => ⟨hused, hlast, by omega⟩, fun hall => hall.2.2.ge⟩
  · exact iff_of_false id fun hall => hused hall.1

/-! ### Every run -/

theorem exec_isSome (s : Kproclist P) (c : Call P) : (exec s c).isSome ↔ Sound s c := by
  rw [Option.isSome_iff_ne_none, ← not_iff_comm]
  cases c with
  | addproc proc granted =>
    rw [exec, kproclistAddproc_eq_none, Sound, not_or, not_le, not_exists]
  | delproc proc granted =>
    rw [exec, Option.map_eq_none_iff, kproclistDelproc_eq_none, Sound, Classical.not_imp, not_or,
      not_ne_iff]

theorem Run.listed (h : Run kernel s live) : Listed s live := by
  induction h with
  | init hpid =>
    rintro p rfl
    dsimp only
    rw [hpid]
    rfl
  | @step s s' live c e _ _ hexec ih =>
    cases c with
    | addproc proc granted => exact kproclistAddproc_listed ih hexec
    | delproc proc granted =>
      obtain ⟨s', hdel, heq⟩ := Option.map_eq_some_iff.mp hexec
      cases heq
      exact kproclistDelproc_listed ih hdel

/-- **Process ids**: in every run whose calls all meet the condition, no two live processes have
the same id and the id of each leads to it; and a further call stays inside of the vector iff it
meets the condition. -/
theorem kproclist_pids_right (h : Run kernel s live) :
    (∀ p ∈ live, ∀ q ∈ live, s.pPid p = s.pPid q → p = q) ∧
      (∀ p ∈ live, kproclistGetprocK s (s.pPid p) = some p) ∧
      ∀ c, (exec s c).isSome ↔ Sound s c := by
  refine ⟨fun p hp q hq heq => ?_, fun p hp => ?_, exec_isSome s⟩
  · have hq := h.listed q hq
    rw [← heq, h.listed p hp] at hq
    exact Option.some.inj hq
  · have hslot := h.listed p hp
    rw [kproclistGetprocK, if_neg (Nat.not_le.mpr (lt_length_of_slot hslot)), hslot]

/-- The theorem after a process was started next to that of the kernel. -/
theorem kproclist_pids_right_two : ∃ s : Kproclist Bool, s.plProcv = [some false, some true] ∧
    kproclistGetprocK s (s.pPid true) = some true := by
  have started := Run.step (@Run.init Bool _ false (fun _ => 0) rfl)
    (c := .addproc true true) (.inl (Nat.zero_le _)) rfl
  exact ⟨_, rfl, (kproclist_pids_right started).2.1 true (.inl rfl)⟩

/-- **A process is started, ends, and another one is started**: the second search reads the slot
that the vector no longer has. And of three processes, the first one cannot be deleted without
a look at the slot behind the vector. -/
theorem kproclist_pids_stale :
    (∃ s : Kproclist (Fin 4), [Call.addproc 1 true, .delproc 1 true].foldlM
      (fun s c => (exec s c).map Prod.fst) ⟨0, [some 0], fun _ => 0⟩ = some s ∧
      s.plProcv = [some 0] ∧ s.plFree = 2 ∧ exec s (.addproc 2 true) = none) ∧
    ∃ s : Kproclist (Fin 4), [Call.addproc 1 true, .addproc 2 true, .addproc 3 true].foldlM
      (fun s c => (exec s c).map Prod.fst) ⟨0, [some 0], fun _ => 0⟩ = some s ∧
      s.plProcv.length = 4 ∧ exec s (.delproc 1 true) = none :=
  ⟨⟨_, rfl, rfl, rfl, rfl⟩, _, rfl, rfl, rfl⟩

end KosKernel.Pid
