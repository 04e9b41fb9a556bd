import KosKernel.Proc.Insmod

/-!
# KosKernel.Proc.InsmodSteps

What loading and unloading **one** module does to the table, read slot by slot, and to the mapped
sections. Nothing is said here about load counters being right; only the two functions that look
at a single module are opened.
-/

namespace KosKernel.Proc

open Function List

variable {L R : Type} [DecidableEq L] [DecidableEq R]

/-- The module in a slot -/
abbrev Modules.slot (s : Modules L R) : Nat → Option (Module L) := Slots.slot s.modv

/-- A library is in the table. -/
def Modules.Loaded (s : Modules L R) (l : L) : Prop := ∃ i e, s.slot i = some e ∧ e.lib = l

/-- What is mapped for a library loaded at `base` -/
def Libraries.sectionsAt (g : Libraries L R) (l : L) (base : Nat) : Multiset (Nat × R) :=
  ↑((g.secs l).map fun sec => (base + sec.1, sec.2))

/-- What is mapped for a module -/
def Libraries.sections (g : Libraries L R) (e : Module L) : Multiset (Nat × R) :=
  g.sectionsAt e.lib e.base

variable {g : Libraries L R} {fate : Fate} {s s' : Modules L R} {m : L} {id : Nat}

/-! ### Sections -/

omit [DecidableEq L] in
theorem kprocLoadmodsections_spec (fate : Fate) (base : Nat) (secs : List (Nat × R))
    (s : Modules L R) :
    ∃ r s', kprocLoadmodsections fate base secs s = (r, s') ∧ s'.modv = s.modv ∧
      s'.maps = if r = none then ↑(secs.map fun sec => (base + sec.1, sec.2)) + s.maps
        else s.maps := by
  induction secs generalizing s with
  | nil => exact ⟨none, s, rfl, rfl, by simp⟩
  | cons sec secs ih =>
    obtain ⟨albase, region⟩ := sec
    rw [kprocLoadmodsections]
    cases fate s.asked with
    | error e => exact ⟨some e, s.ask, rfl, rfl, rfl⟩
    | ok n =>
      obtain ⟨r, s', heq, hmodv, hmaps⟩ :=
        ih { s.ask with maps := (base + albase, region) ::ₘ s.maps }
      simp only [heq]
      cases r with
      | none =>
        refine ⟨none, s', rfl, hmodv, ?_⟩
        simpa [← Multiset.cons_coe] using hmaps
      | some e =>
        refine ⟨some e, _, rfl, hmodv, ?_⟩
        have hmaps' : s'.maps = (base + albase, region) ::ₘ s.maps := by simpa using hmaps
        simp [hmaps']

omit [DecidableEq L] in
theorem kprocUnloadmodsections_maps (base : Nat) (secs : List (Nat × R)) (s : Modules L R)
    {M : Multiset (Nat × R)}
    (h : s.maps = ↑(secs.map fun sec => (base + sec.1, sec.2)) + M) :
    (kprocUnloadmodsections base secs s).maps = M := by
  obtain ⟨modv, maps, asked⟩ := s
  simp only [kprocUnloadmodsections] at h ⊢
  induction secs generalizing maps with
  | nil => simpa using h
  | cons sec secs ih =>
    refine ih (maps.erase (base + sec.1, sec.2)) ?_
    rw [h]
    simp [← Multiset.cons_coe]

/-! ### Loading -/

theorem findModule_spec (m : L) (t pre : List (Option (Module L))) (free : Option Nat)
    (hfree : ∀ i, free = some i → i < (pre ++ t).length ∧ Slots.slot (pre ++ t) i = none)
    (hpre : ∀ i e, i < pre.length → Slots.slot (pre ++ t) i = some e → e.lib ≠ m) :
    (∃ i e, findModule m t pre.length free = .inl (i, e) ∧ Slots.slot (pre ++ t) i = some e ∧
      e.lib = m) ∨
    (∃ o, findModule m t pre.length free = .inr o ∧
      (∀ i e, Slots.slot (pre ++ t) i = some e → e.lib ≠ m) ∧
      ∀ i, o = some i → i < (pre ++ t).length ∧ Slots.slot (pre ++ t) i = none) := by
  induction t generalizing pre free with
  | nil =>
    refine .inr ⟨free, rfl, fun i e he => hpre i e ?_ he, hfree⟩
    simpa using Slots.lt_length_of_slot he
  | cons o t ih =>
    have hsplit : pre ++ o :: t = (pre ++ [o]) ++ t := by simp
    have hlast : Slots.slot (pre ++ o :: t) pre.length = o := by simp [Slots.slot]
    have hlen : (pre ++ [o]).length = pre.length + 1 := by simp
    cases o with
    | none =>
      rw [findModule, ← hlen]
      simp only [hsplit] at hfree hpre hlast ⊢
      refine ih (pre ++ [none]) (some pre.length) ?_ ?_
      · rintro i ⟨⟩
        exact ⟨by simp, hlast⟩
      · intro i e hi he
        rcases Nat.lt_or_ge i pre.length with hlt | hge
        · exact hpre i e hlt he
        obtain rfl : i = pre.length := by omega
        rw [hlast] at he
        cases he
    | some a =>
      rw [findModule]
      by_cases ha : a.lib = m
      · exact .inl ⟨pre.length, a, if_pos ha, hlast, ha⟩
      rw [if_neg ha, ← hlen]
      simp only [hsplit] at hfree hpre hlast ⊢
      refine ih (pre ++ [some a]) free hfree ?_
      intro i e hi he
      rcases Nat.lt_or_ge i pre.length with hlt | hge
      · exact hpre i e hlt he
      obtain rfl : i = pre.length := by omega
      rw [hlast] at he
      obtain rfl := Option.some.inj he
      exact ha

/-- The outcomes of setting up slot `i` for the library `m` in the state `s` -/
def SetUp (g : Libraries L R) (s : Modules L R) (m : L) (i : Nat)
    (out : ModRet × Nat × Modules L R) : Prop :=
  (∃ e s', out = (.err e, i, s') ∧ s'.slot = s.slot ∧ s'.maps = s.maps) ∨
  ∃ base s', out = (.ok, i, s') ∧
    s'.slot = update s.slot i (some ⟨m, 1, base, []⟩) ∧
    s'.maps = g.sectionsAt m base + s.maps

omit [DecidableEq L] [DecidableEq R] in
theorem setUp_fail {s1 : Modules L R} {i : Nat} (e : ModErrno) (hi : i < s1.modv.length)
    (hnone : s.slot i = none) (hslot : ∃ o, s1.slot = update s.slot i o)
    (hmaps : s1.maps = s.maps) :
    SetUp g s m i (.err e, i, { s1 with modv := s1.modv.set i none }) := by
  obtain ⟨o, hslot⟩ := hslot
  refine .inl ⟨e, _, rfl, ?_, hmaps⟩
  rw [Modules.slot, Slots.slot_set hi]
  show update s1.slot i none = s.slot
  rw [hslot, update_idem, ← hnone, update_eq_self]

omit [DecidableEq L] in
theorem setUp_load {s1 : Modules L R} {i : Nat} (base : Nat) (hi : i < s1.modv.length)
    (hnone : s.slot i = none) (hslot : s1.slot = s.slot) (hmaps : s1.maps = s.maps) :
    SetUp g s m i
      (match kprocLoadmodsections fate base (g.secs m)
          { s1 with modv := s1.modv.set i (some ⟨m, 1, base, []⟩) } with
        | (none, s) => (.ok, i, s)
        | (some e, s) => (.err e, i, { s with modv := s.modv.set i none })) := by
  obtain ⟨r, s', heq, hmodv, hmaps'⟩ := kprocLoadmodsections_spec fate base (g.secs m)
    { s1 with modv := s1.modv.set i (some ⟨m, 1, base, []⟩) }
  have hslot' : s'.slot = update s.slot i (some ⟨m, 1, base, []⟩) := by
    rw [Modules.slot, hmodv, Slots.slot_set hi, ← hslot]
  rw [heq]
  cases r with
  | none => exact .inr ⟨base, s', rfl, hslot', by simpa [Libraries.sectionsAt, hmaps] using hmaps'⟩
  | some e =>
    refine setUp_fail e ?_ hnone ⟨_, hslot'⟩ (by simpa [hmaps] using hmaps')
    rw [hmodv]
    simpa using hi

omit [DecidableEq L] in
theorem initModule_spec (g : Libraries L R) (fate : Fate) {s : Modules L R} (m : L) {i : Nat}
    (hi : i < s.modv.length) (hnone : s.slot i = none) :
    SetUp g s m i (initModule g fate s m i) := by
  have hsame : ∃ o, s.slot = update s.slot i o :=
    ⟨none, by rw [← hnone, update_eq_self]⟩
  rw [initModule]
  cases fate s.asked with
  | error e => exact setUp_fail e hi hnone hsame rfl
  | ok n =>
    dsimp only
    split
    · exact setUp_load 0 hi hnone rfl rfl
    cases fate s.ask.asked with
    | error e => exact setUp_fail .nospc hi hnone hsame rfl
    | ok base => exact setUp_load base hi hnone rfl rfl

/-- **One module is loaded.** -/
theorem kprocInsmodSingle_spec (g : Libraries L R) (fate : Fate) (s : Modules L R) (m : L) :
    ∃ ret id s', kprocInsmodSingle g fate s m = (ret, id, s') ∧
      ((∃ e, ret = .err e) ∧ s'.slot = s.slot ∧ s'.maps = s.maps ∨
        ret = .unchanged ∧ s'.maps = s.maps ∧ (∃ e, s.slot id = some e ∧ e.lib = m ∧
          s'.slot = update s.slot id (some { e with loadc := e.loadc + 1 })) ∨
        ret = .ok ∧ ¬ s.Loaded m ∧ s.slot id = none ∧ ∃ base,
          s'.slot = update s.slot id (some ⟨m, 1, base, []⟩) ∧
          s'.maps = g.sectionsAt m base + s.maps) := by
  rw [kprocInsmodSingle]
  rcases findModule_spec m s.modv [] none (fun _ => (fun h => by cases h))
    (fun _ _ => (fun h => by cases h)) with
    ⟨i, e, hfind, hslot, hlib⟩ | ⟨o, hfind, hno, hfree⟩
  · simp only [nil_append, length_nil] at hfind hslot
    simp only [hfind]
    by_cases hfull : e.loadc = 2 ^ 32 - 1
    · rw [if_pos hfull]
      exact ⟨_, _, _, rfl, .inl ⟨⟨_, rfl⟩, rfl, rfl⟩⟩
    rw [if_neg hfull]
    refine ⟨_, _, _, rfl, .inr (.inl ⟨rfl, rfl, e, hslot, hlib, ?_⟩)⟩
    exact Slots.slot_set (Slots.lt_length_of_slot hslot) _
  simp only [nil_append, length_nil] at hfind hno hfree
  have hnot : ¬ s.Loaded m := fun ⟨i, e, he, hlib⟩ => hno i e he hlib
  simp only [hfind]
  cases o with
  | some i =>
    obtain ⟨hi, hnone⟩ := hfree i rfl
    rcases initModule_spec g fate m hi hnone with
      ⟨e, s', heq, hslot, hmaps⟩ | ⟨base, s', heq, hslot, hmaps⟩
    · exact ⟨_, _, _, heq, .inl ⟨⟨e, rfl⟩, hslot, hmaps⟩⟩
    · exact ⟨_, _, _, heq, .inr (.inr ⟨rfl, hnot, hnone, base, hslot, hmaps⟩)⟩
  | none =>
    cases fate s.asked with
    | error e => exact ⟨_, _, _, rfl, .inl ⟨⟨_, rfl⟩, rfl, rfl⟩⟩
    | ok n =>
      have hgrown := Slots.slot_append_none s.modv
      have hnone : s.slot s.modv.length = none := Slots.slot_of_length_le le_rfl
      rcases initModule_spec (s := { s.ask with modv := s.modv ++ [none] }) (i := s.modv.length)
          g fate m (by simp) (congrFun hgrown _ |>.trans hnone) with
        ⟨e, s', heq, hslot, hmaps⟩ | ⟨base, s', heq, hslot, hmaps⟩
      · exact ⟨_, _, _, heq, .inl ⟨⟨e, rfl⟩, hslot.trans hgrown, hmaps⟩⟩
      refine ⟨_, _, _, heq, .inr (.inr ⟨rfl, hnot, hnone, base, ?_, hmaps⟩)⟩
      rw [hslot]
      exact congrArg (update · _ _) hgrown

/-! ### Unloading -/

omit [DecidableEq L] in
/-- **A module that is loaded more than once** only counts down. -/
theorem kprocDelmodSingle_unchanged {e : Module L} (h : s.slot id = some e)
    (hcount : 1 < e.loadc) :
    ∃ s', kprocDelmodSingle g s id = (.unchanged, [], s') ∧ s'.maps = s.maps ∧
      s'.slot = update s.slot id (some { e with loadc := e.loadc - 1 }) := by
  have hne : (if e.loadc = 0 then 2 ^ 32 - 1 else e.loadc - 1) = e.loadc - 1 :=
    if_neg (by omega)
  simp only [kprocDelmodSingle, show Slots.slot s.modv id = some e from h, hne]
  rw [if_pos (by omega)]
  exact ⟨_, rfl, rfl, Slots.slot_set (Slots.lt_length_of_slot h) _⟩

omit [DecidableEq L] in
/-- **A module that is loaded once** leaves the table with its sections. -/
theorem kprocDelmodSingle_ok {e : Module L} {M : Multiset (Nat × R)} (h : s.slot id = some e)
    (hcount : e.loadc = 1) (hmaps : s.maps = g.sections e + M) :
    ∃ s', kprocDelmodSingle g s id = (.ok, e.depids, s') ∧ s'.maps = M ∧
      s'.slot = update s.slot id none := by
  have hunload := kprocUnloadmodsections_maps e.base (g.secs e.lib) s hmaps
  have hlt := Slots.lt_length_of_slot h
  have hmodv : (kprocUnloadmodsections e.base (g.secs e.lib) s).modv = s.modv := rfl
  simp only [kprocDelmodSingle, show Slots.slot s.modv id = some e from h, hcount, hmodv]
  rw [if_neg (by simp)]
  split
  · next hlast =>
    refine ⟨_, rfl, hunload, ?_⟩
    show Slots.slot (Slots.trim _) = _
    rw [Slots.slot_trim, ← hlast]
    exact Slots.slot_dropLast (by omega)
  · exact ⟨_, rfl, hunload, Slots.slot_set hlt _⟩

end KosKernel.Proc
