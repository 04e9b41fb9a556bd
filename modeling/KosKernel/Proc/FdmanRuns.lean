import KosKernel.Proc.Fdman
import Mathlib.Data.List.Nodup
import Mathlib.Order.Bounds.Basic

/-!
# KosKernel.Proc.FdmanRuns

**The file descriptors of a process are a finite map** from numbers to entries, along every
run of calls in order.

What keeps a call from being in order: a closed slot whose resource pointer was left behind,
which `kproc_insfd_inherited` and `kproc_insfdat_inherited` take for one in use; the special
descriptors, which are counted when they are closed but not when they are inserted; a range
of `kproc_closeall` that starts behind the vector; and a vector of 2²⁹ slots or more.
-/

namespace KosKernel.Fdman

open Function List

/-! ### The map -/

/-- The entries of the live descriptors. -/
def view (s : Kfdman) (fd : Int) : Option Kfdentry := (kfdmanSlot s fd).filter Kfdentry.isLive

/-- A call, and whether `realloc` succeeds in it. -/
inductive Action where
  | insfd (entry : Kfdentry) (granted : Bool)
  | insfdat (fd : Int) (entry : Kfdentry) (granted : Bool)
  | insfdh (hint : Int) (entry : Kfdentry) (granted : Bool)
  | closefd (fd : Int) (granted : Bool)
  | closeall (low high : Int) (granted : Bool)

inductive Reply where
  | ins (error : Errno) (fd : Option Nat)
  | insat (error : Errno)
  | close (error : Errno)
  | closeall (result : Nat)
  deriving DecidableEq

/-- A call, in a kernel that is built with or without `__DEBUG__`. -/
def exec (debug : Bool) (s : Kfdman) : Action → Except Fault (Reply × Kfdman)
  | .insfd entry granted =>
    (kprocInsfdInherited s entry granted).map fun r => (.ins r.1 r.2.1, r.2.2)
  | .insfdat fd entry granted =>
    (kprocInsfdatInherited s fd entry granted).map fun r => (.insat r.1, r.2)
  | .insfdh hint entry granted =>
    (kprocInsfdhInherited s hint entry granted).map fun r => (.ins r.1 r.2.1, r.2.2)
  | .closefd fd granted =>
    .ok (.close (kprocClosefd debug s fd granted).1, (kprocClosefd debug s fd granted).2)
  | .closeall low high granted =>
    (kprocCloseall s low high granted).map fun r => (.closeall r.1, r.2)

/-- The finite map of descriptors, and the references that a call drops. -/
abbrev Descriptors : Type := Int → Option Kfdentry

/-- What a call does to a map whose numbers are below `max`. -/
inductive Does (max : Nat) : Descriptors → Action → Reply → Descriptors → List Kfdentry → Prop
  | insfd {m : Descriptors} {entry : Kfdentry} {granted : Bool} {fd : Nat}
      (hfree : m fd = none) (hfd : fd < max) :
      Does max m (.insfd entry granted) (.ins .keOk (some fd))
        (update m fd (some entry)) []
  | insfdFull {m : Descriptors} {entry : Kfdentry} {granted : Bool}
      (hfull : ∀ fd < max, m (fd : Nat) ≠ none) :
      Does max m (.insfd entry granted) (.ins .keMfile none) m []
  | insfdNomem {m : Descriptors} {entry : Kfdentry} :
      Does max m (.insfd entry false) (.ins .keNomem none) m []
  | insfdat {m : Descriptors} {fd : Int} {entry : Kfdentry} {granted : Bool}
      (hfree : m fd = none) :
      Does max m (.insfdat fd entry granted) (.insat .keOk)
        (update m fd (some entry)) []
  | insfdatFound {m : Descriptors} {fd : Int} {entry old : Kfdentry} {granted : Bool}
      (hold : m fd = some old) :
      Does max m (.insfdat fd entry granted) (.insat .ksFound)
        (update m fd (some entry)) [old]
  | insfdatBadf {m : Descriptors} {fd : Int} {entry : Kfdentry} {granted : Bool} (hneg : fd < 0)
      (hroot : fd ≠ kfdRoot) (hcwd : fd ≠ kfdCwd) :
      Does max m (.insfdat fd entry granted) (.insat .keBadf) m []
  | insfdatMfile {m : Descriptors} {fd : Int} {entry : Kfdentry} {granted : Bool}
      (hmax : (max : Int) ≤ fd) :
      Does max m (.insfdat fd entry granted) (.insat .keMfile) m []
  | insfdatNomem {m : Descriptors} {fd : Int} {entry : Kfdentry} :
      Does max m (.insfdat fd entry false) (.insat .keNomem) m []
  | insfdh {m : Descriptors} {hint : Int} {entry : Kfdentry} {granted : Bool} {fd : Nat}
      (hfree : m fd = none) (hfd : fd < max) :
      Does max m (.insfdh hint entry granted) (.ins .keOk (some fd))
        (update m fd (some entry)) []
  | insfdhFull {m : Descriptors} {hint : Int} {entry : Kfdentry} {granted : Bool}
      (hfull : ∀ fd < max, hint ≤ (fd : Nat) → m (fd : Nat) ≠ none) :
      Does max m (.insfdh hint entry granted) (.ins .keMfile none) m []
  | insfdhNomem {m : Descriptors} {hint : Int} {entry : Kfdentry} :
      Does max m (.insfdh hint entry false) (.ins .keNomem none) m []
  | closefd {m : Descriptors} {fd : Int} {old : Kfdentry} {granted : Bool}
      (hold : m fd = some old) :
      Does max m (.closefd fd granted) (.close .keOk) (update m fd none) [old]
  | closefdBadf {m : Descriptors} {fd : Int} {granted : Bool} (hnone : m fd = none) :
      Does max m (.closefd fd granted) (.close .keBadf) m []
  | closeall {m : Descriptors} {low high : Int} {granted : Bool} {fds : List Int}
      (hnodup : fds.Nodup)
      (hmem : ∀ fd, fd ∈ fds ↔ low ≤ fd ∧ fd ≤ high ∧ m fd ≠ none) :
      Does max m (.closeall low high granted) (.closeall fds.length)
        (fun fd => if low ≤ fd ∧ fd ≤ high then none else m fd) (fds.filterMap m)

/-! ### Calls in order -/

/-- An entry that can be inserted has a resource. -/
def Kfdentry.Valid (e : Kfdentry) : Prop := e.isLive = true ∧ e.fdData ≠ 0

/-- A call is in order in a table. -/
def Sound (s : Kfdman) : Action → Prop
  | .insfd entry granted => entry.Valid ∧
      (s.fdmCnt ≠ s.fdmFdv.length → ∃ e ∈ s.fdmFdv, e.fdData = 0) ∧
      (s.fdmCnt = s.fdmFdv.length → granted = true → oversized (newalloc s) = false)
  | .insfdat fd entry granted => entry.Valid ∧
      (∀ e, 0 ≤ fd → kfdmanSlot s fd = some e → e.isLive = false → e.fdData = 0) ∧
      (0 ≤ fd → kfdmanSlot s fd = none → granted = true → oversized (fd.toNat + 1) = false)
  | .insfdh hint entry granted => entry.Valid ∧ (searchHinted s.fdmFdv hint.toNat = none →
      granted = true → oversized (s.fdmFdv.length + 1) = false)
  | .closefd fd _ => fd < 0 → view s fd = none
  | .closeall low high _ => low ≤ high →
      (0 ≤ high → s.fdmFdv ≠ [] ∧ low ≤ s.fdmFdv.length) ∧
      ∀ fd < 0, low ≤ fd → fd ≤ high → view s fd = none

/-- The table is in order: the live descriptors are counted, and have a resource. -/
structure Inv (s : Kfdman) : Prop where
  count : s.fdmCnt = s.fdmFdv.countP Kfdentry.isLive
  room : s.fdmFdv.length ≤ s.fdmMax
  small : s.fdmMax < 2147483648
  valid : ∀ e ∈ s.fdmFdv, e.isLive = true → e.fdData ≠ 0

/-! ### Slots -/

variable {s : Kfdman} {fd : Int} {e entry : Kfdentry} {i n : Nat}

theorem kfdmanSlot_nat : kfdmanSlot s (i : Nat) = s.fdmFdv[i]? := by
  rw [kfdmanSlot, if_neg (by omega), Int.toNat_natCast]

theorem kfdmanSlot_of_nonneg (hfd : 0 ≤ fd) : kfdmanSlot s fd = s.fdmFdv[fd.toNat]? := by
  rw [kfdmanSlot, if_neg (by omega)]

theorem setSlot_of_nonneg (hfd : 0 ≤ fd) :
    setSlot s fd e = { s with fdmFdv := s.fdmFdv.set fd.toNat e } := by
  rw [setSlot, if_neg (by omega)]

theorem kfdmanSlot_setSlot (hslot : kfdmanSlot s fd ≠ none) (fd' : Int) :
    kfdmanSlot (setSlot s fd e) fd' = if fd' = fd then some e else kfdmanSlot s fd' := by
  by_cases hneg : fd < 0
  · -- one of the two special slots
    rw [kfdmanSlot, if_pos hneg, kfdmanSpecialslot] at hslot
    by_cases hroot : fd = kfdRoot
    · subst hroot
      by_cases heq : fd' = kfdRoot <;> simp [heq, kfdmanSlot, kfdmanSpecialslot, setSlot, hneg]
    have hcwd : fd = kfdCwd := by
      by_contra hne
      rw [if_neg hroot, if_neg hne] at hslot
      exact hslot rfl
    subst hcwd
    by_cases heq : fd' = kfdCwd <;> simp [heq, kfdmanSlot, kfdmanSpecialslot, setSlot, hneg, hroot]
  · have hfd : 0 ≤ fd := Int.not_lt.mp hneg
    rw [kfdmanSlot_of_nonneg hfd] at hslot
    have hlt : fd.toNat < s.fdmFdv.length := by
      by_contra hge
      exact hslot (getElem?_eq_none (Nat.not_lt.mp hge))
    rw [setSlot_of_nonneg hfd]
    by_cases hneg' : fd' < 0
    · rw [if_neg (by omega), kfdmanSlot, kfdmanSlot, if_pos hneg', if_pos hneg']
      rfl
    rw [kfdmanSlot_of_nonneg (Int.not_lt.mp hneg'), kfdmanSlot_of_nonneg (Int.not_lt.mp hneg')]
    by_cases heq : fd' = fd
    · rw [if_pos heq, heq, getElem?_set_self hlt]
    · rw [if_neg heq, getElem?_set_ne (by omega)]

theorem view_eq_some (hslot : kfdmanSlot s fd = some e) (hlive : e.isLive = true) :
    view s fd = some e := by
  rw [view, hslot]
  exact Option.filter_some_pos hlive

theorem view_eq_none (hslot : kfdmanSlot s fd = some e) (hdead : e.isLive = false) :
    view s fd = none := by
  rw [view, hslot]
  exact Option.filter_some_neg (by simp [hdead])

theorem view_of_slot_none (hslot : kfdmanSlot s fd = none) : view s fd = none := by
  rw [view, hslot]
  rfl

theorem view_setSlot (hslot : kfdmanSlot s fd ≠ none) :
    view (setSlot s fd e) = update (view s) fd ((some e).filter Kfdentry.isLive) := by
  funext fd'
  rw [view, kfdmanSlot_setSlot hslot]
  by_cases heq : fd' = fd
  · rw [if_pos heq, heq, update_self]
  · rw [if_neg heq, update_of_ne heq, view]

/-- Free slots at the end of the vector are not part of the map. -/
theorem view_append {tail : List Kfdentry} (hdead : ∀ e ∈ tail, e.isLive = false) :
    view { s with fdmFdv := s.fdmFdv ++ tail } = view s := by
  funext fd
  by_cases hneg : fd < 0
  · rw [view, view, kfdmanSlot, kfdmanSlot, if_pos hneg, if_pos hneg]
    rfl
  have hfd : 0 ≤ fd := Int.not_lt.mp hneg
  rcases Nat.lt_or_ge fd.toNat s.fdmFdv.length with hlt | hge
  · rw [view, view, kfdmanSlot_of_nonneg hfd, kfdmanSlot_of_nonneg hfd,
      getElem?_append_left hlt]
  rw [view_of_slot_none (s := s)]
  · cases hslot : kfdmanSlot { s with fdmFdv := s.fdmFdv ++ tail } fd with
    | none => exact view_of_slot_none hslot
    | some e =>
      refine view_eq_none hslot (hdead e ?_)
      rw [kfdmanSlot_of_nonneg hfd, getElem?_append_right hge] at hslot
      exact mem_of_getElem? hslot
  · rw [kfdmanSlot_of_nonneg hfd, getElem?_eq_none hge]

theorem countP_append_dead {fdv tail : List Kfdentry} (hdead : ∀ e ∈ tail, e.isLive = false) :
    (fdv ++ tail).countP Kfdentry.isLive = fdv.countP Kfdentry.isLive := by
  have hzero : tail.countP Kfdentry.isLive = 0 :=
    countP_eq_zero.mpr fun e he => by simp [hdead e he]
  rw [countP_append, hzero, Nat.add_zero]

theorem isLive_zero : Kfdentry.zero.isLive = false := rfl

theorem dead_replicate {e : Kfdentry} (h : e ∈ List.replicate n Kfdentry.zero) :
    e.isLive = false := by
  rw [eq_of_mem_replicate h, isLive_zero]

/-! ### The invariant -/

theorem Inv.count_le (h : Inv s) : s.fdmCnt ≤ s.fdmFdv.length := by
  rw [h.count]
  exact countP_le_length

variable {old : Kfdentry}

theorem countP_set {l : List Kfdentry} (hi : l[i]? = some old) :
    (l.set i e).countP Kfdentry.isLive + (if old.isLive then 1 else 0) =
      l.countP Kfdentry.isLive + if e.isLive then 1 else 0 := by
  obtain ⟨hlt, hget⟩ := List.getElem?_eq_some_iff.mp hi
  have hpos : old.isLive = true → 0 < l.countP Kfdentry.isLive := fun hlive =>
    countP_pos_iff.mpr ⟨old, mem_of_getElem? hi, hlive⟩
  rw [List.countP_set hlt, hget]
  split_ifs with hold hnew hnew <;> simp_all

section

variable (h : Inv s) (hi : s.fdmFdv[i]? = some old)

include h hi

theorem Inv.set {cnt : Nat}
    (hcnt : cnt + (if old.isLive then 1 else 0) = s.fdmCnt + if e.isLive then 1 else 0)
    (hvalid : e.isLive = true → e.fdData ≠ 0) :
    Inv { s with fdmCnt := cnt, fdmFdv := s.fdmFdv.set i e } := by
  have hcount := countP_set (e := e) hi
  rw [← h.count] at hcount
  refine ⟨by dsimp only; omega, ?_, h.small, fun x hx hlive => ?_⟩
  · dsimp only
    rw [length_set]
    exact h.room
  · rcases mem_or_eq_of_mem_set hx with hold | rfl
    · exact h.valid x hold hlive
    · exact hvalid hlive

theorem Inv.store (hdead : old.isLive = false) (hvalid : entry.Valid) :
    Inv (storeEntry s i entry) := by
  have hle := h.count_le
  have hroom := h.room
  have hsmall := h.small
  refine h.set hi ?_ fun _ => hvalid.2
  rw [hdead, hvalid.1, wrap32]
  simp only [Bool.false_eq_true, if_false, if_true]
  omega

theorem Inv.replace (hlive : old.isLive = true) (hvalid : entry.Valid) :
    Inv { s with fdmFdv := s.fdmFdv.set i entry } :=
  h.set hi (by rw [hlive, hvalid.1]) fun _ => hvalid.2

theorem Inv.clear (hlive : old.isLive = true) (hdead : e.isLive = false) :
    Inv { s with fdmCnt := decrement s.fdmCnt, fdmFdv := s.fdmFdv.set i e } := by
  have hpos : 0 < s.fdmCnt := by
    rw [h.count]
    exact countP_pos_iff.mpr ⟨old, mem_of_getElem? hi, hlive⟩
  refine h.set hi ?_ fun he => absurd (hdead.symm.trans he) Bool.false_ne_true
  rw [hlive, hdead, decrement, if_neg (Nat.ne_of_gt hpos)]
  simp only [Bool.false_eq_true, if_false, if_true]
  omega

end

theorem Inv.extend (h : Inv s) (hroom : s.fdmFdv.length + n ≤ s.fdmMax) :
    Inv { s with fdmFdv := s.fdmFdv ++ List.replicate n .zero } := by
  refine ⟨?_, ?_, h.small, forall_mem_append.mpr ⟨h.valid, fun e hnew hlive => ?_⟩⟩
  · exact h.count.trans (countP_append_dead fun _ => dead_replicate).symm
  · dsimp only
    rwa [length_append, length_replicate]
  · rw [dead_replicate hnew] at hlive
    cases hlive

/-- The free slots at the end of the vector may be given back. -/
theorem kprocFreeUnusedFdMemory_eq (s : Kfdman) (granted : Bool) :
    ∃ fdv tail, kprocFreeUnusedFdMemory s granted = { s with fdmFdv := fdv } ∧
      s.fdmFdv = fdv ++ tail ∧ ∀ e ∈ tail, e.isLive = false := by
  have hsplit : s.fdmFdv = s.fdmFdv.rdropWhile (fun e => !e.isLive) ++
      s.fdmFdv.rtakeWhile fun e => !e.isLive := by
    rw [List.rdropWhile, List.rtakeWhile, ← reverse_append, takeWhile_append_dropWhile,
      reverse_reverse]
  have hdead : ∀ e ∈ s.fdmFdv.rtakeWhile (fun e => !e.isLive), e.isLive = false := fun e he => by
    simpa using mem_rtakeWhile_imp he
  have hsame : ∃ fdv tail, s = { s with fdmFdv := fdv } ∧
      s.fdmFdv = fdv ++ tail ∧ ∀ e ∈ tail, e.isLive = false :=
    ⟨s.fdmFdv, [], rfl, (append_nil _).symm, fun _ he => (not_mem_nil he).elim⟩
  unfold kprocFreeUnusedFdMemory
  dsimp only
  split_ifs with hlen hzero hgrant
  · exact ⟨_, _, rfl, hsplit, hdead⟩
  · exact hsame
  · refine ⟨[], _, rfl, ?_, hdead⟩
    rw [not_not, length_eq_zero_iff] at hzero
    rw [hzero] at hsplit
    exact hsplit
  · exact hsame

/-- Giving slots back changes neither the map nor the invariant. -/
theorem kprocFreeUnusedFdMemory_spec (h : Inv s) (granted : Bool) :
    Inv (kprocFreeUnusedFdMemory s granted) ∧
      view (kprocFreeUnusedFdMemory s granted) = view s ∧
      (kprocFreeUnusedFdMemory s granted).dropped = s.dropped ∧
      (kprocFreeUnusedFdMemory s granted).fdmMax = s.fdmMax := by
  obtain ⟨fdv, tail, heq, hfdv, hdead⟩ := kprocFreeUnusedFdMemory_eq s granted
  rw [heq]
  have hroom := h.room
  rw [hfdv, length_append] at hroom
  refine ⟨⟨?_, ?_, h.small, fun e he => h.valid e ?_⟩, ?_, rfl, rfl⟩
  · dsimp only
    rw [h.count, hfdv, countP_append_dead hdead]
  · dsimp only
    omega
  · rw [hfdv]
    exact mem_append_left _ he
  · have hview := view_append (s := { s with fdmFdv := fdv }) hdead
    rw [← hview]
    rw [← hfdv]

/-! ### Inserting -/

/-- The steps from a position of the ring to a slot. -/
def ringDist (len p j : Nat) : Nat := if p ≤ j then j - p else len - p + j

variable {fdv : List Kfdentry}

/-- **The search ends** at a slot without a pointer, if there is one; the hint may be out of
range. -/
theorem searchFree_finds {fuel p j : Nat} {e : Kfdentry} (hj : fdv[j]? = some e)
    (hdata : e.fdData = 0) (hfuel : ringDist fdv.length p j < fuel) :
    ∃ i x, searchFree fdv fuel p = .ok i ∧ fdv[i]? = some x ∧ x.fdData = 0 := by
  have hjlt := (List.getElem?_eq_some_iff.mp hj).1
  induction fuel generalizing p with
  | zero => omega
  | succ fuel ih =>
    rw [searchFree]
    generalize hq : (if fdv.length ≤ p then 0 else p) = q
    have hqlt : q < fdv.length := by
      split at hq <;> omega
    have hdist : ringDist fdv.length q j = ringDist fdv.length p j := by
      unfold ringDist
      split at hq <;> split_ifs <;> omega
    rw [getElem?_eq_getElem hqlt]
    dsimp only
    split
    · rename_i hfree
      exact ⟨q, _, rfl, getElem?_eq_getElem hqlt, hfree⟩
    rename_i hused
    have hne : q ≠ j := by
      rintro rfl
      rw [getElem?_eq_getElem hqlt] at hj
      cases hj
      exact hused hdata
    refine ih ?_
    rw [← hdist] at hfuel
    unfold ringDist at hfuel ⊢
    split_ifs at hfuel ⊢ <;> omega

theorem Inv.dead_of_null (h : Inv s) (hi : s.fdmFdv[i]? = some e) (hdata : e.fdData = 0) :
    e.isLive = false :=
  Bool.eq_false_iff.mpr fun hlive => h.valid e (mem_of_getElem? hi) hlive hdata

theorem setSlot_nat : setSlot s (i : Nat) e = { s with fdmFdv := s.fdmFdv.set i e } := by
  rw [setSlot_of_nonneg (by omega), Int.toNat_natCast]

theorem view_set (hi : s.fdmFdv[i]? = some old) :
    view { s with fdmFdv := s.fdmFdv.set i e } =
      update (view s) i ((some e).filter Kfdentry.isLive) := by
  rw [← setSlot_nat, view_setSlot]
  rw [kfdmanSlot_nat, hi]
  exact Option.some_ne_none _

theorem view_storeEntry (hi : s.fdmFdv[i]? = some old) (hlive : entry.isLive = true) :
    view (storeEntry s i entry) = update (view s) i (some entry) := by
  rw [← Option.filter_some_pos hlive]
  exact view_set hi

theorem Inv.append (h : Inv s) (hroom : s.fdmFdv.length + n ≤ s.fdmMax)
    (hi : s.fdmFdv.length ≤ i) (hlt : i < s.fdmFdv.length + n) (hvalid : entry.Valid)
    (fre : Nat) :
    Inv (storeEntry { s with fdmFdv := s.fdmFdv ++ List.replicate n .zero, fdmFre := fre }
        i entry) ∧
      view (storeEntry { s with fdmFdv := s.fdmFdv ++ List.replicate n .zero, fdmFre := fre }
        i entry) = update (view s) i (some entry) := by
  have hext := h.extend hroom
  have hinv : Inv { s with fdmFdv := s.fdmFdv ++ List.replicate n .zero, fdmFre := fre } :=
    { hext with }
  have hslot : (s.fdmFdv ++ List.replicate n .zero)[i]? = some .zero := by
    rw [getElem?_append_right hi, getElem?_replicate, if_pos (by omega)]
  refine ⟨hinv.store hslot isLive_zero hvalid, ?_⟩
  have hview : view { s with
      fdmFdv := s.fdmFdv ++ List.replicate n .zero, fdmFre := fre } = view s :=
    view_append fun _ => dead_replicate
  rw [view_storeEntry hslot hvalid.1, hview]

/-- A call returns, does what it is to do to the map, and leaves the table in order. -/
def Works (debug : Bool) (s : Kfdman) (a : Action) : Prop :=
  ∃ r s' drops, exec debug s a = .ok (r, s') ∧ Does s.fdmMax (view s) a r (view s') drops ∧
    s'.dropped = s.dropped ++ drops ∧ Inv s' ∧ s'.fdmMax = s.fdmMax

variable {debug granted : Bool}

theorem Works.quiet {a : Action} {r : Reply} {s' : Kfdman} (hexec : exec debug s a = .ok (r, s'))
    (hinv : Inv s') (hdoes : Does s.fdmMax (view s) a r (view s') [])
    (hdropped : s'.dropped = s.dropped) (hmax : s'.fdmMax = s.fdmMax) : Works debug s a :=
  ⟨r, s', [], hexec, hdoes, by rw [hdropped, append_nil], hinv, hmax⟩

theorem view_ne_none (hi : s.fdmFdv[i]? = some e) (hlive : e.isLive = true) :
    view s i ≠ none := by
  rw [view_eq_some (kfdmanSlot_nat.trans hi) hlive]
  exact Option.some_ne_none _

theorem view_length : view s s.fdmFdv.length = none :=
  view_of_slot_none (kfdmanSlot_nat.trans (getElem?_eq_none le_rfl))

theorem insfd_works (h : Inv s) (ha : Sound s (.insfd entry granted)) :
    Works debug s (.insfd entry granted) := by
  obtain ⟨hvalid, hfree, hgrow⟩ := ha
  have hroom := h.room
  have hsmall := h.small
  by_cases hcnt : s.fdmCnt = s.fdmFdv.length
  · by_cases hmax : s.fdmCnt = s.fdmMax
    · -- every slot is in use, and there may be no more
      refine .quiet ?_ h (.insfdFull fun fd hfd => ?_) rfl rfl
      · simp [exec, kprocInsfdInherited, hcnt, ← hmax, Except.map]
      · have hall := countP_eq_length.mp (h.count.symm.trans hcnt)
        have hlt : fd < s.fdmFdv.length := by omega
        exact view_ne_none (getElem?_eq_getElem hlt) (hall _ (getElem_mem hlt))
    · cases granted with
      | false =>
        refine .quiet ?_ h .insfdNomem rfl rfl
        have hmax' : ¬s.fdmFdv.length = s.fdmMax := hcnt ▸ hmax
        simp [exec, kprocInsfdInherited, hcnt, hmax', Except.map]
      | true =>
        have hsize := hgrow hcnt rfl
        have halloc : s.fdmFdv.length < newalloc s ∧ newalloc s ≤ s.fdmMax := by
          unfold newalloc wrap32
          dsimp only
          split_ifs <;> omega
        obtain ⟨hinv, hview⟩ := h.append (n := newalloc s - s.fdmFdv.length)
          (i := s.fdmFdv.length) (by omega) le_rfl (by omega) hvalid
          (s.fdmFdv.length + 1)
        refine .quiet (r := .ins .keOk (some s.fdmFdv.length)) ?_ hinv ?_ rfl rfl
        · have hfits : ¬(oversized (newalloc s) || decide (newalloc s ≤ s.fdmFdv.length)) =
              true := by simp [hsize, halloc.1]
          unfold exec kprocInsfdInherited
          dsimp only
          rw [if_neg (not_not.mpr hcnt), if_neg hmax, if_neg (by decide), if_neg hfits]
          rfl
        · rw [hview]
          exact .insfd view_length (by omega)
  · obtain ⟨e, he, hnull⟩ := hfree hcnt
    obtain ⟨j, hj⟩ := mem_iff_getElem?.mp he
    have hdist : ringDist s.fdmFdv.length s.fdmFre j < s.fdmFdv.length + 1 := by
      have hjlt := (List.getElem?_eq_some_iff.mp hj).1
      unfold ringDist
      split_ifs <;> omega
    obtain ⟨i, x, hsearch, hi, hdata⟩ := searchFree_finds hj hnull hdist
    have hdead := h.dead_of_null hi hdata
    have hlt := (List.getElem?_eq_some_iff.mp hi).1
    have hfre : Inv { s with fdmFre := i } := { h with }
    refine .quiet (r := .ins .keOk (some i)) ?_ (hfre.store hi hdead hvalid) ?_ rfl rfl
    · simp only [exec, kprocInsfdInherited, ne_eq, hcnt, not_false_eq_true, if_true, hsearch,
        Except.map]
    · rw [view_storeEntry (s := { s with fdmFre := i }) hi hvalid.1]
      exact .insfd (view_eq_none (kfdmanSlot_nat.trans hi) hdead) (by omega)

theorem kfdentryQuit_dropped (s : Kfdman) (e : Kfdentry) :
    (kfdentryQuit s e).dropped = s.dropped ++ if e.isLive then [e] else [] := by
  unfold kfdentryQuit
  split
  · rfl
  · exact (append_nil _).symm

theorem kfdentryQuit_spec (h : Inv s) (e : Kfdentry) :
    Inv (kfdentryQuit s e) ∧ view (kfdentryQuit s e) = view s ∧
      (kfdentryQuit s e).fdmMax = s.fdmMax := by
  unfold kfdentryQuit
  split
  · exact ⟨{ h with }, rfl, rfl⟩
  · exact ⟨h, rfl, rfl⟩

theorem setSlot_fields (s : Kfdman) (fd : Int) (e : Kfdentry) :
    (setSlot s fd e).dropped = s.dropped ∧ (setSlot s fd e).fdmMax = s.fdmMax := by
  unfold setSlot
  split_ifs <;> exact ⟨rfl, rfl⟩

theorem Inv.setSlot_special (h : Inv s) (hneg : fd < 0) : Inv (setSlot s fd e) := by
  unfold setSlot
  split_ifs
  · exact { h with }
  · exact { h with }
  · exact h

/-- An entry is written over a slot that exists, and its old reference dropped. -/
theorem insfdat_override (hslot : kfdmanSlot s fd = some old)
    (hinv : Inv (setSlot s fd entry)) (hlive : entry.isLive = true)
    (hrun : kprocInsfdatInherited s fd entry granted =
      .ok (if old.isLive then .ksFound else .keOk, kfdentryQuit (setSlot s fd entry) old)) :
    Works debug s (.insfdat fd entry granted) := by
  obtain ⟨hquit, hview, hmax⟩ := kfdentryQuit_spec hinv old
  obtain ⟨hdropped, hmax'⟩ := setSlot_fields s fd entry
  have hdrop := kfdentryQuit_dropped (setSlot s fd entry) old
  rw [hdropped] at hdrop
  refine ⟨_, _, _, by rw [exec, hrun]; rfl, ?_, hdrop, hquit, hmax.trans hmax'⟩
  rw [hview, view_setSlot (by simp [hslot]), Option.filter_some_pos hlive]
  by_cases hold : old.isLive = true
  · simp only [hold, if_true]
    exact .insfdatFound (view_eq_some hslot hold)
  · simp only [hold, if_false, Bool.false_eq_true]
    exact .insfdat (view_eq_none hslot (Bool.eq_false_iff.mpr hold))

theorem insfdat_works (h : Inv s) (ha : Sound s (.insfdat fd entry granted)) :
    Works debug s (.insfdat fd entry granted) := by
  obtain ⟨hvalid, hstale, hgrow⟩ := ha
  by_cases hneg : fd < 0
  · cases hspecial : kfdmanSpecialslot s fd with
    | none =>
      have hne : fd ≠ kfdRoot ∧ fd ≠ kfdCwd := by
        unfold kfdmanSpecialslot at hspecial
        split_ifs at hspecial with hroot hcwd
        exact ⟨hroot, hcwd⟩
      refine .quiet ?_ h (.insfdatBadf hneg hne.1 hne.2) rfl rfl
      simp only [exec, kprocInsfdatInherited, if_pos hneg, hspecial, Except.map]
    | some old =>
      have hslot : kfdmanSlot s fd = some old := by rw [kfdmanSlot, if_pos hneg, hspecial]
      refine insfdat_override hslot (h.setSlot_special hneg) hvalid.1 ?_
      simp only [kprocInsfdatInherited, if_pos hneg, hspecial]
  have hfd : 0 ≤ fd := Int.not_lt.mp hneg
  by_cases hmax : s.fdmMax ≤ fd.toNat
  · refine .quiet ?_ h (.insfdatMfile (by omega)) rfl rfl
    simp only [exec, kprocInsfdatInherited, if_neg hneg, if_pos hmax, Except.map]
  cases hget : s.fdmFdv[fd.toNat]? with
  | some old =>
    have hslot : kfdmanSlot s fd = some old := (kfdmanSlot_of_nonneg hfd).trans hget
    by_cases hdata : old.fdData ≠ 0
    · have hlive : old.isLive = true := by
        by_contra hdead
        exact hdata (hstale old hfd hslot (Bool.eq_false_iff.mpr hdead))
      refine insfdat_override hslot ?_ hvalid.1 ?_
      · rw [setSlot_of_nonneg hfd]
        exact h.replace hget hlive hvalid
      · simp only [kprocInsfdatInherited, if_neg hneg, if_neg hmax, hget, if_pos hdata, hlive,
          if_true]
    · have hdead := h.dead_of_null hget (not_not.mp hdata)
      refine .quiet (r := .insat .keOk) ?_ (h.store hget hdead hvalid) ?_ rfl rfl
      · simp only [exec, kprocInsfdatInherited, if_neg hneg, if_neg hmax, hget, if_neg hdata,
          Except.map]
      · rw [view_storeEntry hget hvalid.1, Int.toNat_of_nonneg hfd]
        exact .insfdat (view_eq_none hslot hdead)
  | none =>
    have hslot : kfdmanSlot s fd = none := (kfdmanSlot_of_nonneg hfd).trans hget
    have hge := List.getElem?_eq_none_iff.mp hget
    cases granted with
    | false =>
      refine .quiet ?_ h .insfdatNomem rfl rfl
      simp [exec, kprocInsfdatInherited, hneg, hmax, hget, Except.map]
    | true =>
      have hsize := hgrow hfd hslot rfl
      obtain ⟨hinv, hview⟩ := h.append (n := fd.toNat + 1 - s.fdmFdv.length)
        (i := fd.toNat) (by omega) hge (by omega) hvalid s.fdmFre
      refine .quiet (r := .insat .keOk) ?_ hinv ?_ rfl rfl
      · simp [exec, kprocInsfdatInherited, hneg, hmax, hget, hsize, Except.map]
      · rw [hview, Int.toNat_of_nonneg hfd]
        exact .insfdat (view_of_slot_none hslot)

/-- The search finds the first free slot from the hinted one on. -/
theorem searchHinted_some {hint : Nat} (h : searchHinted fdv hint = some i) :
    (∃ e, fdv[i]? = some e ∧ e.isLive = false) ∧ hint ≤ i ∧
      ∀ n, hint ≤ n → n < i → ∃ e, fdv[n]? = some e ∧ e.isLive = true := by
  rw [searchHinted, Option.map_eq_some_iff] at h
  obtain ⟨k, hk, rfl⟩ := h
  obtain ⟨hlt, hdead, hlive⟩ := findIdx?_eq_some_iff_getElem.mp hk
  refine ⟨⟨(fdv.drop hint)[k], ?_, by simpa using hdead⟩, Nat.le_add_right _ _, ?_⟩
  · rw [← getElem?_drop, getElem?_eq_getElem hlt]
  intro n hle hn
  refine ⟨(fdv.drop hint)[n - hint], ?_, by simpa using hlive (n - hint) (by omega)⟩
  rw [← getElem?_eq_getElem, getElem?_drop, Nat.add_sub_cancel' hle]

theorem searchHinted_none {hint : Nat} (h : searchHinted fdv hint = none) (hle : hint ≤ i)
    (hi : fdv[i]? = some e) : e.isLive = true := by
  rw [searchHinted, Option.map_eq_none_iff, findIdx?_eq_none_iff] at h
  have hmem : e ∈ fdv.drop hint := by
    refine mem_of_getElem? (i := i - hint) ?_
    rw [getElem?_drop, Nat.add_sub_cancel' hle, hi]
  simpa using h e hmem

theorem insfdh_works (h : Inv s) {hint : Int}
    (ha : Sound s (.insfdh hint entry granted)) : Works debug s (.insfdh hint entry granted) := by
  obtain ⟨hvalid, hgrow⟩ := ha
  have hroom := h.room
  cases hsearch : searchHinted s.fdmFdv hint.toNat with
  | some i =>
    obtain ⟨⟨old, hi, hdead⟩, -, -⟩ := searchHinted_some hsearch
    have hlt := (List.getElem?_eq_some_iff.mp hi).1
    refine .quiet (r := .ins .keOk (some i)) ?_ (h.store hi hdead hvalid) ?_ rfl rfl
    · simp only [exec, kprocInsfdhInherited, hsearch, Except.map]
    · rw [view_storeEntry hi hvalid.1]
      exact .insfdh (view_eq_none (kfdmanSlot_nat.trans hi) hdead) (by omega)
  | none =>
    by_cases hmax : s.fdmMax ≤ s.fdmFdv.length
    · refine .quiet ?_ h (.insfdhFull fun fd hfd hle => ?_) rfl rfl
      · simp [exec, kprocInsfdhInherited, hsearch, hmax, Except.map]
      · have hget := getElem?_eq_getElem (show fd < s.fdmFdv.length by omega)
        exact view_ne_none hget (searchHinted_none hsearch (by omega) hget)
    cases granted with
    | false =>
      refine .quiet ?_ h .insfdhNomem rfl rfl
      simp [exec, kprocInsfdhInherited, hsearch, hmax, Except.map]
    | true =>
      have hsize := hgrow hsearch rfl
      obtain ⟨hinv, hview⟩ := h.append (n := 1) (i := s.fdmFdv.length) (by omega)
        le_rfl (by omega) hvalid s.fdmFre
      refine .quiet (r := .ins .keOk (some s.fdmFdv.length)) ?_ hinv ?_ rfl rfl
      · simp [exec, kprocInsfdhInherited, hsearch, hmax, hsize, Except.map]
      · rw [hview]
        exact .insfdh view_length (by omega)

/-! ### Closing -/

/-- The table after a regular descriptor was closed, before its slot is given back. -/
def cleared (s : Kfdman) (i : Nat) (e : Kfdentry) : Kfdman :=
  { s with fdmCnt := decrement s.fdmCnt, fdmFdv := s.fdmFdv.set i e }

theorem view_cleared (hi : s.fdmFdv[i]? = some old) (hdead : e.isLive = false) :
    view (cleared s i e) = update (view s) i none := by
  rw [← Option.filter_some_neg (p := Kfdentry.isLive) (a := e) (by simp [hdead])]
  exact view_set hi

theorem closefd_works (h : Inv s) (ha : Sound s (.closefd fd granted)) :
    Works debug s (.closefd fd granted) := by
  cases hslot : kfdmanSlot s fd with
  | none =>
    refine .quiet ?_ h (.closefdBadf (view_of_slot_none hslot)) rfl rfl
    simp only [exec, kprocClosefd, hslot]
  | some old =>
    by_cases hlive : old.isLive = true
    · have hview := view_eq_some hslot hlive
      have hfd : 0 ≤ fd := by
        by_contra hneg
        rw [ha (Int.not_le.mp hneg)] at hview
        cases hview
      have hget := (kfdmanSlot_of_nonneg hfd).symm.trans hslot
      -- the slot is cleared, the vector shrunk and the reference dropped
      let slot : Kfdentry := { old with
        fdType := .none, fdData := if debug then 0 else old.fdData }
      have hrun : kprocClosefd debug s fd granted = (.keOk, kfdentryQuit
          (kprocFreeUnusedFdMemory (cleared s fd.toNat slot) granted) old) := by
        simp only [kprocClosefd, hslot, hlive, if_true, setSlot_of_nonneg hfd, cleared, slot]
      have hclear : Inv (cleared s fd.toNat slot) := h.clear hget hlive rfl
      have hclearView := view_cleared (e := slot) hget rfl
      rw [Int.toNat_of_nonneg hfd] at hclearView
      obtain ⟨hfree, hfreeView, hfreeDrop, hfreeMax⟩ :=
        kprocFreeUnusedFdMemory_spec hclear granted
      obtain ⟨hquit, hquitView, hquitMax⟩ := kfdentryQuit_spec hfree old
      refine ⟨.close .keOk, _, [old], by rw [exec, hrun], ?_, ?_, hquit,
        hquitMax.trans hfreeMax⟩
      · rw [hquitView, hfreeView, hclearView]
        exact .closefd hview
      · rw [kfdentryQuit_dropped, hfreeDrop, if_pos hlive]
        rfl
    · have hnone := view_eq_none hslot (Bool.eq_false_iff.mpr hlive)
      refine .quiet ?_ h (.closefdBadf hnone) rfl rfl
      simp only [exec, kprocClosefd, hslot, if_neg hlive]

/-- The live descriptors among `count` regular ones. -/
def liveIn (m : Descriptors) (i count : Nat) : List Int :=
  ((List.range' i count).filter fun k => (m (k : Nat)).isSome).map fun k => (k : Nat)

variable {m : Descriptors}

theorem mem_liveIn {i count : Nat} :
    fd ∈ liveIn m i count ↔ (i : Int) ≤ fd ∧ fd < i + count ∧ m fd ≠ none := by
  simp only [liveIn, mem_map, mem_filter, mem_range'_1, Option.isSome_iff_ne_none]
  constructor
  · rintro ⟨k, ⟨hk, hlive⟩, rfl⟩
    exact ⟨by omega, by omega, hlive⟩
  · rintro ⟨hle, hlt, hlive⟩
    refine ⟨fd.toNat, ⟨by omega, ?_⟩, by omega⟩
    rwa [Int.toNat_of_nonneg (by omega)]

theorem nodup_liveIn (m : Descriptors) (i count : Nat) : (liveIn m i count).Nodup :=
  List.Nodup.map (fun _ _ h => Int.ofNat.inj h) (List.Nodup.filter _ nodup_range')

theorem liveIn_succ (m : Descriptors) (i count : Nat) :
    liveIn m i (count + 1) =
      (if m (i : Nat) ≠ none then [(i : Int)] else []) ++ liveIn m (i + 1) count := by
  rw [liveIn, List.range'_succ, filter_cons]
  by_cases hlive : m (i : Nat) = none
  · simp [hlive, liveIn]
  · simp [hlive, liveIn, Option.isSome_iff_ne_none]

theorem liveIn_congr {m' : Descriptors} {i : Nat} (count : Nat)
    (h : ∀ k : Nat, i ≤ k → m k = m' k) :
    liveIn m i count = liveIn m' i count ∧
      (liveIn m i count).filterMap m = (liveIn m' i count).filterMap m' := by
  have heq : liveIn m i count = liveIn m' i count := by
    unfold liveIn
    rw [filter_congr fun k hk => by rw [h k (mem_range'_1.mp hk).1]]
  refine ⟨heq, ?_⟩
  rw [heq]
  refine filterMap_congr fun fd hfd => ?_
  obtain ⟨hle, -, -⟩ := mem_liveIn.mp hfd
  have := h fd.toNat (by omega)
  rwa [Int.toNat_of_nonneg (by omega)] at this

/-- What closing `count` regular descriptors from `i` on does. -/
structure Closed (s : Kfdman) (i count : Nat) (s' : Kfdman) : Prop where
  inv : Inv s'
  map : ∀ fd : Int, view s' fd = if (i : Int) ≤ fd ∧ fd < i + count then none else view s fd
  dropped : s'.dropped = s.dropped ++ (liveIn (view s) i count).filterMap (view s)
  max : s'.fdmMax = s.fdmMax

theorem closeSlot_closed (h : Inv s) {slot : Kfdentry} (hi : s.fdmFdv[i]? = some slot)
    (result : Nat) :
    ∃ s', closeSlot s i slot result = (result + (liveIn (view s) i 1).length, s') ∧
      Closed s i 1 s' ∧ s'.fdmFdv.length = s.fdmFdv.length := by
  have hslot : kfdmanSlot s (i : Nat) = some slot := by rw [kfdmanSlot_nat, hi]
  have hone : ∀ (m : Descriptors) (fd : Int), update m i none fd =
      if (i : Int) ≤ fd ∧ fd < i + (1 : Nat) then none else m fd := by
    intro m fd
    by_cases heq : fd = i
    · rw [heq, update_self, if_pos (by omega)]
    · rw [update_of_ne heq, if_neg (by omega)]
  by_cases hlive : slot.isLive = true
  · have hview := view_eq_some hslot hlive
    have hfds : liveIn (view s) i 1 = [(i : Int)] := by
      rw [liveIn_succ, hview]
      rfl
    let e : Kfdentry := { slot with fdType := .none }
    have hrun : closeSlot s i slot result =
        (result + 1, kfdentryQuit (cleared s i e) slot) := by
      simp only [closeSlot, hlive, if_true, setSlot_nat, cleared, e]
    obtain ⟨hquit, hquitView, hquitMax⟩ :=
      kfdentryQuit_spec (s := cleared s i e) (h.clear hi hlive rfl) slot
    refine ⟨_, by rw [hrun, hfds]; rfl, ⟨hquit, ?_, ?_, hquitMax⟩, ?_⟩
    · intro fd
      rw [hquitView, view_cleared hi rfl, hone]
    · rw [kfdentryQuit_dropped, if_pos hlive, hfds]
      simp [hview, cleared]
    · unfold kfdentryQuit
      split <;> simp only [cleared, length_set]
  · have hview := view_eq_none hslot (Bool.eq_false_iff.mpr hlive)
    have hfds : liveIn (view s) i 1 = [] := by
      rw [liveIn_succ, hview]
      rfl
    refine ⟨s, by rw [closeSlot, if_neg hlive, hfds]; rfl, ⟨h, ?_, ?_, rfl⟩, rfl⟩
    · intro fd
      rw [← hone, ← hview, update_eq_self]
    · rw [hfds, filterMap_nil, append_nil]

theorem closed_succ {s1 s2 : Kfdman} (h1 : Closed s i 1 s1) (h2 : Closed s1 (i + 1) n s2) :
    Closed s i (n + 1) s2 ∧ (liveIn (view s) i (n + 1)).length =
      (liveIn (view s) i 1).length + (liveIn (view s1) (i + 1) n).length := by
  have hlater : ∀ k : Nat, i + 1 ≤ k → view s1 k = view s k := by
    intro k hk
    rw [h1.map, if_neg (by omega)]
  obtain ⟨hfds, hdrops⟩ := liveIn_congr n hlater
  have hsplit : liveIn (view s) i (n + 1) = liveIn (view s) i 1 ++ liveIn (view s) (i + 1) n := by
    rw [liveIn_succ, liveIn_succ (view s) i 0]
    simp [liveIn]
  refine ⟨⟨h2.inv, ?_, ?_, h2.max.trans h1.max⟩, ?_⟩
  · intro fd
    rw [h2.map, h1.map]
    by_cases hin : (i : Int) ≤ fd ∧ fd < i + ((n + 1 : Nat) : Int)
    · rw [if_pos hin]
      by_cases hfirst : fd = i
      · rw [if_neg (by omega), if_pos (by omega)]
      · rw [if_pos (by omega)]
    · rw [if_neg hin, if_neg (by omega), if_neg (by omega)]
  · rw [h2.dropped, h1.dropped, hdrops, hsplit, filterMap_append, append_assoc]
  · rw [hsplit, length_append, hfds]

/-- **The loop closes** the descriptors of its range. -/
theorem closeLoop_closed (h : Inv s) (hend : i + n ≤ s.fdmFdv.length) (result : Nat) :
    ∃ s', closeLoop n i s result = .ok (result + (liveIn (view s) i n).length, s') ∧
      Closed s i n s' := by
  induction n generalizing s i result with
  | zero =>
    refine ⟨s, rfl, ⟨h, ?_, (append_nil _).symm, rfl⟩⟩
    intro fd
    rw [if_neg (by omega)]
  | succ n ih =>
    have hi := getElem?_eq_getElem (show i < s.fdmFdv.length by omega)
    obtain ⟨s1, hclose, hclosed, hlen⟩ := closeSlot_closed h hi result
    obtain ⟨s2, hloop, hrest⟩ := ih hclosed.inv (show i + 1 + n ≤ s1.fdmFdv.length by omega)
      (result + (liveIn (view s) i 1).length)
    obtain ⟨hall, hcount⟩ := closed_succ hclosed hrest
    refine ⟨s2, ?_, hall⟩
    rw [closeLoop, hi]
    dsimp only
    rw [hclose, hloop, hcount, Nat.add_assoc]

variable {low high : Int}

/-- The regular descriptors of a range that does not start behind the vector. -/
theorem closeRegular_closed (h : Inv s) (granted : Bool) (hhigh : 0 ≤ high) (hle : low ≤ high)
    (hsome : s.fdmFdv ≠ []) (hlow : low ≤ s.fdmFdv.length) :
    ∃ count s', closeRegular s low high granted =
        .ok ((liveIn (view s) (max 0 low).toNat count).length, s') ∧
      Closed s (max 0 low).toNat count s' ∧
      (max 0 low).toNat + count = min (high.toNat + 1) s.fdmFdv.length := by
  have hlen := length_pos_of_ne_nil hsome
  have hroom := h.room
  have hsmall := h.small
  generalize hi : (max 0 low).toNat = i
  have hcount : wrap32 (min high.toNat (decrement s.fdmFdv.length) + 1 + 4294967296 - i) =
      min (high.toNat + 1) s.fdmFdv.length - i := by
    unfold wrap32 decrement
    split_ifs <;> omega
  obtain ⟨s1, hloop, hclosed⟩ := closeLoop_closed h
    (show i + (min (high.toNat + 1) s.fdmFdv.length - i) ≤ s.fdmFdv.length by omega) 0
  rw [Nat.zero_add] at hloop
  have hrun : closeRegular s low high granted =
      .ok ((liveIn (view s) i (min (high.toNat + 1) s.fdmFdv.length - i)).length,
        if (liveIn (view s) i (min (high.toNat + 1) s.fdmFdv.length - i)).length ≠ 0 then
          kprocFreeUnusedFdMemory s1 granted else s1) := by
    simp only [closeRegular, if_pos hhigh, hi, hcount, hloop]
  refine ⟨_, _, hrun, ?_, by omega⟩
  split
  · obtain ⟨hinv, hview, hdropped, hmax⟩ := kprocFreeUnusedFdMemory_spec hclosed.inv granted
    exact ⟨hinv, fun fd => by rw [hview, hclosed.map], hdropped.trans hclosed.dropped,
      hmax.trans hclosed.max⟩
  · exact hclosed

/-- A special descriptor that is not live is not closed. -/
theorem closeSpecial_dead {slot : Kfdentry} {r : Nat × Kfdman}
    (h : low ≤ fd → fd ≤ high → slot.isLive = false) : closeSpecial low high fd slot r = r := by
  unfold closeSpecial closeSlot
  split_ifs with hin hlive
  · rw [h hin.1 hin.2] at hlive
    exact absurd hlive Bool.false_ne_true
  · rfl
  · rfl

theorem dead_of_view_none (hslot : kfdmanSlot s fd = some e) (h : view s fd = none) :
    e.isLive = false := by
  by_contra hlive
  rw [view_eq_some hslot (by simpa using hlive)] at h
  cases h

/-- A range without special descriptors is closed when its regular ones are. -/
theorem kprocCloseall_of_regular {r : Nat × Kfdman} (hle : low ≤ high)
    (hrun : closeRegular s low high granted = .ok r)
    (hspecial : ∀ fd < 0, low ≤ fd → fd ≤ high → view r.2 fd = none) :
    kprocCloseall s low high granted = .ok r := by
  have hroot : closeSpecial low high kfdRoot r.2.fdmRoot r = r :=
    closeSpecial_dead fun hl hh => dead_of_view_none rfl (hspecial kfdRoot (by decide) hl hh)
  have hcwd : closeSpecial low high kfdCwd r.2.fdmCwd r = r :=
    closeSpecial_dead fun hl hh => dead_of_view_none rfl (hspecial kfdCwd (by decide) hl hh)
  rw [kprocCloseall, if_neg (by omega), hrun]
  dsimp only
  rw [hroot, hcwd]

theorem closeall_none (granted : Bool) (max : Nat) (h : ∀ fd, low ≤ fd → fd ≤ high → m fd = none) :
    Does max m (.closeall low high granted) (.closeall 0) m [] := by
  have hsame : (fun fd => if low ≤ fd ∧ fd ≤ high then none else m fd) = m := by
    funext fd
    split_ifs with hin
    · exact (h fd hin.1 hin.2).symm
    · rfl
  have hmem : ∀ fd, fd ∈ ([] : List Int) ↔ low ≤ fd ∧ fd ≤ high ∧ m fd ≠ none := fun fd =>
    ⟨fun hmem => absurd hmem not_mem_nil, fun hin => absurd (h fd hin.1 hin.2.1) hin.2.2⟩
  have hdoes : Does max m (.closeall low high granted) (.closeall 0)
      (fun fd => if low ≤ fd ∧ fd ≤ high then none else m fd) [] := .closeall nodup_nil hmem
  rwa [hsame] at hdoes

theorem lt_of_view_ne_none (hfd : 0 ≤ fd) (h : view s fd ≠ none) : fd < s.fdmFdv.length := by
  by_contra hge
  refine h (view_of_slot_none ?_)
  rw [kfdmanSlot_of_nonneg hfd]
  exact getElem?_eq_none (by omega)

theorem closeall_works (h : Inv s) (ha : Sound s (.closeall low high granted)) :
    Works debug s (.closeall low high granted) := by
  by_cases hle : low ≤ high
  swap
  · refine .quiet ?_ h (closeall_none granted _ (by omega)) rfl rfl
    simp only [exec, kprocCloseall, if_pos (show high < low by omega), Except.map]
  obtain ⟨hregular, hspecial⟩ := ha hle
  by_cases hhigh : 0 ≤ high
  · obtain ⟨hsome, hlow⟩ := hregular hhigh
    obtain ⟨count, s', hrun, hclosed, hend⟩ :=
      closeRegular_closed h granted hhigh hle hsome hlow
    -- the descriptors of the range that the loop leaves out are not live
    have hlive : ∀ fd, low ≤ fd → fd ≤ high → view s fd ≠ none →
        ((max 0 low).toNat : Int) ≤ fd ∧ fd < (max 0 low).toNat + count := by
      intro fd hl hh hne
      have hnonneg : 0 ≤ fd := by
        by_contra hneg
        exact hne (hspecial fd (by omega) hl hh)
      have hlt := lt_of_view_ne_none hnonneg hne
      omega
    have hmap : view s' = fun fd => if low ≤ fd ∧ fd ≤ high then none else view s fd := by
      funext fd
      rw [hclosed.map]
      by_cases hin : low ≤ fd ∧ fd ≤ high
      · rw [if_pos hin]
        split_ifs with hloop
        · rfl
        · by_contra hne
          exact hloop (hlive fd hin.1 hin.2 hne)
      · rw [if_neg hin, if_neg (by omega)]
    have hcall := kprocCloseall_of_regular hle hrun fun fd hneg hl hh => by
      rw [hclosed.map, hspecial fd hneg hl hh, ite_self]
    refine ⟨_, s', _, by rw [exec, hcall]; rfl, ?_, hclosed.dropped, hclosed.inv, hclosed.max⟩
    rw [hmap]
    refine .closeall (nodup_liveIn _ _ _) fun fd => ⟨fun hmem => ?_, fun hin => ?_⟩
    · obtain ⟨hl, hh, hne⟩ := mem_liveIn.mp hmem
      exact ⟨by omega, by omega, hne⟩
    · obtain ⟨hl, hh⟩ := hlive fd hin.1 hin.2.1 hin.2.2
      exact mem_liveIn.mpr ⟨hl, hh, hin.2.2⟩
  · have hnone : ∀ fd, low ≤ fd → fd ≤ high → view s fd = none := fun fd hl hh =>
      hspecial fd (by omega) hl hh
    have hrun : closeRegular s low high granted = .ok (0, s) := by
      rw [closeRegular, if_neg hhigh]
    have hcall := kprocCloseall_of_regular hle hrun fun fd _ => hnone fd
    exact .quiet (by rw [exec, hcall]; rfl) h (closeall_none granted _ hnone) rfl rfl

/-! ### Runs -/

/-- **Every call in order** does what it does to the map, and leaves the table in order. -/
theorem exec_works (debug : Bool) (h : Inv s) {a : Action} (ha : Sound s a) :
    Works debug s a := by
  cases a with
  | insfd entry granted => exact insfd_works h ha
  | insfdat fd entry granted => exact insfdat_works h ha
  | insfdh hint entry granted => exact insfdh_works h ha
  | closefd fd granted => exact closefd_works h ha
  | closeall low high granted => exact closeall_works h ha

/-- A run of calls, each in order, and their replies. -/
inductive Run (debug : Bool) (s₀ : Kfdman) : List (Action × Reply) → Kfdman → Prop
  | nil : Run debug s₀ [] s₀
  | step {t : List (Action × Reply)} {s s' : Kfdman} {a : Action} {r : Reply}
      (h : Run debug s₀ t s) (ha : Sound s a) (hexec : exec debug s a = .ok (r, s')) :
      Run debug s₀ (t ++ [(a, r)]) s'

/-- What the calls do to the map one after the other, and the references that they drop. -/
inductive DoesAll (max : Nat) : List (Action × Reply) → Descriptors → List Kfdentry → Prop
  | nil : DoesAll max [] (fun _ => none) []
  | step {t : List (Action × Reply)} {m m' : Descriptors} {a : Action} {r : Reply}
      {dropped drops : List Kfdentry} (h : DoesAll max t m dropped)
      (hdoes : Does max m a r m' drops) : DoesAll max (t ++ [(a, r)]) m' (dropped ++ drops)

/-- The count is the number of the live descriptors that are not negative. -/
def Counts (s : Kfdman) : Prop :=
  s.fdmCnt ≤ s.fdmFdv.length ∧
    ∃ fds : List Int, fds.Nodup ∧ (∀ fd, fd ∈ fds ↔ 0 ≤ fd ∧ view s fd ≠ none) ∧
      s.fdmCnt = fds.length

theorem kfdmanInit_inv {max : Nat} (hmax : max < 2147483648) : Inv (kfdmanInit max) :=
  ⟨rfl, Nat.zero_le _, hmax, fun _ he => absurd he not_mem_nil⟩

theorem view_kfdmanInit (max : Nat) : view (kfdmanInit max) = fun _ => none := by
  funext fd
  by_cases hfd : 0 ≤ fd
  · exact view_of_slot_none (kfdmanSlot_of_nonneg hfd)
  · simp only [view, kfdmanSlot, if_pos (Int.not_le.mp hfd), kfdmanSpecialslot]
    split_ifs <;> rfl

/-- The elements of a list that have a property, counted by their positions. -/
theorem countP_range (p : Kfdentry → Bool) (l : List Kfdentry) :
    (List.range l.length).countP (fun k => (l[k]?.filter p).isSome) = l.countP p := by
  induction l with
  | nil => rfl
  | cons e l ih =>
    rw [length_cons, range_succ_eq_map, countP_cons, countP_map,
      countP_cons, ← ih]
    by_cases he : p e = true <;> simp [he, Function.comp_def, Option.filter]

theorem Inv.counts (h : Inv s) : Counts s := by
  have hlength : (liveIn (view s) 0 s.fdmFdv.length).length = s.fdmCnt := by
    rw [h.count, ← countP_range, liveIn, length_map, ← countP_eq_length_filter,
      ← range_eq_range']
    simp only [view, kfdmanSlot_nat]
  refine ⟨h.count ▸ countP_le_length, liveIn (view s) 0 s.fdmFdv.length,
    nodup_liveIn _ _ _, fun fd => ⟨fun hmem => ?_, fun hin => ?_⟩, hlength.symm⟩
  · obtain ⟨hle, -, hne⟩ := mem_liveIn.mp hmem
    exact ⟨by omega, hne⟩
  · have hlt := lt_of_view_ne_none hin.1 hin.2
    exact mem_liveIn.mpr ⟨by omega, by omega, hin.2⟩

variable {fdMax : Nat} {t : List (Action × Reply)}

/-- A run leaves the table in order, and does what its calls do to the map. -/
theorem Run.inv (hmax : fdMax < 2147483648) (h : Run debug (kfdmanInit fdMax) t s) :
    Inv s ∧ s.fdmMax = fdMax ∧ DoesAll fdMax t (view s) s.dropped := by
  induction h with
  | nil =>
    refine ⟨kfdmanInit_inv hmax, rfl, ?_⟩
    rw [view_kfdmanInit]
    exact .nil
  | step _ ha hexec ih =>
    obtain ⟨hinv, hfdMax, hall⟩ := ih
    obtain ⟨r, s', drops, hexec', hdoes, hdropped, hinv', hfdMax'⟩ := exec_works debug hinv ha
    cases hexec.symm.trans hexec'
    rw [hfdMax] at hdoes
    refine ⟨hinv', hfdMax'.trans hfdMax, ?_⟩
    rw [hdropped]
    exact .step hall hdoes

/-- **The table refines the finite map.** In a run of calls in order, each call did what it does
to the map, each reference was dropped when its descriptor was closed, and the live descriptors
are counted; and every call that is in order next returns. -/
theorem kfdman_refines_map (hmax : fdMax < 2147483648)
    (h : Run debug (kfdmanInit fdMax) t s) :
    DoesAll fdMax t (view s) s.dropped ∧ Counts s ∧
      ∀ a, Sound s a → ∃ r s' drops, exec debug s a = .ok (r, s') ∧
        Does fdMax (view s) a r (view s') drops ∧ s'.dropped = s.dropped ++ drops := by
  obtain ⟨hinv, hfdMax, hall⟩ := h.inv hmax
  refine ⟨hall, hinv.counts, fun a ha => ?_⟩
  obtain ⟨r, s', drops, hexec, hdoes, hdropped, -⟩ := exec_works debug hinv ha
  rw [hfdMax] at hdoes
  exact ⟨r, s', drops, hexec, hdoes, hdropped⟩

/-- A file, as a descriptor holds it. -/
def fileEntry : Kfdentry := ⟨.file, 0, 4096⟩

/-- A file is inserted and closed again. -/
theorem kfdman_refines_map_close :
    ∃ s, Run false (kfdmanInit 2147483647)
        [(.insfd fileEntry true, .ins .keOk (some 0)), (.closefd 0 true, .close .keOk)] s ∧
      s.dropped = [fileEntry] ∧ DoesAll 2147483647
        [(.insfd fileEntry true, .ins .keOk (some 0)), (.closefd 0 true, .close .keOk)]
        (view s) s.dropped ∧ Counts s ∧
      ∀ a, Sound s a → ∃ r s' drops, exec false s a = .ok (r, s') ∧
        Does 2147483647 (view s) a r (view s') drops ∧ s'.dropped = s.dropped ++ drops := by
  have hinsert : Run false (kfdmanInit 2147483647)
      ([] ++ [(.insfd fileEntry true, .ins .keOk (some 0))])
      ⟨1, 2147483647, 1, [fileEntry, .zero], .zero, .zero, []⟩ :=
    .step .nil ⟨⟨rfl, by decide⟩, fun hne => absurd rfl hne, fun _ _ => rfl⟩ rfl
  have hclose : Run false (kfdmanInit 2147483647)
      ([] ++ [(.insfd fileEntry true, .ins .keOk (some 0))] ++ [(.closefd 0 true, .close .keOk)])
      ⟨0, 2147483647, 1, [], .zero, .zero, [fileEntry]⟩ :=
    .step hinsert (fun hneg => absurd hneg (by decide)) rfl
  exact ⟨_, hclose, rfl, kfdman_refines_map (by decide) hclose⟩

/-- A search among slots that all have a pointer does not end. -/
theorem searchFree_endless (hsome : fdv ≠ []) (h : ∀ e ∈ fdv, e.fdData ≠ 0) (fuel p : Nat) :
    searchFree fdv fuel p = .error .endless := by
  have hlen := length_pos_of_ne_nil hsome
  induction fuel generalizing p with
  | zero => rfl
  | succ fuel ih =>
    rw [searchFree]
    generalize hq : (if fdv.length ≤ p then 0 else p) = q
    have hqlt : q < fdv.length := by
      split at hq <;> omega
    rw [getElem?_eq_getElem hqlt]
    dsimp only
    rw [if_neg (h _ (getElem_mem hqlt)), ih]

/-- With `__DEBUG__` too: of two files the first is closed by `kproc_closeall`, and the next
insertion searches a free slot without an end. After the working directory is set and closed,
the count is wrong. -/
theorem kproc_insfd_searches_forever :
    (∃ s₁ s₂ s₃, exec true (kfdmanInit 2147483647) (.insfd fileEntry true) =
        .ok (.ins .keOk (some 0), s₁) ∧
      exec true s₁ (.insfd fileEntry true) = .ok (.ins .keOk (some 1), s₂) ∧
      exec true s₂ (.closeall 0 0 true) = .ok (.closeall 1, s₃) ∧ view s₃ 0 = none ∧
      s₃.fdmCnt ≠ s₃.fdmFdv.length ∧
      ∀ fuel, searchFree s₃.fdmFdv fuel s₃.fdmFre = .error .endless) ∧
    ∃ s₁ s₂, exec true (kfdmanInit 2147483647) (.insfdat kfdCwd fileEntry true) =
        .ok (.insat .keOk, s₁) ∧
      exec true s₁ (.closefd kfdCwd true) = .ok (.close .keOk, s₂) ∧
      s₂.fdmCnt = 4294967295 ∧ s₂.fdmFdv = [] := by
  refine ⟨⟨⟨1, 2147483647, 1, [fileEntry, .zero], .zero, .zero, []⟩,
    ⟨2, 2147483647, 1, [fileEntry, fileEntry], .zero, .zero, []⟩,
    ⟨1, 2147483647, 1, [{ fileEntry with fdType := .none }, fileEntry], .zero, .zero,
      [fileEntry]⟩, rfl, rfl, rfl, rfl, by decide, fun fuel => ?_⟩, _, _, rfl, rfl, rfl, rfl⟩
  exact searchFree_endless (by decide) (by decide) fuel _

/-! ### Duplicates -/

/-- `r` is the lowest free number from `a` on, and is now a duplicate of `source`. -/
structure Duplicated (s : Kfdman) (source : Option Kfdentry) (a : Int) (r : Nat) (s' : Kfdman) :
    Prop where
  least : IsLeast {n : Nat | a ≤ n ∧ n < s.fdmMax ∧ view s n = none} r
  same : ∃ e e', source = some e ∧ e.isLive = true ∧ view s' r = some e' ∧
    e'.fdType = e.fdType ∧ e'.fdData = e.fdData
  others : ∀ fd : Int, fd ≠ r → view s' fd = view s fd

variable {s' : Kfdman} {hint : Int} {r : Nat}

/-- Where `kproc_insfdh_inherited` stores an entry: behind the vector if there is no free slot
in it from the hinted one on, also if that is far behind the vector. -/
theorem insfdh_stores (hhint : 0 ≤ hint)
    (h : kprocInsfdhInherited s hint entry granted = .ok (.keOk, some r, s')) :
    view s r = none ∧ (∀ n : Nat, hint ≤ n → n < r → view s n ≠ none) ∧
      (hint ≤ r ∧ r < s.fdmFdv.length ∨ r = s.fdmFdv.length ∧ r < s.fdmMax) ∧
      (entry.isLive = true → view s' = update (view s) r (some entry)) := by
  simp only [kprocInsfdhInherited] at h
  cases hsearch : searchHinted s.fdmFdv hint.toNat with
  | some i =>
    obtain ⟨⟨old, hi, hdead⟩, hle, hbefore⟩ := searchHinted_some hsearch
    simp only [hsearch] at h
    cases h
    refine ⟨view_eq_none (kfdmanSlot_nat.trans hi) hdead, fun n hn hlt => ?_,
      .inl ⟨by omega, (List.getElem?_eq_some_iff.mp hi).1⟩, view_storeEntry hi⟩
    obtain ⟨e, hget, he⟩ := hbefore n (by omega) hlt
    exact view_ne_none hget he
  | none =>
    simp only [hsearch] at h
    split_ifs at h with hmax hgranted hsize
    all_goals cases h
    refine ⟨view_length, fun n hn hlt => ?_, .inr ⟨rfl, by omega⟩, fun hentry => ?_⟩
    · exact view_ne_none (getElem?_eq_getElem hlt)
        (searchHinted_none hsearch (by omega) (getElem?_eq_getElem hlt))
    · rw [view_storeEntry getElem?_concat_length hentry, view_append (by simp [isLive_zero])]

variable {fd : Int} {flags : Nat} {caller : Caller} {incref : Kfdentry → Errno}

theorem kprocGetfd_ok (h : kprocGetfd debug caller incref s fd = .ok entry) :
    ∃ e, findEntry caller s fd = some e ∧ entry.fdType = e.fdType ∧
      (e.isLive = true → entry.fdData = e.fdData) := by
  rw [kprocGetfd] at h
  cases hfind : findEntry caller s fd with
  | none => simp [hfind] at h
  | some e =>
    simp only [hfind] at h
    refine ⟨e, rfl, ?_⟩
    split_ifs at h with hlive hincref
    all_goals cases h
    · exact ⟨rfl, fun _ => rfl⟩
    all_goals exact ⟨rfl, fun hlive' => absurd hlive' hlive⟩

/-- What `kproc_getfd` found is stored with the new flags. -/
theorem dupfdh_inserts
    (h : kprocDupfdhC debug caller incref s fd hint flags granted = .ok (.keOk, some r, s')) :
    ∃ e entry, findEntry caller s fd = some e ∧
      kprocInsfdhInherited s hint entry granted = .ok (.keOk, some r, s') ∧
      entry.fdType = e.fdType ∧ (e.isLive = true → entry.fdData = e.fdData) := by
  rw [kprocDupfdhC] at h
  cases hget : kprocGetfd debug caller incref s fd with
  | error error => simp [hget] at h
  | ok found =>
    obtain ⟨e, hfind, htype, hdata⟩ := kprocGetfd_ok hget
    refine ⟨e, { found with fdFlag := flags }, hfind, ?_, htype, hdata⟩
    simp only [hget] at h
    split at h
    · cases h
    · rename_i hins
      cases h
      exact hins
    rename_i hne hins
    cases h
    exact absurd rfl hne

/-- **A duplicate has the lowest free number from `a` on exactly if its source is in use and
there is a free number at `a` or behind it that is not behind the vector.** -/
theorem kproc_dupfdh_right {a : Int} (ha : 0 ≤ a)
    (h : kprocDupfdhC debug caller incref s fd a flags granted = .ok (.keOk, some r, s')) :
    Duplicated s (findEntry caller s fd) a r s' ↔
      (∃ e, findEntry caller s fd = some e ∧ e.isLive = true) ∧
      ∃ n : Nat, a ≤ n ∧ n ≤ s.fdmFdv.length ∧ n < s.fdmMax ∧ view s n = none := by
  obtain ⟨e, entry, hfind, hins, htype, hdata⟩ := dupfdh_inserts h
  obtain ⟨hfree, hbefore, hwhere, hview⟩ := insfdh_stores ha hins
  constructor
  · intro hdup
    obtain ⟨⟨hle, hlt, -⟩, -⟩ := hdup.least
    obtain ⟨e, _, he, hlive, -⟩ := hdup.same
    exact ⟨⟨e, he, hlive⟩, r, hle, by omega, hlt, hfree⟩
  rintro ⟨⟨e', hfind', hlive⟩, n, hle, hend, hlt, hn⟩
  obtain rfl : e = e' := Option.some.inj (hfind.symm.trans hfind')
  have hleast : ∀ m : Nat, a ≤ m → view s m = none → r ≤ m := fun m hm hnone =>
    Nat.le_of_not_lt fun hlt => hbefore m hm hlt hnone
  have hrn := hleast n hle hn
  have hentry : entry.isLive = true := by
    rw [Kfdentry.isLive, htype]
    exact hlive
  rw [hfind]
  refine ⟨⟨⟨by omega, by omega, hfree⟩, fun m hm => hleast m hm.1 hm.2.2⟩,
    ⟨e, entry, rfl, hlive, ?_, htype, hdata hlive⟩, fun fd hne => ?_⟩
  · rw [hview hentry, update_self]
  · rw [hview hentry, update_of_ne hne]

/-- The theorem where the first file of two is duplicated from number 1 on. -/
theorem kproc_dupfdh_right_next : ∃ s s' : Kfdman,
    kprocDupfdhC false ⟨1, 1, 1⟩ (fun _ => .keOk) s 0 1 0 true = .ok (.keOk, some 2, s') ∧
      Duplicated s (some fileEntry) 1 2 s' := by
  have hdup : kprocDupfdhC false ⟨1, 1, 1⟩ (fun _ => .keOk)
    ⟨2, 2147483647, 1, [fileEntry, fileEntry], .zero, .zero, []⟩ 0 1 0 true =
      .ok (.keOk, some 2, _) := rfl
  exact ⟨_, _, hdup, (kproc_dupfdh_right (by decide) hdup).2
    ⟨⟨fileEntry, rfl, rfl⟩, 2, by decide, by decide, by decide, rfl⟩⟩

/-- **A duplicate from number 10 on gets number 1**, and one of a file that was closed gets a
number that is still free. -/
theorem kproc_dupfdh_low :
    (∃ s s' : Kfdman, Inv s ∧ s.fdmFdv = [fileEntry] ∧
      kprocDupfdhC false ⟨1, 1, 1⟩ (fun _ => .keOk) s 0 10 0 true = .ok (.keOk, some 1, s') ∧
      ¬Duplicated s (some fileEntry) 10 1 s') ∧
    ∃ s s' : Kfdman, Inv s ∧ view s 0 = none ∧
      kprocDupfdhC false ⟨1, 1, 1⟩ (fun _ => .keOk) s 0 2 0 true = .ok (.keOk, some 2, s') ∧
      view s' 2 = none := by
  refine ⟨⟨⟨1, 2147483647, 1, [fileEntry], .zero, .zero, []⟩, _, ?_, rfl, rfl, ?_⟩,
    ⟨1, 2147483647, 1, [.zero, fileEntry], .zero, .zero, []⟩, _, ?_, rfl, rfl, rfl⟩
  · exact ⟨rfl, by decide, by decide, by decide⟩
  · intro hdup
    exact absurd hdup.least.1.1 (by decide)
  · exact ⟨rfl, by decide, by decide, by decide⟩

end KosKernel.Fdman
