import Mathlib.Algebra.BigOperators.Fin
import Mathlib.Algebra.Order.BigOperators.Group.Finset

/-!
# KosKernel.Lib.Holders

**Who holds a lock that is shared by readers and exclusive to a writer.**

`Holders` records the read locks and the write lock of every task. `Exclusive` is what such a
lock promises: one writer at most, and no read lock next to it. Each way to take, give back or
change a lock has one lemma that tells when the promise is kept.
-/

namespace KosKernel

open Function Finset

variable {T : Type}

/-- How many read locks each task holds, and whether it holds the write lock. -/
structure Holders (T : Type) where
  reads : T → Nat
  writes : T → Bool

namespace Holders

/-- Nobody holds anything. -/
def nobody : Holders T := ⟨fun _ => 0, fun _ => false⟩

/-- The number of read locks. -/
def total [Fintype T] (h : Holders T) : Nat := ∑ t, h.reads t

/-- One writer at most, and no reader next to it. -/
structure Exclusive [Fintype T] (h : Holders T) : Prop where
  unique : ∀ t u, h.writes t = true → h.writes u = true → t = u
  alone : ∀ t, h.writes t = true → h.total = 0

section

variable [Fintype T] {h : Holders T}

theorem reads_le_total (t : T) : h.reads t ≤ h.total :=
  single_le_sum (fun _ _ => Nat.zero_le _) (mem_univ t)

theorem total_nobody : (nobody : Holders T).total = 0 := by
  simp [total, nobody]

theorem Exclusive.not_writer (hx : h.Exclusive) {t : T} (hr : 0 < h.reads t) (u : T) :
    h.writes u = false := by
  by_contra hw
  have := hx.alone u (by simpa using hw)
  have := h.reads_le_total t
  omega

theorem exclusive_of_no_writer (hno : ∀ u, h.writes u = false) : h.Exclusive :=
  ⟨fun t _ hw => by simp [hno t] at hw, fun t hw => by simp [hno t] at hw⟩

end

variable [DecidableEq T]

def addReader (h : Holders T) (t : T) : Holders T :=
  { h with reads := update h.reads t (h.reads t + 1) }

def delReader (h : Holders T) (t : T) : Holders T :=
  { h with reads := update h.reads t (h.reads t - 1) }

def setWriter (h : Holders T) (t : T) : Holders T :=
  { h with writes := update h.writes t true }

def delWriter (h : Holders T) (t : T) : Holders T :=
  { h with writes := update h.writes t false }

theorem setWriter_writes {h : Holders T} (hno : ∀ u, h.writes u = false) {t u : T} :
    (h.setWriter t).writes u = true ↔ u = t := by
  by_cases hu : u = t
  · simp [setWriter, hu]
  · simp [setWriter, hu, hno u]

variable [Fintype T]

theorem sum_update (f : T → Nat) (t : T) (v : Nat) :
    ∑ u, update f t v u + f t = ∑ u, f u + v := by
  rw [sum_update_of_mem (mem_univ t), ← add_sum_erase univ f (mem_univ t),
    sdiff_singleton_eq_erase]
  omega

variable {h : Holders T}

theorem total_addReader (t : T) : (h.addReader t).total = h.total + 1 := by
  have := sum_update h.reads t (h.reads t + 1)
  simp only [total, addReader]
  omega

theorem total_delReader {t : T} (hr : 0 < h.reads t) :
    (h.delReader t).total + 1 = h.total := by
  have := sum_update h.reads t (h.reads t - 1)
  simp only [total, delReader]
  omega

theorem exclusive_setWriter (hno : ∀ u, h.writes u = false) (htotal : h.total = 0) (t : T) :
    (h.setWriter t).Exclusive where
  unique u v hu hv := by
    rw [(setWriter_writes hno).1 hu, (setWriter_writes hno).1 hv]
  alone _ _ := htotal

theorem Exclusive.delWriter_writes (hx : h.Exclusive) {t : T} (hw : h.writes t = true) (u : T) :
    (h.delWriter t).writes u = false := by
  by_cases hu : u = t
  · simp [delWriter, hu]
  simp only [delWriter, update_of_ne hu]
  by_contra hwu
  exact hu (hx.unique u t (by simpa using hwu) hw)

end Holders

end KosKernel
