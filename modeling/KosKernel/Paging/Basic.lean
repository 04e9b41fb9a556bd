import Mathlib.Data.BitVec
import Mathlib.Logic.Function.Basic

/-!
# KosKernel.Paging.Basic

**Page directories** (`include/kos/arch/x86/mmu.h`, `src/kernel/paging.c`): 1024 directory
entries, each of which may have the address of a page table with 1024 entries.

The memory of the page tables is indexed by the address of a table. Addresses are
natural numbers below 2³², and arithmetic on them wraps.
-/

namespace KosKernel.Paging

/-- A 32-bit number. -/
def wrap32 (n : Nat) : Nat := n % 4294967296

/-- `X86_VPTR_GET_PDID` -/
def pdid (virt : Nat) : Nat := virt / 4194304

/-- `X86_VPTR_GET_PTID` -/
def ptid (virt : Nat) : Nat := virt / 4096 % 1024

/-- `X86_VPTR_GET_POFF` -/
def poff (virt : Nat) : Nat := virt % 4096

/-- The `present` bit of an `x86_pde` or `x86_pte`. -/
def present (u : BitVec 32) : Bool := u.getLsbD 0

def x86PdeGetpte (u : BitVec 32) : BitVec 32 := u &&& 0xfffff000#32

def x86PteGetpptr (u : BitVec 32) : BitVec 32 := u &&& 0xfffff000#32

/-- `struct kpagedir`, the memory of its page tables, and the tables that were given back by
`kpageframe_free`, the last one first. -/
structure Pagedir where
  dEntries : Nat → BitVec 32
  tables : BitVec 32 → Nat → BitVec 32
  freed : List (BitVec 32)

namespace Pagedir

/-- The address of the page table of a directory entry. -/
def table (self : Pagedir) (d : Nat) : BitVec 32 := x86PdeGetpte (self.dEntries d)

/-- The entry of a page, in the table of its directory entry. -/
def pte (self : Pagedir) (page : Nat) : BitVec 32 :=
  self.tables (self.table (page / 1024)) (page % 1024)

/-- A page is mapped. -/
def mapped (self : Pagedir) (page : Nat) : Bool :=
  present (self.dEntries (page / 1024)) && present (self.pte page)

/-- No two directory entries have the same page table. -/
def Owned (self : Pagedir) : Prop :=
  ∀ d < 1024, ∀ d' < 1024, present (self.dEntries d) = true →
    present (self.dEntries d') = true → self.table d = self.table d' → d = d'

end Pagedir

def kpagedirTranslate (self : Pagedir) (virt : Nat) : BitVec 32 :=
  let usedPde := self.dEntries (pdid virt)
  if ¬present usedPde then 0
  else
    let usedPte := self.tables (x86PdeGetpte usedPde) (ptid virt)
    if ¬present usedPte then 0 else x86PteGetpptr usedPte + BitVec.ofNat 32 (poff virt)

theorem pdid_page (page : Nat) : pdid (page * 4096) = page / 1024 := by
  unfold pdid
  omega

theorem ptid_page (page : Nat) : ptid (page * 4096) = page % 1024 := by
  unfold ptid
  omega

theorem exists_span_succ {P : Nat → Prop} {titer count : Nat} :
    (∃ t, titer ≤ t ∧ t < titer + (count + 1) ∧ P t) ↔
      P titer ∨ ∃ t, titer + 1 ≤ t ∧ t < titer + 1 + count ∧ P t := by
  constructor
  · rintro ⟨t, hle, hlt, ht⟩
    rcases Nat.eq_or_lt_of_le hle with rfl | hgt
    · exact .inl ht
    · exact .inr ⟨t, hgt, by omega, ht⟩
  · rintro (h | ⟨t, hle, hlt, ht⟩)
    · exact ⟨titer, Nat.le_refl _, by omega, h⟩
    · exact ⟨t, by omega, by omega, ht⟩

theorem kpagedirTranslate_eq (self : Pagedir) (page off : Nat) (hoff : off < 4096) :
    kpagedirTranslate self (page * 4096 + off) =
      if self.mapped page then x86PteGetpptr (self.pte page) + BitVec.ofNat 32 off else 0 := by
  have hpd : pdid (page * 4096 + off) = page / 1024 := by
    unfold pdid
    omega
  have hpt : ptid (page * 4096 + off) = page % 1024 := by
    unfold ptid
    omega
  have hpo : poff (page * 4096 + off) = off := by
    unfold poff
    omega
  simp only [kpagedirTranslate, hpd, hpt, hpo]
  change _ = if (present _ && present (self.tables (x86PdeGetpte _) _)) = true then _ else _
  by_cases hpde : present (self.dEntries (page / 1024)) = true
  · simp only [hpde, not_true_eq_false, if_false, Bool.true_and, ite_not]
    rfl
  · simp only [hpde, not_false_eq_true, if_true, Bool.false_and, Bool.false_eq_true, if_false]

end KosKernel.Paging
