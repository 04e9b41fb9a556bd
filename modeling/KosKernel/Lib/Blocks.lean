import Mathlib.Data.List.Nodup
import Mathlib.Logic.Function.Basic

/-!
# KosKernel.Lib.Blocks

**The blocks of a heap.** Blocks are numbered in the order they are allocated, so a number is
never given out twice, and a block can be released only while it is live. Releasing a list of
blocks works exactly if all of them are live and none is listed twice.
-/

namespace KosKernel

open Function

/-- The blocks given out so far and those of them that are live. -/
structure Blocks where
  next : Nat
  live : Nat → Bool
  /-- Nothing beyond the frontier is live. -/
  lt_next : ∀ b, live b = true → b < next

namespace Blocks

variable {h h' : Blocks} {b c : Nat}

def empty : Blocks := ⟨0, fun _ => false, fun _ hb => nomatch hb⟩

/-- The heap after block number `h.next` was allocated. -/
def alloc (h : Blocks) : Blocks where
  next := h.next + 1
  live := update h.live h.next true
  lt_next b hb := by
    by_cases heq : b = h.next
    · omega
    · rw [update_of_ne heq] at hb
      exact Nat.lt_succ_of_lt (h.lt_next b hb)

/-- Release a block; `none` if it is not live. -/
def free (h : Blocks) (b : Nat) : Option Blocks :=
  if h.live b = true then
    some ⟨h.next, update h.live b false, fun c hc => by
      by_cases heq : c = b
      · rw [heq, update_self] at hc
        exact nomatch hc
      · rw [update_of_ne heq] at hc
        exact h.lt_next c hc⟩
  else none

/-- Release blocks one after the other. -/
def freeAll : Blocks → List Nat → Option Blocks
  | h, [] => some h
  | h, b :: bs => (h.free b).bind fun h' => freeAll h' bs

theorem not_live_next (h : Blocks) : h.live h.next = false := by
  cases hl : h.live h.next with
  | false => rfl
  | true => exact absurd (h.lt_next _ hl) (Nat.lt_irrefl _)

theorem alloc_live_self (h : Blocks) : h.alloc.live h.next = true :=
  update_self _ _ _

theorem alloc_live (hb : h.live b = true) : h.alloc.live b = true := by
  have hne : b ≠ h.next := Nat.ne_of_lt (h.lt_next b hb)
  exact (update_of_ne hne _ _).trans hb

theorem free_of_live (hb : h.live b = true) :
    ∃ h', h.free b = some h' ∧ h'.next = h.next ∧ h'.live = update h.live b false := by
  rw [free, if_pos hb]
  exact ⟨_, rfl, rfl, rfl⟩

theorem freeAll_of_live {bs : List Nat} (hlive : ∀ b ∈ bs, h.live b = true) (hnd : bs.Nodup) :
    ∃ h', h.freeAll bs = some h' ∧ ∀ c, c ∉ bs → h'.live c = h.live c := by
  induction bs generalizing h with
  | nil => exact ⟨h, rfl, fun _ _ => rfl⟩
  | cons b bs ih =>
    obtain ⟨hb, hnd⟩ := List.nodup_cons.1 hnd
    obtain ⟨h1, hfree, -, hlive1⟩ := free_of_live (hlive b (by simp))
    have hrest : ∀ c ∈ bs, h1.live c = true := by
      intro c hc
      have hne : c ≠ b := fun heq => hb (heq ▸ hc)
      rw [hlive1, update_of_ne hne]
      exact hlive c (by simp [hc])
    obtain ⟨h2, hfree2, hlive2⟩ := ih hrest hnd
    refine ⟨h2, by simp [freeAll, hfree, hfree2], ?_⟩
    intro c hc
    obtain ⟨hcb, hcs⟩ : c ≠ b ∧ c ∉ bs := by simpa using hc
    rw [hlive2 c hcs, hlive1, update_of_ne hcb]

end Blocks

end KosKernel
