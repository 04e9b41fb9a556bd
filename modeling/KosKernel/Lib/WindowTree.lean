import Mathlib.Algebra.Group.Nat.Defs
import Mathlib.Data.List.Pairwise
import Mathlib.Data.List.Perm.Basic

/-!
# KosKernel.Lib.WindowTree

**Binary trees over implicit windows.** Every node of such a tree is stored at a
window of the address space: the root at the whole space, the children of a node
at the two halves of its window. The windows are not stored; they follow from the
path. A node may hold any interval inside its window.

`Fits` is the shape invariant, `Apart` the disjointness of two intervals. The
rules below are the ones a search or an insertion needs: what the window says
about every value below a node (`Fits.bounds`), and which child can hold an
address that the node itself does not (`Fits.below_semi`, `Fits.above_semi`).
-/

namespace KosKernel.WindowTree

open List

/-- A binary tree with a value in every node. -/
inductive Tree (α : Type) where
  | nil
  | node (val : α) (min max : Tree α)
  deriving DecidableEq, Repr

variable {α : Type}

namespace Tree

/-- The values of a tree, root first. -/
def toList : Tree α → List α
  | nil => []
  | node v mn mx => v :: (mn.toList ++ mx.toList)

@[simp] theorem toList_nil : (nil : Tree α).toList = [] := rfl

@[simp] theorem toList_node (v : α) (mn mx : Tree α) :
    (node v mn mx).toList = v :: (mn.toList ++ mx.toList) := rfl

def isNil : Tree α → Bool
  | nil => true
  | node .. => false

theorem isNil_iff {t : Tree α} : t.isNil = true ↔ t.toList = [] := by cases t <;> simp [isNil]

variable {v : α} {mn mx : Tree α}

theorem eq_leaf {t : Tree α} (h : t.toList = [v]) : t = .node v .nil .nil := by
  cases t with
  | nil => cases h
  | node w mn mx =>
    obtain ⟨rfl, hrest⟩ := List.cons.inj h
    obtain ⟨hmn, hmx⟩ := append_eq_nil_iff.mp hrest
    cases mn with
    | node => cases hmn
    | nil =>
      cases mx with
      | node => cases hmx
      | nil => rfl

theorem perm_append_min {l r : List α} (h : mn.toList.Perm (l ++ r)) :
    (node v mn mx).toList.Perm (l ++ v :: (r ++ mx.toList)) := by
  have h1 : (v :: (mn.toList ++ mx.toList)).Perm (v :: (l ++ (r ++ mx.toList))) := by
    rw [← append_assoc]
    exact (h.append_right _).cons v
  exact h1.trans perm_middle.symm

theorem perm_append_max {l r : List α} (h : mx.toList.Perm (l ++ r)) :
    (node v mn mx).toList.Perm (l ++ v :: (mn.toList ++ r)) := by
  have h1 : (mn.toList ++ mx.toList).Perm (l ++ (mn.toList ++ r)) :=
    (h.append_left _).trans (perm_append_comm_assoc ..)
  exact (h1.cons v).trans perm_middle.symm

end Tree

section Windows

variable (lo hi : α → Nat)

/-- Two intervals without a common point. -/
def Apart (a b : α) : Prop := hi a < lo b ∨ hi b < lo a

instance (a b : α) : Decidable (Apart lo hi a b) := inferInstanceAs (Decidable (_ ∨ _))

/-- The tree is stored at the window of `2 ^ (level + 1)` addresses from `base`:
every value lies in the window of its node. -/
def Fits : Nat → Nat → Tree α → Prop
  | _, _, .nil => True
  | base, 0, .node v mn mx => base ≤ lo v ∧ hi v < base + 2 ∧ mn = .nil ∧ mx = .nil
  | base, level + 1, .node v mn mx =>
    base ≤ lo v ∧ hi v < base + 2 ^ (level + 2) ∧
      Fits base level mn ∧ Fits (base + 2 ^ (level + 1)) level mx

variable {lo hi}

theorem Apart.symm {a b : α} (h : Apart lo hi a b) : Apart lo hi b a := Or.symm h

instance : Std.Symm (Apart lo hi) := ⟨fun _ _ h => h.symm⟩

variable {base level : Nat}

@[simp] theorem fits_nil : Fits lo hi base level (.nil : Tree α) := by
  cases level <;> trivial

theorem Fits.bounds {t : Tree α} : ∀ {base level : Nat}, Fits lo hi base level t →
    ∀ v ∈ t.toList, base ≤ lo v ∧ hi v < base + 2 ^ (level + 1) := by
  induction t with
  | nil => intro _ _ _ v hv; cases hv
  | node r mn mx ihmn ihmx =>
    intro base level h v hv
    cases level with
    | zero =>
      obtain ⟨hlo, hhi, rfl, rfl⟩ := h
      simp only [Tree.toList_node, Tree.toList_nil, append_nil, mem_singleton] at hv
      subst hv
      exact ⟨hlo, hhi⟩
    | succ level =>
      obtain ⟨hlo, hhi, hmn, hmx⟩ := h
      have hpos := Nat.two_pow_pos level
      simp only [Tree.toList_node, mem_cons, mem_append] at hv
      rcases hv with rfl | hv | hv
      · exact ⟨hlo, hhi⟩
      · have := ihmn hmn v hv
        omega
      · have := ihmx hmx v hv
        omega

variable {addr : Nat}

section

variable {r v : α} {mn mx : Tree α} (h : Fits lo hi base (level + 1) (.node r mn mx))
  (hv : v ∈ (Tree.node r mn mx).toList) (hmem : lo v ≤ addr ∧ addr ≤ hi v)
  (hr : ¬(lo r ≤ addr ∧ addr ≤ hi r))

include h hv hmem hr

/-- An address below the middle that the root does not hold is held on the left,
if it is held at all. -/
theorem Fits.below_semi (hlt : addr < base + 2 ^ (level + 1)) : v ∈ mn.toList := by
  simp only [Tree.toList_node, mem_cons, mem_append] at hv
  rcases hv with rfl | hv | hv
  · exact absurd hmem hr
  · exact hv
  · have := h.2.2.2.bounds v hv
    omega

/-- An address from the middle on that the root does not hold is held on the
right, if it is held at all. -/
theorem Fits.above_semi (hge : base + 2 ^ (level + 1) ≤ addr) : v ∈ mx.toList := by
  simp only [Tree.toList_node, mem_cons, mem_append] at hv
  rcases hv with rfl | hv | hv
  · exact absurd hmem hr
  · have := h.2.2.1.bounds v hv
    omega
  · exact hv

end

theorem unique_of_apart {l : List α} (h : l.Pairwise (Apart lo hi)) {a b : α} (ha : a ∈ l)
    (hb : b ∈ l) (hma : lo a ≤ addr ∧ addr ≤ hi a) (hmb : lo b ≤ addr ∧ addr ≤ hi b) : a = b := by
  by_contra hne
  have := h.forall ha hb hne
  unfold Apart at this
  omega

end Windows

end KosKernel.WindowTree
