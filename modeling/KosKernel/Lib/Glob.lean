import Mathlib.Data.List.Basic

/-!
# KosKernel.Lib.Glob

**Wildcard patterns.** A pattern is a list of items: any run of characters, any one
character, or one given character. Characters are compared through a function `f`, so that
matching up to case is an instance.

The lemmas give the words that a pattern matches from its first item. For a star there are
two forms: a star may be passed over or may take a character (`matches_star_cons`), and a
star before a given character stands in front of one of its occurrences
(`matches_star_lit_cons`).
-/

namespace KosKernel.Glob

variable {α β : Type} {f : α → β}

/-- An item of a pattern. -/
inductive Item (α : Type) where
  | star
  | any
  | lit (a : α)
  deriving DecidableEq, Repr

/-- The pattern matches all of the word. -/
inductive Matches (f : α → β) : List (Item α) → List α → Prop
  | nil : Matches f [] []
  | pass {g : List (Item α)} {s : List α} : Matches f g s → Matches f (.star :: g) s
  | take {g : List (Item α)} {s : List α} (c : α) :
      Matches f (.star :: g) s → Matches f (.star :: g) (c :: s)
  | any {g : List (Item α)} {s : List α} (c : α) : Matches f g s → Matches f (.any :: g) (c :: s)
  | lit {g : List (Item α)} {s : List α} {a c : α} : f a = f c → Matches f g s →
      Matches f (.lit a :: g) (c :: s)

variable {g : List (Item α)} {s : List α} {a c : α}

@[simp] theorem matches_nil : Matches f [] s ↔ s = [] := by
  constructor
  · rintro ⟨⟩
    rfl
  · rintro rfl
    exact .nil

@[simp] theorem not_matches_any_nil : ¬ Matches f (.any :: g) [] := by
  rintro ⟨⟩

@[simp] theorem not_matches_lit_nil : ¬ Matches f (.lit a :: g) [] := by
  rintro ⟨⟩

@[simp] theorem matches_any_cons : Matches f (.any :: g) (c :: s) ↔ Matches f g s := by
  constructor
  · rintro (_ | _ | _ | ⟨_, h⟩)
    exact h
  · exact .any c

@[simp] theorem matches_lit_cons :
    Matches f (.lit a :: g) (c :: s) ↔ f a = f c ∧ Matches f g s := by
  constructor
  · rintro (_ | _ | _ | _ | ⟨heq, h⟩)
    exact ⟨heq, h⟩
  · exact fun h => .lit h.1 h.2

@[simp] theorem matches_star_nil : Matches f (.star :: g) [] ↔ Matches f g [] := by
  constructor
  · rintro ⟨⟩
    assumption
  · exact .pass

theorem matches_star_cons :
    Matches f (.star :: g) (c :: s) ↔ Matches f g (c :: s) ∨ Matches f (.star :: g) s := by
  constructor
  · rintro (_ | h | ⟨_, h⟩)
    · exact .inl h
    · exact .inr h
  · rintro (h | h)
    · exact .pass h
    · exact .take c h

theorem matches_star : Matches f [.star] s := by
  induction s with
  | nil => exact .pass .nil
  | cons c s ih => exact .take c ih

theorem matches_star_star :
    Matches f (.star :: .star :: g) s ↔ Matches f (.star :: g) s := by
  induction s with
  | nil => simp
  | cons c s ih =>
    rw [matches_star_cons, ih]
    exact or_iff_left_of_imp (.take c)

/-- What is behind a star may be replaced by a pattern for the same words. -/
theorem matches_star_congr {g' : List (Item α)} (h : ∀ s, Matches f g s ↔ Matches f g' s) :
    Matches f (.star :: g) s ↔ Matches f (.star :: g') s := by
  induction s with
  | nil => simp [h]
  | cons c s ih => rw [matches_star_cons, matches_star_cons, h, ih]

/-- A star before a given character: it stands in front of one of its occurrences. -/
theorem matches_star_lit_cons :
    Matches f (.star :: .lit a :: g) (c :: s) ↔
      (f a = f c ∧ Matches f g s) ∨ Matches f (.star :: .lit a :: g) s := by
  rw [matches_star_cons, matches_lit_cons]

end KosKernel.Glob
