import Mathlib.Data.List.Basic

/-!
# KosKernel.Lib.Mailbox

The **mailbox** of one subscriber of a broadcast channel: everything that was
posted to it, everything it took out. A bounded channel may replace the newest
message that its subscriber has not taken yet; the mailbox keeps the replaced
message in its log and marks it.
-/

namespace KosKernel

open List

/-- One subscriber's mailbox. -/
structure Mailbox (α : Type) where
  /-- Every message posted since the subscription, newest first, and whether it
  was replaced before the subscriber took it. -/
  posted : List (α × Bool)
  /-- The messages taken out, in order. -/
  received : List α

namespace Mailbox

variable {α : Type}

/-- The mailbox of a new subscriber. -/
def empty : Mailbox α := ⟨[], []⟩

/-- The messages that were not replaced, oldest first. -/
def kept (b : Mailbox α) : List α :=
  ((b.posted.filter fun e => !e.2).map Prod.fst).reverse

/-- A message arrives. -/
def post (b : Mailbox α) (m : α) : Mailbox α :=
  { b with posted := (m, false) :: b.posted }

/-- The newest message that was not replaced is marked as replaced. -/
def markNewest : List (α × Bool) → List (α × Bool)
  | [] => []
  | (m, true) :: l => (m, true) :: markNewest l
  | (m, false) :: l => (m, true) :: l

/-- A message arrives in place of the newest one that was not taken yet, if there
is one. -/
def replace (b : Mailbox α) (m : α) : Mailbox α :=
  if b.received.length < b.kept.length then
    { b with posted := (m, false) :: markNewest b.posted }
  else b.post m

/-- The subscriber takes a message out. -/
def take (b : Mailbox α) (m : α) : Mailbox α :=
  { b with received := b.received ++ [m] }

@[simp] theorem kept_empty : (empty : Mailbox α).kept = [] := rfl

@[simp] theorem received_empty : (empty : Mailbox α).received = [] := rfl

@[simp] theorem kept_post (b : Mailbox α) (m : α) : (b.post m).kept = b.kept ++ [m] := by
  simp [kept, post]

@[simp] theorem received_post (b : Mailbox α) (m : α) : (b.post m).received = b.received := rfl

@[simp] theorem kept_take (b : Mailbox α) (m : α) : (b.take m).kept = b.kept := rfl

@[simp] theorem received_take (b : Mailbox α) (m : α) :
    (b.take m).received = b.received ++ [m] := rfl

@[simp] theorem received_replace (b : Mailbox α) (m : α) :
    (b.replace m).received = b.received := by
  unfold replace
  split <;> rfl

/-- Marking drops the newest of the unmarked messages. -/
theorem filter_markNewest (l : List (α × Bool)) :
    (markNewest l).filter (fun e => !e.2) = (l.filter fun e => !e.2).tail := by
  induction l with
  | nil => rfl
  | cons e l ih =>
    obtain ⟨m, replaced⟩ := e
    cases replaced with
    | true => simpa [markNewest] using ih
    | false => simp [markNewest]

/-- Of the messages that are still to be taken, the newest one is replaced. -/
theorem kept_replace {b : Mailbox α} {rest : List α} (h : b.received ++ rest = b.kept) (m : α) :
    (b.replace m).kept = b.received ++ (rest.dropLast ++ [m]) := by
  unfold replace
  by_cases hrest : rest = []
  · subst hrest
    rw [if_neg (by simp [← h]), kept_post, ← h]
    simp
  have hlt : b.received.length < b.kept.length := by
    rw [← h, length_append]
    exact Nat.lt_add_of_pos_right (length_pos_iff.mpr hrest)
  have hkept : ((markNewest b.posted).filter (fun e => !e.2)).map Prod.fst =
      b.kept.dropLast.reverse := by
    simp [kept, filter_markNewest, dropLast_reverse]
  rw [if_pos hlt, ← append_assoc, ← dropLast_append_of_ne_nil hrest, h]
  simp [kept, hkept]

end Mailbox

end KosKernel
