import Mathlib.Data.List.Nodup
import Mathlib.Logic.Function.Basic

/-!
# KosKernel.Lib.BackList

**Lists whose nodes know the pointer that refers to them.** A pointer lies in a list head or in a
node (`Loc`). A node's back link names the pointer that holds the node, so it can be unlinked
without knowing what comes before it, and the head needs no case of its own.

`Chain` is the shape of a list from a pointer on. Putting a node in and taking one out change two
pointers and two back links; `Chain.insert` and `Chain.remove` say what they must be.
-/

namespace KosKernel.BackList

open List

/-- Where a pointer lies: in a list head or in a node. -/
inductive Loc (H N : Type) where
  | head (h : H)
  | next (n : N)
  deriving DecidableEq

variable {H N : Type}

/-- Following the pointers from `l` on visits exactly these nodes, and each knows the pointer that
refers to it. -/
def Chain (ptr : Loc H N → Option N) (back : N → Loc H N) : Loc H N → List N → Prop
  | l, [] => ptr l = none
  | l, n :: ns => ptr l = some n ∧ back n = l ∧ Chain ptr back (.next n) ns

/-- The same, without saying where the last pointer leads. -/
def Seg (ptr : Loc H N → Option N) (back : N → Loc H N) : Loc H N → List N → Prop
  | _, [] => True
  | l, n :: ns => ptr l = some n ∧ back n = l ∧ Seg ptr back (.next n) ns

/-- The pointer behind the nodes -/
def endLoc : Loc H N → List N → Loc H N
  | l, [] => l
  | _, n :: ns => endLoc (.next n) ns

/-- The pointers in front of the nodes -/
def locs : Loc H N → List N → List (Loc H N)
  | _, [] => []
  | l, n :: ns => l :: locs (.next n) ns

variable {ptr ptr' : Loc H N → Option N} {back back' : N → Loc H N} {l : Loc H N}
  {xs ys : List N} {n : N}

theorem locs_append_endLoc (l : Loc H N) (xs : List N) :
    locs l xs ++ [endLoc l xs] = l :: xs.map .next := by
  induction xs generalizing l with
  | nil => rfl
  | cons x xs ih => simp [locs, endLoc, ih]

theorem endLoc_mem (l : Loc H N) (xs : List N) : endLoc l xs ∈ l :: xs.map .next := by
  rw [← locs_append_endLoc]
  simp

theorem chain_append :
    Chain ptr back l (xs ++ ys) ↔ Seg ptr back l xs ∧ Chain ptr back (endLoc l xs) ys := by
  induction xs generalizing l with
  | nil => simp [Seg, endLoc]
  | cons x xs ih => simp [Chain, Seg, endLoc, ih, and_assoc]

theorem Chain.head? (h : Chain ptr back l xs) : ptr l = xs.head? := by
  cases xs with
  | nil => exact h
  | cons x xs => exact h.1

theorem mem_of_mem_locs {k : Loc H N} (h : k ∈ locs l xs) : k ∈ l :: xs.map .next := by
  rw [← locs_append_endLoc]
  simp [h]

theorem Seg.congr (h : Seg ptr back l xs) (hptr : ∀ k ∈ locs l xs, ptr' k = ptr k)
    (hback : ∀ x ∈ xs, back' x = back x) : Seg ptr' back' l xs := by
  induction xs generalizing l with
  | nil => trivial
  | cons x xs ih =>
    obtain ⟨hx, hb, hrest⟩ := h
    refine ⟨(hptr l (by simp [locs])).trans hx, (hback x (by simp)).trans hb, ih hrest ?_ ?_⟩
    · exact fun k hk => hptr k (by simp [locs, hk])
    · exact fun y hy => hback y (by simp [hy])

theorem Chain.congr (h : Chain ptr back l xs) (hptr : ∀ k ∈ l :: xs.map .next, ptr' k = ptr k)
    (hback : ∀ x ∈ xs, back' x = back x) : Chain ptr' back' l xs := by
  rw [← append_nil xs, chain_append] at h ⊢
  exact ⟨h.1.congr (fun k hk => hptr k (mem_of_mem_locs hk)) hback,
    (hptr _ (endLoc_mem l xs)).trans h.2⟩

/-- The pointer between two parts of a list is not one of the first part's. -/
theorem endLoc_not_mem_locs (hnd : (l :: (xs ++ ys).map .next).Nodup) :
    endLoc l xs ∉ locs l xs := by
  rw [map_append, ← cons_append, ← locs_append_endLoc, append_assoc] at hnd
  rw [nodup_append] at hnd
  exact fun hmem => hnd.2.2 _ hmem _ (by simp) rfl

theorem Seg.kept (h : Seg ptr back l xs) (hnd : (l :: (xs ++ ys).map .next).Nodup)
    (hl : l ≠ .next n) (hn : n ∉ xs)
    (hptr : ∀ k, k ≠ endLoc l xs → k ≠ .next n → ptr' k = ptr k)
    (hback : ∀ x ∈ xs, back' x = back x) : Seg ptr' back' l xs := by
  refine h.congr (fun k hk => hptr k (fun heq => endLoc_not_mem_locs hnd (heq ▸ hk)) ?_) hback
  rintro rfl
  rcases mem_cons.1 (mem_of_mem_locs hk) with heq | hmem
  · exact hl heq.symm
  obtain ⟨x, hx, heq⟩ := mem_map.1 hmem
  cases heq
  exact hn hx

theorem next_ne_endLoc (hnd : (l :: (xs ++ ys).map .next).Nodup) {y : N} (hy : y ∈ ys) :
    .next y ≠ endLoc l xs := by
  rw [map_append, ← cons_append, nodup_append] at hnd
  exact fun heq => hnd.2.2 _ (endLoc_mem l xs) _ (mem_map_of_mem hy) heq.symm

/-- The rest of a list hangs from another pointer. -/
theorem Chain.rehang {k k' : Loc H N} (h : Chain ptr back k ys) (hnd : ys.Nodup)
    (hnext : ptr' k' = ys.head?) (hhead : ∀ y ∈ ys.head?, back' y = k')
    (hptr : ∀ y ∈ ys, ptr' (.next y) = ptr (.next y))
    (hbacks : ∀ y ∈ ys, y ∉ ys.head? → back' y = back y) : Chain ptr' back' k' ys := by
  cases ys with
  | nil => exact hnext
  | cons y ys =>
    refine ⟨hnext, hhead y rfl, h.2.2.congr (fun k hk => ?_) fun x hx => ?_⟩
    · obtain ⟨x, hx, rfl⟩ := mem_map.1 (show k ∈ (y :: ys).map Loc.next by simpa using hk)
      exact hptr x hx
    · refine hbacks x (mem_cons_of_mem _ hx) fun heq => ?_
      obtain rfl : y = x := by simpa using heq
      exact (nodup_cons.1 hnd).1 hx

/-- **A node is put in** between two parts of a list. -/
theorem Chain.insert (h : Chain ptr back l (xs ++ ys))
    (hnd : (l :: (xs ++ ys).map .next).Nodup) (hn : n ∉ xs ++ ys) (hl : l ≠ .next n)
    (hnew : ptr' (endLoc l xs) = some n) (hnext : ptr' (.next n) = ys.head?)
    (hptr : ∀ k, k ≠ endLoc l xs → k ≠ .next n → ptr' k = ptr k)
    (hback : back' n = endLoc l xs) (hhead : ∀ y ∈ ys.head?, back' y = .next n)
    (hbacks : ∀ x, x ≠ n → x ∉ ys.head? → back' x = back x) :
    Chain ptr' back' l (xs ++ n :: ys) := by
  obtain ⟨hxs, hys⟩ := chain_append.1 h
  obtain ⟨hnx, hny⟩ : n ∉ xs ∧ n ∉ ys := by simpa using hn
  have hnodup : (xs ++ ys).Nodup :=
    List.Nodup.of_map _ (nodup_cons.1 hnd).2
  have hxs_head : ∀ x ∈ xs, x ∉ ys.head? := fun x hx hhd =>
    (nodup_append.1 hnodup).2.2 x hx x (mem_of_mem_head? hhd) rfl
  refine chain_append.2 ⟨hxs.kept hnd hl hnx hptr fun x hx => ?_, hnew, hback, ?_⟩
  · exact hbacks x (fun heq => hnx (heq ▸ hx)) (hxs_head x hx)
  · exact hys.rehang (nodup_append.1 hnodup).2.1 hnext hhead
      (fun y hy => hptr _ (next_ne_endLoc hnd hy) fun heq => hny (Loc.next.inj heq ▸ hy))
      fun y hy => hbacks y fun heq => hny (heq ▸ hy)

/-- **A node is taken out** of a list. -/
theorem Chain.remove (h : Chain ptr back l (xs ++ n :: ys))
    (hnd : (l :: (xs ++ n :: ys).map .next).Nodup)
    (hnext : ptr' (endLoc l xs) = ys.head?)
    (hptr : ∀ k, k ≠ endLoc l xs → k ≠ .next n → ptr' k = ptr k)
    (hhead : ∀ y ∈ ys.head?, back' y = endLoc l xs)
    (hbacks : ∀ x, x ≠ n → x ∉ ys.head? → back' x = back x) :
    Chain ptr' back' l (xs ++ ys) := by
  obtain ⟨hxs, -, -, hys⟩ := chain_append.1 h
  have hnodup : (xs ++ n :: ys).Nodup := List.Nodup.of_map _ (nodup_cons.1 hnd).2
  obtain ⟨-, hnys, hdisj⟩ := nodup_append.1 hnodup
  have hxs_head : ∀ x ∈ xs, x ∉ ys.head? := fun x hx hhd =>
    hdisj x hx x (mem_cons_of_mem _ (mem_of_mem_head? hhd)) rfl
  have hxn : ∀ x ∈ xs, x ≠ n := fun x hx heq => hdisj x hx n (by simp) heq
  have hln : l ≠ .next n := by
    rintro rfl
    exact (nodup_cons.1 hnd).1 (by simp)
  refine chain_append.2 ⟨hxs.kept hnd hln (fun hx => hxn n hx rfl) hptr fun x hx => ?_, ?_⟩
  · exact hbacks x (hxn x hx) (hxs_head x hx)
  · have hne : ∀ y ∈ ys, y ≠ n := fun y hy heq => (nodup_cons.1 hnys).1 (heq ▸ hy)
    exact hys.rehang (nodup_cons.1 hnys).2 hnext hhead
      (fun y hy => hptr _ (next_ne_endLoc hnd (mem_cons_of_mem n hy))
        fun heq => hne y hy (Loc.next.inj heq)) fun y hy => hbacks y (hne y hy)

end KosKernel.BackList
