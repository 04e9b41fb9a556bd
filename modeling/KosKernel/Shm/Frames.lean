import KosKernel.Shm.Region
import Mathlib.Data.List.Count

/-!
# KosKernel.Shm.Frames

The **page frames of a region**, page by page, and what the loops over its parts do
with them: from the part of a cluster on they go through the frames of that cluster,
in order, and through no others.
-/

namespace KosKernel.Shm

open List

variable {α : Type}

/-- The frames of a vector of parts, by page. -/
def pageFrames (parts : List Part) : List Nat :=
  parts.flatMap fun part => List.range' part.spFrame part.spPages

/-- The frames of some runs. -/
def runFrames (runs : List (Nat × Nat)) : List Nat :=
  runs.flatMap fun run => List.range' run.1 run.2

/-- The frame of a page. -/
def Region.frame (r : Region) (page : Nat) : Option Nat := (pageFrames r.scPartv)[page]?

@[simp] theorem pageFrames_nil : pageFrames [] = [] := rfl

@[simp] theorem pageFrames_cons (part : Part) (rest : List Part) :
    pageFrames (part :: rest) = List.range' part.spFrame part.spPages ++ pageFrames rest := rfl

theorem pageFrames_append (parts parts' : List Part) :
    pageFrames (parts ++ parts') = pageFrames parts ++ pageFrames parts' :=
  flatMap_append

@[simp] theorem runFrames_nil : runFrames [] = [] := rfl

@[simp] theorem runFrames_cons (run : Nat × Nat) (rest : List (Nat × Nat)) :
    runFrames (run :: rest) = List.range' run.1 run.2 ++ runFrames rest := rfl

/-- The parts follow each other without a gap, and none is empty. -/
def PartsFrom : Nat → List Part → Prop
  | _, [] => True
  | start, part :: rest =>
    part.spStart = start ∧ 0 < part.spPages ∧ PartsFrom (start + part.spPages) rest

/-- What holds for every region: it has its pages, and every cluster knows the part
that it starts in. -/
structure RegionWf (r : Region) : Prop where
  parts : PartsFrom 0 r.scPartv
  pages : (pageFrames r.scPartv).length = r.scPages
  pos : 0 < r.scPages
  clusters : r.sreClusterc = (r.scPages + clusterSize - 1) / clusterSize
  part : ∀ c < r.sreClusterc, ∃ part rest, r.scPartv.drop (r.scPart c) = part :: rest ∧
    part.spStart ≤ c * clusterSize ∧ c * clusterSize < part.spStart + part.spPages

/-! ### The loop over the parts -/

theorem take_range'_min (start n k : Nat) :
    (List.range' start n).take k = List.range' start (min k n) := by
  rcases Nat.le_total n k with h | h
  · rw [take_range'_of_length_le h, Nat.min_eq_right h]
  · rw [take_range'_of_length_ge h, Nat.min_eq_left h]

variable {part : Part}

/-- The runs cover the frames from the offset on, up to the number of pages. -/
theorem runFrames_pieces {rest : List Part} {offset pages : Nat} (hoff : offset ≤ part.spPages) :
    runFrames (pieces (part :: rest) offset pages) =
      ((pageFrames (part :: rest)).drop offset).take pages := by
  induction rest generalizing part offset pages with
  | nil =>
    have hcut : (pageFrames [part]).drop offset =
        List.range' (part.spFrame + offset) (part.spPages - offset) := by
      simp [drop_range']
    rw [hcut, take_range'_min]
    simp only [pieces]
    split_ifs <;> simp
  | cons part' rest ih =>
    have hcut : (pageFrames (part :: part' :: rest)).drop offset =
        List.range' (part.spFrame + offset) (part.spPages - offset) ++
          pageFrames (part' :: rest) := by
      rw [pageFrames_cons, drop_append, drop_range', length_range',
        Nat.sub_eq_zero_of_le hoff, drop_zero, Nat.mul_one]
    rw [hcut, take_append, length_range', take_range'_min, pieces, runFrames_cons]
    congr 1
    split_ifs with hend
    · rw [show pages - (part.spPages - offset) = 0 by omega]
      simp
    rw [ih (Nat.zero_le _), drop_zero]
    congr 1
    omega

variable {parts : List Part}

theorem PartsFrom.pages_pos : ∀ {start : Nat}, PartsFrom start parts →
    ∀ part ∈ parts, 0 < part.spPages := by
  induction parts with
  | nil => exact fun _ _ h => absurd h not_mem_nil
  | cons part rest ih =>
    rintro start ⟨-, hpos, hrest⟩
    exact forall_mem_cons.2 ⟨hpos, ih hrest⟩

variable {start : Nat}

theorem partsFrom_append {parts' : List Part} :
    PartsFrom start (parts ++ parts') ↔
      PartsFrom start parts ∧ PartsFrom (start + (pageFrames parts).length) parts' := by
  induction parts generalizing start with
  | nil => simp [PartsFrom]
  | cons part rest ih =>
    simp only [cons_append, PartsFrom, ih, pageFrames_cons, length_append,
      length_range']
    rw [Nat.add_assoc]
    tauto

variable {i : Nat}

/-- The frames of a suffix of the parts are those from the start of its first part on. -/
theorem pageFrames_drop {rest : List Part} (h : PartsFrom 0 parts)
    (hdrop : parts.drop i = part :: rest) :
    pageFrames (part :: rest) = (pageFrames parts).drop part.spStart := by
  obtain ⟨pre, rfl⟩ : ∃ pre, parts = pre ++ part :: rest :=
    ⟨parts.take i, by rw [← hdrop, take_append_drop]⟩
  rw [partsFrom_append] at h
  have hstart : part.spStart = (pageFrames pre).length := by simpa using h.2.1
  rw [pageFrames_append, hstart, drop_left]

theorem PartsFrom.sorted (h : PartsFrom start parts) : (∀ part ∈ parts, start ≤ part.spStart) ∧
    parts.Pairwise fun p q => p.spStart + p.spPages ≤ q.spStart := by
  induction parts generalizing start with
  | nil => simp
  | cons first rest ih =>
    obtain ⟨rfl, -, hrest⟩ := h
    obtain ⟨hle, hsorted⟩ := ih hrest
    refine ⟨forall_mem_cons.2 ⟨Nat.le_refl _, fun part hpart => ?_⟩,
      pairwise_cons.2 ⟨hle, hsorted⟩⟩
    exact Nat.le_trans (Nat.le_add_right ..) (hle part hpart)

variable {page : Nat}

theorem PartsFrom.unique {j : Nat} (h : PartsFrom start parts) {part' : Part}
    (hi : parts[i]? = some part) (hj : parts[j]? = some part')
    (hp : part.spStart ≤ page ∧ page < part.spStart + part.spPages)
    (hp' : part'.spStart ≤ page ∧ page < part'.spStart + part'.spPages) : i = j := by
  obtain ⟨hilt, rfl⟩ := List.getElem?_eq_some_iff.mp hi
  obtain ⟨hjlt, rfl⟩ := List.getElem?_eq_some_iff.mp hj
  have hsorted := pairwise_iff_getElem.mp h.sorted.2
  rcases Nat.lt_trichotomy i j with hlt | heq | hlt
  · have := hsorted i j hilt hjlt hlt
    omega
  · exact heq
  · have := hsorted j i hjlt hilt hlt
    omega

variable {r : Region}

theorem RegionWf.cluster_lt (h : RegionWf r) (hp : page < r.scPages) :
    getcluster page < r.sreClusterc := by
  rw [h.clusters, getcluster, clusterSize]
  omega

theorem RegionWf.partsAt (h : RegionWf r) {c : Nat} (hc : c < r.sreClusterc) :
    ∃ part rest, r.scPartv.drop (r.scPart c) = part :: rest ∧
      part.spStart ≤ c * clusterSize ∧ c * clusterSize < part.spStart + part.spPages ∧
      PartsFrom part.spStart (part :: rest) ∧
      pageFrames (part :: rest) = (pageFrames r.scPartv).drop part.spStart := by
  obtain ⟨part, rest, hdrop, hlo, hhi⟩ := h.part c hc
  refine ⟨part, rest, hdrop, hlo, hhi, ?_, pageFrames_drop h.parts hdrop⟩
  have hall := h.parts
  rw [← take_append_drop (r.scPart c) r.scPartv, hdrop, partsFrom_append] at hall
  exact ⟨rfl, hall.2.2.1, hall.2.1 ▸ hall.2.2.2⟩

/-- The runs of a number of clusters cover their frames. -/
theorem RegionWf.clusterPieces (h : RegionWf r) {first count : Nat} (hc : first < r.sreClusterc) :
    ∃ runs, clusterPieces r first count = .ok runs ∧
      runFrames runs =
        ((pageFrames r.scPartv).drop (first * clusterSize)).take (count * clusterSize) := by
  obtain ⟨part, rest, hdrop, hlo, hhi⟩ := h.part first hc
  refine ⟨_, by rw [Shm.clusterPieces, hdrop]; exact if_pos ⟨hlo, hhi⟩, ?_⟩
  rw [runFrames_pieces (by omega), pageFrames_drop h.parts hdrop, drop_drop]
  congr 2
  omega

theorem RegionWf.frame_lt (h : RegionWf r) {f : Nat} (hf : r.frame page = some f) :
    page < r.scPages := by
  obtain ⟨hlt, -⟩ := List.getElem?_eq_some_iff.mp hf
  exact h.pages ▸ hlt

/-- A frame of a cluster is the frame of a page of it. -/
theorem mem_cluster_frames {first f : Nat} :
    f ∈ ((pageFrames r.scPartv).drop (first * clusterSize)).take clusterSize ↔
      ∃ page, getcluster page = first ∧ r.frame page = some f := by
  simp only [mem_iff_getElem?, getElem?_take, getElem?_drop, Region.frame,
    getcluster]
  constructor
  · rintro ⟨i, hi⟩
    by_cases hlt : i < clusterSize
    · rw [if_pos hlt] at hi
      refine ⟨first * clusterSize + i, ?_, hi⟩
      simp only [clusterSize] at hlt ⊢
      omega
    · rw [if_neg hlt] at hi
      simp at hi
  · rintro ⟨page, rfl, hf⟩
    refine ⟨page % clusterSize, ?_⟩
    have hlt : page % clusterSize < clusterSize := Nat.mod_lt _ (by decide)
    rw [if_pos hlt, Nat.mul_comm, Nat.div_add_mod]
    exact hf

/-! ### Freeing -/

/-- Freeing some runs takes away their frames and nothing else. -/
theorem foldl_free (runs : List (Nat × Nat)) (m : Mem α) :
    runs.foldl (fun m run => kpageframeFree m run.1 run.2) m =
      { m with held := fun f => if f ∈ runFrames runs then false else m.held f } := by
  induction runs generalizing m with
  | nil => simp
  | cons run rest ih =>
    rw [foldl_cons, ih]
    simp only [kpageframeFree, runFrames_cons, mem_append, mem_range'_1]
    congr 1
    funext f
    by_cases h1 : f ∈ runFrames rest <;> by_cases h2 : run.1 ≤ f ∧ f < run.1 + run.2 <;>
      simp [h1, h2]

end KosKernel.Shm
