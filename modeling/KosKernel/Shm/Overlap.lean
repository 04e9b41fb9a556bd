import KosKernel.Shm.BranchTree

/-!
# KosKernel.Shm.Overlap

**Overlaps on insertion**: when `kshmbranch_insert` reports `KE_EXISTS`.

The function looks for an overlap only in the branches that it passes on its way down, and
it stops at the first position whose semi-address the new leaf covers. There the new leaf
takes the place of the branch it finds, and all that was stored below is inserted again.
A leaf that overlaps a branch further below is thus not refused: an `asserte` of
`kshmbranch_reinsertall` fails, with the tree half rebuilt.

The functions here are those of `Branch`, with the tree that a call leaves kept beside its
result, so that what a refused insertion has written can be told.
-/

namespace KosKernel.Shm

open WindowTree PageFrame List

/-! ### Insertion, with what it writes -/

/-- `kshmbranch_reinsertall`: its result, and the tree at `*proot`. -/
def reinsertallIn (insert : Tree Branch → Branch → Except Fault Unit × Tree Branch)
    (root : Tree Branch) : Tree Branch → Except Fault Unit × Tree Branch
  | .nil => (.ok (), root)
  | .node b mn mx =>
    match reinsertallIn insert root mn with
    | (.error e, root) => (.error e, root)
    | (.ok _, root) =>
      match reinsertallIn insert root mx with
      | (.error e, root) => (.error e, root)
      | (.ok _, root) =>
        match insert root b with
        | (.error .exists, root) => (.error .assertion, root)
        | r => r

/-- `kshmbranch_insert` for a bounded number of rounds: its result, and the tree at
`*pcurr`. -/
def insertLoopIn : Nat → Tree Branch → Branch → Nat → Nat → Except Fault Unit × Tree Branch
  | 0, curr, _, _, _ => (.error .outOfFuel, curr)
  | fuel + 1, curr, newleaf, semi, level =>
    if newleaf.sbMapMin < mapMin semi level ∨ mapMax semi level < newleaf.sbMapMax then
      (.error .assertion, curr)
    else
      match curr with
      | .nil => (.ok (), .node newleaf .nil .nil)
      | .node iter mn mx =>
        if newleaf.sbMapMin ≤ iter.sbMapMax ∧ iter.sbMapMin ≤ newleaf.sbMapMax then
          (.error .exists, .node iter mn mx)
        else if newleaf.sbMapMin ≤ semi ∧ semi ≤ newleaf.sbMapMax then
          reinsertallIn (fun t b => insertLoopIn fuel t b semi level)
            (.node newleaf .nil .nil) (.node iter mn mx)
        else if level = 0 then (.error .levelUnderflow, .node iter mn mx)
        else if newleaf.sbMapMax < semi then
          (insertLoopIn fuel mn newleaf (walkMin semi level) (level - 1)).map id
            (.node iter · mx)
        else
          (insertLoopIn fuel mx newleaf (walkMax semi level) (level - 1)).map id
            (.node iter mn ·)

/-- `kshmbranch_insert`. -/
def kshmbranchInsertIn (curr : Tree Branch) (newleaf : Branch) (semi level : Nat) :
    Except Fault Unit × Tree Branch :=
  insertLoopIn (insertFuel level) curr newleaf semi level

/-- The result of a call as `Branch` has it. -/
def returned (r : Except Fault Unit × Tree Branch) : Except Fault (Tree Branch) :=
  r.1.map fun _ => r.2

theorem reinsertallIn_returned {insertIn : Tree Branch → Branch → Except Fault Unit × Tree Branch}
    {insert : Tree Branch → Branch → Except Fault (Tree Branch)}
    (h : ∀ t b, returned (insertIn t b) = insert t b) (u : Tree Branch) :
    ∀ root, returned (reinsertallIn insertIn root u) = kshmbranchReinsertall insert root u := by
  induction u with
  | nil => exact fun _ => rfl
  | node b mn mx ihmn ihmx =>
    intro root
    rw [reinsertallIn, kshmbranchReinsertall, ← ihmn]
    generalize reinsertallIn insertIn root mn = r
    rcases r with ⟨_ | _, t⟩
    · rfl
    dsimp only [returned, Except.map, bind, Except.bind]
    rw [← ihmx]
    generalize reinsertallIn insertIn t mx = r
    rcases r with ⟨_ | _, t⟩
    · rfl
    dsimp only [returned, Except.map]
    rw [← h]
    generalize insertIn t b = r
    rcases r with ⟨e | _, t⟩
    · cases e <;> rfl
    · rfl

/-- Without the tree that it leaves, this is the insertion of `Branch`. -/
theorem insertLoopIn_returned (fuel : Nat) (t : Tree Branch) (b : Branch) (semi level : Nat) :
    returned (insertLoopIn fuel t b semi level) = insertLoop fuel t b semi level := by
  induction fuel generalizing t b semi level with
  | zero => rfl
  | succ fuel ih =>
    cases t with
    | nil =>
      rw [insertLoopIn, insertLoop]
      split_ifs <;> rfl
    | node iter mn mx =>
      rw [insertLoopIn, insertLoop]
      split_ifs
      · rfl
      · rfl
      · exact reinsertallIn_returned (fun t b => ih t b semi level) _ _
      · rfl
      all_goals
        rw [← ih]
        generalize insertLoopIn fuel _ _ _ _ = r
        rcases r with ⟨_ | _, t⟩ <;> rfl

theorem kshmbranchInsertIn_returned (t : Tree Branch) (b : Branch) (semi level : Nat) :
    returned (kshmbranchInsertIn t b semi level) = kshmbranchInsert t b semi level :=
  insertLoopIn_returned ..

/-! ### Which overlaps are found -/

/-- The leaf overlaps some branch of the tree. -/
def OverlapsSome (b : Branch) (t : Tree Branch) : Prop := ∃ c ∈ t.toList, ¬ Disj b c

/-- The leaf overlaps a branch of the tree, at whose side of the semi-address it lies with
all its addresses, for every branch further up. -/
def OverlapsAbove (b : Branch) : Nat → Nat → Tree Branch → Prop
  | _, _, .nil => False
  | _, 0, .node iter _ _ => ¬ Disj b iter
  | base, level + 1, .node iter mn mx =>
    ¬ Disj b iter ∨
    (b.sbMapMax < base + 2 ^ (level + 1) ∧ OverlapsAbove b base level mn) ∨
    (base + 2 ^ (level + 1) < b.sbMapMin ∧
      OverlapsAbove b (base + 2 ^ (level + 1)) level mx)

/-- A reinsertion never reports `KE_EXISTS`. -/
theorem reinsertallIn_ne_exists
    {insert : Tree Branch → Branch → Except Fault Unit × Tree Branch} (u : Tree Branch) :
    ∀ root, (reinsertallIn insert root u).1 ≠ .error .exists := by
  induction u with
  | nil => simp [reinsertallIn]
  | node b mn mx ihmn ihmx =>
    intro root
    rw [reinsertallIn]
    have hmn := ihmn root
    generalize reinsertallIn insert root mn = r at hmn ⊢
    rcases r with ⟨_ | _, t⟩
    · exact hmn
    dsimp only
    have hmx := ihmx t
    generalize reinsertallIn insert t mx = r at hmx ⊢
    rcases r with ⟨_ | _, t⟩
    · exact hmx
    dsimp only
    rcases insert t b with ⟨e | _, t⟩
    · cases e <;> simp
    · simp

theorem overlap_iff {b iter : Branch} :
    b.sbMapMin ≤ iter.sbMapMax ∧ iter.sbMapMin ≤ b.sbMapMax ↔ ¬ Disj b iter := by
  unfold Disj Apart
  omega

/-- **The overlaps that are found** are those with a branch on the way down, and then
nothing has been written. -/
theorem insertLoopIn_exists {b : Branch} (hb : Leaf b) {t : Tree Branch} :
    ∀ {level fuel semi base : Nat}, Window semi level base → StoredAt base level t →
      Leaves t → InWindow base level b → level < fuel →
      ((insertLoopIn fuel t b semi level).1 = .error .exists ↔ OverlapsAbove b base level t) ∧
      ((insertLoopIn fuel t b semi level).1 = .error .exists →
        (insertLoopIn fuel t b semi level).2 = t) := by
  induction t with
  | nil =>
    intro level fuel semi base hwin hst hlv hw hfuel
    obtain ⟨f, rfl⟩ : ∃ f, fuel = f + 1 := ⟨fuel - 1, by omega⟩
    rw [insertLoopIn, if_neg (hwin.passes hw)]
    simp [OverlapsAbove]
  | node iter mn mx ihmn ihmx =>
    intro level fuel semi base hwin hst hlv hw hfuel
    obtain ⟨f, rfl⟩ : ∃ f, fuel = f + 1 := ⟨fuel - 1, by omega⟩
    obtain ⟨n, rfl⟩ : ∃ n, level = n + 1 := ⟨level - 1, by have := hw.level_ge hb; omega⟩
    have hordered := hb.ordered
    have hsemieq := hwin.semi_eq
    obtain ⟨-, -, hmn, hmx⟩ := hst
    rw [insertLoopIn, if_neg (hwin.passes hw)]
    by_cases hiter : Disj b iter
    swap
    · rw [if_pos (overlap_iff.2 hiter)]
      exact ⟨iff_of_true rfl (.inl hiter), fun _ => rfl⟩
    rw [if_neg (fun h => overlap_iff.1 h hiter)]
    by_cases hsemi : b.sbMapMin ≤ semi ∧ semi ≤ b.sbMapMax
    · -- the leaf takes this place, whatever is stored below
      rw [if_pos hsemi]
      have hne : (reinsertallIn (fun t b => insertLoopIn f t b semi (n + 1))
          (.node b .nil .nil) (.node iter mn mx)).1 ≠ .error .exists :=
        reinsertallIn_ne_exists _ _
      refine ⟨iff_of_false hne ?_, fun h => absurd h hne⟩
      simp only [OverlapsAbove, not_or, not_and]
      exact ⟨not_not.2 hiter, fun h => by omega, fun h => by omega⟩
    rw [if_neg hsemi, if_neg (Nat.succ_ne_zero n), Nat.add_sub_cancel]
    unfold InWindow at hw
    by_cases hbelow : b.sbMapMax < semi
    · obtain ⟨hiff, hsame⟩ := ihmn hwin.walkMin hmn hlv.min
        ⟨hw.1, by omega⟩ (by omega : n < f)
      rw [if_pos hbelow]
      refine ⟨hiff.trans ?_, fun h => congrArg (WindowTree.Tree.node iter · mx) (hsame h)⟩
      rw [OverlapsAbove, or_iff_right (not_not.2 hiter), ← hsemieq, and_iff_right hbelow,
        or_iff_left (fun h => by omega)]
    obtain ⟨hiff, hsame⟩ := ihmx hwin.walkMax hmx hlv.max
      ⟨by omega, by omega⟩ (by omega : n < f)
    rw [if_neg hbelow]
    refine ⟨hiff.trans ?_, fun h => congrArg (WindowTree.Tree.node iter mn ·) (hsame h)⟩
    rw [OverlapsAbove, or_iff_right (not_not.2 hiter), ← hsemieq,
      or_iff_right (fun h => hbelow h.1), and_iff_right (by omega)]

theorem OverlapsAbove.some {b : Branch} {t : Tree Branch} :
    ∀ {base level : Nat}, OverlapsAbove b base level t → OverlapsSome b t := by
  induction t with
  | nil => exact fun h => absurd h (by simp [OverlapsAbove])
  | node iter mn mx ihmn ihmx =>
    intro base level h
    cases level with
    | zero => exact ⟨iter, by simp, h⟩
    | succ level =>
      rcases h with h | ⟨-, h⟩ | ⟨-, h⟩
      · exact ⟨iter, by simp, h⟩
      · obtain ⟨c, hc, hover⟩ := ihmn h
        exact ⟨c, by simp [hc], hover⟩
      · obtain ⟨c, hc, hover⟩ := ihmx h
        exact ⟨c, by simp [hc], hover⟩

/-- The insertion reports `KE_EXISTS` exactly for a leaf that overlaps a branch of the
tree, and then leaves the tree as it is. -/
def OverlapRight (t : Tree Branch) (b : Branch) (semi level : Nat) : Prop :=
  ((kshmbranchInsertIn t b semi level).1 = .error .exists ↔ OverlapsSome b t) ∧
  ((kshmbranchInsertIn t b semi level).1 = .error .exists →
    (kshmbranchInsertIn t b semi level).2 = t)

/-- **Overlap detection.** The insertion is right about a leaf exactly if the leaf, when it
overlaps any branch of the tree, overlaps one that it is not separated from by the
semi-address of a branch further up. -/
theorem kshmbranchInsert_overlapRight_iff {level semi base : Nat} {t : Tree Branch} {b : Branch}
    (hwin : Window semi level base) (hst : StoredAt base level t) (hlv : Leaves t) (hb : Leaf b)
    (hw : InWindow base level b) :
    OverlapRight t b semi level ↔ (OverlapsSome b t → OverlapsAbove b base level t) := by
  have hfuel : level < insertFuel level := by
    unfold insertFuel
    omega
  obtain ⟨hexists, hsame⟩ := insertLoopIn_exists hb hwin hst hlv hw hfuel
  unfold OverlapRight kshmbranchInsertIn
  rw [hexists, and_iff_left (fun h => hsame (hexists.2 h))]
  exact ⟨fun h => h.2, fun h => ⟨OverlapsAbove.some, h⟩⟩

/-- A leaf for the addresses from `lo` up to `hi`, with nothing behind it of interest. -/
def leafAt (lo hi : Nat) : Branch :=
  { sbMapMin := lo, sbMapMax := hi, sbRstart := 0, sbRpages := (hi + 1 - lo) / pageSize,
    sbRegion := 0, sbClusterMin := 0, sbClusterMax := 0 }

/-- One page at the bottom of the address space, then one in its upper half. -/
def twoLeaves : Tree Branch :=
  .node (leafAt 0x1000 0x1FFF) .nil (.node (leafAt 0x80001000 0x80001FFF) .nil .nil)

theorem twoLeaves_leaves : Leaves twoLeaves := by
  constructor
  · simp only [twoLeaves, Tree.toList_node, Tree.toList_nil, mem_cons, append_nil,
      nil_append, not_mem_nil, or_false]
    rintro b (rfl | rfl) <;> constructor <;> decide
  · decide

theorem twoLeaves_storedAt : StoredAt 0 addrLevelInit twoLeaves := by
  simp [StoredAt, Fits, twoLeaves, addrLevelInit, leafAt]

/-- The insertions of the two leaves give that tree. A leaf that covers the middle of the
address space and overlaps the second one is not refused: the second one is lost. -/
theorem kshmbranchInsert_overlap_missed :
    (kshmbranchInsert .nil (leafAt 0x1000 0x1FFF) addrSemiInit addrLevelInit).bind
      (fun t => kshmbranchInsert t (leafAt 0x80001000 0x80001FFF) addrSemiInit addrLevelInit) =
        .ok twoLeaves ∧
    kshmbranchInsertIn twoLeaves (leafAt 0x7FFFF000 0x80001FFF) addrSemiInit addrLevelInit =
      (.error .assertion, .node (leafAt 0x7FFFF000 0x80001FFF) .nil .nil) ∧
    ¬ OverlapRight twoLeaves (leafAt 0x7FFFF000 0x80001FFF) addrSemiInit addrLevelInit := by
  have hcall : kshmbranchInsertIn twoLeaves (leafAt 0x7FFFF000 0x80001FFF) addrSemiInit
      addrLevelInit = (.error .assertion, .node (leafAt 0x7FFFF000 0x80001FFF) .nil .nil) := by
    decide
  refine ⟨by decide, hcall, fun hright => ?_⟩
  have hoverlaps : OverlapsSome (leafAt 0x7FFFF000 0x80001FFF) twoLeaves :=
    ⟨leafAt 0x80001000 0x80001FFF, by decide, by decide⟩
  have hexists := hright.1.2 hoverlaps
  exact absurd hexists (by decide)

/-- A leaf that overlaps the first one is refused. -/
theorem kshmbranchInsert_overlap_found :
    OverlapRight twoLeaves (leafAt 0 0x1FFF) addrSemiInit addrLevelInit := by
  refine (kshmbranchInsert_overlapRight_iff window_init twoLeaves_storedAt twoLeaves_leaves
    ?_ ?_).2 ?_
  · constructor <;> decide
  · exact ⟨by decide, by decide⟩
  · exact fun _ => .inl (by decide)

end KosKernel.Shm
