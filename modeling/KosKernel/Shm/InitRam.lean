import KosKernel.Shm.NewRegion

/-!
# KosKernel.Shm.InitRam

**Chunks of scattered memory** (`kshmchunk_initram` in `src/kernel/shm.c`).

The pages are asked for at once, and as long as the allocator gives fewer, a part is added for
what it gives next. Four things go wrong in the loop. It asks for the number of all pages each
time, and asserts that it never gets more than are missing. The new parts get no `sp_start`.
When the vector of parts moves, the loop keeps the old address, which it hands to `realloc` and
compares with when it frees what it got. And the number of parts has 16 bits.
-/

namespace KosKernel.Shm

open List

variable {α : Type}

/-! ### The source -/

/-- `struct kshmchunk` -/
structure Chunk where
  scFlags : RegionFlags
  scPages : Nat
  scPartv : List Part

inductive InitFault where
  /-- An assertion of the source does not hold. -/
  | assertion
  /-- An address is used that is no longer that of the vector, or a part in front of it. -/
  | dangling
  /-- The loop is still running. -/
  | running

/-- What the allocators answer: the address of the vector and where it is for each part
after the first, what the new memory in it holds at `sp_start`, and the frames for each part. -/
structure Answers where
  malloc : Option Nat
  realloc : Nat → Option Nat
  junk : Nat → Nat
  tryalloc : Nat → Option (Nat × Nat)

/-- The code at `err_free_got_parts`. -/
def freeGotParts (m : Mem α) (partvec scPartv : Nat) (vec : List Part) (partc : Nat) :
    Except InitFault (Option (List Part) × Mem α) :=
  if scPartv ≠ partvec ∨ partc = 0 then .error .dangling
  else
    .ok (none, ((vec.take partc).reverse.map fun part => (part.spFrame, part.spPages)).foldl
      (fun m run => kpageframeFree m run.1 run.2) m)

/-- The loop that adds parts, at the part with number `i`. -/
def growLoop (env : Answers) (pages partvec : Nat) :
    Nat → Nat → Mem α → Nat → List Part → Nat → Nat →
      Except InitFault (Option (List Part) × Mem α)
  | 0, _, _, _, _, _, _ => .error .running
  | fuel + 1, i, m, scPartv, vec, partc, total =>
    if scPartv ≠ partvec then .error .dangling
    else
      match env.realloc i with
      | none => freeGotParts m partvec scPartv vec partc
      | some newPartvec =>
        match env.tryalloc i with
        | none => freeGotParts m partvec newPartvec vec partc
        | some (frame, count) =>
          let m := kpageframeAlloc m frame count
          let start := (vec[partc]?).elim (env.junk i) Part.spStart
          let vec := vec.take partc ++ [⟨frame, start, count⟩]
          let partc := (partc + 1) % partcLimit
          let total := total + count
          if pages < total then .error .assertion
          else if total = pages then .ok (some (vec.take partc), m)
          else growLoop env pages partvec fuel (i + 1) m newPartvec vec partc total

/-- `kshmchunk_initram`: the chunk, or `KE_NOMEM`. -/
def kshmchunkInitram (m : Mem α) (pages : Nat) (flags : RegionFlags) (env : Answers) :
    Except InitFault (Option Chunk × Mem α) :=
  if pages = 0 then .error .assertion
  else
    match env.malloc with
    | none => .ok (none, m)
    | some partvec =>
      match env.tryalloc 0 with
      | none => .ok (none, m)
      | some (frame, total) =>
        let m := kpageframeAlloc m frame total
        let vec := [⟨frame, 0, total⟩]
        let result :=
          if total = pages then .ok (some vec, m)
          else growLoop env pages partvec pages 1 m partvec vec 1 total
        result.map fun done =>
          (done.1.map fun parts => ⟨{ flags with noFree := false }, pages, parts⟩, done.2)

/-! ### What it is for -/

/-- The allocator gives between one page and as many as it is asked for, of frames that
nobody has. -/
structure AllocatorOk (m : Mem α) (pages : Nat) (env : Answers) : Prop where
  count : ∀ i frame count, env.tryalloc i = some (frame, count) → 1 ≤ count ∧ count ≤ pages
  fresh : ∀ i frame count, env.tryalloc i = some (frame, count) →
    ∀ f ∈ List.range' frame count, m.held f = false
  apart : ∀ i j frame count frame' count', env.tryalloc i = some (frame, count) →
    env.tryalloc j = some (frame', count') → i ≠ j →
      ∀ f ∈ List.range' frame count, f ∉ List.range' frame' count'

/-- The parts have the pages in order, in frames of their own that are allocated. -/
structure Scattered (pages : Nat) (m' : Mem α) (parts : List Part) : Prop where
  sum : (parts.map Part.spPages).sum = pages
  starts : PartsFrom 0 parts
  nodup : (pageFrames parts).Nodup
  held : ∀ f ∈ pageFrames parts, m'.held f = true

/-- What is wanted of the parts: they are right, or all frames were returned. -/
def PartsRight (m : Mem α) (pages : Nat)
    (result : Except InitFault (Option (List Part) × Mem α)) : Prop :=
  ∃ parts m', result = .ok (parts, m') ∧ (parts = none → m'.held = m.held) ∧
    ∀ got ∈ parts, Scattered pages m' got

/-- What is wanted of a call. -/
def InitRight (m : Mem α) (pages : Nat) (result : Except InitFault (Option Chunk × Mem α)) :
    Prop :=
  ∃ chunk m', result = .ok (chunk, m') ∧ (chunk = none → m'.held = m.held) ∧
    ∀ got ∈ chunk, got.scPages = pages ∧ Scattered pages m' got.scPartv

/-- The number of pages in the first `k` answers of the allocator. -/
def obtained (env : Answers) : Nat → Nat
  | 0 => 0
  | k + 1 => obtained env k + (env.tryalloc k).elim 0 Prod.snd

/-- The condition for the loop from part `i` on: the vector stays in place as long as it is
needed again, what comes is never more than is missing, and if the pages are complete then what
happened to be at each `sp_start` was right. -/
inductive RoundsOk (env : Answers) (pages partvec : Nat) : Nat → Prop
  | noVector {i : Nat} (hvec : env.realloc i = none) : RoundsOk env pages partvec i
  | noFrames {i : Nat} (hvec : env.realloc i = some partvec) (hgot : env.tryalloc i = none) :
      RoundsOk env pages partvec i
  | last {i : Nat} (hvec : (env.realloc i).isSome) (hgot : (env.tryalloc i).isSome)
      (hpartc : i + 1 < partcLimit) (hall : obtained env (i + 1) = pages)
      (hstart : ∀ j, 0 < j → j < i + 1 → env.junk j = obtained env j) :
      RoundsOk env pages partvec i
  | next {i : Nat} (hvec : env.realloc i = some partvec) (hgot : (env.tryalloc i).isSome)
      (hpartc : i + 1 < partcLimit) (hmore : obtained env (i + 1) < pages)
      (hrest : RoundsOk env pages partvec (i + 1)) : RoundsOk env pages partvec i

/-- The condition: no memory at all, all pages at once, or a loop without a slip. -/
def InitOk (env : Answers) (pages : Nat) : Prop :=
  env.malloc = none ∨ env.tryalloc 0 = none ∨ obtained env 1 = pages ∨
    ∃ partvec, env.malloc = some partvec ∧ RoundsOk env pages partvec 1

/-! ### The parts of a run -/

/-- The part that the `i`th answer makes. -/
def partOf (env : Answers) (i : Nat) : Part :=
  ⟨(env.tryalloc i).elim 0 Prod.fst, if i = 0 then 0 else env.junk i,
    (env.tryalloc i).elim 0 Prod.snd⟩

/-- The parts that the first `k` answers make. -/
def gotParts (env : Answers) : Nat → List Part
  | 0 => []
  | k + 1 => gotParts env k ++ [partOf env k]

section Parts

variable {m : Mem α} {pages : Nat} {env : Answers}

@[simp] theorem length_gotParts (env : Answers) (k : Nat) : (gotParts env k).length = k := by
  induction k with
  | zero => rfl
  | succ k ih => rw [gotParts, length_append, ih, length_singleton]

theorem sum_gotParts (env : Answers) (k : Nat) :
    ((gotParts env k).map Part.spPages).sum = obtained env k := by
  induction k with
  | zero => rfl
  | succ k ih =>
    rw [gotParts, map_append, sum_append, ih, map_singleton, sum_singleton]
    rfl

theorem pageFrames_gotParts_succ (env : Answers) (k : Nat) :
    pageFrames (gotParts env (k + 1)) = pageFrames (gotParts env k) ++
      List.range' (partOf env k).spFrame (partOf env k).spPages := by
  rw [gotParts, pageFrames_append, pageFrames_cons, pageFrames_nil, append_nil]

theorem length_pageFrames_gotParts (env : Answers) (k : Nat) :
    (pageFrames (gotParts env k)).length = obtained env k := by
  rw [← sum_gotParts]
  simp [pageFrames, length_flatMap]

theorem mem_partOf {i f : Nat} :
    f ∈ List.range' (partOf env i).spFrame (partOf env i).spPages ↔
      ∃ frame count, env.tryalloc i = some (frame, count) ∧ f ∈ List.range' frame count := by
  rcases hgot : env.tryalloc i with _ | ⟨frame, count⟩ <;> simp [partOf, hgot]

/-- The frames of the parts are those of the answers. -/
theorem mem_gotParts {k f : Nat} : f ∈ pageFrames (gotParts env k) ↔
    ∃ i < k, ∃ frame count, env.tryalloc i = some (frame, count) ∧
      f ∈ List.range' frame count := by
  induction k with
  | zero => simp [gotParts]
  | succ k ih => rw [pageFrames_gotParts_succ, mem_append, ih, mem_partOf, Nat.exists_lt_succ_right]

theorem nodup_gotParts (h : AllocatorOk m pages env) (k : Nat) :
    (pageFrames (gotParts env k)).Nodup := by
  induction k with
  | zero => exact nodup_nil
  | succ k ih =>
    rw [pageFrames_gotParts_succ, nodup_append']
    refine ⟨ih, nodup_range', fun f hf hnew => ?_⟩
    obtain ⟨i, hi, frame, count, hgot, hin⟩ := mem_gotParts.1 hf
    obtain ⟨frame', count', hk, hin'⟩ := mem_partOf.1 hnew
    exact h.apart i k frame count frame' count' hgot hk (by omega) f hin hin'

/-- The offsets are right exactly if the memory happened to hold the right ones. -/
theorem partsFrom_gotParts (h : AllocatorOk m pages env) {k : Nat}
    (hgot : ∀ i < k, (env.tryalloc i).isSome) :
    PartsFrom 0 (gotParts env k) ↔ ∀ j, 0 < j → j < k → env.junk j = obtained env j := by
  induction k with
  | zero => exact iff_of_true trivial fun j _ hj => absurd hj (Nat.not_lt_zero j)
  | succ k ih =>
    obtain ⟨answer, hanswer⟩ := Option.isSome_iff_exists.1 (hgot k (Nat.lt_succ_self k))
    have hpos : 0 < (partOf env k).spPages := by
      rw [partOf, hanswer]
      exact (h.count k answer.1 answer.2 hanswer).1
    rw [gotParts, partsFrom_append, length_pageFrames_gotParts, Nat.zero_add,
      ih fun i hi => hgot i (Nat.lt_succ_of_lt hi)]
    constructor
    · rintro ⟨hearlier, hstart, -⟩ j hj hlt
      rcases Nat.lt_succ_iff_lt_or_eq.1 hlt with hlt | rfl
      · exact hearlier j hj hlt
      · simpa [partOf, Nat.ne_of_gt hj] using hstart
    · intro hall
      refine ⟨fun j hj hlt => hall j hj (Nat.lt_succ_of_lt hlt), ?_, hpos, trivial⟩
      rcases Nat.eq_zero_or_pos k with rfl | hk
      · rfl
      · simpa [partOf, Nat.ne_of_gt hk] using hall k hk (Nat.lt_succ_self k)

end Parts

/-! ### The loop -/

section Loop

variable {m₀ m : Mem α} {env : Answers} {pages partvec : Nat}

/-- The loop at part `i`, as long as the number of parts fits. -/
structure AtRound (m₀ m : Mem α) (env : Answers) (i : Nat) : Prop where
  pos : 0 < i
  partc : i < partcLimit
  got : ∀ j < i, (env.tryalloc j).isSome
  held : ∀ f, m.held f = (m₀.held f || decide (f ∈ pageFrames (gotParts env i)))

variable {f : Nat}

theorem mem_runFrames_reverse {parts : List Part} :
    f ∈ runFrames (parts.reverse.map fun part => (part.spFrame, part.spPages)) ↔
      f ∈ pageFrames parts := by
  simp [runFrames, pageFrames, mem_flatMap]

variable {i : Nat}

/-- What was obtained is returned, if the vector is where the loop believes it to be. -/
theorem freeGotParts_right_iff (hok : AllocatorOk m₀ pages env) (scPartv : Nat)
    (h : AtRound m₀ m env i) :
    PartsRight m₀ pages (freeGotParts m partvec scPartv (gotParts env i) i) ↔
      scPartv = partvec := by
  have hi : i ≠ 0 := Nat.ne_of_gt h.pos
  rw [freeGotParts]
  by_cases hvec : scPartv = partvec
  · rw [if_neg (by simp [hvec, hi]), foldl_free]
    refine iff_of_true ⟨_, _, rfl, fun _ => ?_, fun got hgot => by cases hgot⟩ hvec
    funext f
    dsimp only
    rw [if_congr mem_runFrames_reverse rfl rfl, take_of_length_le (by simp), h.held f]
    by_cases hf : f ∈ pageFrames (gotParts env i)
    · obtain ⟨j, -, frame, count, hgot, hin⟩ := mem_gotParts.1 hf
      rw [if_pos hf, hok.fresh j frame count hgot f hin]
    · rw [if_neg hf, decide_eq_false hf, Bool.or_false]
  · rw [if_pos (.inl hvec)]
    refine iff_of_false ?_ hvec
    rintro ⟨parts, m', hval, -⟩
    cases hval

variable {frame count : Nat}

theorem partOf_of_some (hi : i ≠ 0) (hgot : env.tryalloc i = some (frame, count)) :
    partOf env i = ⟨frame, env.junk i, count⟩ := by
  rw [partOf, hgot, if_neg hi]
  rfl

theorem AtRound.next (h : AtRound m₀ m env i) (hgot : env.tryalloc i = some (frame, count))
    (hpartc : i + 1 < partcLimit) : AtRound m₀ (kpageframeAlloc m frame count) env (i + 1) := by
  refine ⟨Nat.succ_pos i, hpartc, ?_, fun f => ?_⟩
  · exact Nat.forall_lt_succ_right.2 ⟨h.got, by rw [hgot]; rfl⟩
  · rw [pageFrames_gotParts_succ, partOf_of_some (Nat.ne_of_gt h.pos) hgot]
    simp only [kpageframeAlloc, h.held f, mem_append, mem_range'_1]
    by_cases hnew : frame ≤ f ∧ f < frame + count <;> simp [hnew]

/-- All pages are there: whether the parts are right is a matter of their offsets. -/
theorem AtRound.scattered_iff (hok : AllocatorOk m₀ pages env) (h : AtRound m₀ m env i)
    (hall : obtained env i = pages) :
    Scattered pages m (gotParts env i) ↔
      ∀ j, 0 < j → j < i → env.junk j = obtained env j := by
  rw [← partsFrom_gotParts hok h.got]
  refine ⟨Scattered.starts, fun hfrom => ⟨?_, hfrom, nodup_gotParts hok i, fun f hf => ?_⟩⟩
  · rw [sum_gotParts, hall]
  · rw [h.held f, decide_eq_true hf, Bool.or_true]

theorem partsRight_some {parts : List Part} :
    PartsRight m₀ pages (.ok (some parts, m)) ↔ Scattered pages m parts := by
  constructor
  · rintro ⟨got, m', hval, -, hright⟩
    cases hval
    exact hright parts rfl
  · intro h
    refine ⟨some parts, m, rfl, ⟨fun hnone => absurd hnone (by simp), fun got hgot => ?_⟩⟩
    obtain rfl := Option.some.inj hgot
    exact h

theorem not_partsRight_error {fault : InitFault} :
    ¬PartsRight m₀ pages (.error fault : Except InitFault (Option (List Part) × Mem α)) := by
  rintro ⟨got, m', hval, -⟩
  cases hval

/-- The number of parts has wrapped: a frame is held that no part has, and the parts have
fewer pages than were counted. -/
structure Lost (m₀ m : Mem α) (env : Answers) (vec : List Part) (partc total : Nat) : Prop where
  leak : ∃ f frame count, env.tryalloc 0 = some (frame, count) ∧ f ∈ List.range' frame count ∧
    m₀.held f = false ∧ m.held f = true ∧ f ∉ pageFrames (vec.take partc)
  sum : ((vec.take partc).map Part.spPages).sum < total

variable {vec : List Part} {partc total : Nat}

theorem Lost.not_right (h : Lost m₀ m env vec partc total) :
    ¬PartsRight m₀ total (.ok (some (vec.take partc), m)) := by
  rw [partsRight_some]
  intro hright
  exact absurd hright.sum (Nat.ne_of_lt h.sum)

theorem Lost.freeGotParts (h : Lost m₀ m env vec partc total) (scPartv : Nat) :
    ¬PartsRight m₀ pages (freeGotParts m partvec scPartv vec partc) := by
  obtain ⟨f, frame, count, -, -, hfree, hheld, hout⟩ := h.leak
  rw [Shm.freeGotParts]
  split
  · exact not_partsRight_error
  rintro ⟨parts, m', hval, hnone, -⟩
  cases hval
  have hsame := congrFun (hnone rfl) f
  rw [foldl_free] at hsame
  dsimp only at hsame
  rw [if_congr mem_runFrames_reverse rfl rfl, if_neg hout, hheld, hfree] at hsame
  cases hsame

/-- What is stored of a vector does not make good what is missing. -/
theorem Lost.next (start partc' : Nat) (hok : AllocatorOk m₀ pages env)
    (h : Lost m₀ m env vec partc total) (hi : 0 < i) (hgot : env.tryalloc i = some (frame, count)) :
    Lost m₀ (kpageframeAlloc m frame count) env (vec.take partc ++ [⟨frame, start, count⟩])
      partc' (total + count) := by
  obtain ⟨f, frame0, count0, hfirst, hin, hfree, hheld, hout⟩ := h.leak
  have hall : f ∉ pageFrames (vec.take partc ++ [⟨frame, start, count⟩]) := by
    rw [pageFrames_append, pageFrames_cons, pageFrames_nil, append_nil, mem_append]
    exact fun hf => hf.elim hout
      (hok.apart 0 i frame0 count0 frame count hfirst hgot (Nat.ne_of_lt hi) f hin)
  refine ⟨⟨f, frame0, count0, hfirst, hin, hfree, ?_, fun hf => hall ?_⟩, ?_⟩
  · simp only [kpageframeAlloc, hheld, ite_self]
  · rw [← take_append_drop partc' (vec.take partc ++ _), pageFrames_append]
    exact mem_append_left _ hf
  · have hsplit := congrArg (fun parts => (parts.map Part.spPages).sum)
      (take_append_drop partc' (vec.take partc ++ [⟨frame, start, count⟩]))
    simp only [map_append, sum_append, map_cons, map_nil, sum_cons,
      sum_nil] at hsplit
    have hsum := h.sum
    omega

/-- **Once the number of parts has wrapped, nothing is right any more.** -/
theorem growLoop_lost (hok : AllocatorOk m₀ pages env) :
    ∀ (fuel i : Nat) (m : Mem α) (scPartv : Nat) (vec : List Part) (partc total : Nat), 0 < i →
      Lost m₀ m env vec partc total →
      ¬PartsRight m₀ pages (growLoop env pages partvec fuel i m scPartv vec partc total) := by
  intro fuel
  induction fuel with
  | zero => exact fun _ _ _ _ _ _ _ _ => not_partsRight_error
  | succ fuel ih =>
    intro i m scPartv vec partc total hi h
    rw [growLoop]
    split
    · exact not_partsRight_error
    cases env.realloc i with
    | none => exact h.freeGotParts scPartv
    | some newPartvec =>
      cases hgot : env.tryalloc i with
      | none => exact h.freeGotParts newPartvec
      | some answer =>
        have hnext := h.next ((vec[partc]?).elim (env.junk i) Part.spStart)
          ((partc + 1) % partcLimit) hok hi hgot
        dsimp only
        split
        · exact not_partsRight_error
        split
        · rename_i htotal
          rw [← htotal]
          exact hnext.not_right
        · exact ih _ _ _ _ _ _ (Nat.succ_pos i) hnext

/-- The part after which the number of parts is zero again. -/
theorem AtRound.wraps (hok : AllocatorOk m₀ pages env) (vec : List Part) (h : AtRound m₀ m env i)
    (hgot : env.tryalloc i = some (frame, count)) (hwrap : ¬i + 1 < partcLimit) :
    Lost m₀ (kpageframeAlloc m frame count) env vec ((i + 1) % partcLimit)
      (obtained env i + count) := by
  have hlt := h.partc
  have hzero : (i + 1) % partcLimit = 0 := by
    rw [show i + 1 = partcLimit by omega, Nat.mod_self]
  obtain ⟨answer, hfirst⟩ := Option.isSome_iff_exists.1 (h.got 0 h.pos)
  have hin : answer.1 ∈ List.range' answer.1 answer.2 := by
    have hcount := (hok.count 0 answer.1 answer.2 hfirst).1
    rw [mem_range'_1]
    omega
  rw [hzero]
  refine ⟨⟨answer.1, answer.1, answer.2, hfirst, hin, ?_, ?_, not_mem_nil⟩, ?_⟩
  · exact hok.fresh 0 answer.1 answer.2 hfirst _ hin
  · have hmem := mem_gotParts.2 ⟨0, h.pos, answer.1, answer.2, hfirst, hin⟩
    simp only [kpageframeAlloc, h.held, decide_eq_true hmem, Bool.or_true, ite_self]
  · have hcount := (hok.count i frame count hgot).1
    rw [take_zero, map_nil, sum_nil]
    omega

/-- The condition where both allocations succeed. -/
theorem roundsOk_iff {addr : Nat} {answer : Nat × Nat} (hvec : env.realloc i = some addr)
    (hgot : env.tryalloc i = some answer) :
    RoundsOk env pages partvec i ↔ i + 1 < partcLimit ∧
      (obtained env (i + 1) = pages ∧ (∀ j, 0 < j → j < i + 1 → env.junk j = obtained env j) ∨
        obtained env (i + 1) < pages ∧ addr = partvec ∧ RoundsOk env pages partvec (i + 1)) := by
  constructor
  · intro h
    cases h with
    | noVector hnone => rw [hvec] at hnone; cases hnone
    | noFrames _ hnone => rw [hgot] at hnone; cases hnone
    | last _ _ hpartc hall hstart => exact ⟨hpartc, .inl ⟨hall, hstart⟩⟩
    | next hsame _ hpartc hmore hrest =>
      rw [hvec] at hsame
      exact ⟨hpartc, .inr ⟨hmore, Option.some.inj hsame, hrest⟩⟩
  · rintro ⟨hpartc, ⟨hall, hstart⟩ | ⟨hmore, rfl, hrest⟩⟩
    · exact .last (by rw [hvec]; rfl) (by rw [hgot]; rfl) hpartc hall hstart
    · exact .next hvec (by rw [hgot]; rfl) hpartc hmore hrest

/-- **The loop is right exactly under its condition.** -/
theorem growLoop_right_iff (hok : AllocatorOk m₀ pages env) :
    ∀ (fuel i : Nat) (m : Mem α), AtRound m₀ m env i → obtained env i < pages →
      pages ≤ obtained env i + fuel →
      (PartsRight m₀ pages (growLoop env pages partvec fuel i m partvec (gotParts env i) i
        (obtained env i)) ↔ RoundsOk env pages partvec i) := by
  intro fuel
  induction fuel with
  | zero =>
    intro i m _ hmissing hfuel
    omega
  | succ fuel ih =>
    intro i m h hmissing hfuel
    rw [growLoop, if_neg (not_not.2 rfl)]
    cases hvec : env.realloc i with
    | none => exact iff_of_true ((freeGotParts_right_iff hok _ h).2 rfl) (.noVector hvec)
    | some addr =>
      cases hgot : env.tryalloc i with
      | none =>
        rw [freeGotParts_right_iff hok _ h]
        constructor
        · rintro rfl
          exact .noFrames hvec hgot
        · intro hrounds
          cases hrounds with
          | noVector hnone => rw [hvec] at hnone; cases hnone
          | noFrames hsame => exact Option.some.inj (hvec.symm.trans hsame)
          | last _ hsome => rw [hgot] at hsome; cases hsome
          | next _ hsome => rw [hgot] at hsome; cases hsome
      | some answer =>
        have hparts : (gotParts env i).take i ++ [⟨answer.1, env.junk i, answer.2⟩] =
            gotParts env (i + 1) := by
          rw [take_of_length_le (by simp), gotParts,
            partOf_of_some (Nat.ne_of_gt h.pos) hgot]
        have hstart : ((gotParts env i)[i]?).elim (env.junk i) Part.spStart = env.junk i := by
          rw [getElem?_eq_none (by simp)]
          rfl
        have htotal : obtained env i + answer.2 = obtained env (i + 1) := by
          rw [obtained, hgot]
          rfl
        have hcount := (hok.count i answer.1 answer.2 hgot).1
        dsimp only
        rw [roundsOk_iff hvec hgot, hstart, hparts]
        by_cases hpartc : i + 1 < partcLimit
        · have hround := h.next hgot hpartc
          rw [Nat.mod_eq_of_lt hpartc, htotal]
          rcases Nat.lt_trichotomy (obtained env (i + 1)) pages with hlt | heq | hgt
          · rw [if_neg (Nat.lt_asymm hlt), if_neg (Nat.ne_of_lt hlt)]
            by_cases hsame : addr = partvec
            · subst hsame
              rw [ih (i + 1) _ hround hlt (by omega)]
              simp [hpartc, hlt, Nat.ne_of_lt hlt]
            · -- A vector that has moved is not found again.
              refine iff_of_false ?_ (by simp [hsame, Nat.ne_of_lt hlt])
              obtain _ | fuel := fuel
              · exact not_partsRight_error
              rw [growLoop, if_pos hsame]
              exact not_partsRight_error
          · rw [if_neg (by omega), if_pos heq, take_of_length_le (by simp),
              partsRight_some, hround.scattered_iff hok heq]
            simp [hpartc, heq]
          · rw [if_pos hgt]
            refine iff_of_false not_partsRight_error ?_
            simp [Nat.ne_of_gt hgt, Nat.lt_asymm hgt]
        · -- The number of parts wraps to zero.
          have hlost := h.wraps hok (gotParts env (i + 1)) hgot hpartc
          refine iff_of_false ?_ (fun hrounds => hpartc hrounds.1)
          split
          · exact not_partsRight_error
          split
          · rename_i hall
            rw [← hall]
            exact hlost.not_right
          · exact growLoop_lost hok _ _ _ _ _ _ _ (Nat.succ_pos i) hlost

end Loop

/-! ### Calls -/

theorem initRight_map {m : Mem α} {pages : Nat} (flags : RegionFlags)
    (result : Except InitFault (Option (List Part) × Mem α)) :
    InitRight m pages (result.map fun done =>
        (done.1.map fun parts => ⟨flags, pages, parts⟩, done.2)) ↔
      PartsRight m pages result := by
  constructor
  · rintro ⟨chunk, m', hval, hnone, hsome⟩
    cases result with
    | error fault => cases hval
    | ok done =>
      cases hval
      refine ⟨done.1, done.2, rfl, fun h => hnone (by rw [h]; rfl), fun got hgot => ?_⟩
      exact (hsome ⟨flags, pages, got⟩ (by rw [Option.mem_def.1 hgot]; rfl)).2
  · rintro ⟨parts, m', rfl, hnone, hsome⟩
    refine ⟨_, m', rfl, fun h => hnone (Option.map_eq_none_iff.1 h), fun got hgot => ?_⟩
    obtain ⟨partv, hparts, rfl⟩ := Option.map_eq_some_iff.1 hgot
    exact ⟨rfl, hsome partv hparts⟩

theorem AtRound.first {m : Mem α} {env : Answers} {answer : Nat × Nat}
    (hgot : env.tryalloc 0 = some answer) :
    AtRound m (kpageframeAlloc m answer.1 answer.2) env 1 := by
  refine ⟨Nat.one_pos, by decide, fun j hj => ?_, fun f => ?_⟩
  · obtain rfl := Nat.lt_one_iff.1 hj
    rw [hgot]
    rfl
  · have hframes : pageFrames (gotParts env 1) = List.range' answer.1 answer.2 := by
      rw [pageFrames_gotParts_succ, partOf, hgot]
      rfl
    simp only [kpageframeAlloc, hframes, mem_range'_1]
    by_cases hnew : answer.1 ≤ f ∧ f < answer.1 + answer.2 <;> simp [hnew]

/-- **Chunks of scattered memory.** Whatever the allocators answer, a call gives parts that are
right, or fails and has returned all frames, exactly if there is no memory, or all pages come at
once, or nothing goes wrong in the loop. -/
theorem kshmchunkInitram_right_iff (m : Mem α) (pages : Nat) (flags : RegionFlags)
    (env : Answers) (hpages : 1 ≤ pages) (hok : AllocatorOk m pages env) :
    InitRight m pages (kshmchunkInitram m pages flags env) ↔ InitOk env pages := by
  rw [kshmchunkInitram, if_neg (by omega), InitOk]
  cases hmalloc : env.malloc with
  | none =>
    exact iff_of_true ⟨none, m, rfl, fun _ => rfl, fun got hgot => by cases hgot⟩ (.inl rfl)
  | some partvec =>
    cases hgot : env.tryalloc 0 with
    | none =>
      exact iff_of_true ⟨none, m, rfl, fun _ => rfl, fun got hgot => by cases hgot⟩
        (.inr (.inl rfl))
    | some answer =>
      have hround : AtRound m (kpageframeAlloc m answer.1 answer.2) env 1 := .first hgot
      have htotal : obtained env 1 = answer.2 := by
        rw [obtained, obtained, hgot]
        exact Nat.zero_add _
      have hparts : gotParts env 1 = [⟨answer.1, 0, obtained env 1⟩] := by
        rw [gotParts, gotParts, partOf, hgot, htotal]
        rfl
      have hle := (hok.count 0 answer.1 answer.2 hgot).2
      dsimp only
      rw [← htotal] at hround ⊢
      rw [initRight_map, ← hparts]
      by_cases hall : obtained env 1 = pages
      · rw [if_pos hall, partsRight_some, hround.scattered_iff hok hall]
        exact iff_of_true (fun j hj hlt => absurd hj (by omega))
          (.inr (.inr (.inl hall)))
      · rw [if_neg hall, growLoop_right_iff hok pages 1 _ hround (by omega) (by omega)]
        simp [hall]

/-! ### Examples -/

/-- The vector never moves, the memory behind it is empty, and the allocator answers with
runs of two pages. -/
def pairAnswers (frames : List Nat) : Answers where
  malloc := some 4096
  realloc := fun _ => some 4096
  junk := fun _ => 0
  tryalloc := fun i => frames[i]?.map fun frame => (frame, 2)

/-- Memory to read and write. -/
def dataFlags : RegionFlags := ⟨false, true, true, false, false, false, false, false⟩

/-- Nothing is allocated. -/
def emptyMem : Mem Unit := Mem.start (fun _ => false) fun _ => ()

theorem allocatorOk_pair {frames : List Nat} {pages : Nat} (hpages : 2 ≤ pages)
    (hapart : frames.Pairwise fun a b => a + 2 ≤ b) :
    AllocatorOk emptyMem pages (pairAnswers frames) := by
  have hlt : ∀ i j frame frame' : Nat, i < j → frames[i]? = some frame →
      frames[j]? = some frame' → frame + 2 ≤ frame' := by
    intro i j frame frame' hij hi hj
    obtain ⟨hi', rfl⟩ := List.getElem?_eq_some_iff.1 hi
    obtain ⟨hj', rfl⟩ := List.getElem?_eq_some_iff.1 hj
    exact pairwise_iff_getElem.1 hapart i j hi' hj' hij
  refine ⟨fun i frame count h => ?_, fun _ _ _ _ _ _ => rfl, ?_⟩
  · obtain ⟨f, -, hf⟩ := Option.map_eq_some_iff.1 h
    cases hf
    omega
  · intro i j frame count frame' count' h h' hne f hf hf'
    obtain ⟨a, ha, hfa⟩ := Option.map_eq_some_iff.1 h
    obtain ⟨b, hb, hfb⟩ := Option.map_eq_some_iff.1 h'
    cases hfa
    cases hfb
    rw [mem_range'_1] at hf hf'
    rcases Nat.lt_or_gt_of_ne hne with hij | hij
    · have := hlt i j _ _ hij ha hb
      omega
    · have := hlt j i _ _ hij hb ha
      omega

/-- Four pages come as two and two, and the second part starts where the memory says. -/
theorem kshmchunkInitram_unset_start :
    AllocatorOk emptyMem 4 (pairAnswers [256, 512]) ∧
    (∃ m', kshmchunkInitram emptyMem 4 dataFlags (pairAnswers [256, 512]) =
      .ok (some ⟨dataFlags, 4, [⟨256, 0, 2⟩, ⟨512, 0, 2⟩]⟩, m')) ∧
    ¬InitRight emptyMem 4 (kshmchunkInitram emptyMem 4 dataFlags (pairAnswers [256, 512])) := by
  have hcall : ∃ m', kshmchunkInitram emptyMem 4 dataFlags (pairAnswers [256, 512]) =
      .ok (some ⟨dataFlags, 4, [⟨256, 0, 2⟩, ⟨512, 0, 2⟩]⟩, m') := ⟨_, rfl⟩
  refine ⟨allocatorOk_pair (by decide) (by decide), hcall, ?_⟩
  rintro ⟨chunk, m'', hval', -, hsome⟩
  cases hval'
  have hstarts := (hsome _ rfl).2.starts
  have hsecond : 0 = 2 := hstarts.2.2.1
  exact absurd hsecond (by decide)

/-- Two of four pages come and then none, and the two are returned. -/
theorem kshmchunkInitram_right_short :
    InitOk (pairAnswers [256]) 4 ∧
      InitRight emptyMem 4 (kshmchunkInitram emptyMem 4 dataFlags (pairAnswers [256])) := by
  have hok : InitOk (pairAnswers [256]) 4 :=
    .inr (.inr (.inr ⟨4096, rfl, .noFrames rfl rfl⟩))
  exact ⟨hok, (kshmchunkInitram_right_iff emptyMem 4 dataFlags _ (by decide)
    (allocatorOk_pair (by decide) (by decide))).2 hok⟩

end KosKernel.Shm
