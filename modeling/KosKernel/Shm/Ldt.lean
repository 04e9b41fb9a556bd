import Mathlib.Data.Nat.Bitwise
import Mathlib.Logic.Function.Basic

/-!
# KosKernel.Shm.Ldt

**The local descriptor table of an address space** (`src/kernel/shm-ldt.c.inl`, without its
assertions).

A descriptor is handed out under the offset of its entry, marked as one of the local table.
The table grows when no entry is empty and shrinks when its end is. Growing inside the block
that the table is in leaves the entries behind the old limit as they are. Growing beyond it
copies the table to a new block, maps that one for the processor and frees the old block, but
`ldt_vector` still points to the old one. And the new limit has 16 bits: behind the last
entries it is zero.
-/

namespace KosKernel.Shm

open Function List

/-! ### The source -/

/-- The bit `present` of a descriptor (`struct ksegment`). -/
def segPresent (seg : BitVec 64) : Bool := seg.getLsbD 47

/-- A block of memory, as descriptors; `usable` is its `malloc_usable_size`. -/
structure LdtBlock where
  usable : Nat
  entry : Nat → BitVec 64

/-- `struct kldt` and the memory it points to. The user mapping `ldt_base` is given by the block
that is mapped there. -/
structure Ldt where
  heap : Nat → Option LdtBlock
  limit : Nat
  base : Nat
  vector : Nat

inductive LdtFault where
  /-- Memory is used that was freed. -/
  | freed
  /-- Memory is used outside of a block. -/
  | outside
  deriving DecidableEq

/-- What `valloc` and `kpagedir_mapanyex` answer. -/
structure LdtAnswers where
  valloc : Nat → Option (Nat × LdtBlock)
  mapany : Bool

/-- `align(n,BUFSIZE)`, before it is taken for a `kseglimit_t` -/
def alignBuf (n : Nat) : Nat := (n + 63) / 64 * 64

/-- `KSEG_TOLDT` -/
def ksegToldt (seg : Nat) : Nat := seg ||| 4

/-- The offset of the entry of a segment id (`id &= ~0x7`). -/
def ldtOffset (id : Nat) : Nat := id / 8 * 8

namespace Ldt

/-- What is read at `SEGAT(offset)`. -/
def segAt (self : Ldt) (offset : Nat) : Except LdtFault (BitVec 64) :=
  match self.heap self.vector with
  | none => .error .freed
  | some b => if offset + 8 ≤ b.usable then .ok (b.entry (offset / 8)) else .error .outside

/-- The entry at `SEGAT(offset)` is written. -/
def setSegAt (self : Ldt) (offset : Nat) (seg : BitVec 64) : Except LdtFault Ldt :=
  match self.heap self.vector with
  | none => .error .freed
  | some b =>
    if offset + 8 ≤ b.usable then
      let b' := { b with entry := update b.entry (offset / 8) seg }
      .ok { self with heap := update self.heap self.vector (some b') }
    else .error .outside

end Ldt

/-- `kshm_initldt`, without the entry in the global table. -/
def kshmInitldt (answers : LdtAnswers) (heap : Nat → Option LdtBlock) (sizeHint : Nat) :
    Option Ldt :=
  let limit := alignBuf (sizeHint * 8) % 65536
  match answers.valloc limit with
  | none => none
  | some (vector, b) =>
    if answers.mapany then
      let b' := { b with entry := fun i => if i * 8 < limit then 0 else b.entry i }
      some ⟨update heap vector (some b'), limit, vector, vector⟩
    else none

/-- `kshm_ldtsetlimit`: whether it succeeds, and the table. -/
def kshmLdtsetlimit (answers : LdtAnswers) (self : Ldt) (newlimit : Nat) :
    Except LdtFault (Bool × Ldt) :=
  match self.heap self.vector with
  | none => .error .freed
  | some old =>
    if old.usable < newlimit then
      match answers.valloc newlimit with
      | none => .ok (false, self)
      | some (vector, new) =>
        if self.limit ≤ old.usable ∧ newlimit ≤ new.usable then
          let copy i := if i * 8 < self.limit then old.entry i
            else if i * 8 < newlimit then 0 else new.entry i
          let heap := update self.heap vector (some { new with entry := copy })
          if answers.mapany then
            .ok (true, { self with
              base := vector, limit := newlimit,
              heap := update heap self.vector none })
          -- The block that was not mapped is not freed.
          else .ok (false, { self with heap := heap })
        else .error .outside
    else .ok (true, { self with limit := newlimit })

/-- The end of both calls for a segment where the table has to grow: a descriptor is put behind
it. -/
def ldtAppend (answers : LdtAnswers) (self : Ldt) (offset : Nat) (seg : BitVec 64) :
    Except LdtFault (Nat × Ldt) := do
  let (ok, self) ← kshmLdtsetlimit answers self (alignBuf (offset + 8) % 65536)
  if ok then
    let self ← self.setSegAt offset seg
    return (ksegToldt offset, self)
  else return (0, self)

/-- The search of `kshm_ldtalloc_unlocked` for an empty entry, from the end. -/
def findEmpty (self : Ldt) : Nat → Except LdtFault (Option Nat)
  | 0 => .ok none
  | iter + 1 => do
      let seg ← self.segAt (iter * 8)
      if segPresent seg then findEmpty self iter else .ok (some (iter * 8))

/-- `kshm_ldtalloc_unlocked`; zero is `KSEG_NULL`. -/
def kshmLdtalloc (answers : LdtAnswers) (self : Ldt) (seg : BitVec 64) :
    Except LdtFault (Nat × Ldt) := do
  match ← findEmpty self (self.limit / 8) with
  | some offset =>
    let self ← self.setSegAt offset seg
    return (ksegToldt offset, self)
  | none => ldtAppend answers self self.limit seg

/-- `kshm_ldtallocat_unlocked` -/
def kshmLdtallocat (answers : LdtAnswers) (self : Ldt) (reqid : Nat) (seg : BitVec 64) :
    Except LdtFault (Nat × Ldt) := do
  let offset := ldtOffset reqid
  if self.limit ≤ offset then ldtAppend answers self offset seg
  else
    let old ← self.segAt offset
    if segPresent old then return (0, self)
    else
      let self ← self.setSegAt offset seg
      return (ksegToldt offset, self)

/-- The end of the entries that are present. -/
def usedEnd (self : Ldt) : Nat → Except LdtFault Nat
  | 0 => .ok 0
  | iter + 1 => do
      let seg ← self.segAt (iter * 8)
      if segPresent seg then .ok (iter + 1) else usedEnd self iter

/-- `kshm_ldtfree_unlocked`. The difference of the limits is an `int`, compared as a `size_t`. -/
def kshmLdtfree (answers : LdtAnswers) (self : Ldt) (id : Nat) : Except LdtFault Ldt := do
  let self ← self.setSegAt (ldtOffset id) 0
  let used ← usedEnd self (self.limit / 8)
  let newLimit := alignBuf (used * 8) % 65536
  if used * 8 ≠ self.limit ∧ 128 ≤ (self.limit + 4294967296 - newLimit) % 4294967296 then
    let (_, self) ← kshmLdtsetlimit answers self newLimit
    return self
  else return self

/-- `kshm_ldtget_unlocked` -/
def kshmLdtget (self : Ldt) (id : Nat) : Except LdtFault (BitVec 64) := self.segAt (ldtOffset id)

/-- `kshm_ldtset_unlocked` -/
def kshmLdtset (self : Ldt) (id : Nat) (seg : BitVec 64) : Except LdtFault Ldt :=
  self.setSegAt (ldtOffset id) seg

/-! ### Runs -/

/-- The table and the segments that were handed out and not freed, with the descriptor that was
last set for each. -/
structure LdtState where
  ldt : Ldt
  live : List (Nat × BitVec 64)

/-- The calls; the limit is also changed by the others. -/
inductive LdtCall where
  | alloc (seg : BitVec 64)
  | allocat (reqid : Nat) (seg : BitVec 64)
  | free (id : Nat)
  | setlimit (newlimit : Nat)
  | set (id : Nat) (seg : BitVec 64)

/-- A call for a new segment hands one out unless it answers `KSEG_NULL`. -/
def handOut (live : List (Nat × BitVec 64)) (id : Nat) (seg : BitVec 64) :
    List (Nat × BitVec 64) :=
  if id = 0 then live else (id, seg) :: live

def LdtState.exec (answers : LdtAnswers) (st : LdtState) : LdtCall → Except LdtFault LdtState
  | .alloc seg => do
      let (id, ldt) ← kshmLdtalloc answers st.ldt seg
      return ⟨ldt, handOut st.live id seg⟩
  | .allocat reqid seg => do
      let (id, ldt) ← kshmLdtallocat answers st.ldt reqid seg
      return ⟨ldt, handOut st.live id seg⟩
  | .free id => do
      let ldt ← kshmLdtfree answers st.ldt id
      return ⟨ldt, st.live.filter fun x => x.1 / 8 ≠ id / 8⟩
  | .setlimit newlimit => do
      let (_, ldt) ← kshmLdtsetlimit answers st.ldt newlimit
      return ⟨ldt, st.live⟩
  | .set id seg => do
      let ldt ← kshmLdtset st.ldt id seg
      return ⟨ldt, st.live.map fun x => if x.1 / 8 = id / 8 then (x.1, seg) else x⟩

/-- What the code asserts of a call. -/
def Asserted (st : LdtState) : LdtCall → Prop
  | .alloc seg => segPresent seg = true
  | .allocat reqid seg => segPresent seg = true ∧ reqid < 65536 ∧ reqid % 8 = 4
  | .free id | .set id _ => ∃ x ∈ st.live, x.1 / 8 = id / 8
  | .setlimit newlimit => newlimit ≠ st.ldt.limit ∧ newlimit % 8 = 0 ∧ newlimit < 65536

/-- What is known of a new block. -/
def VallocOk (answers : LdtAnswers) (heap : Nat → Option LdtBlock) : Prop :=
  ∀ n vector b, answers.valloc n = some (vector, b) → heap vector = none ∧ n ≤ b.usable

/-- The condition on a change of the limit: it has 16 bits, the entries that are gained inside
the block are empty, and beyond the block it fails for lack of memory. -/
def LimitOk (answers : LdtAnswers) (ldt : Ldt) (newlimit : Nat) : Prop :=
  newlimit < 65536 ∧ ∀ b, ldt.heap ldt.vector = some b →
    (newlimit ≤ b.usable → ∀ i, ldt.limit ≤ i * 8 → i * 8 < newlimit → b.entry i = 0) ∧
    (b.usable < newlimit → answers.valloc newlimit = none ∨ answers.mapany = false)

/-- The condition on a call. -/
def CallOk (answers : LdtAnswers) (st : LdtState) : LdtCall → Prop
  | .alloc _ =>
    (∀ b, st.ldt.heap st.ldt.vector = some b →
      ∀ i, i * 8 < st.ldt.limit → segPresent (b.entry i) = true) →
    LimitOk answers st.ldt (alignBuf (st.ldt.limit + 8))
  | .allocat reqid _ =>
    st.ldt.limit ≤ ldtOffset reqid → LimitOk answers st.ldt (alignBuf (ldtOffset reqid + 8))
  | .free id =>
    ∀ b, st.ldt.heap st.ldt.vector = some b → ∀ i, i * 8 < st.ldt.limit → i ≠ id / 8 →
      segPresent (b.entry i) = true → alignBuf ((i + 1) * 8) ≤ st.ldt.limit
  | .setlimit newlimit => LimitOk answers st.ldt newlimit ∧ ∀ x ∈ st.live, x.1 < newlimit
  | .set _ seg => segPresent seg = true

/-- A run of calls that meet the condition. -/
inductive LdtRun : LdtState → Prop
  | init {heap : Nat → Option LdtBlock} {ldt : Ldt} (answers : LdtAnswers) (sizeHint : Nat) :
      VallocOk answers heap → kshmInitldt answers heap sizeHint = some ldt → LdtRun ⟨ldt, []⟩
  | call {st st' : LdtState} (answers : LdtAnswers) (call : LdtCall) :
      LdtRun st → VallocOk answers st.ldt.heap → Asserted st call → CallOk answers st call →
      st.exec answers call = .ok st' → LdtRun st'

/-- What the table is for. -/
structure LdtRight (st : LdtState) : Prop where
  distinct : (st.live.map Prod.fst).Nodup
  kept : ∀ x ∈ st.live, x.1 < st.ldt.limit ∧ kshmLdtget st.ldt x.1 = .ok x.2
  memory : st.ldt.base = st.ldt.vector ∧
    ∃ b, st.ldt.heap st.ldt.vector = some b ∧ st.ldt.limit ≤ b.usable
  aligned : st.ldt.limit % 8 = 0
  empty : ∀ i, i * 8 < st.ldt.limit → (∀ x ∈ st.live, x.1 / 8 ≠ i) →
    st.ldt.segAt (i * 8) = .ok 0

/-! ### The invariant -/

/-- What holds between two calls, with the block that the table is in. -/
structure LdtInv (st : LdtState) (b : LdtBlock) : Prop where
  heap : st.ldt.heap st.ldt.vector = some b
  fits : st.ldt.limit ≤ b.usable
  base : st.ldt.base = st.ldt.vector
  aligned : st.ldt.limit % 8 = 0
  small : st.ldt.limit < 65536
  distinct : (st.live.map Prod.fst).Nodup
  live : ∀ x ∈ st.live, x.1 % 8 = 4 ∧ x.1 < st.ldt.limit ∧ b.entry (x.1 / 8) = x.2 ∧
    segPresent x.2 = true
  empty : ∀ i, i * 8 < st.ldt.limit → (∀ x ∈ st.live, x.1 / 8 ≠ i) → b.entry i = 0

variable {ldt : Ldt} {b : LdtBlock}

theorem LdtInv.room {st : LdtState} (h : LdtInv st b) {i : Nat} (hi : i * 8 < st.ldt.limit) :
    i * 8 + 8 ≤ b.usable := by
  have := h.fits
  have := h.aligned
  omega

theorem LdtInv.entries {st : LdtState} (h : LdtInv st b) :
    st.ldt.limit / 8 * 8 = st.ldt.limit := by
  have := h.aligned
  omega

theorem segAt_of_heap {i : Nat} (h : ldt.heap ldt.vector = some b) (hi : i * 8 + 8 ≤ b.usable) :
    ldt.segAt (i * 8) = .ok (b.entry i) := by
  rw [Ldt.segAt, h]
  dsimp only
  rw [if_pos hi, Nat.mul_div_cancel i (by decide)]

/-- The table with an entry written. -/
def Ldt.put (ldt : Ldt) (b : LdtBlock) (i : Nat) (seg : BitVec 64) : Ldt :=
  let b' := { b with entry := update b.entry i seg }
  { ldt with heap := update ldt.heap ldt.vector (some b') }

theorem setSegAt_of_heap {i : Nat} (seg : BitVec 64) (h : ldt.heap ldt.vector = some b)
    (hi : i * 8 + 8 ≤ b.usable) : ldt.setSegAt (i * 8) seg = .ok (ldt.put b i seg) := by
  rw [Ldt.setSegAt, h]
  dsimp only
  rw [if_pos hi, Nat.mul_div_cancel i (by decide), Ldt.put]

theorem alignBuf_mod (n : Nat) : alignBuf n % 8 = 0 := by
  unfold alignBuf
  omega

theorem ksegToldt_mul (i : Nat) : ksegToldt (i * 8) = i * 8 + 4 := by
  rw [ksegToldt, Nat.mul_comm]
  exact (Nat.two_pow_add_eq_or_of_lt (i := 3) (show 4 < 2 ^ 3 by decide) i).symm

theorem findEmpty_spec (h : ldt.heap ldt.vector = some b) (n : Nat) (hn : n * 8 ≤ b.usable) :
    (findEmpty ldt n = .ok none ∧ ∀ i < n, segPresent (b.entry i) = true) ∨
      ∃ i < n, findEmpty ldt n = .ok (some (i * 8)) ∧ segPresent (b.entry i) = false := by
  induction n with
  | zero => exact .inl ⟨rfl, fun i hi => absurd hi (Nat.not_lt_zero i)⟩
  | succ n ih =>
    rw [findEmpty, segAt_of_heap h (by omega)]
    cases hpres : segPresent (b.entry n) with
    | false => exact .inr ⟨n, Nat.lt_succ_self n, by simp [bind, Except.bind, hpres], hpres⟩
    | true =>
      simp only [bind, Except.bind, hpres, if_true]
      rcases ih (by omega) with ⟨hnone, hall⟩ | ⟨i, hi, hsome, hempty⟩
      · exact .inl ⟨hnone, Nat.forall_lt_succ_right.2 ⟨hall, hpres⟩⟩
      · exact .inr ⟨i, by omega, hsome, hempty⟩

theorem usedEnd_spec (h : ldt.heap ldt.vector = some b) (n : Nat) (hn : n * 8 ≤ b.usable) :
    ∃ k ≤ n, usedEnd ldt n = .ok k ∧ (∀ i, k ≤ i → i < n → segPresent (b.entry i) = false) ∧
      (0 < k → segPresent (b.entry (k - 1)) = true) := by
  induction n with
  | zero => exact ⟨0, Nat.le_refl 0, rfl, fun i _ hi => absurd hi (Nat.not_lt_zero i),
      fun hpos => absurd hpos (Nat.lt_irrefl 0)⟩
  | succ n ih =>
    rw [usedEnd, segAt_of_heap h (by omega)]
    cases hpres : segPresent (b.entry n) with
    | true =>
      refine ⟨n + 1, Nat.le_refl _, by simp [bind, Except.bind, hpres], fun i _ _ => by omega,
        fun _ => ?_⟩
      exact hpres
    | false =>
      obtain ⟨k, hk, hval, hnone, hlast⟩ := ih (by omega)
      refine ⟨k, by omega, by simp [bind, Except.bind, hpres, hval], fun i hlo hi => ?_, hlast⟩
      rcases Nat.lt_succ_iff_lt_or_eq.1 hi with hlt | rfl
      · exact hnone i hlo hlt
      · exact hpres

section Calls

variable {st : LdtState} {b : LdtBlock} {answers : LdtAnswers}

/-- The block with an entry written. -/
def LdtBlock.put (b : LdtBlock) (i : Nat) (seg : BitVec 64) : LdtBlock :=
  { b with entry := update b.entry i seg }

variable {i : Nat}

theorem LdtBlock.put_entry (b : LdtBlock) {j : Nat} (seg : BitVec 64) (h : j ≠ i) :
    (b.put i seg).entry j = b.entry j := update_of_ne h _ _

theorem LdtBlock.put_entry_self (b : LdtBlock) (i : Nat) (seg : BitVec 64) :
    (b.put i seg).entry i = seg := update_self _ _ _

theorem Ldt.put_heap (ldt : Ldt) (b : LdtBlock) (i : Nat) (seg : BitVec 64) :
    (ldt.put b i seg).heap ldt.vector = some (b.put i seg) := update_self _ _ _

variable {seg : BitVec 64}

section

variable (h : LdtInv st b)

include h

theorem LdtInv.put (hi : i * 8 < st.ldt.limit) (hfree : ∀ x ∈ st.live, x.1 / 8 ≠ i)
    (hseg : segPresent seg = true) :
    LdtInv ⟨st.ldt.put b i seg, (i * 8 + 4, seg) :: st.live⟩ (b.put i seg) :=
  { h with
    heap := st.ldt.put_heap b i seg
    distinct := by
      refine nodup_cons.2 ⟨fun hmem => ?_, h.distinct⟩
      obtain ⟨x, hx, heq⟩ := mem_map.1 hmem
      exact hfree x hx (by omega)
    live x hx := by
      rcases mem_cons.1 hx with rfl | hold
      · have haligned := h.aligned
        refine ⟨by dsimp only; omega, by dsimp only [Ldt.put]; omega, ?_, hseg⟩
        rw [show (i * 8 + 4) / 8 = i by omega]
        exact b.put_entry_self i seg
      · obtain ⟨hid, hlt, hentry, hpres⟩ := h.live x hold
        exact ⟨hid, hlt, by rw [b.put_entry seg (hfree x hold)]; exact hentry, hpres⟩
    empty j hj hnone := by
      have hne : j ≠ i := by
        rintro rfl
        exact hnone _ mem_cons_self (by dsimp only; omega)
      rw [b.put_entry seg hne]
      exact h.empty j hj fun x hx => hnone x (mem_cons_of_mem _ hx) }

theorem LdtInv.clear (i : Nat) :
    LdtInv ⟨st.ldt.put b i 0, st.live.filter fun x => x.1 / 8 ≠ i⟩ (b.put i 0) :=
  { h with
    heap := st.ldt.put_heap b i 0
    distinct := h.distinct.sublist (filter_sublist.map _)
    live x hx := by
      obtain ⟨hold, hne⟩ := mem_filter.1 hx
      obtain ⟨hid, hlt, hentry, hpres⟩ := h.live x hold
      exact ⟨hid, hlt, by rw [b.put_entry 0 (of_decide_eq_true hne)]; exact hentry, hpres⟩
    empty j hj hnone := by
      by_cases hji : j = i
      · rw [hji]
        exact b.put_entry_self i 0
      rw [b.put_entry 0 hji]
      refine h.empty j hj fun x hx hxj => ?_
      exact hnone x (mem_filter.2 ⟨hx, decide_eq_true (by omega)⟩) hxj }

theorem LdtInv.replace (hlive : ∃ x ∈ st.live, x.1 / 8 = i) (hseg : segPresent seg = true) :
    LdtInv ⟨st.ldt.put b i seg,
      st.live.map fun x => if x.1 / 8 = i then (x.1, seg) else x⟩ (b.put i seg) where
  __ := h
  heap := st.ldt.put_heap b i seg
  distinct := by
    have hfst : (Prod.fst ∘ fun x : Nat × BitVec 64 => if x.1 / 8 = i then (x.1, seg) else x) =
        Prod.fst := by
      funext x
      by_cases hx : x.1 / 8 = i <;> simp [hx]
    rw [map_map, hfst]
    exact h.distinct
  live x hx := by
    obtain ⟨y, hy, rfl⟩ := mem_map.1 hx
    obtain ⟨hid, hlt, hentry, hpres⟩ := h.live y hy
    by_cases hyi : y.1 / 8 = i
    · rw [if_pos hyi]
      exact ⟨hid, hlt, by rw [hyi]; exact b.put_entry_self i seg, hseg⟩
    · rw [if_neg hyi]
      exact ⟨hid, hlt, by rw [b.put_entry seg hyi]; exact hentry, hpres⟩
  empty j hj hnone := by
    have hfst : ∀ x ∈ st.live, x.1 / 8 ≠ j := by
      intro x hx
      have hmem := hnone _ (mem_map.2 ⟨x, hx, rfl⟩)
      by_cases hxi : x.1 / 8 = i
      · rwa [if_pos hxi] at hmem
      · rwa [if_neg hxi] at hmem
    obtain ⟨x, hx, hxi⟩ := hlive
    rw [b.put_entry seg fun hji => hfst x hx (by omega)]
    exact h.empty j hj hfst

theorem LdtInv.setLimit {n : Nat} (hsmall : n < 65536) (hfits : n ≤ b.usable)
    (haligned : n % 8 = 0) (hlive : ∀ x ∈ st.live, x.1 < n)
    (hgained : ∀ i, st.ldt.limit ≤ i * 8 → i * 8 < n → b.entry i = 0) :
    LdtInv ⟨{ st.ldt with limit := n }, st.live⟩ b :=
  { h with
    fits := hfits
    aligned := haligned
    small := hsmall
    live x hx := ⟨(h.live x hx).1, hlive x hx, (h.live x hx).2.2⟩
    empty i hi hnone := by
      by_cases hold : i * 8 < st.ldt.limit
      · exact h.empty i hold hnone
      · exact hgained i (by omega) hi }

theorem LdtInv.other {vector : Nat} (hv : st.ldt.heap vector = none) (new : Option LdtBlock) :
    LdtInv ⟨{ st.ldt with heap := update st.ldt.heap vector new }, st.live⟩ b :=
  { h with
    heap := by
      have hne : st.ldt.vector ≠ vector := by
        rintro hveq
        rw [← hveq, h.heap] at hv
        cases hv
      dsimp only
      rw [update_of_ne hne]
      exact h.heap }

/-- **A change of the limit** either is made or leaves the table as it is. -/
theorem kshmLdtsetlimit_spec (hvalloc : VallocOk answers st.ldt.heap) {n : Nat}
    (hok : LimitOk answers st.ldt n) (haligned : n % 8 = 0) (hlive : ∀ x ∈ st.live, x.1 < n) :
    ∃ changed ldt, kshmLdtsetlimit answers st.ldt n = .ok (changed, ldt) ∧
      LdtInv ⟨ldt, st.live⟩ b ∧ (changed = true → ldt.limit = n) := by
  obtain ⟨hsmall, hblock⟩ := hok
  obtain ⟨hgained, hbeyond⟩ := hblock b h.heap
  rw [kshmLdtsetlimit, h.heap]
  dsimp only
  by_cases hfits : b.usable < n
  · rw [if_pos hfits]
    cases hnew : answers.valloc n with
    | none => exact ⟨false, _, rfl, h, fun hno => by cases hno⟩
    | some new =>
      obtain ⟨hfree, hsize⟩ := hvalloc n new.1 new.2 hnew
      have hmap : answers.mapany = false := by
        rcases hbeyond hfits with hnone | hfails
        · rw [hnone] at hnew
          cases hnew
        · exact hfails
      dsimp only
      rw [if_pos ⟨h.fits, hsize⟩, hmap, if_neg Bool.false_ne_true]
      exact ⟨false, _, rfl, h.other hfree _, fun hno => by cases hno⟩
  · rw [if_neg hfits]
    exact ⟨true, _, rfl, h.setLimit hsmall (by omega) haligned hlive (hgained (by omega)),
      fun _ => rfl⟩

/-- A limit that is not above the old one can be set. -/
theorem LdtInv.limitOk {n : Nat} (hle : n ≤ st.ldt.limit) : LimitOk answers st.ldt n := by
  have hsmall := h.small
  have hfits := h.fits
  refine ⟨by omega, fun b' hb' => ⟨fun _ i hlo hhi => by omega, fun hbeyond => ?_⟩⟩
  rw [h.heap] at hb'
  cases hb'
  omega

theorem LdtInv.not_live (hempty : segPresent (b.entry i) = false) : ∀ x ∈ st.live, x.1 / 8 ≠ i := by
  rintro x hx rfl
  obtain ⟨-, -, hentry, hpres⟩ := h.live x hx
  rw [hentry, hpres] at hempty
  cases hempty

/-- An entry below the limit is given away. -/
theorem setSegAt_handOut (hi : i * 8 < st.ldt.limit) (hfree : ∀ x ∈ st.live, x.1 / 8 ≠ i)
    (hseg : segPresent seg = true) :
    ∃ ldt b', st.ldt.setSegAt (i * 8) seg = .ok ldt ∧
      LdtInv ⟨ldt, handOut st.live (ksegToldt (i * 8)) seg⟩ b' := by
  refine ⟨_, b.put i seg, setSegAt_of_heap seg h.heap (h.room hi), ?_⟩
  rw [handOut, ksegToldt_mul, if_neg (by omega)]
  exact h.put hi hfree hseg

section

variable (hvalloc : VallocOk answers st.ldt.heap)

include hvalloc

/-- The table grows by the entry `i` and those up to the next multiple of the buffer size, or
stays as it is. -/
theorem ldtAppend_spec (hi : st.ldt.limit ≤ i * 8) (hseg : segPresent seg = true)
    (hok : LimitOk answers st.ldt (alignBuf (i * 8 + 8))) :
    ∃ id ldt b', ldtAppend answers st.ldt (i * 8) seg = .ok (id, ldt) ∧
      LdtInv ⟨ldt, handOut st.live id seg⟩ b' := by
  have hroom : i * 8 + 8 ≤ alignBuf (i * 8 + 8) := by
    unfold alignBuf
    omega
  have hlive : ∀ x ∈ st.live, x.1 < alignBuf (i * 8 + 8) := by
    intro x hx
    have := (h.live x hx).2.1
    omega
  rw [ldtAppend, Nat.mod_eq_of_lt hok.1]
  obtain ⟨changed, ldt, hval, hinv, hlimit⟩ :=
    kshmLdtsetlimit_spec h hvalloc hok (alignBuf_mod _) hlive
  cases changed with
  | true =>
    have hbelow : i * 8 < ldt.limit := by
      rw [hlimit rfl]
      omega
    have hfree : ∀ x ∈ st.live, x.1 / 8 ≠ i := by
      intro x hx
      have := (h.live x hx).2.1
      omega
    obtain ⟨ldt, b', hset, hinv'⟩ := setSegAt_handOut hinv hbelow hfree hseg
    refine ⟨ksegToldt (i * 8), ldt, b', ?_, hinv'⟩
    simp only [hval, bind, Except.bind, hset, pure, Except.pure, if_true]
  | false =>
    refine ⟨0, ldt, b, ?_, hinv⟩
    simp only [hval, bind, Except.bind, pure, Except.pure, Bool.false_eq_true, if_false]

theorem kshmLdtalloc_spec (hseg : segPresent seg = true) (hok : CallOk answers st (.alloc seg)) :
    ∃ id ldt b', kshmLdtalloc answers st.ldt seg = .ok (id, ldt) ∧
      LdtInv ⟨ldt, handOut st.live id seg⟩ b' := by
  have hentries := h.entries
  rcases findEmpty_spec h.heap (st.ldt.limit / 8) (by rw [hentries]; exact h.fits) with
    ⟨hnone, hfull⟩ | ⟨i, hi, hsome, hempty⟩
  · have hlimit : LimitOk answers st.ldt (alignBuf (st.ldt.limit / 8 * 8 + 8)) := by
      rw [hentries]
      refine hok fun b' hb' i hi => ?_
      rw [h.heap] at hb'
      injection hb' with hb'
      rw [← hb']
      exact hfull i (by omega)
    obtain ⟨id, ldt, b', hval, hinv⟩ := ldtAppend_spec h hvalloc (Nat.le_of_eq hentries.symm)
      hseg hlimit
    rw [hentries] at hval
    refine ⟨id, ldt, b', ?_, hinv⟩
    rw [kshmLdtalloc, hnone]
    exact hval
  · obtain ⟨ldt, b', hval, hinv⟩ := setSegAt_handOut h (by omega) (h.not_live hempty) hseg
    refine ⟨_, ldt, b', ?_, hinv⟩
    simp only [kshmLdtalloc, hsome, bind, Except.bind, hval, pure, Except.pure]

theorem kshmLdtallocat_spec {reqid : Nat} (hseg : segPresent seg = true)
    (hok : CallOk answers st (.allocat reqid seg)) :
    ∃ id ldt b', kshmLdtallocat answers st.ldt reqid seg = .ok (id, ldt) ∧
      LdtInv ⟨ldt, handOut st.live id seg⟩ b' := by
  rw [kshmLdtallocat]
  by_cases hbehind : st.ldt.limit ≤ ldtOffset reqid
  · rw [if_pos hbehind]
    exact ldtAppend_spec h hvalloc (i := reqid / 8) hbehind hseg (hok hbehind)
  rw [if_neg hbehind]
  unfold ldtOffset at hbehind ⊢
  rw [segAt_of_heap h.heap (h.room (Nat.lt_of_not_le hbehind))]
  cases hpres : segPresent (b.entry (reqid / 8)) with
  | true =>
    refine ⟨0, st.ldt, b, ?_, h⟩
    simp only [bind, Except.bind, hpres, pure, Except.pure, if_true]
  | false =>
    obtain ⟨ldt, b', hval, hinv⟩ := setSegAt_handOut h (by omega) (h.not_live hpres) hseg
    refine ⟨_, ldt, b', ?_, hinv⟩
    simp only [bind, Except.bind, hpres, hval, pure, Except.pure, Bool.false_eq_true, if_false]

/-- Writing an entry leaves the memory that is not in use. -/
theorem LdtInv.vallocOk_put (i : Nat) (seg : BitVec 64) :
    VallocOk answers (st.ldt.put b i seg).heap := by
  intro n vector new hnew
  obtain ⟨hfree, hsize⟩ := hvalloc n vector new hnew
  refine ⟨?_, hsize⟩
  have hne : vector ≠ st.ldt.vector := by
    rintro rfl
    rw [h.heap] at hfree
    cases hfree
  exact (update_of_ne hne _ _).trans hfree

theorem kshmLdtfree_spec {id : Nat} (hlive : ∃ x ∈ st.live, x.1 / 8 = id / 8)
    (hok : CallOk answers st (.free id)) :
    ∃ ldt b', kshmLdtfree answers st.ldt id = .ok ldt ∧
      LdtInv ⟨ldt, st.live.filter fun x => x.1 / 8 ≠ id / 8⟩ b' := by
  obtain ⟨x, hx, hid⟩ := hlive
  have hlt := (h.live x hx).2.1
  have hroom : id / 8 * 8 + 8 ≤ b.usable := h.room (by omega)
  have hclear := h.clear (id / 8)
  have hentries := h.entries
  obtain ⟨k, hk, hused, hnone, hlast⟩ := usedEnd_spec hclear.heap (st.ldt.limit / 8)
    (by rw [hentries]; exact hclear.fits)
  -- The new limit is behind the last entry that is left, and not behind the old one.
  have hle : alignBuf (k * 8) ≤ st.ldt.limit := by
    rcases Nat.eq_zero_or_pos k with rfl | hpos
    · exact Nat.zero_le _
    have hpres := hlast hpos
    have hne : k - 1 ≠ id / 8 := by
      intro heq
      rw [heq, b.put_entry_self] at hpres
      exact absurd hpres (by decide)
    rw [b.put_entry 0 hne] at hpres
    have hfits := hok b h.heap (k - 1) (by omega) hne hpres
    rwa [Nat.sub_add_cancel hpos] at hfits
  have hsmall := h.small
  have hshrunk : ∀ y ∈ st.live.filter (fun x => x.1 / 8 ≠ id / 8), y.1 < alignBuf (k * 8) := by
    intro y hy
    obtain ⟨-, hylt, hentry, hpres⟩ := hclear.live y hy
    have hyk : y.1 / 8 < k := by
      by_contra hge
      have hbad := hnone (y.1 / 8) (by omega) (by dsimp only [Ldt.put] at hylt; omega)
      rw [hentry, hpres] at hbad
      cases hbad
    unfold alignBuf
    omega
  have hset : st.ldt.setSegAt (ldtOffset id) 0 = .ok (st.ldt.put b (id / 8) 0) :=
    setSegAt_of_heap 0 h.heap hroom
  have hend : usedEnd (st.ldt.put b (id / 8) 0) ((st.ldt.put b (id / 8) 0).limit / 8) = .ok k :=
    hused
  have hwrap : alignBuf (k * 8) % 65536 = alignBuf (k * 8) := Nat.mod_eq_of_lt (by omega)
  simp only [kshmLdtfree, hset, bind, Except.bind, hend, hwrap, pure, Except.pure]
  by_cases hshrink : k * 8 ≠ (st.ldt.put b (id / 8) 0).limit ∧
      128 ≤ ((st.ldt.put b (id / 8) 0).limit + 4294967296 - alignBuf (k * 8)) % 4294967296
  · rw [if_pos hshrink]
    obtain ⟨_, ldt, hval, hinv, -⟩ :=
      kshmLdtsetlimit_spec hclear (h.vallocOk_put hvalloc _ _) (hclear.limitOk hle)
        (alignBuf_mod _) hshrunk
    exact ⟨_, _, by simp only [hval], hinv⟩
  · rw [if_neg hshrink]
    exact ⟨_, _, rfl, hclear⟩

/-- **Every call** that meets the condition succeeds or fails cleanly, and keeps the table
right. -/
theorem exec_spec {call : LdtCall} (hasserted : Asserted st call) (hok : CallOk answers st call) :
    ∃ st' b', st.exec answers call = .ok st' ∧ LdtInv st' b' := by
  cases call with
  | alloc seg =>
    obtain ⟨id, ldt, b', hval, hinv⟩ := kshmLdtalloc_spec h hvalloc hasserted hok
    exact ⟨_, b', by rw [LdtState.exec, hval]; rfl, hinv⟩
  | allocat reqid seg =>
    obtain ⟨id, ldt, b', hval, hinv⟩ := kshmLdtallocat_spec h hvalloc hasserted.1 hok
    exact ⟨_, b', by rw [LdtState.exec, hval]; rfl, hinv⟩
  | free id =>
    obtain ⟨ldt, b', hval, hinv⟩ := kshmLdtfree_spec h hvalloc hasserted hok
    exact ⟨_, b', by rw [LdtState.exec, hval]; rfl, hinv⟩
  | setlimit n =>
    obtain ⟨_, ldt, hval, hinv, -⟩ :=
      kshmLdtsetlimit_spec h hvalloc hok.1 hasserted.2.1 hok.2
    exact ⟨_, b, by rw [LdtState.exec, hval]; rfl, hinv⟩
  | set id seg =>
    obtain ⟨x, hx, hid⟩ := hasserted
    have hlt := (h.live x hx).2.1
    have hval : kshmLdtset st.ldt id seg = .ok (st.ldt.put b (id / 8) seg) :=
      setSegAt_of_heap seg h.heap (h.room (by omega))
    exact ⟨_, _, by rw [LdtState.exec, hval]; rfl, h.replace ⟨x, hx, hid⟩ hok⟩

end

end

end Calls

theorem kshmInitldt_inv {answers : LdtAnswers} {heap : Nat → Option LdtBlock} {sizeHint : Nat}
    (hvalloc : VallocOk answers heap) (h : kshmInitldt answers heap sizeHint = some ldt) :
    ∃ b, LdtInv ⟨ldt, []⟩ b := by
  rw [kshmInitldt] at h
  obtain ⟨limit, hlimit⟩ : ∃ limit, alignBuf (sizeHint * 8) % 65536 = limit := ⟨_, rfl⟩
  have haligned : limit % 8 = 0 ∧ limit < 65536 := by
    unfold alignBuf at hlimit
    omega
  rw [hlimit] at h
  cases hnew : answers.valloc limit with
  | none =>
    rw [hnew] at h
    cases h
  | some new =>
    obtain ⟨-, hsize⟩ := hvalloc limit new.1 new.2 hnew
    rw [hnew] at h
    dsimp only at h
    cases hmap : answers.mapany with
    | false =>
      rw [hmap, if_neg Bool.false_ne_true] at h
      cases h
    | true =>
      rw [hmap, if_pos rfl] at h
      injection h with h
      rw [← h]
      refine ⟨_, update_self _ _ _, hsize, rfl, haligned.1, haligned.2, nodup_nil,
        fun x hx => absurd hx not_mem_nil, fun i hi _ => if_pos hi⟩

theorem LdtRun.inv {st : LdtState} (h : LdtRun st) : ∃ b, LdtInv st b := by
  induction h with
  | init answers sizeHint hvalloc hinit => exact kshmInitldt_inv hvalloc hinit
  | call answers call _ hvalloc hasserted hok hexec ih =>
    obtain ⟨b, hinv⟩ := ih
    obtain ⟨st', b', hval, hinv'⟩ := exec_spec hinv hvalloc hasserted hok
    rw [hval] at hexec
    injection hexec with hst
    exact ⟨b', hst ▸ hinv'⟩

theorem LdtInv.right {st : LdtState} (h : LdtInv st b) : LdtRight st where
  distinct := h.distinct
  kept x hx := by
    obtain ⟨-, hlt, hentry, -⟩ := h.live x hx
    refine ⟨hlt, ?_⟩
    rw [kshmLdtget, ldtOffset, segAt_of_heap h.heap (h.room (by omega)), hentry]
  memory := ⟨h.base, b, h.heap, h.fits⟩
  aligned := h.aligned
  empty i hi hnone := by
    rw [segAt_of_heap h.heap (h.room hi), h.empty i hi hnone]

/-- **In every run** whose changes of the limit stay inside the block and below 16 bits, gain
only empty entries and lose no segment, the table is right, and the next such call does not
fault. -/
theorem kshm_ldt_run {st : LdtState} (h : LdtRun st) :
    LdtRight st ∧ ∀ answers call, VallocOk answers st.ldt.heap → Asserted st call →
      CallOk answers st call → ∃ st', st.exec answers call = .ok st' := by
  obtain ⟨b, hinv⟩ := h.inv
  refine ⟨hinv.right, fun answers call hvalloc hasserted hok => ?_⟩
  obtain ⟨st', -, hval, -⟩ := exec_spec hinv hvalloc hasserted hok
  exact ⟨st', hval⟩

/-- Memory from which one block of 64 bytes can be had. -/
def firstBlock : LdtAnswers where
  valloc n := if n ≤ 64 then some (0, ⟨64, fun _ => 0⟩) else none
  mapany := true

/-- Memory from which one more block of 4096 bytes can be had. -/
def secondBlock : LdtAnswers where
  valloc n := if n ≤ 4096 then some (1, ⟨4096, fun _ => 0⟩) else none
  mapany := true

/-- The data segment of a process, `SEG_DATA_PL3`. -/
def userData : BitVec 64 := 0x00dff2000000ffff

theorem vallocOk_firstBlock : VallocOk firstBlock fun _ => none := by
  intro n vector b h
  simp only [firstBlock, Option.ite_none_right_eq_some, Option.some.injEq, Prod.mk.injEq] at h
  obtain ⟨hn, -, rfl⟩ := h
  exact ⟨rfl, hn⟩

/-- No memory. -/
def noBlock : LdtAnswers := ⟨fun _ => none, false⟩

/-- A segment is handed out: the last entry of the table. -/
theorem ldtRun_first : ∃ st, LdtRun st ∧ st.live = [(60, userData)] := by
  refine ⟨_, .call noBlock (.alloc userData) (.init firstBlock 2 vallocOk_firstBlock rfl)
    (fun n vector b h => by cases h) rfl (fun hfull => ?_) rfl, rfl⟩
  exact absurd (hfull _ rfl 0 (by decide)) (by decide)

theorem kshm_ldt_run_first :
    ∃ st, LdtRun st ∧ st.live = [(60, userData)] ∧ LdtRight st := by
  obtain ⟨st, hrun, hlive⟩ := ldtRun_first
  exact ⟨st, hrun, hlive, (kshm_ldt_run hrun).1⟩

/-- A segment behind the end of the block is asked for: the descriptor is written to the block
that was freed. -/
theorem kshm_ldt_writes_freed : ∃ ldt, kshmInitldt firstBlock (fun _ => none) 2 = some ldt ∧
    VallocOk secondBlock ldt.heap ∧ Asserted ⟨ldt, []⟩ (.allocat 68 userData) ∧
    LdtState.exec secondBlock ⟨ldt, []⟩ (.allocat 68 userData) = .error .freed := by
  refine ⟨_, rfl, ?_, ⟨rfl, by decide, rfl⟩, rfl⟩
  intro n vector b h
  simp only [secondBlock, Option.ite_none_right_eq_some, Option.some.injEq, Prod.mk.injEq] at h
  obtain ⟨hn, rfl, rfl⟩ := h
  exact ⟨rfl, hn⟩

end KosKernel.Shm
