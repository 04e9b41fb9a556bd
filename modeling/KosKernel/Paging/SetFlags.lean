import KosKernel.Paging.Queries
import KosKernel.Paging.Unmap

/-!
# KosKernel.Paging.SetFlags

**Changing the flags of a range of pages** (`kpagedir_setflags` in `src/kernel/paging.c`,
without its assertions).

It goes through the pages with `KPAGEDIR_FOREACHBEGIN`, which misses pages of some ranges and
leaves the page table in others (`Looked`, `Overruns`). In each page table it changes the
directory entry as well, and with it the rights of pages outside of the range. Every entry that
is looked at becomes present and counts as changed, and the address in an entry is masked too.
-/

namespace KosKernel.Paging

open Function List Pagedir

/-! ### The source -/

/-- What an entry becomes; both `mask` and `flags` get the `present` bit. -/
def setEntry (mask flags u : BitVec 32) : BitVec 32 := u &&& (mask ||| 1) ||| (flags ||| 1)

/-- The loop over `count` entries of a page table from `titer` on. -/
def setTable (mask flags : BitVec 32) :
    Nat → Nat → (Nat → BitVec 32) → Nat → Except Fault ((Nat → BitVec 32) × Nat)
  | 0, _, table, result => .ok (table, result)
  | count + 1, titer, table, result =>
    if 1024 ≤ titer then .error .overrun
    else
      setTable mask flags count (titer + 1)
        (update table titer (setEntry mask flags (table titer))) (result + 1)

/-- The loop over the directory entries. -/
def setDirs (mask flags : BitVec 32) (virt pages : Nat) :
    Nat → Nat → Pagedir → Nat → Except Fault (Pagedir × Nat)
  | 0, _, self, result => .ok (self, result)
  | left + 1, diter, self, result =>
    if 1024 ≤ diter then .error .overrun
    else if present (self.dEntries diter) then
      let span := tableSpan virt pages left diter
      let begin := self.table diter
      match setTable mask flags (span.2 - span.1) span.1 (self.tables begin) result with
      | .error fault => .error fault
      | .ok (table, result) =>
        let dEntries :=
          update self.dEntries diter (setEntry mask flags (self.dEntries diter))
        let tables := update self.tables begin table
        setDirs mask flags virt pages left (diter + 1) ⟨dEntries, tables, self.freed⟩ result
    else setDirs mask flags virt pages left (diter + 1) self result

def kpagedirSetflags (self : Pagedir) (virt pages : Nat) (mask flags : BitVec 32) :
    Except Fault (Pagedir × Nat) :=
  setDirs mask flags virt pages (wrap32 (pages + 1023) / 1024) (pdid virt) self 0

/-! ### What it is for -/

/-- The rights that a directory entry and a page table entry give together:
`PAGEDIR_FLAG_USER` and `PAGEDIR_FLAG_READ_WRITE`. -/
def rights (pde pte : BitVec 32) : BitVec 32 := pde &&& pte &&& 6

/-- What a page translates to: the address of a frame, and rights. -/
def Pagedir.view (self : Pagedir) (page : Nat) : Option (BitVec 32 × BitVec 32) :=
  if self.mapped page then
    some (x86PteGetpptr (self.pte page), rights (self.dEntries (page / 1024)) (self.pte page))
  else none

/-- The rights of the pages of the range that are mapped change as wanted, no other page
changes, every directory entry keeps its page table, and the pages are counted. -/
def SetflagsRight (self : Pagedir) (mask flags : BitVec 32) (page n : Nat)
    (result : Except Fault (Pagedir × Nat)) : Prop :=
  ∃ self' count, result = .ok (self', count) ∧
    (∀ d < 1024, present (self.dEntries d) = true → self'.table d = self.table d) ∧
    (∀ q < 1048576, self'.view q =
      if page ≤ q ∧ q < page + n then
        (self.view q).map fun v => (v.1, (v.2 &&& mask ||| flags) &&& 6)
      else self.view q) ∧
    count = (List.range 1048576).countP fun q =>
      decide (page ≤ q ∧ q < page + n) && self.mapped q

/-- A directory entry that the loop comes to. -/
def Counted (page n d : Nat) : Prop :=
  page / 1024 ≤ d ∧ d < page / 1024 + (n + 1023) / 1024

/-- The condition. -/
structure SetflagsOk (s : Pagedir) (mask flags : BitVec 32) (page n : Nat) : Prop where
  /-- The loop does not leave a page table. -/
  inside : ¬Overruns s n page
  /-- The directory entries keep their page tables. -/
  table : ∀ d, Counted page n d → present (s.dEntries d) = true →
    x86PdeGetpte (setEntry mask flags (s.dEntries d)) = s.table d
  /-- What is looked at in a page table is mapped. -/
  mapped : ∀ q, Looked s n page q → present (s.dEntries (q / 1024)) = true →
    s.mapped q = true
  /-- The pages of the range that are mapped are looked at. -/
  looked : ∀ q, page ≤ q → q < page + n → s.mapped q = true → Looked s n page q
  /-- They keep their frames. -/
  frame : ∀ q, Looked s n page q → s.mapped q = true →
    x86PteGetpptr (setEntry mask flags (s.pte q)) = x86PteGetpptr (s.pte q)
  /-- The other pages of these page tables keep their rights. -/
  rights : ∀ q, Counted page n (q / 1024) → ¬Looked s n page q → s.mapped q = true →
    rights (setEntry mask flags (s.dEntries (q / 1024))) (s.pte q) =
      rights (s.dEntries (q / 1024)) (s.pte q)

/-! ### Entries -/

theorem present_setEntry (mask flags u : BitVec 32) : present (setEntry mask flags u) = true := by
  simp [present, setEntry]

/-- The rights of two entries that are changed are those of both, changed. -/
theorem rights_setEntry (mask flags pde pte : BitVec 32) :
    rights (setEntry mask flags pde) (setEntry mask flags pte) =
      (rights pde pte &&& mask ||| flags) &&& 6 := by
  have hbits : ∀ (u v m f o x : BitVec 32), o &&& x = 0#32 →
      (u &&& (m ||| o) ||| (f ||| o)) &&& (v &&& (m ||| o) ||| (f ||| o)) &&& x =
        ((u &&& v &&& x) &&& m ||| f) &&& x := by
    intro u v m f o x hx
    ext i hi
    have hx' := congrArg (fun w : BitVec 32 => w[i]) hx
    simp only [BitVec.getElem_and, BitVec.getElem_or, BitVec.getElem_zero] at hx' ⊢
    revert hx'
    cases u[i] <;> cases v[i] <;> cases m[i] <;> cases f[i] <;> cases o[i] <;> cases x[i] <;>
      decide
  exact hbits pde pte mask flags 1 6 (by decide)

/-! ### One page table -/

variable {s : Pagedir} {mask flags : BitVec 32} {page n : Nat}

theorem setTable_spec (mask flags : BitVec 32) (count : Nat) :
    ∀ (titer result : Nat) (table : Nat → BitVec 32), titer + count ≤ 1024 →
      ∃ table', setTable mask flags count titer table result = .ok (table', result + count) ∧
        ∀ t, table' t = if titer ≤ t ∧ t < titer + count then setEntry mask flags (table t)
          else table t := by
  induction count with
  | zero =>
    intro titer result table _
    exact ⟨table, rfl, fun t => (if_neg (by omega)).symm⟩
  | succ count ih =>
    intro titer result table hfit
    obtain ⟨table', hcall, htable⟩ := ih (titer + 1) (result + 1)
      (update table titer (setEntry mask flags (table titer))) (by omega)
    refine ⟨table', ?_, fun t => ?_⟩
    · rw [setTable, if_neg (by omega), hcall]
      congr 2
      omega
    · rw [htable t, update_apply]
      by_cases ht : t = titer
      · rw [if_neg (by omega), if_pos ht, if_pos (by omega), ht]
      by_cases hin : titer + 1 ≤ t ∧ t < titer + 1 + count
      · rw [if_pos hin, if_neg ht, if_pos (by omega)]
      · rw [if_neg hin, if_neg ht, if_neg (by omega)]

theorem setTable_overrun {count : Nat} :
    ∀ {titer result : Nat} {table : Nat → BitVec 32}, titer ≤ 1024 → 1024 < titer + count →
      setTable mask flags count titer table result = .error .overrun := by
  induction count with
  | zero =>
    intro titer result table hle hlt
    omega
  | succ count ih =>
    intro titer result table hle hlt
    rw [setTable]
    by_cases hend : 1024 ≤ titer
    · rw [if_pos hend]
    · rw [if_neg hend]
      exact ih (by omega) (by omega)

/-! ### Counting pages -/

theorem countP_support {p : Nat → Bool} (start len a l : Nat) (ha : start ≤ a)
    (hb : a + l ≤ start + len)
    (hp : ∀ q, start ≤ q → q < start + len → p q = true → a ≤ q ∧ q < a + l) :
    (List.range' start len).countP p = (List.range' a l).countP p := by
  have hsplit : List.range' start len = List.range' start (a - start) ++
      (List.range' a l ++ List.range' (a + l) (start + len - (a + l))) := by
    have hleft := List.range'_append_1 (s := start) (m := a - start)
      (n := l + (start + len - (a + l)))
    rw [show start + (a - start) = a by omega] at hleft
    rw [List.range'_append_1, hleft]
    congr 1
    omega
  have hnone : ∀ i k, start ≤ i → i + k ≤ start + len → i + k ≤ a ∨ a + l ≤ i →
      (List.range' i k).countP p = 0 := by
    intro i k hlo hhi hout
    rw [countP_eq_zero]
    intro q hq hpq
    rw [mem_range'_1] at hq
    have hin := hp q (by omega) (by omega) hpq
    omega
  have hbefore := hnone start (a - start) le_rfl (by omega) (by omega)
  have hafter := hnone (a + l) (start + len - (a + l)) (by omega) (by omega) (by omega)
  rw [hsplit, countP_append, countP_append, hbefore, hafter, Nat.zero_add, Nat.add_zero]

theorem countP_lt_countP {p r : Nat → Bool} {l : List Nat} (himp : ∀ q ∈ l, p q = true → r q = true)
    {q : Nat} (hq : q ∈ l) (hr : r q = true) (hp : p q = false) : l.countP p < l.countP r := by
  obtain ⟨front, back, rfl⟩ := append_of_mem hq
  have hfront : front.countP p ≤ front.countP r :=
    countP_mono_left fun x hx => himp x (mem_append_left _ hx)
  have hback : back.countP p ≤ back.countP r :=
    countP_mono_left fun x hx => himp x (mem_append_right _ (mem_cons_of_mem _ hx))
  rw [countP_append, countP_append, countP_cons, countP_cons, hp, hr]
  simp only [Bool.false_eq_true, if_false, if_true]
  omega

/-- A page whose entry the loop changes. -/
def changed (s : Pagedir) (n page q : Nat) : Bool :=
  decide (page ≤ q ∧ q < page + n ∧ q < lookedEnd n page) && present (s.dEntries (q / 1024))

theorem changed_iff {q : Nat} : changed s n page q = true ↔
    Looked s n page q ∧ present (s.dEntries (q / 1024)) = true := by
  rw [changed, Bool.and_eq_true, decide_eq_true_iff, Looked]
  constructor
  · rintro ⟨⟨hlo, hhi, hend⟩, hpres⟩
    exact ⟨⟨hlo, hhi, .inl hend⟩, hpres⟩
  · rintro ⟨⟨hlo, hhi, hend | ⟨-, habs⟩⟩, hpres⟩
    · exact ⟨⟨hlo, hhi, hend⟩, hpres⟩
    · rw [hpres] at habs
      cases habs

theorem changed_eq_false {q : Nat} (h : ¬Looked s n page q) : changed s n page q = false := by
  rw [← Bool.not_eq_true, changed_iff]
  exact fun hc => h hc.1

/-! ### The directory -/

/-- The loop has come to directory entry `diter`. -/
structure SetDone (s cur : Pagedir) (mask flags : BitVec 32) (n page diter : Nat) : Prop where
  dEntries : ∀ d, cur.dEntries d =
    if page / 1024 ≤ d ∧ d < diter ∧ present (s.dEntries d) = true then
      setEntry mask flags (s.dEntries d) else s.dEntries d
  tables : ∀ d < 1024, present (s.dEntries d) = true → ∀ t < 1024,
    cur.tables (s.table d) t =
      if d < diter ∧ changed s n page (d * 1024 + t) = true then
        setEntry mask flags (s.tables (s.table d) t) else s.tables (s.table d) t

theorem SetDone.start (s : Pagedir) (mask flags : BitVec 32) (n page : Nat) :
    SetDone s s mask flags n page (page / 1024) := by
  refine ⟨fun d => (if_neg (by omega)).symm, fun d hd _ t ht => (if_neg ?_).symm⟩
  rintro ⟨hlt, hchanged⟩
  have hlo := (changed_iff.1 hchanged).1.1
  omega

/-- A directory entry without a page table is passed over. -/
theorem SetDone.skip {cur : Pagedir} {diter : Nat} (h : SetDone s cur mask flags n page diter)
    (habs : present (s.dEntries diter) = false) :
    SetDone s cur mask flags n page (diter + 1) := by
  have hlt : ∀ d, present (s.dEntries d) = true → (d < diter ↔ d < diter + 1) := by
    intro d hpres
    have hne : d ≠ diter := by
      rintro rfl
      rw [habs] at hpres
      cases hpres
    omega
  refine ⟨fun d => ?_, fun d hd hpres t ht => ?_⟩
  · rw [h.dEntries d]
    exact if_congr (and_congr_right fun _ => and_congr_left (hlt d)) rfl rfl
  · rw [h.tables d hd hpres t ht]
    exact if_congr (and_congr_left' (hlt d hpres)) rfl rfl

theorem SetDone.step (hown : s.Owned) {cur : Pagedir} {diter titer tend : Nat}
    {table' : Nat → BitVec 32} (h : SetDone s cur mask flags n page diter) (hd : diter < 1024)
    (hfirst : page / 1024 ≤ diter) (hpres : present (s.dEntries diter) = true)
    (hspan : ∀ t < 1024, (titer ≤ t ∧ t < tend ↔ Looked s n page (diter * 1024 + t)))
    (htable : ∀ t, table' t = if titer ≤ t ∧ t < tend then
      setEntry mask flags (cur.tables (s.table diter) t) else cur.tables (s.table diter) t) :
    SetDone s
      ⟨update cur.dEntries diter (setEntry mask flags (s.dEntries diter)),
        update cur.tables (s.table diter) table', cur.freed⟩
      mask flags n page (diter + 1) := by
  refine ⟨fun d => ?_, fun d hd' hpres' t ht => ?_⟩
  · dsimp only
    rw [update_apply]
    by_cases heq : d = diter
    · rw [if_pos heq, if_pos ⟨by omega, by omega, heq ▸ hpres⟩, heq]
    have hlt : d < diter ↔ d < diter + 1 := by omega
    rw [if_neg heq, h.dEntries d]
    exact if_congr (by rw [hlt]) rfl rfl
  · dsimp only
    rw [update_apply]
    by_cases heq : d = diter
    · subst heq
      have hcur := h.tables d hd hpres t ht
      rw [if_neg (by omega)] at hcur
      rw [if_pos rfl, htable t, hcur]
      refine if_congr ?_ rfl rfl
      rw [hspan t ht, changed_iff, show (d * 1024 + t) / 1024 = d by omega]
      exact ⟨fun hlook => ⟨by omega, hlook, hpres⟩, fun hin => hin.2.1⟩
    · have hlt : d < diter ↔ d < diter + 1 := by omega
      rw [if_neg (hown.table_ne hd' hd hpres' hpres heq), h.tables d hd' hpres' t ht]
      exact if_congr (by rw [hlt]) rfl rfl

/-- The pages of a page table that the loop changes. -/
theorem countP_table {diter titer tend : Nat} (hle : titer ≤ tend) (htend : tend ≤ 1024)
    (hpres : present (s.dEntries diter) = true)
    (hspan : ∀ t < 1024, (titer ≤ t ∧ t < tend ↔ Looked s n page (diter * 1024 + t))) :
    (List.range' (diter * 1024) 1024).countP (changed s n page) = tend - titer := by
  obtain ⟨base, hbase⟩ : ∃ base, base = diter * 1024 := ⟨_, rfl⟩
  have hiff : ∀ q, base ≤ q → q < base + 1024 →
      (changed s n page q = true ↔ base + titer ≤ q ∧ q < base + tend) := by
    intro q hlo hhi
    have hlook := hspan (q - base) (by omega)
    rw [← hbase, show base + (q - base) = q by omega] at hlook
    rw [changed_iff, ← hlook, show q / 1024 = diter by omega, hpres, and_iff_left rfl]
    omega
  have hall : ∀ q ∈ List.range' (base + titer) (tend - titer), changed s n page q = true := by
    intro q hq
    rw [mem_range'_1] at hq
    exact (hiff q (by omega) (by omega)).2 (by omega)
  rw [← hbase, countP_support base 1024 (base + titer) (tend - titer) (Nat.le_add_right _ _)
    (by omega) (fun q hlo hhi hq => by have hin := (hiff q hlo hhi).1 hq; omega)]
  rw [countP_eq_length.2 hall, length_range']

theorem countP_absent {diter : Nat} (habs : present (s.dEntries diter) = false) :
    (List.range' (diter * 1024) 1024).countP (changed s n page) = 0 := by
  rw [countP_eq_zero]
  intro q hq
  rw [mem_range'_1] at hq
  rw [changed_iff, show q / 1024 = diter by omega, habs]
  exact fun h => Bool.false_ne_true h.2

/-- **The loop changes the entries that are looked at**, and the directory entries. -/
theorem setDirs_done (mask flags : BitVec 32) (hown : s.Owned) (hn : 0 < n)
    (hend : page + n ≤ 1048576) (hnot : ¬Overruns s n page) {left : Nat} :
    ∀ {diter result : Nat} {cur : Pagedir}, page / 1024 ≤ diter →
      diter + left = page / 1024 + (n + 1023) / 1024 → SetDone s cur mask flags n page diter →
      ∃ s', setDirs mask flags (page * 4096) n left diter cur result =
          .ok (s', result + (List.range' (diter * 1024) (left * 1024)).countP
            (changed s n page)) ∧
        SetDone s s' mask flags n page (page / 1024 + (n + 1023) / 1024) := by
  induction left with
  | zero =>
    intro diter result cur _ hleft h
    refine ⟨cur, ?_, hleft ▸ h⟩
    rfl
  | succ left ih =>
    intro diter result cur hfirst hleft h
    have hd : diter < 1024 := by omega
    have hcur : cur.dEntries diter = s.dEntries diter := by
      rw [h.dEntries diter, if_neg (fun hin => Nat.lt_irrefl _ hin.2.1)]
    have hsplit : List.range' (diter * 1024) ((left + 1) * 1024) =
        List.range' (diter * 1024) 1024 ++ List.range' ((diter + 1) * 1024) (left * 1024) := by
      rw [Nat.succ_mul diter, List.range'_append_1, Nat.succ_mul, Nat.add_comm]
    rw [setDirs, if_neg (by omega), hcur, hsplit, countP_append]
    cases hpres : present (s.dEntries diter) with
    | false =>
      rw [if_neg Bool.false_ne_true, countP_absent hpres, Nat.zero_add]
      exact ih (by omega) (by omega) (h.skip hpres)
    | true =>
      have htable : cur.table diter = s.table diter := by
        rw [table, hcur, table]
      obtain ⟨titer, tend, hspan, hle, htend, hlooked⟩ :=
        tableSpan_looked hn hnot hfirst hpres hleft
      obtain ⟨table', hcall, hentries⟩ := setTable_spec mask flags (tend - titer) titer
        result (cur.tables (s.table diter)) (by omega)
      rw [show titer + (tend - titer) = tend by omega] at hentries
      rw [if_pos rfl, hspan, htable, countP_table hle htend hpres hlooked]
      dsimp only
      rw [hcall]
      rw [← Nat.add_assoc]
      exact ih (by omega) (by omega) (h.step hown hd hfirst hpres hlooked hentries)

theorem setDirs_overrun (hn : 0 < n) (h : Overruns s n page) (hend : page + n ≤ 1048576)
    (result : Nat) :
    setDirs mask flags (page * 4096) n ((n + 1023) / 1024) (page / 1024) s result =
      .error .overrun := by
  obtain ⟨hsmall, hover, hpres⟩ := h
  rw [show (n + 1023) / 1024 = 0 + 1 by omega, setDirs, if_neg (by omega), if_pos hpres]
  rw [tableSpan_first]
  dsimp only
  rw [Nat.add_sub_cancel_left, setTable_overrun (by omega) hover]

/-! ### Calls -/

theorem changed_counted {q : Nat} (hn : 0 < n) (h : changed s n page q = true) :
    Counted page n (q / 1024) := by
  have hlook := (changed_iff.1 h).1
  exact ⟨Nat.div_le_div_right hlook.1, hlook.dir_lt hn⟩

/-- All pages that are changed are in the directory entries of the loop. -/
theorem countP_counted {total : Nat} (hn : 0 < n)
    (htotal : (page / 1024 + (n + 1023) / 1024) * 1024 ≤ total) :
    (List.range' (page / 1024 * 1024) ((n + 1023) / 1024 * 1024)).countP (changed s n page) =
      (List.range total).countP (changed s n page) := by
  have hin : ∀ q, 0 ≤ q → q < 0 + total → changed s n page q = true →
      page / 1024 * 1024 ≤ q ∧ q < page / 1024 * 1024 + (n + 1023) / 1024 * 1024 := by
    intro q _ _ hq
    obtain ⟨hlo, hhi⟩ := changed_counted hn hq
    omega
  have hend : page / 1024 * 1024 + (n + 1023) / 1024 * 1024 ≤ 0 + total := by
    rwa [← Nat.add_mul, Nat.zero_add]
  rw [range_eq_range', countP_support 0 total _ _ (Nat.zero_le _) hend hin]

section Done

variable {s' : Pagedir} (h : SetDone s s' mask flags n page (page / 1024 + (n + 1023) / 1024))

include h

theorem SetDone.dEntries_counted {d : Nat}
    (hpres : present (s.dEntries d) = true) (hd : Counted page n d) :
    s'.dEntries d = setEntry mask flags (s.dEntries d) := by
  rw [h.dEntries d, if_pos ⟨hd.1, hd.2, hpres⟩]

theorem SetDone.dEntries_other {d : Nat}
    (hd : ¬(Counted page n d ∧ present (s.dEntries d) = true)) :
    s'.dEntries d = s.dEntries d := by
  rw [h.dEntries d, if_neg (fun hin => hd ⟨⟨hin.1, hin.2.1⟩, hin.2.2⟩)]

theorem SetDone.present_eq (d : Nat) :
    present (s'.dEntries d) = present (s.dEntries d) := by
  by_cases hd : Counted page n d ∧ present (s.dEntries d) = true
  · rw [h.dEntries_counted hd.2 hd.1, present_setEntry, hd.2]
  · rw [h.dEntries_other hd]

/-- The entry of a page whose directory entry keeps its page table. -/
theorem SetDone.pte_eq (hn : 0 < n) {q : Nat} (hq : q < 1048576)
    (hpres : present (s.dEntries (q / 1024)) = true)
    (hkept : s'.table (q / 1024) = s.table (q / 1024)) :
    s'.pte q = if changed s n page q = true then setEntry mask flags (s.pte q) else s.pte q := by
  have hpage : q / 1024 * 1024 + q % 1024 = q := by omega
  rw [pte, hkept, h.tables (q / 1024) (by omega) hpres (q % 1024) (by omega), hpage,
    pte]
  exact if_congr ⟨And.right, fun hc => ⟨(changed_counted hn hc).2, hc⟩⟩ rfl rfl

theorem SetDone.view_changed (hn : 0 < n) {q : Nat} (hq : q < 1048576)
    (hchanged : changed s n page q = true)
    (hkept : s'.table (q / 1024) = s.table (q / 1024)) :
    s'.view q = some (x86PteGetpptr (setEntry mask flags (s.pte q)),
      (rights (s.dEntries (q / 1024)) (s.pte q) &&& mask ||| flags) &&& 6) := by
  have hpres := (changed_iff.1 hchanged).2
  rw [view, mapped, h.present_eq, hpres, h.pte_eq hn hq hpres hkept,
    if_pos hchanged, present_setEntry, h.dEntries_counted hpres (changed_counted hn hchanged),
    rights_setEntry]
  rfl

theorem SetDone.view_other (hn : 0 < n) {q : Nat} (hq : q < 1048576)
    (hchanged : changed s n page q = false)
    (hkept : present (s.dEntries (q / 1024)) = true → s'.table (q / 1024) = s.table (q / 1024)) :
    s'.view q = if s.mapped q then
      some (x86PteGetpptr (s.pte q), rights (s'.dEntries (q / 1024)) (s.pte q)) else none := by
  rw [view, mapped, mapped, h.present_eq]
  cases hpres : present (s.dEntries (q / 1024)) with
  | false => rw [Bool.false_and, Bool.false_and, if_neg Bool.false_ne_true,
      if_neg Bool.false_ne_true]
  | true =>
    have hpte := h.pte_eq hn hq hpres (hkept hpres)
    rw [hchanged, if_neg Bool.false_ne_true] at hpte
    rw [hpte]

end Done

/-- What a call comes to that does not leave a page table. -/
theorem kpagedirSetflags_done (mask flags : BitVec 32) (hown : s.Owned) (hn : 0 < n)
    (hend : page + n ≤ 1048576) (hnot : ¬Overruns s n page) :
    ∃ s', kpagedirSetflags s (page * 4096) n mask flags =
        .ok (s', (List.range 1048576).countP (changed s n page)) ∧
      SetDone s s' mask flags n page (page / 1024 + (n + 1023) / 1024) := by
  have hwrap : wrap32 (n + 1023) = n + 1023 := Nat.mod_eq_of_lt (by omega)
  obtain ⟨s', hcall, hdone⟩ := setDirs_done mask flags hown hn hend hnot
    le_rfl rfl (SetDone.start s mask flags n page)
  have htotal : (page / 1024 + (n + 1023) / 1024) * 1024 ≤ 1048576 := by omega
  refine ⟨s', ?_, hdone⟩
  rw [kpagedirSetflags, pdid_page, hwrap, hcall, countP_counted hn htotal, Nat.zero_add]

/-- Under the condition the pages that are changed are the pages of the range that are
mapped. -/
theorem SetflagsOk.changed_eq (h : SetflagsOk s mask flags page n) (q : Nat) :
    changed s n page q = (decide (page ≤ q ∧ q < page + n) && s.mapped q) := by
  rw [Bool.eq_iff_iff, changed_iff, Bool.and_eq_true, decide_eq_true_iff]
  constructor
  · rintro ⟨hlook, hpres⟩
    exact ⟨⟨hlook.1, hlook.2.1⟩, h.mapped q hlook hpres⟩
  · rintro ⟨hin, hmapped⟩
    exact ⟨h.looked q hin.1 hin.2 hmapped, (Bool.and_eq_true_iff.1 hmapped).1⟩

/-- **Under the condition a call is right.** -/
theorem SetflagsOk.right (hown : s.Owned) (hn : 0 < n) (hend : page + n ≤ 1048576)
    (h : SetflagsOk s mask flags page n) :
    SetflagsRight s mask flags page n (kpagedirSetflags s (page * 4096) n mask flags) := by
  obtain ⟨s', hcall, hdone⟩ := kpagedirSetflags_done mask flags hown hn hend h.inside
  have hkept : ∀ d, present (s.dEntries d) = true → s'.table d = s.table d := by
    intro d hpres
    by_cases hd : Counted page n d
    · rw [Pagedir.table, hdone.dEntries_counted hpres hd, h.table d hd hpres]
    · rw [Pagedir.table, hdone.dEntries_other (fun hin => hd hin.1), Pagedir.table]
  refine ⟨s', _, hcall, fun d _ => hkept d, fun q hq => ?_, ?_⟩
  · have hsame := h.changed_eq q
    by_cases hin : page ≤ q ∧ q < page + n
    · rw [decide_eq_true hin, Bool.true_and] at hsame
      rw [if_pos hin]
      cases hm : s.mapped q with
      | true =>
        rw [hm] at hsame
        rw [hdone.view_changed hn hq hsame (hkept _ (changed_iff.1 hsame).2),
          h.frame q (changed_iff.1 hsame).1 hm, view, hm]
        rfl
      | false =>
        rw [hm] at hsame
        rw [hdone.view_other hn hq hsame (hkept _), hm, view, hm]
        rfl
    · rw [decide_eq_false hin, Bool.false_and] at hsame
      rw [if_neg hin, hdone.view_other hn hq hsame (hkept _), view]
      cases hm : s.mapped q with
      | false => rfl
      | true =>
        have hpres := (Bool.and_eq_true_iff.1 hm).1
        by_cases hd : Counted page n (q / 1024)
        · rw [hdone.dEntries_counted hpres hd,
            h.rights q hd (fun hlook => hin ⟨hlook.1, hlook.2.1⟩) hm]
        · rw [hdone.dEntries_other (fun hc => hd hc.1)]
  · exact countP_congr fun q _ => by rw [h.changed_eq q]

/-- **A call is right only under the condition.** -/
theorem SetflagsRight.ok (hown : s.Owned) (hn : 0 < n) (hend : page + n ≤ 1048576)
    (h : SetflagsRight s mask flags page n (kpagedirSetflags s (page * 4096) n mask flags)) :
    SetflagsOk s mask flags page n := by
  have hnot : ¬Overruns s n page := by
    intro hover
    have hwrap : wrap32 (n + 1023) = n + 1023 := Nat.mod_eq_of_lt (by omega)
    obtain ⟨s', count, hval, -⟩ := h
    rw [kpagedirSetflags, pdid_page, hwrap, setDirs_overrun hn hover hend] at hval
    cases hval
  obtain ⟨s', hcall, hdone⟩ := kpagedirSetflags_done mask flags hown hn hend hnot
  obtain ⟨s'', count, hval, htables, hviews, hcount⟩ := h
  rw [hcall] at hval
  cases hval
  have hsize : ∀ q, Counted page n (q / 1024) → q < 1048576 := by
    intro q hq
    have hlt := hq.2
    omega
  have hkept : ∀ q < 1048576, present (s.dEntries (q / 1024)) = true →
      s'.table (q / 1024) = s.table (q / 1024) :=
    fun q hq => htables (q / 1024) (by omega)
  -- What a page that is changed was before.
  have hbefore : ∀ q, changed s n page q = true → s.mapped q = true ∧
      x86PteGetpptr (setEntry mask flags (s.pte q)) = x86PteGetpptr (s.pte q) := by
    intro q hchanged
    have hlook := (changed_iff.1 hchanged).1
    have hq : q < 1048576 := hsize q (changed_counted hn hchanged)
    have hview := hviews q hq
    rw [if_pos ⟨hlook.1, hlook.2.1⟩,
      hdone.view_changed hn hq hchanged (hkept q hq (changed_iff.1 hchanged).2)] at hview
    rw [view] at hview
    cases hm : s.mapped q with
    | false =>
      rw [hm, if_neg Bool.false_ne_true] at hview
      cases hview
    | true =>
      rw [hm, if_pos rfl, Option.map_some, Option.some.injEq, Prod.mk.injEq] at hview
      exact ⟨rfl, hview.1⟩
  have hlooked : ∀ q, page ≤ q → q < page + n → s.mapped q = true → Looked s n page q := by
    intro q hlo hhi hm
    by_contra hnotLooked
    have hfalse := changed_eq_false hnotLooked
    refine absurd hcount (Nat.ne_of_lt (countP_lt_countP (q := q) (fun x _ hx => ?_)
      (mem_range.2 (by omega)) ?_ hfalse))
    · have hlook := (changed_iff.1 hx).1
      rw [Bool.and_eq_true, decide_eq_true_iff]
      exact ⟨⟨hlook.1, hlook.2.1⟩, (hbefore x hx).1⟩
    · rw [Bool.and_eq_true, decide_eq_true_iff]
      exact ⟨⟨hlo, hhi⟩, hm⟩
  refine ⟨hnot, fun d hd hpres => ?_, fun q hlook hpres => ?_, hlooked, fun q hlook hm => ?_,
    fun q hd hnotLooked hm => ?_⟩
  · have hlt := hd.2
    have htable := htables d (by omega) hpres
    rwa [table, hdone.dEntries_counted hpres hd] at htable
  · exact (hbefore q (changed_iff.2 ⟨hlook, hpres⟩)).1
  · exact (hbefore q (changed_iff.2 ⟨hlook, (Bool.and_eq_true_iff.1 hm).1⟩)).2
  · have hq := hsize q hd
    have hpres := (Bool.and_eq_true_iff.1 hm).1
    have hfalse := changed_eq_false hnotLooked
    have hview := hviews q hq
    rw [if_neg (fun hin => hnotLooked (hlooked q hin.1 hin.2 hm)),
      hdone.view_other hn hq hfalse (hkept q hq), view, hm, if_pos rfl, if_pos rfl,
      Option.some.injEq, Prod.mk.injEq, hdone.dEntries_counted hpres hd] at hview
    exact hview.2

/-- **Changing the flags of a range of pages.** For every page directory, range, mask and
flags, a call changes the rights of the pages of the range that are mapped, and nothing else,
and counts them, exactly under the condition. -/
theorem kpagedirSetflags_right_iff (s : Pagedir) (mask flags : BitVec 32) (page n : Nat)
    (hown : s.Owned) (hend : page + n ≤ 1048576) :
    SetflagsRight s mask flags page n (kpagedirSetflags s (page * 4096) n mask flags) ↔
      SetflagsOk s mask flags page n := by
  rcases Nat.eq_zero_or_pos n with rfl | hn
  · have hlooked : ∀ q, ¬Looked s 0 page q := by
      rintro q ⟨hlo, hhi, -⟩
      omega
    have hcounted : ∀ d, ¬Counted page 0 d := by
      rintro d ⟨hlo, hhi⟩
      omega
    refine iff_of_true ⟨s, 0, rfl, fun _ _ _ => rfl, fun q _ => (if_neg (by omega)).symm, ?_⟩
      ⟨fun h => ?_, fun d h => (hcounted d h).elim, fun q h => (hlooked q h).elim,
        fun q hlo hhi => by omega, fun q h => (hlooked q h).elim, fun q h => (hcounted _ h).elim⟩
    · refine (countP_eq_zero.2 fun q _ hq => ?_).symm
      rw [Bool.and_eq_true, decide_eq_true_iff] at hq
      omega
    · have hover := h.2.1
      omega
  · exact ⟨fun h => h.ok hown hn hend, fun h => h.right hown hn hend⟩

/-! ### Examples -/

/-- The first two pages are mapped, for user-space and to write. -/
def pairDir : Pagedir where
  dEntries := fun d => if d = 0 then 0x100007 else 0
  tables := fun a t =>
    if a = 0x100000 then (if t = 0 then 0x5007 else if t = 1 then 0x6007 else 0) else 0
  freed := []

/-- All bits but `PAGEDIR_FLAG_READ_WRITE`. -/
def readOnlyMask : BitVec 32 := 0xfffffffd

theorem pairDir_present {d : Nat} (h : present (pairDir.dEntries d) = true) : d = 0 := by
  by_contra hne
  simp only [pairDir, if_neg hne] at h
  exact absurd h (by decide)

theorem pairDir_owned : pairDir.Owned := by
  intro d _ d' _ hp hp' _
  rw [pairDir_present hp, pairDir_present hp']

theorem pairDir_mapped {q : Nat} (h : pairDir.mapped q = true) : q = 0 ∨ q = 1 := by
  obtain ⟨hdir, hpte⟩ := Bool.and_eq_true_iff.1 h
  have hzero := pairDir_present hdir
  by_contra hne
  rw [not_or] at hne
  rw [pte, hzero, show q % 1024 = q by omega] at hpte
  simp only [pairDir, if_neg hne.1, if_neg hne.2, ite_self] at hpte
  exact absurd hpte (by decide)

/-- The first page is made read-only, as for copy-on-write, and so is the second one. -/
theorem kpagedirSetflags_spreads :
    pairDir.Owned ∧ pairDir.view 1 = some (0x6000, 6) ∧
    (∃ s', kpagedirSetflags pairDir (0 * 4096) 1 readOnlyMask 0 = .ok (s', 1) ∧
      s'.view 0 = some (0x5000, 4) ∧ s'.view 1 = some (0x6000, 4)) ∧
    ¬SetflagsRight pairDir readOnlyMask 0 0 1
      (kpagedirSetflags pairDir (0 * 4096) 1 readOnlyMask 0) := by
  have hcall : ∃ s', kpagedirSetflags pairDir (0 * 4096) 1 readOnlyMask 0 = .ok (s', 1) ∧
      s'.view 0 = some (0x5000, 4) ∧ s'.view 1 = some (0x6000, 4) :=
    ⟨_, rfl, by decide, by decide⟩
  have hbefore : pairDir.view 1 = some (0x6000, 6) := by decide
  refine ⟨pairDir_owned, hbefore, hcall, ?_⟩
  obtain ⟨s', hval, -, hview⟩ := hcall
  rintro ⟨s'', count, hval', -, hviews, -⟩
  rw [hval] at hval'
  cases hval'
  have hsame := hviews 1 (by decide)
  rw [hview, if_neg (by decide), hbefore] at hsame
  exact absurd hsame (by decide)

/-- Both pages are made read-only. -/
theorem kpagedirSetflags_right_pair :
    SetflagsOk pairDir readOnlyMask 0 0 2 ∧
    SetflagsRight pairDir readOnlyMask 0 0 2
      (kpagedirSetflags pairDir (0 * 4096) 2 readOnlyMask 0) := by
  have hlooked : ∀ q < 2, Looked pairDir 2 0 q :=
    fun q hq => ⟨Nat.zero_le _, by omega, .inl (Nat.lt_trans hq (by decide))⟩
  have hok : SetflagsOk pairDir readOnlyMask 0 0 2 := by
    refine ⟨fun h => absurd h.2.1 (by decide), fun d _ hpres => ?_, fun q h _ => ?_,
      fun q _ hhi _ => hlooked q (by omega), fun q _ hm => ?_, fun q _ hnot hm => ?_⟩
    · obtain rfl := pairDir_present hpres
      decide
    · have hlt := h.2.1
      rcases (show q = 0 ∨ q = 1 by omega) with rfl | rfl <;> decide
    · rcases pairDir_mapped hm with rfl | rfl <;> decide
    · rcases pairDir_mapped hm with rfl | rfl
      · exact absurd (hlooked 0 (by decide)) hnot
      · exact absurd (hlooked 1 (by decide)) hnot
  exact ⟨hok, (kpagedirSetflags_right_iff pairDir readOnlyMask 0 0 2 pairDir_owned
    (by decide)).2 hok⟩

end KosKernel.Paging
