import KosKernel.Paging.Basic

/-!
# KosKernel.Paging.RangeAttr

**Whether the pages of a range are mapped** (`kpagedir_rangeattr` in `src/kernel/paging.c`,
without its assertions).

The loop goes through as many directory entries as the pages fill, starting with the one of
the first page. A range that crosses into one more table is misjudged: with a single entry
the loop reads behind the table, and an absent entry stands for all of the range.
-/

namespace KosKernel.Paging

inductive Fault where
  /-- Memory behind the page directory or a page table is read. -/
  | overrun
  deriving DecidableEq, Repr

/-- A set of `KPAGEDIR_RANGEATTR_*` -/
structure Rangeattr where
  hasMapped : Bool
  hasUnmapped : Bool
  deriving DecidableEq, Repr

namespace Rangeattr

/-- `KPAGEDIR_RANGEATTR_NONE` -/
def none : Rangeattr := ⟨false, false⟩

/-- The attribute of one more page. -/
def add (x : Rangeattr) (present : Bool) : Rangeattr :=
  if present then { x with hasMapped := true } else { x with hasUnmapped := true }

end Rangeattr

/-- The loop over `count` entries of a page table from `titer` on. -/
def tableattr (table : Nat → BitVec 32) : Nat → Nat → Rangeattr → Except Fault Rangeattr
  | 0, _, result => .ok result
  | count + 1, titer, result =>
    if 1024 ≤ titer then .error .overrun
    else tableattr table count (titer + 1) (result.add (present (table titer)))

/-- `titer` and `tend` of `KPAGEDIR_FOREACHBEGIN`, with `left` directory entries to come. -/
def tableSpan (virt pages left diter : Nat) : Nat × Nat :=
  if left = 0 then
    if diter = pdid virt then (ptid virt, ptid virt + pages) else (0, pages % 1024)
  else (if diter = pdid virt then ptid virt else 0, 1024)

/-- The loop of `kpagedir_rangeattr` over the directory entries. -/
def rangeattrLoop (self : Pagedir) (virt pages : Nat) :
    Nat → Nat → Rangeattr → Except Fault Rangeattr
  | 0, _, result => .ok result
  | left + 1, diter, result =>
    if 1024 ≤ diter then .error .overrun
    else if present (self.dEntries diter) then
      let span := tableSpan virt pages left diter
      match tableattr (self.tables (self.table diter)) (span.2 - span.1) span.1 result with
      | .error fault => .error fault
      | .ok result => rangeattrLoop self virt pages left (diter + 1) result
    else rangeattrLoop self virt pages left (diter + 1) (result.add false)

def kpagedirRangeattr (self : Pagedir) (virt pages : Nat) : Except Fault Rangeattr :=
  rangeattrLoop self virt pages (wrap32 (pages + 1023) / 1024) (pdid virt) .none

/-! ### Judging a range -/

variable {self : Pagedir} {n page : Nat}

/-- An attribute tells whether the range has mapped pages, and whether it has others. -/
structure Judges (dir : Pagedir) (n page : Nat) (attr : Rangeattr) : Prop where
  mapped : attr.hasMapped = true ↔ ∃ i < n, dir.mapped (page + i) = true
  unmapped : attr.hasUnmapped = true ↔ ∃ i < n, dir.mapped (page + i) = false

/-- Whether there are mapped pages, or others. -/
def Rangeattr.has (x : Rangeattr) (present : Bool) : Bool :=
  if present then x.hasMapped else x.hasUnmapped

theorem Rangeattr.add_has (x : Rangeattr) (b c : Bool) :
    (x.add b).has c = (x.has c || b == c) := by
  cases b <;> cases c <;> simp [Rangeattr.add, Rangeattr.has]

theorem judges_iff {attr : Rangeattr} : Judges self n page attr ↔
    ∀ b, attr.has b = true ↔ ∃ i < n, self.mapped (page + i) = b := by
  rw [Bool.forall_bool]
  exact ⟨fun h => ⟨h.unmapped, h.mapped⟩, fun h => ⟨h.2, h.1⟩⟩

/-- **Entries inside a table** are judged by what they are. -/
theorem tableattr_ok (table : Nat → BitVec 32) {count titer : Nat} (result : Rangeattr)
    (hfit : titer + count ≤ 1024) :
    ∃ attr, tableattr table count titer result = .ok attr ∧
      ∀ b, attr.has b = true ↔ result.has b = true ∨
        ∃ t, titer ≤ t ∧ t < titer + count ∧ present (table t) = b := by
  induction count generalizing titer result with
  | zero =>
    refine ⟨result, rfl, fun b => (or_iff_left ?_).symm⟩
    rintro ⟨t, hle, hlt, -⟩
    omega
  | succ count ih =>
    obtain ⟨attr, hrun, hattr⟩ :=
      ih (result.add (present (table titer))) (show titer + 1 + count ≤ 1024 by omega)
    refine ⟨attr, by rw [tableattr, if_neg (by omega), hrun], fun b => ?_⟩
    rw [hattr, Rangeattr.add_has, Bool.or_eq_true, beq_iff_eq, exists_span_succ, or_assoc]

/-- Behind the last entry the loop reads other memory. -/
theorem tableattr_overrun (table : Nat → BitVec 32) {count titer : Nat} (result : Rangeattr)
    (hin : titer ≤ 1024) (hover : 1024 < titer + count) :
    tableattr table count titer result = .error .overrun := by
  induction count generalizing titer result with
  | zero => omega
  | succ count ih =>
    rw [tableattr]
    by_cases hend : 1024 ≤ titer
    · rw [if_pos hend]
    · rw [if_neg hend, ih _ (by omega) (by omega)]

theorem mapped_entry {diter t : Nat} (hpres : present (self.dEntries diter) = true)
    (ht : t < 1024) :
    self.mapped (diter * 1024 + t) = present (self.tables (self.table diter) t) := by
  rw [Pagedir.mapped, Pagedir.pte, show (diter * 1024 + t) / 1024 = diter by omega,
    show (diter * 1024 + t) % 1024 = t by omega, hpres, Bool.true_and]

theorem mapped_absent {q : Nat} (habs : present (self.dEntries (q / 1024)) = false) :
    self.mapped q = false := by
  rw [Pagedir.mapped, habs, Bool.false_and]

/-! ### The pages that are looked at -/

/-- Where the pages end that are looked at. -/
def lookedEnd (n page : Nat) : Nat :=
  if n ≤ 1024 then (page / 1024 + 1) * 1024
  else (page / 1024 + (n + 1023) / 1024 - 1) * 1024 + n % 1024

/-- A page of the range is looked at, or is one of a page table that is not there. -/
def Looked (self : Pagedir) (n page q : Nat) : Prop :=
  page ≤ q ∧ q < page + n ∧ (q < lookedEnd n page ∨
    q / 1024 < page / 1024 + (n + 1023) / 1024 ∧ present (self.dEntries (q / 1024)) = false)

/-- The range leaves the one page table in which it is looked up. -/
def Overruns (self : Pagedir) (n page : Nat) : Prop :=
  n ≤ 1024 ∧ 1024 < page % 1024 + n ∧ present (self.dEntries (page / 1024)) = true

variable {diter left : Nat}

theorem tableSpan_first (page n : Nat) :
    tableSpan (page * 4096) n 0 (page / 1024) = (page % 1024, page % 1024 + n) := by
  rw [tableSpan, if_pos rfl, pdid_page, if_pos rfl, ptid_page]

/-- What the loop reads of a table that is there are the pages that are looked at. -/
theorem tableSpan_looked (hn : 0 < n) (hnot : ¬Overruns self n page) (hfirst : page / 1024 ≤ diter)
    (hpres : present (self.dEntries diter) = true)
    (hleft : diter + (left + 1) = page / 1024 + (n + 1023) / 1024) :
    ∃ titer tend, tableSpan (page * 4096) n left diter = (titer, tend) ∧ titer ≤ tend ∧
      tend ≤ 1024 ∧
      ∀ t < 1024, (titer ≤ t ∧ t < tend ↔ Looked self n page (diter * 1024 + t)) := by
  have hlooked : ∀ t < 1024, Looked self n page (diter * 1024 + t) ↔
      page ≤ diter * 1024 + t ∧ diter * 1024 + t < page + n ∧
        diter * 1024 + t < lookedEnd n page := by
    intro t ht
    unfold Looked
    rw [show (diter * 1024 + t) / 1024 = diter by omega, hpres]
    simp
  rw [tableSpan, pdid_page, ptid_page]
  simp only [lookedEnd] at hlooked
  by_cases hsmall : n ≤ 1024
  · -- the one directory entry
    have hdir : diter = page / 1024 := by omega
    have hfit : page % 1024 + n ≤ 1024 := by
      by_contra hover
      exact hnot ⟨hsmall, by omega, hdir ▸ hpres⟩
    rw [if_pos (show left = 0 by omega), if_pos hdir]
    refine ⟨_, _, rfl, by omega, hfit, fun t ht => ?_⟩
    rw [hlooked t ht, if_pos hsmall]
    omega
  · by_cases hlast : left = 0
    · rw [if_pos hlast, if_neg (by omega)]
      refine ⟨_, _, rfl, by omega, by omega, fun t ht => ?_⟩
      rw [hlooked t ht, if_neg hsmall]
      omega
    rw [if_neg hlast]
    by_cases hbegin : diter = page / 1024
    · rw [if_pos hbegin]
      refine ⟨_, _, rfl, by omega, by omega, fun t ht => ?_⟩
      rw [hlooked t ht, if_neg hsmall]
      omega
    rw [if_neg hbegin]
    refine ⟨_, _, rfl, by omega, by omega, fun t ht => ?_⟩
    rw [hlooked t ht, if_neg hsmall]
    omega

/-- The pages that are looked at lie in the directory entries that are counted. -/
theorem Looked.dir_lt {q : Nat} (hn : 0 < n) (h : Looked self n page q) :
    q / 1024 < page / 1024 + (n + 1023) / 1024 := by
  rcases h.2.2 with hlt | hlt
  · unfold lookedEnd at hlt
    split_ifs at hlt <;> omega
  · exact hlt.1

theorem exists_looked_absent (hn : 0 < n) (hfirst : page / 1024 ≤ diter)
    (hlast : diter < page / 1024 + (n + 1023) / 1024)
    (habs : present (self.dEntries diter) = false) :
    ∃ q, q / 1024 = diter ∧ Looked self n page q := by
  have hdir : max page (diter * 1024) / 1024 = diter := by omega
  refine ⟨max page (diter * 1024), hdir, by omega, by omega, .inr ?_⟩
  rw [hdir]
  exact ⟨hlast, habs⟩

theorem looked_offset {q : Nat} (h : Looked self n page q) : ∃ i < n, q = page + i := by
  obtain ⟨hle, hlt, -⟩ := h
  exact ⟨q - page, by omega, by omega⟩

section

variable (hn : 0 < n) (hend : page / 1024 + (n + 1023) / 1024 ≤ 1024)
  (hnot : ¬Overruns self n page)

include hn hend hnot

/-- **The attributes are those of the pages that are looked at.** -/
theorem rangeattrLoop_looked (result : Rangeattr) (hfirst : page / 1024 ≤ diter)
    (hleft : diter + left = page / 1024 + (n + 1023) / 1024) :
    ∃ attr, rangeattrLoop self (page * 4096) n left diter result = .ok attr ∧
      ∀ b, attr.has b = true ↔ result.has b = true ∨
        ∃ q, diter ≤ q / 1024 ∧ Looked self n page q ∧ self.mapped q = b := by
  induction left generalizing diter result with
  | zero =>
    refine ⟨result, rfl, fun b => (or_iff_left ?_).symm⟩
    rintro ⟨q, hq, hlook, -⟩
    have hlt := hlook.dir_lt hn
    omega
  | succ left ih =>
    -- the pages of this table, and those of the later ones
    have hsplit : ∀ b, (∃ q, diter ≤ q / 1024 ∧ Looked self n page q ∧ self.mapped q = b) ↔
        (∃ q, q / 1024 = diter ∧ Looked self n page q ∧ self.mapped q = b) ∨
          ∃ q, diter + 1 ≤ q / 1024 ∧ Looked self n page q ∧ self.mapped q = b := by
      intro b
      constructor
      · rintro ⟨q, hq, h⟩
        rcases Nat.eq_or_lt_of_le hq with heq | hlt
        · exact .inl ⟨q, heq.symm, h⟩
        · exact .inr ⟨q, hlt, h⟩
      · rintro (⟨q, hq, h⟩ | ⟨q, hq, h⟩) <;> exact ⟨q, by omega, h⟩
    rw [rangeattrLoop, if_neg (by omega)]
    by_cases hpres : present (self.dEntries diter) = true
    · obtain ⟨titer, tend, hspan, hle, htend, hpages⟩ :=
        tableSpan_looked hn hnot hfirst hpres hleft
      obtain ⟨attr, hrun, hattr⟩ := tableattr_ok (self.tables (self.table diter)) result
        (show titer + (tend - titer) ≤ 1024 by omega)
      rw [Nat.add_sub_cancel' hle] at hattr
      have hentries : ∀ b, (∃ t, titer ≤ t ∧ t < tend ∧
          present (self.tables (self.table diter) t) = b) ↔
          ∃ q, q / 1024 = diter ∧ Looked self n page q ∧ self.mapped q = b := by
        intro b
        constructor
        · rintro ⟨t, h1, h2, ht⟩
          exact ⟨diter * 1024 + t, by omega, (hpages t (by omega)).mp ⟨h1, h2⟩,
            (mapped_entry hpres (by omega)).trans ht⟩
        · rintro ⟨q, hq, hlook, hm⟩
          have hq' : q = diter * 1024 + q % 1024 := by omega
          rw [hq'] at hlook hm
          obtain ⟨h1, h2⟩ := (hpages _ (by omega)).mpr hlook
          exact ⟨q % 1024, h1, h2, (mapped_entry hpres (by omega)).symm.trans hm⟩
      obtain ⟨attr', hrun', hattr'⟩ := ih attr (show page / 1024 ≤ diter + 1 by omega) (by omega)
      refine ⟨attr', by simp only [hpres, if_true, hspan, hrun, hrun'], fun b => ?_⟩
      rw [hattr', hattr, hentries, hsplit, or_assoc]
    · have habs : present (self.dEntries diter) = false := Bool.eq_false_iff.mpr hpres
      have hnone : ∀ q, q / 1024 = diter → self.mapped q = false := fun q hq =>
        mapped_absent (hq ▸ habs)
      have hentries : ∀ b, false = b ↔
          ∃ q, q / 1024 = diter ∧ Looked self n page q ∧ self.mapped q = b := by
        intro b
        constructor
        · rintro rfl
          obtain ⟨q, hq, hlook⟩ := exists_looked_absent hn hfirst (by omega) habs
          exact ⟨q, hq, hlook, hnone q hq⟩
        · rintro ⟨q, hq, -, hm⟩
          exact (hnone q hq).symm.trans hm
      obtain ⟨attr, hrun, hattr⟩ := ih (result.add false)
        (show page / 1024 ≤ diter + 1 by omega) (by omega)
      refine ⟨attr, by rw [if_neg hpres, hrun], fun b => ?_⟩
      rw [hattr, Rangeattr.add_has, Bool.or_eq_true, beq_iff_eq, hentries, hsplit, or_assoc]

/-- **What is told of a range**: which pages there are among those that are looked at. -/
theorem kpagedirRangeattr_looked :
    ∃ attr, kpagedirRangeattr self (page * 4096) n = .ok attr ∧
      ∀ b, attr.has b = true ↔ ∃ q, Looked self n page q ∧ self.mapped q = b := by
  have hcount : wrap32 (n + 1023) = n + 1023 := by
    unfold wrap32
    omega
  obtain ⟨attr, hrun, hattr⟩ :=
    rangeattrLoop_looked hn hend hnot .none (Nat.le_refl (page / 1024)) rfl
  refine ⟨attr, by rw [kpagedirRangeattr, hcount, pdid_page, hrun], fun b => ?_⟩
  rw [hattr, or_iff_right (by cases b <;> decide)]
  constructor
  · rintro ⟨q, -, hq⟩
    exact ⟨q, hq⟩
  · rintro ⟨q, hlook, hq⟩
    exact ⟨q, Nat.div_le_div_right hlook.1, hlook, hq⟩

end

/-- A range that leaves its table is read behind the table. -/
theorem kpagedirRangeattr_crossing (hpage : page < 1048576) (hn : 0 < n) (hsmall : n ≤ 1024)
    (hpres : present (self.dEntries (page / 1024)) = true) (hover : 1024 < page % 1024 + n) :
    kpagedirRangeattr self (page * 4096) n = .error .overrun := by
  have hcount : wrap32 (n + 1023) / 1024 = 0 + 1 := by
    unfold wrap32
    omega
  rw [kpagedirRangeattr, hcount, pdid_page, rangeattrLoop, if_neg (by omega), if_pos hpres]
  simp only [tableSpan_first, Nat.add_sub_cancel_left]
  rw [tableattr_overrun _ _ (by omega) hover]

/-- **When a range is judged right**: every page is like one that is looked at. -/
theorem kpagedirRangeattr_right_iff (hn : 0 < n) (hend : page + n ≤ 1048576) :
    (∃ attr, kpagedirRangeattr self (page * 4096) n = .ok attr ∧ Judges self n page attr) ↔
      ¬Overruns self n page ∧
        ∀ i < n, ∃ q, Looked self n page q ∧ self.mapped q = self.mapped (page + i) := by
  by_cases hover : Overruns self n page
  · obtain ⟨hsmall, hcross, hpres⟩ := hover
    refine iff_of_false ?_ fun h => h.1 ⟨hsmall, hcross, hpres⟩
    rintro ⟨attr, hrun, -⟩
    rw [kpagedirRangeattr_crossing (by omega) hn hsmall hpres hcross] at hrun
    cases hrun
  obtain ⟨attr, hrun, hattr⟩ := kpagedirRangeattr_looked hn
    (show page / 1024 + (n + 1023) / 1024 ≤ 1024 by omega) hover
  constructor
  · rintro ⟨attr', hrun', hjudge⟩
    cases hrun.symm.trans hrun'
    exact ⟨hover, fun i hi => (hattr _).mp ((judges_iff.mp hjudge _).mpr ⟨i, hi, rfl⟩)⟩
  · rintro ⟨-, hall⟩
    refine ⟨attr, hrun, judges_iff.mpr fun b => (hattr b).trans ⟨?_, ?_⟩⟩
    · rintro ⟨q, hlook, hm⟩
      obtain ⟨i, hi, rfl⟩ := looked_offset hlook
      exact ⟨i, hi, hm⟩
    · rintro ⟨i, hi, rfl⟩
      exact hall i hi

end KosKernel.Paging
