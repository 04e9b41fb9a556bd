import KosKernel.Paging.RangeAttr

/-!
# KosKernel.Paging.Queries

**Questions about the pages of a range** (`kpagedir_ismapped`, `kpagedir_ismappedex`,
`kpagedir_isunmapped` and `kpagedir_rangeattr` in `src/kernel/paging.c`, without their
assertions).

All of them go through the pages with `KPAGEDIR_FOREACHBEGIN`. It counts the directory entries
of the range as if the range started with a page table, so that not every page is looked at
(`Looked`); and it reads behind a page table when up to 1024 pages lie in two of them
(`Overruns`). What a question answers is exactly what holds of the pages that are looked at.
-/

namespace KosKernel.Paging

/-! ### The functions of the source -/

/-- The loop over `count` entries of a page table from `titer` on, which returns at the first
one that is not `ok`. -/
def tableAll (ok : BitVec 32 → Bool) (table : Nat → BitVec 32) : Nat → Nat → Except Fault Bool
  | 0, _ => .ok true
  | count + 1, titer =>
    if 1024 ≤ titer then .error .overrun
    else if ok (table titer) then tableAll ok table count (titer + 1) else .ok false

/-- The loop over the directory entries; `absent` tells whether it goes on at an entry without a
page table. -/
def dirAll (ok : BitVec 32 → Bool) (absent : Bool) (self : Pagedir) (virt pages : Nat) :
    Nat → Nat → Except Fault Bool
  | 0, _ => .ok true
  | left + 1, diter =>
    if 1024 ≤ diter then .error .overrun
    else if present (self.dEntries diter) then
      let span := tableSpan virt pages left diter
      match tableAll ok (self.tables (self.table diter)) (span.2 - span.1) span.1 with
      | .error fault => .error fault
      | .ok false => .ok false
      | .ok true => dirAll ok absent self virt pages left (diter + 1)
    else if absent then dirAll ok absent self virt pages left (diter + 1)
    else .ok false

/-- `KPAGEDIR_FOREACHBEGIN` and `KPAGEDIR_FOREACHEND` -/
def foreachPage (ok : BitVec 32 → Bool) (absent : Bool) (self : Pagedir) (virt pages : Nat) :
    Except Fault Bool :=
  dirAll ok absent self virt pages (wrap32 (pages + 1023) / 1024) (pdid virt)

def kpagedirIsmapped (self : Pagedir) (virt pages : Nat) : Except Fault Bool :=
  foreachPage present false self virt pages

def kpagedirIsmappedex (self : Pagedir) (virt pages : Nat) (mask flags : BitVec 32) :
    Except Fault Bool :=
  foreachPage (fun u => u &&& (mask ||| 1) == flags ||| 1) false self virt pages

def kpagedirIsunmapped (self : Pagedir) (virt pages : Nat) : Except Fault Bool :=
  foreachPage (fun u => !present u) true self virt pages

/-! ### What is asked of a page -/

/-- What a question asks of a page. -/
def pageOk (ok : BitVec 32 → Bool) (absent : Bool) (self : Pagedir) (q : Nat) : Bool :=
  if present (self.dEntries (q / 1024)) then ok (self.pte q) else absent

variable {self : Pagedir} {n page : Nat} {ok : BitVec 32 → Bool} {absent : Bool}

/-! ### One table -/

variable {titer : Nat}

/-- The loop over a table stops at the first entry that fails, or else at the end of its range
or of the table. -/
theorem tableAll_cases (ok : BitVec 32 → Bool) (table : Nat → BitVec 32) (count : Nat)
    (hin : titer ≤ 1024) :
    (∃ t, titer ≤ t ∧ t < min (titer + count) 1024 ∧ ok (table t) = false) ∧
        tableAll ok table count titer = .ok false ∨
      (∀ t, titer ≤ t → t < min (titer + count) 1024 → ok (table t) = true) ∧
        tableAll ok table count titer =
          if titer + count ≤ 1024 then .ok true else .error .overrun := by
  induction count generalizing titer with
  | zero => exact .inr ⟨fun t h1 h2 => by omega, (if_pos hin).symm⟩
  | succ count ih =>
    rw [tableAll]
    by_cases hend : 1024 ≤ titer
    · rw [if_pos hend]
      exact .inr ⟨fun t h1 h2 => by omega, (if_neg (by omega)).symm⟩
    rw [if_neg hend]
    cases hok : ok (table titer) with
    | false => exact .inl ⟨⟨titer, le_rfl, by omega, hok⟩, rfl⟩
    | true =>
      rcases ih (show titer + 1 ≤ 1024 by omega) with ⟨⟨t, h1, h2, ht⟩, hrun⟩ | ⟨hall, hrun⟩
      · exact .inl ⟨⟨t, by omega, by omega, ht⟩, hrun⟩
      refine .inr ⟨fun t h1 h2 => ?_, hrun.trans (if_congr (by omega) rfl rfl)⟩
      rcases Nat.eq_or_lt_of_le h1 with rfl | h1
      · exact hok
      · exact hall t h1 (by omega)

variable {diter : Nat}

theorem pageOk_entry {t : Nat} (hpres : present (self.dEntries diter) = true) (ht : t < 1024) :
    pageOk ok absent self (diter * 1024 + t) = ok (self.tables (self.table diter) t) := by
  rw [pageOk, Pagedir.pte, show (diter * 1024 + t) / 1024 = diter by omega,
    show (diter * 1024 + t) % 1024 = t by omega, if_pos hpres]

variable {left : Nat}

/-! ### The directory -/

/-- **The loop answers for the pages that are looked at**, when it stays in the tables. -/
theorem dirAll_looked (ok : BitVec 32 → Bool) (absent : Bool) (hn : 0 < n)
    (hend : page + n ≤ 1048576) (hnot : ¬Overruns self n page) (hfirst : page / 1024 ≤ diter)
    (hleft : diter + left = page / 1024 + (n + 1023) / 1024) :
    ∃ b, dirAll ok absent self (page * 4096) n left diter = .ok b ∧
      (b = true ↔ ∀ q, diter ≤ q / 1024 → Looked self n page q →
        pageOk ok absent self q = true) := by
  induction left generalizing diter with
  | zero =>
    refine ⟨true, rfl, fun _ q hq hlook => ?_, fun _ => rfl⟩
    have hlt := hlook.dir_lt hn
    omega
  | succ left ih =>
    obtain ⟨b, hrun, hb⟩ := ih (show page / 1024 ≤ diter + 1 by omega) (by omega)
    rw [dirAll, if_neg (by omega)]
    -- the pages of this table, and those of the later ones
    have hsplit : (∀ q, q / 1024 = diter → Looked self n page q →
        pageOk ok absent self q = true) →
        (b = true ↔ ∀ q, diter ≤ q / 1024 → Looked self n page q →
          pageOk ok absent self q = true) := by
      intro htable
      rw [hb]
      refine ⟨fun hall q hq hlook => ?_, fun hall q hq hlook => hall q (by omega) hlook⟩
      rcases Nat.eq_or_lt_of_le hq with heq | hlt
      · exact htable q heq.symm hlook
      · exact hall q hlt hlook
    by_cases hpres : present (self.dEntries diter) = true
    · obtain ⟨titer, tend, hspan, hle, htend, hpages⟩ :=
        tableSpan_looked hn hnot hfirst hpres hleft
      rw [if_pos hpres]
      simp only [hspan]
      rcases tableAll_cases ok (self.tables (self.table diter)) (tend - titer)
        (show titer ≤ 1024 by omega) with ⟨⟨t, h1, h2, ht⟩, hread⟩ | ⟨hall, hread⟩
      · rw [hread]
        refine ⟨false, rfl, fun h => (by cases h), fun hall => ?_⟩
        have hok := hall (diter * 1024 + t) (by omega) ((hpages t (by omega)).mp ⟨h1, by omega⟩)
        rw [pageOk_entry hpres (by omega), ht] at hok
        exact hok
      rw [hread, if_pos (by omega)]
      refine ⟨b, hrun, hsplit fun q hq hlook => ?_⟩
      have hq' : q = diter * 1024 + q % 1024 := by omega
      rw [hq'] at hlook ⊢
      obtain ⟨h1, h2⟩ := (hpages _ (by omega)).mpr hlook
      rw [pageOk_entry hpres (by omega), hall _ h1 (by omega)]
    · have habs : present (self.dEntries diter) = false := Bool.eq_false_iff.mpr hpres
      have hok : ∀ q, q / 1024 = diter → pageOk ok absent self q = absent := by
        intro q hq
        rw [pageOk, hq, if_neg hpres]
      rw [if_neg hpres]
      cases absent with
      | true => exact ⟨b, by rw [if_pos rfl, hrun], hsplit fun q hq _ => hok q hq⟩
      | false =>
        refine ⟨false, by rw [if_neg Bool.false_ne_true], fun h => (by cases h), fun hall => ?_⟩
        obtain ⟨q, hq, hlook⟩ := exists_looked_absent hn hfirst (by omega) habs
        exact (hok q hq).symm.trans (hall q (by omega) hlook)

/-- **What a question answers**: whether it holds of the pages that are looked at; but if it does
and the range leaves its table, memory behind the table is read. -/
theorem foreachPage_eq (self : Pagedir) (ok : BitVec 32 → Bool) (absent : Bool) (hn : 0 < n)
    (hend : page + n ≤ 1048576) :
    (∃ q, Looked self n page q ∧ pageOk ok absent self q = false) ∧
        foreachPage ok absent self (page * 4096) n = .ok false ∨
      (∀ q, Looked self n page q → pageOk ok absent self q = true) ∧
        (Overruns self n page ∧
            foreachPage ok absent self (page * 4096) n = .error .overrun ∨
          ¬Overruns self n page ∧ foreachPage ok absent self (page * 4096) n = .ok true) := by
  have hcount : wrap32 (n + 1023) = n + 1023 := by
    unfold wrap32
    omega
  have hfrom : ∀ {q}, Looked self n page q → page / 1024 ≤ q / 1024 := fun h =>
    Nat.div_le_div_right h.1
  rw [foreachPage, hcount, pdid_page]
  by_cases hover : Overruns self n page
  · obtain ⟨hsmall, hcross, hpres⟩ := hover
    have hlooked : ∀ t, page % 1024 ≤ t → t < 1024 →
        Looked self n page (page / 1024 * 1024 + t) := by
      intro t h1 h2
      refine ⟨by omega, by omega, .inl ?_⟩
      rw [lookedEnd, if_pos hsmall]
      omega
    rw [show (n + 1023) / 1024 = 0 + 1 by omega, dirAll, if_neg (by omega), if_pos hpres]
    simp only [tableSpan_first, Nat.add_sub_cancel_left]
    rcases tableAll_cases ok (self.tables (self.table (page / 1024))) n
      (show page % 1024 ≤ 1024 by omega) with ⟨⟨t, h1, h2, ht⟩, hread⟩ | ⟨hall, hread⟩
    · refine .inl ⟨⟨_, hlooked t h1 (by omega), ?_⟩, by rw [hread]⟩
      rw [pageOk_entry hpres (by omega), ht]
    refine .inr ⟨fun q hlook => ?_, .inl ⟨⟨hsmall, hcross, hpres⟩, ?_⟩⟩
    · have hdir := hlook.dir_lt hn
      have hle := hlook.1
      have hq : q = page / 1024 * 1024 + q % 1024 := by omega
      rw [hq, pageOk_entry hpres (by omega), hall _ (by omega) (by omega)]
    · rw [hread, if_neg (by omega)]
  · obtain ⟨b, hrun, hb⟩ := dirAll_looked ok absent hn hend hover (Nat.le_refl (page / 1024)) rfl
    cases b with
    | true =>
      exact .inr ⟨fun q hlook => hb.mp rfl q (hfrom hlook) hlook, .inr ⟨hover, hrun⟩⟩
    | false =>
      refine .inl ⟨?_, hrun⟩
      by_contra hno
      refine Bool.false_ne_true (hb.mpr fun q _ hlook => ?_)
      by_contra hfail
      exact hno ⟨q, hlook, Bool.eq_false_iff.mpr hfail⟩

/-! ### When a question is answered right -/

/-- The answer to a question is right: a page that is looked at decides it, or it holds of every
page and no memory behind a table is read. -/
def Answered (self : Pagedir) (n page : Nat) (P : Nat → Bool) : Prop :=
  (∃ q, Looked self n page q ∧ P q = false) ∨
    ¬Overruns self n page ∧ ∀ i < n, P (page + i) = true

theorem foreachPage_right_iff (hn : 0 < n) (hend : page + n ≤ 1048576) {P : Nat → Bool}
    (hP : ∀ q, pageOk ok absent self q = P q) :
    foreachPage ok absent self (page * 4096) n = .ok (decide (∀ i < n, P (page + i) = true)) ↔
      Answered self n page P := by
  have hcases := foreachPage_eq self ok absent hn hend
  simp only [hP] at hcases
  rcases hcases with ⟨⟨q, hlook, hfail⟩, hrun⟩ | ⟨hall, ⟨hover, hrun⟩ | ⟨hnot, hrun⟩⟩
  · -- the answer is no
    refine iff_of_true ?_ (.inl ⟨q, hlook, hfail⟩)
    obtain ⟨i, hi, rfl⟩ := looked_offset hlook
    rw [hrun, decide_eq_false]
    intro hyes
    rw [hyes i hi] at hfail
    cases hfail
  · refine iff_of_false (fun h => ?_) ?_
    · rw [hrun] at h
      cases h
    · rintro (⟨q, hlook, hfail⟩ | ⟨hnot, -⟩)
      · rw [hall q hlook] at hfail
        cases hfail
      · exact hnot hover
  -- the answer is yes
  rw [hrun]
  constructor
  · intro h
    exact .inr ⟨hnot, of_decide_eq_true (Except.ok.inj h).symm⟩
  · rintro (⟨q, hlook, hfail⟩ | ⟨-, hyes⟩)
    · rw [hall q hlook] at hfail
      cases hfail
    · rw [decide_eq_true hyes]

/-- A page is mapped with flags that have a value under a mask; the present bit is not asked. -/
def mappedWith (self : Pagedir) (mask flags : BitVec 32) (q : Nat) : Bool :=
  self.mapped q && (self.pte q &&& mask ||| 1 == flags ||| 1)

theorem and_or_one_eq_iff (u mask flags : BitVec 32) :
    (u &&& (mask ||| 1) == flags ||| 1) = (present u && (u &&& mask ||| 1 == flags ||| 1)) := by
  rw [Bool.eq_iff_iff, Bool.and_eq_true, beq_iff_eq, beq_iff_eq, present]
  have hone : ∀ i, (1 : BitVec 32).getLsbD i = decide (i = 0) := fun i => by
    simp
  constructor
  · intro h
    have hbits : ∀ i, (u.getLsbD i && (mask.getLsbD i || decide (i = 0))) =
        (flags.getLsbD i || decide (i = 0)) := by
      intro i
      have := congrArg (BitVec.getLsbD · i) h
      simpa only [BitVec.getLsbD_and, BitVec.getLsbD_or, hone] using this
    refine ⟨by simpa using hbits 0, BitVec.eq_of_getLsbD_eq fun i _ => ?_⟩
    by_cases hi : i = 0
    · simp [hi]
    · simpa [hi] using hbits i
  · rintro ⟨hpres, h⟩
    refine BitVec.eq_of_getLsbD_eq fun i _ => ?_
    have hbit := congrArg (BitVec.getLsbD · i) h
    by_cases hi : i = 0
    · simp [hi, hpres]
    · simpa [hi] using hbit

/-- **When the questions are answered right.** Each of them is exactly when the pages that are
looked at decide it. -/
theorem kpagedir_queries_right (self : Pagedir) (mask flags : BitVec 32) (hn : 0 < n)
    (hend : page + n ≤ 1048576) :
    (kpagedirIsmapped self (page * 4096) n =
        .ok (decide (∀ i < n, self.mapped (page + i) = true)) ↔
      Answered self n page self.mapped) ∧
    (kpagedirIsmappedex self (page * 4096) n mask flags =
        .ok (decide (∀ i < n, mappedWith self mask flags (page + i) = true)) ↔
      Answered self n page (mappedWith self mask flags)) ∧
    (kpagedirIsunmapped self (page * 4096) n =
        .ok (decide (∀ i < n, (!self.mapped (page + i)) = true)) ↔
      Answered self n page fun q => !self.mapped q) ∧
    ((∃ attr, kpagedirRangeattr self (page * 4096) n = .ok attr ∧ Judges self n page attr) ↔
      ¬Overruns self n page ∧
        ∀ i < n, ∃ q, Looked self n page q ∧ self.mapped q = self.mapped (page + i)) := by
  refine ⟨foreachPage_right_iff hn hend fun q => ?_, foreachPage_right_iff hn hend fun q => ?_,
    foreachPage_right_iff (P := fun q => !self.mapped q) hn hend fun q => ?_,
    kpagedirRangeattr_right_iff hn hend⟩
  · rw [pageOk, Pagedir.mapped]
    cases present (self.dEntries (q / 1024)) <;> rfl
  · rw [pageOk, mappedWith, Pagedir.mapped, and_or_one_eq_iff]
    cases present (self.dEntries (q / 1024)) <;> rfl
  · rw [pageOk, Pagedir.mapped]
    cases present (self.dEntries (q / 1024)) <;> rfl

/-- A directory with the page tables of the first two directory entries, of which the first one
is there if `low` is; pages 5, 6, 1023 and 1024 are mapped. -/
def twoTables (low : Bool) : Pagedir where
  dEntries d := if d = 0 then (if low then 0x1001#32 else 0) else if d = 1 then 0x2001#32 else 0
  tables addr i :=
    if addr = 0x1000#32 then (if i = 5 ∨ i = 6 ∨ i = 1023 then 0x7003#32 else 0)
    else if i = 0 then 0x8003#32 else 0
  freed := []

/-- Pages 5 and 6 are found to be mapped. -/
theorem kpagedir_queries_right_inside :
    5 + 2 ≤ 1048576 ∧ kpagedirIsmapped (twoTables true) (5 * 4096) 2 =
      .ok (decide (∀ i < (2 : Nat), (twoTables true).mapped (5 + i) = true)) := by
  refine ⟨by decide, (kpagedir_queries_right (twoTables true) 0 0 (show 0 < 2 by decide)
    (show 5 + 2 ≤ 1048576 by decide)).1.mpr (.inr ⟨?_, by decide⟩)⟩
  rintro ⟨-, hcross, -⟩
  exact absurd hcross (by decide)

/-- Pages 1023 and 1024 lie in two tables. Without the first one, the range counts as unmapped
although page 1024 is mapped; with it, memory behind the table is read. -/
theorem kpagedir_queries_misjudge :
    (twoTables false).mapped 1024 = true ∧
      kpagedirIsunmapped (twoTables false) (1023 * 4096) 2 = .ok true ∧
      kpagedirRangeattr (twoTables false) (1023 * 4096) 2 = .ok ⟨false, true⟩ ∧
      (twoTables true).mapped 1023 = true ∧ (twoTables true).mapped 1024 = true ∧
      kpagedirIsmapped (twoTables true) (1023 * 4096) 2 = .error .overrun ∧
      kpagedirIsmappedex (twoTables true) (1023 * 4096) 2 2 2 = .error .overrun := by
  decide

end KosKernel.Paging
