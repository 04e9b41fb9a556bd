import KosKernel.Paging.Basic

/-!
# KosKernel.Paging.Unmap

**Unmapping a range of pages** (`kpagedir_unmap` in `src/kernel/paging.c`, without its
assertions). Each round of its loop works in one page table; what the rounds do to
different tables composes, since no table has two owners.
-/

namespace KosKernel.Paging

open Function List
open Pagedir (table mapped pte)

/-- `kpageframe_free` of a page table, whose memory then holds `junk`. -/
def kpageframeFree (junk : BitVec 32 → Nat → BitVec 32) (self : Pagedir) (addr : BitVec 32) :
    Pagedir :=
  { self with
    tables := update self.tables addr (junk addr)
    freed := addr :: self.freed }

/-- `free_pagetable:` -/
def freePagetable (junk : BitVec 32 → Nat → BitVec 32) (self : Pagedir) (d : Nat) : Pagedir :=
  let self := kpageframeFree junk self (self.table d)
  { self with dEntries := update self.dEntries d 0 }

/-- Whether one of `count` entries from `iter` on is present. -/
def anyPresent (table : Nat → BitVec 32) : Nat → Nat → Bool
  | 0, _ => false
  | count + 1, iter => present (table iter) || anyPresent table count (iter + 1)

/-- `count` entries from `iter` on are cleared. -/
def clearEntries : Nat → Nat → (Nat → BitVec 32) → Nat → BitVec 32
  | 0, _, table => table
  | count + 1, iter, table => clearEntries count (iter + 1) (update table iter 0)

/-- One round of `kpagedir_unmap`: `pdenusing` entries from `ptid` on, in one page table. -/
def unmapTable (junk : BitVec 32 → Nat → BitVec 32) (self : Pagedir) (d ptid pdenusing : Nat) :
    Pagedir :=
  let begin := self.tables (self.table d)
  if present (self.dEntries d) then
    if pdenusing = 1024 then freePagetable junk self d
    else if anyPresent begin ptid 0 ||
        anyPresent begin (1024 - (ptid + pdenusing)) (ptid + pdenusing) then
      { self with
        tables := update self.tables (self.table d) (clearEntries pdenusing ptid begin) }
    else freePagetable junk self d
  else self

/-- The loop of `kpagedir_unmap`. -/
def unmapLoop (junk : BitVec 32 → Nat → BitVec 32) :
    Nat → Pagedir → Nat → Nat → Option Pagedir
  | 0, _, _, _ => none
  | fuel + 1, self, virt, pages =>
    let pdenusing := min pages (1024 - ptid virt)
    let self := unmapTable junk self (pdid virt) (ptid virt) pdenusing
    if pdenusing = pages then some self
    else unmapLoop junk fuel self (wrap32 (virt + pdenusing * 4096)) (pages - pdenusing)

/-- `kpagedir_unmap`; every round unmaps a page, so there are at most `pages` of them. -/
def kpagedirUnmap (junk : BitVec 32 → Nat → BitVec 32) (self : Pagedir) (virt pages : Nat) :
    Option Pagedir :=
  if pages = 0 then some self else unmapLoop junk pages self virt pages

/-! ### The loops over a table -/

theorem anyPresent_iff {table : Nat → BitVec 32} {count iter : Nat} :
    anyPresent table count iter = true ↔
      ∃ t, iter ≤ t ∧ t < iter + count ∧ present (table t) = true := by
  induction count generalizing iter with
  | zero =>
    refine ⟨fun h => (by cases h), fun ⟨t, hle, hlt, _⟩ => ?_⟩
    omega
  | succ count ih => rw [anyPresent, Bool.or_eq_true, ih, exists_span_succ]

theorem clearEntries_apply {table : Nat → BitVec 32} {count iter : Nat} (t : Nat) :
    clearEntries count iter table t = if iter ≤ t ∧ t < iter + count then 0 else table t := by
  induction count generalizing iter table with
  | zero => rw [clearEntries, if_neg (by omega)]
  | succ count ih =>
    rw [clearEntries, ih]
    by_cases heq : t = iter
    · subst heq
      rw [if_neg (by omega), if_pos (by omega), update_self]
    rw [update_of_ne heq]
    by_cases hin : iter + 1 ≤ t ∧ t < iter + 1 + count
    · rw [if_pos hin, if_pos (by omega)]
    · rw [if_neg hin, if_neg (by omega)]

/-! ### What unmapping does -/

variable {s s' : Pagedir} {lo mid hi : Nat}

/-- A page table has pages of the range from `lo` to `hi`. -/
def Touched (lo hi d : Nat) : Prop := lo < hi ∧ lo < (d + 1) * 1024 ∧ d * 1024 < hi

/-- Without the pages of the range a page table is empty. -/
def Emptied (s : Pagedir) (lo hi d : Nat) : Prop :=
  ∀ t < 1024, lo ≤ d * 1024 + t ∧ d * 1024 + t < hi ∨
    present (s.tables (s.table d) t) = false

/-- A page table is released. -/
def Released (s : Pagedir) (lo hi d : Nat) : Prop :=
  d < 1024 ∧ Touched lo hi d ∧ present (s.dEntries d) = true ∧ Emptied s lo hi d

/-- The pages from `lo` to `hi` are unmapped, table by table. -/
structure Unmapped (s s' : Pagedir) (lo hi : Nat) : Prop where
  /-- Other tables, and those that are not there, stay. -/
  others : ∀ d < 1024, ¬(Touched lo hi d ∧ present (s.dEntries d) = true) →
    s'.dEntries d = s.dEntries d ∧
      (present (s.dEntries d) = true → s'.tables (s.table d) = s.tables (s.table d))
  released : ∀ d, Released s lo hi d → s'.dEntries d = 0
  cleared : ∀ d < 1024, Touched lo hi d → present (s.dEntries d) = true → ¬Emptied s lo hi d →
    s'.dEntries d = s.dEntries d ∧ ∀ t < 1024, s'.tables (s.table d) t =
      if lo ≤ d * 1024 + t ∧ d * 1024 + t < hi then 0 else s.tables (s.table d) t
  freed : ∃ l, s'.freed = l ++ s.freed ∧ l.Nodup ∧
    ∀ a, a ∈ l ↔ ∃ d, Released s lo hi d ∧ a = s.table d

/-! ### One round -/

variable {d : Nat}

theorem Pagedir.Owned.table_ne (hown : s.Owned) {d' : Nat} (hd : d < 1024) (hd' : d' < 1024)
    (hpres : present (s.dEntries d) = true) (hpres' : present (s.dEntries d') = true)
    (hne : d ≠ d') :
    s.table d ≠ s.table d' :=
  fun heq => hne (hown d hd d' hd' hpres hpres' heq)

variable {ptid n : Nat}

/-- Inside one table the range is an interval of its entries. -/
theorem emptied_iff :
    Emptied s (d * 1024 + ptid) (d * 1024 + ptid + n) d ↔
      ∀ t < 1024, (ptid ≤ t ∧ t < ptid + n) ∨ present (s.tables (s.table d) t) = false := by
  refine forall₂_congr fun t _ => or_congr_left ?_
  omega

theorem unmapped_absent (hnone : ∀ d, Touched lo hi d → present (s.dEntries d) = false) :
    Unmapped s s lo hi := by
  have hnot : ∀ d, Touched lo hi d → ¬present (s.dEntries d) = true := fun d htouch =>
    Bool.eq_false_iff.mp (hnone d htouch)
  refine ⟨fun _ _ _ => ⟨rfl, fun _ => rfl⟩, ?_, ?_, [], rfl, nodup_nil, fun a => ?_⟩
  · rintro d ⟨_, htouch, hpres, _⟩
    exact (hnot d htouch hpres).elim
  · intro d _ htouch hpres
    exact (hnot d htouch hpres).elim
  · refine ⟨fun h => (not_mem_nil h).elim, ?_⟩
    rintro ⟨d, ⟨_, htouch, hpres, _⟩, _⟩
    exact (hnot d htouch hpres).elim

/-- A table that becomes empty is released. -/
theorem freePagetable_unmapped (junk : BitVec 32 → Nat → BitVec 32) (hown : s.Owned) (hd : d < 1024)
    (hpres : present (s.dEntries d) = true) (honly : ∀ d', Touched lo hi d' ↔ d' = d)
    (hemp : Emptied s lo hi d) : Unmapped s (freePagetable junk s d) lo hi := by
  refine ⟨?_, ?_, ?_, [s.table d], rfl, nodup_singleton _, fun a => ?_⟩
  · intro d' hd' hnot
    have hne : d' ≠ d := fun heq => hnot ⟨(honly d').mpr heq, heq ▸ hpres⟩
    refine ⟨update_of_ne hne _ _, fun hpres' => ?_⟩
    exact update_of_ne (hown.table_ne hd' hd hpres' hpres hne) _ _
  · rintro d' ⟨_, htouch, _, _⟩
    rw [(honly d').mp htouch]
    exact update_self ..
  · intro d' _ htouch _ hnot
    rw [(honly d').mp htouch] at hnot
    exact absurd hemp hnot
  · rw [mem_singleton]
    constructor
    · rintro rfl
      exact ⟨d, ⟨hd, (honly d).mpr rfl, hpres, hemp⟩, rfl⟩
    · rintro ⟨d', ⟨_, htouch, _⟩, rfl⟩
      rw [(honly d').mp htouch]

/-- A table that keeps an entry loses those of the range. -/
theorem clearTable_unmapped (hown : s.Owned) {entries : Nat → BitVec 32} (hd : d < 1024)
    (hpres : present (s.dEntries d) = true) (honly : ∀ d', Touched lo hi d' ↔ d' = d)
    (hkeep : ¬Emptied s lo hi d) (hentries : ∀ t, entries t =
      if lo ≤ d * 1024 + t ∧ d * 1024 + t < hi then 0 else s.tables (s.table d) t) :
    Unmapped s { s with tables := update s.tables (s.table d) entries } lo hi := by
  refine ⟨?_, ?_, ?_, [], rfl, nodup_nil, fun a => ?_⟩
  · intro d' hd' hnot
    have hne : d' ≠ d := fun heq => hnot ⟨(honly d').mpr heq, heq ▸ hpres⟩
    refine ⟨rfl, fun hpres' => ?_⟩
    exact update_of_ne (hown.table_ne hd' hd hpres' hpres hne) _ _
  · rintro d' ⟨_, htouch, _, hemp⟩
    rw [(honly d').mp htouch] at hemp
    exact absurd hemp hkeep
  · intro d' _ htouch _ _
    obtain rfl := (honly d').mp htouch
    refine ⟨rfl, fun t _ => ?_⟩
    rw [← hentries t]
    exact congrFun (update_self ..) t
  · refine ⟨fun h => (not_mem_nil h).elim, ?_⟩
    rintro ⟨d', ⟨_, htouch, _, hemp⟩, _⟩
    rw [(honly d').mp htouch] at hemp
    exact absurd hemp hkeep

/-- **One round** unmaps its part of the range. -/
theorem unmapTable_unmapped (junk : BitVec 32 → Nat → BitVec 32) (hown : s.Owned) (hd : d < 1024)
    (hn : 0 < n) (hfit : ptid + n ≤ 1024) :
    Unmapped s (unmapTable junk s d ptid n) (d * 1024 + ptid) (d * 1024 + ptid + n) := by
  have honly : ∀ d', Touched (d * 1024 + ptid) (d * 1024 + ptid + n) d' ↔ d' = d := by
    unfold Touched
    omega
  unfold unmapTable
  by_cases hpres : present (s.dEntries d) = true
  · simp only [hpres, if_true]
    by_cases hfull : n = 1024
    · rw [if_pos hfull]
      refine freePagetable_unmapped junk hown hd hpres honly (emptied_iff.mpr fun t ht => ?_)
      omega
    rw [if_neg hfull]
    split
    · rename_i hrest
      refine clearTable_unmapped hown hd hpres honly (fun hemp => ?_) fun t => ?_
      · -- a present entry before or behind the range
        rw [Bool.or_eq_true, anyPresent_iff, anyPresent_iff] at hrest
        obtain ⟨t, hle, hlt, ht⟩ | ⟨t, hle, hlt, ht⟩ := hrest
        all_goals
          have hin := (emptied_iff.mp hemp t (by omega)).resolve_right (by simp [ht])
          omega
      · rw [clearEntries_apply]
        refine if_congr ?_ rfl rfl
        omega
    · rename_i hrest
      refine freePagetable_unmapped junk hown hd hpres honly (emptied_iff.mpr fun t ht => ?_)
      rw [Bool.or_eq_true, anyPresent_iff, anyPresent_iff, not_or] at hrest
      by_contra hout
      rw [not_or, Bool.not_eq_false] at hout
      rcases Nat.lt_or_ge t ptid with hlt | hge
      · exact hrest.1 ⟨t, Nat.zero_le _, by omega, hout.2⟩
      · exact hrest.2 ⟨t, by omega, by omega, hout.2⟩
  · rw [if_neg hpres]
    refine unmapped_absent fun d' htouch => ?_
    rw [(honly d').mp htouch, Bool.eq_false_iff.mpr hpres]

/-! ### Rounds compose -/

theorem present_zero : present 0 = false := rfl

theorem Unmapped.dEntries_eq (h : Unmapped s s' lo hi) (hd : d < 1024)
    (hpres : present (s'.dEntries d) = true) : s'.dEntries d = s.dEntries d := by
  by_cases hin : Touched lo hi d ∧ present (s.dEntries d) = true
  · by_cases hemp : Emptied s lo hi d
    · rw [h.released d ⟨hd, hin.1, hin.2, hemp⟩, present_zero] at hpres
      cases hpres
    · exact (h.cleared d hd hin.1 hin.2 hemp).1
  · exact (h.others d hd hin).1

theorem Unmapped.owned (h : Unmapped s s' lo hi) (hown : s.Owned) : s'.Owned := by
  intro d hd d' hd' hpres hpres' htab
  have heq := h.dEntries_eq hd hpres
  have heq' := h.dEntries_eq hd' hpres'
  refine hown d hd d' hd' (heq ▸ hpres) (heq' ▸ hpres') ?_
  rwa [table, table, heq, heq'] at htab

/-- What is outside the range of a round stays. -/
theorem Unmapped.untouched (h : Unmapped s s' lo hi) (hd : d < 1024) (hnot : ¬Touched lo hi d) :
    s'.dEntries d = s.dEntries d ∧
      (present (s.dEntries d) = true → s'.tables (s.table d) = s.tables (s.table d)) :=
  h.others d hd fun hin => hnot hin.1

theorem touched_low (hlo : lo < mid) (hhi : mid < hi) (hd : (d + 1) * 1024 ≤ mid) :
    (Touched lo hi d ↔ Touched lo mid d) ∧ ¬Touched mid hi d := by
  unfold Touched
  omega

theorem touched_high (hlo : lo < mid) (hhi : mid < hi) (hd : mid ≤ d * 1024) :
    (Touched lo hi d ↔ Touched mid hi d) ∧ ¬Touched lo mid d := by
  unfold Touched
  omega

theorem emptied_low (hhi : mid < hi) (hd : (d + 1) * 1024 ≤ mid) :
    Emptied s lo hi d ↔ Emptied s lo mid d := by
  refine forall₂_congr fun t ht => or_congr_left ?_
  omega

theorem emptied_high (hlo : lo < mid) (hd : mid ≤ d * 1024) :
    Emptied s lo hi d ↔ Emptied s mid hi d := by
  refine forall₂_congr fun t ht => or_congr_left ?_
  omega

section Compose

variable {s1 : Pagedir} (hlo : lo < mid) (hhi : mid < hi)
include hlo hhi

theorem released_low {d : Nat} (hd : (d + 1) * 1024 ≤ mid) :
    Released s lo hi d ↔ Released s lo mid d := by
  unfold Released
  rw [(touched_low hlo hhi hd).1, emptied_low hhi hd]

/-- The second round finds the tables behind the first one as they were. -/
theorem Unmapped.released_high (h1 : Unmapped s s1 lo mid) {d : Nat} (hd : mid ≤ d * 1024) :
    Released s lo hi d ↔ Released s1 mid hi d := by
  refine and_congr_right fun hlt => ?_
  obtain ⟨hde, htab⟩ := h1.untouched hlt (touched_high hlo hhi hd).2
  rw [(touched_high hlo hhi hd).1, emptied_high hlo hd, hde]
  refine and_congr_right fun _ => and_congr_right fun hpres => ?_
  unfold Emptied
  rw [table, table, hde]
  exact forall₂_congr fun t _ => by rw [← table, htab hpres]

/-- **Rounds compose** where a table ends. -/
theorem Unmapped.comp (hown : s.Owned) (hmid : mid % 1024 = 0) (h1 : Unmapped s s1 lo mid)
    (h2 : Unmapped s1 s' mid hi) : Unmapped s s' lo hi := by
  have hside : ∀ d, (d + 1) * 1024 ≤ mid ∨ mid ≤ d * 1024 := by omega
  refine ⟨?_, ?_, ?_, ?_⟩
  · intro d hd hnot
    rcases hside d with hlow | hhigh
    · rw [(touched_low hlo hhi hlow).1] at hnot
      obtain ⟨hde, htab⟩ := h1.others d hd hnot
      obtain ⟨hde', htab'⟩ := h2.untouched hd (touched_low hlo hhi hlow).2
      refine ⟨hde'.trans hde, fun hpres => ?_⟩
      rw [table, hde] at htab'
      exact (htab' hpres).trans (htab hpres)
    obtain ⟨hde, htab⟩ := h1.untouched hd (touched_high hlo hhi hhigh).2
    rw [(touched_high hlo hhi hhigh).1, ← hde] at hnot
    obtain ⟨hde', htab'⟩ := h2.others d hd hnot
    refine ⟨hde'.trans hde, fun hpres => ?_⟩
    rw [table, hde] at htab'
    exact (htab' hpres).trans (htab hpres)
  · intro d hrel
    rcases hside d with hlow | hhigh
    · have hz := h1.released d ((released_low hlo hhi hlow).mp hrel)
      rw [(h2.untouched hrel.1 (touched_low hlo hhi hlow).2).1, hz]
    · exact h2.released d ((h1.released_high hlo hhi hhigh).mp hrel)
  · intro d hd htouch hpres hkeep
    rcases hside d with hlow | hhigh
    · obtain ⟨hde, htab⟩ := h1.cleared d hd ((touched_low hlo hhi hlow).1.mp htouch) hpres
        fun hemp => hkeep ((emptied_low hhi hlow).mpr hemp)
      obtain ⟨hde', htab'⟩ := h2.untouched hd (touched_low hlo hhi hlow).2
      refine ⟨hde'.trans hde, fun t ht => ?_⟩
      rw [table, hde] at htab'
      rw [table, htab' hpres, ← table, htab t ht]
      refine if_congr ?_ rfl rfl
      omega
    obtain ⟨hde, htab⟩ := h1.untouched hd (touched_high hlo hhi hhigh).2
    have hkeep' : ¬Emptied s1 mid hi d := fun hemp => hkeep
      ((h1.released_high hlo hhi hhigh).mpr
        ⟨hd, (touched_high hlo hhi hhigh).1.mp htouch, hde ▸ hpres, hemp⟩).2.2.2
    obtain ⟨hde', htab'⟩ := h2.cleared d hd ((touched_high hlo hhi hhigh).1.mp htouch)
      (hde ▸ hpres) hkeep'
    have htable : s1.table d = s.table d := by rw [table, hde, table]
    refine ⟨hde'.trans hde, fun t ht => ?_⟩
    rw [← htable, htab' t ht, htable, htab hpres]
    refine if_congr ?_ rfl rfl
    omega
  · obtain ⟨l1, hfree1, hnodup1, hmem1⟩ := h1.freed
    obtain ⟨l2, hfree2, hnodup2, hmem2⟩ := h2.freed
    -- a table of the second round lies behind the first round, where nothing has changed
    have hlater : ∀ d, Released s1 mid hi d → Released s lo hi d ∧ s1.table d = s.table d ∧
        ¬Touched lo mid d := by
      intro d hrel
      have hhigh : mid ≤ d * 1024 := (hside d).resolve_left fun hlow =>
        (touched_low hlo hhi hlow).2 hrel.2.1
      have hnot := (touched_high hlo hhi hhigh).2
      refine ⟨(h1.released_high hlo hhi hhigh).mpr hrel, ?_, hnot⟩
      rw [table, (h1.untouched hrel.1 hnot).1, table]
    refine ⟨l2 ++ l1, by rw [hfree2, hfree1, append_assoc], ?_, fun a => ?_⟩
    · refine nodup_append.mpr ⟨hnodup2, hnodup1, ?_⟩
      rintro a ha2 b hb1 rfl
      obtain ⟨d2, hrel2, rfl⟩ := (hmem2 a).mp ha2
      obtain ⟨d1, hrel1, htab⟩ := (hmem1 _).mp hb1
      obtain ⟨hrel, htable, hnot⟩ := hlater d2 hrel2
      rw [htable] at htab
      have heq := hown d2 hrel.1 d1 hrel1.1 hrel.2.2.1 hrel1.2.2.1 htab
      exact hnot (heq ▸ hrel1.2.1)
    · rw [mem_append, hmem2, hmem1]
      constructor
      · rintro (⟨d, hrel, rfl⟩ | ⟨d, hrel, rfl⟩)
        · obtain ⟨hrel', htable, _⟩ := hlater d hrel
          exact ⟨d, hrel', htable⟩
        · have hlow : (d + 1) * 1024 ≤ mid := (hside d).resolve_right fun hhigh =>
            (touched_high hlo hhi hhigh).2 hrel.2.1
          exact ⟨d, (released_low hlo hhi hlow).mpr hrel, rfl⟩
      · rintro ⟨d, hrel, rfl⟩
        rcases hside d with hlow | hhigh
        · exact .inr ⟨d, (released_low hlo hhi hlow).mp hrel, rfl⟩
        · have hrel' := (h1.released_high hlo hhi hhigh).mp hrel
          exact .inl ⟨d, hrel', (hlater d hrel').2.1.symm⟩

end Compose

/-! ### The whole range -/

variable {page : Nat}

/-- **The loop** returns, and unmaps its range. -/
theorem unmapLoop_unmapped (junk : BitVec 32 → Nat → BitVec 32) {fuel pages : Nat} (hown : s.Owned)
    (hpages : 0 < pages) (hfuel : pages ≤ fuel) (hend : page + pages ≤ 1048576) :
    ∃ s', unmapLoop junk fuel s (page * 4096) pages = some s' ∧
      Unmapped s s' page (page + pages) := by
  induction fuel generalizing s page pages with
  | zero => omega
  | succ fuel ih =>
    rw [unmapLoop, pdid_page, ptid_page]
    generalize hn : min pages (1024 - page % 1024) = n
    have hround : Unmapped s (unmapTable junk s (page / 1024) (page % 1024) n)
        page (page + n) := by
      have h : Unmapped s (unmapTable junk s (page / 1024) (page % 1024) n)
          (page / 1024 * 1024 + page % 1024) (page / 1024 * 1024 + page % 1024 + n) :=
        unmapTable_unmapped junk hown (by omega) (by omega) (by omega)
      rwa [show page / 1024 * 1024 + page % 1024 = page by omega] at h
    by_cases hlast : n = pages
    · exact ⟨_, if_pos hlast, hlast ▸ hround⟩
    -- the next round starts with the next table
    have hnext : wrap32 (page * 4096 + n * 4096) = (page + n) * 4096 := by
      unfold wrap32
      omega
    obtain ⟨s', hloop, hrest⟩ := ih (hround.owned hown) (show 0 < pages - n by omega)
      (by omega) (show page + n + (pages - n) ≤ 1048576 by omega)
    rw [show page + n + (pages - n) = page + pages by omega] at hrest
    refine ⟨s', ?_, hround.comp (by omega) (by omega) hown (by omega) hrest⟩
    rw [if_neg hlast, hnext, hloop]

/-- The pages of the range are not mapped any more. -/
theorem Unmapped.inside (h : Unmapped s s' lo hi) (hpage : page < 1048576) (hle : lo ≤ page)
    (hlt : page < hi) : s'.mapped page = false := by
  have hd : page / 1024 < 1024 := by omega
  have htouch : Touched lo hi (page / 1024) := by
    unfold Touched
    omega
  unfold mapped
  by_cases hpres : present (s.dEntries (page / 1024)) = true
  · by_cases hemp : Emptied s lo hi (page / 1024)
    · rw [h.released _ ⟨hd, htouch, hpres, hemp⟩, present_zero, Bool.false_and]
    obtain ⟨hde, htab⟩ := h.cleared _ hd htouch hpres hemp
    have hpte : s'.pte page = 0 := by
      rw [pte, table, hde, ← table,
        htab (page % 1024) (by omega), if_pos (by omega)]
    rw [hpte, present_zero, Bool.and_false]
  · rw [(h.others _ hd fun hin => hpres hin.2).1, Bool.eq_false_iff.mpr hpres, Bool.false_and]

theorem Unmapped.outside (h : Unmapped s s' lo hi) (hpage : page < 1048576)
    (hout : page < lo ∨ hi ≤ page) :
    s'.mapped page = s.mapped page ∧ (s.mapped page = true → s'.pte page = s.pte page) := by
  have hd : page / 1024 < 1024 := by omega
  by_cases hin : Touched lo hi (page / 1024) ∧ present (s.dEntries (page / 1024)) = true
  · by_cases hemp : Emptied s lo hi (page / 1024)
    · have hnot : s.mapped page = false := by
        have := (hemp (page % 1024) (by omega)).resolve_left (by omega)
        rw [mapped, pte, this, Bool.and_false]
      refine ⟨?_, fun hm => absurd hm (by simp [hnot])⟩
      rw [hnot, mapped, h.released _ ⟨hd, hin.1, hin.2, hemp⟩, present_zero,
        Bool.false_and]
    · obtain ⟨hde, htab⟩ := h.cleared _ hd hin.1 hin.2 hemp
      have hpte : s'.pte page = s.pte page := by
        rw [pte, table, hde, ← table,
          htab (page % 1024) (by omega), if_neg (by omega), pte]
      exact ⟨by rw [mapped, hde, hpte, mapped], fun _ => hpte⟩
  · obtain ⟨hde, htab⟩ := h.others _ hd hin
    by_cases hpres : present (s.dEntries (page / 1024)) = true
    · have hpte : s'.pte page = s.pte page := by
        rw [pte, table, hde, ← table, htab hpres, pte]
      exact ⟨by rw [mapped, hde, hpte, mapped], fun _ => hpte⟩
    have hnot : s.mapped page = false := by
      rw [mapped, Bool.eq_false_iff.mpr hpres, Bool.false_and]
    refine ⟨?_, fun hm => absurd hm (by simp [hnot])⟩
    rw [hnot, mapped, hde, Bool.eq_false_iff.mpr hpres, Bool.false_and]

theorem kpagedirUnmap_unmapped (junk : BitVec 32 → Nat → BitVec 32) {pages : Nat} (hown : s.Owned)
    (hend : page + pages ≤ 1048576) :
    ∃ s', kpagedirUnmap junk s (page * 4096) pages = some s' ∧
      Unmapped s s' page (page + pages) := by
  rcases Nat.eq_zero_or_pos pages with rfl | hpos
  · exact ⟨s, if_pos rfl, unmapped_absent fun d h => absurd h.1 (Nat.lt_irrefl page)⟩
  · obtain ⟨s', hloop, hun⟩ := unmapLoop_unmapped junk hown hpos le_rfl hend
    exact ⟨s', (if_neg (Nat.ne_of_gt hpos)).trans hloop, hun⟩

/-- **`kpagedir_unmap` removes exactly its range.** Its pages are not mapped afterwards, every
other address translates as before, and the tables that are released, each once, are those
of the range all of whose entries are empty then. -/
theorem kpagedir_unmap_exact (junk : BitVec 32 → Nat → BitVec 32) (s : Pagedir)
    (virt pages : Nat) (hown : s.Owned) (halign : virt % 4096 = 0)
    (hend : virt + pages * 4096 ≤ 4294967296) :
    ∃ s', kpagedirUnmap junk s virt pages = some s' ∧
      (∀ page, virt / 4096 ≤ page → page < virt / 4096 + pages → s'.mapped page = false) ∧
      (∀ addr < 4294967296, addr < virt ∨ virt + pages * 4096 ≤ addr →
        kpagedirTranslate s' addr = kpagedirTranslate s addr) ∧
      ∃ l, s'.freed = l ++ s.freed ∧ l.Nodup ∧
        ∀ a, a ∈ l ↔ ∃ d, Released s (virt / 4096) (virt / 4096 + pages) d ∧ a = s.table d := by
  obtain ⟨page, rfl⟩ : ∃ page, virt = page * 4096 := ⟨virt / 4096, by omega⟩
  rw [Nat.mul_div_cancel _ (by decide : 0 < 4096)]
  obtain ⟨s', hrun, hun⟩ :=
    kpagedirUnmap_unmapped junk hown (show page + pages ≤ 1048576 by omega)
  refine ⟨s', hrun, fun q hle hlt => hun.inside (by omega) hle hlt, ?_, hun.freed⟩
  intro addr haddr hout
  obtain ⟨hmapped, hpte⟩ := hun.outside (show addr / 4096 < 1048576 by omega) (by omega)
  rw [show addr = addr / 4096 * 4096 + addr % 4096 by omega,
    kpagedirTranslate_eq _ _ _ (by omega), kpagedirTranslate_eq _ _ _ (by omega), hmapped]
  by_cases hm : s.mapped (addr / 4096) = true
  · rw [if_pos hm, if_pos hm, hpte hm]
  · rw [if_neg hm, if_neg hm]

/-- A directory with one table, which has one entry. -/
def oneEntry : Pagedir where
  dEntries d := if d = 1 then 0x5001#32 else 0
  tables _ t := if t = 3 then 0x7001#32 else 0
  freed := []

/-- Unmapping the last page of a table releases it. -/
theorem kpagedir_unmap_exact_last : oneEntry.Owned ∧ oneEntry.mapped 1027 = true ∧
    ∃ s', kpagedirUnmap (fun _ _ => 0) oneEntry 4206592 1 = some s' ∧
      s'.mapped 1027 = false ∧ 0x5000#32 ∈ s'.freed := by
  have hone : ∀ d, present (oneEntry.dEntries d) = true → d = 1 := by
    intro d hpres
    by_contra hne
    rw [show oneEntry.dEntries d = 0 from if_neg hne, present_zero] at hpres
    cases hpres
  have hown : oneEntry.Owned := fun d _ d' _ h h' _ => (hone d h).trans (hone d' h').symm
  obtain ⟨s', hrun, hin, _, l, hfree, _, hmem⟩ :=
    kpagedir_unmap_exact (fun _ _ => 0) oneEntry 4206592 1 hown (by decide) (by decide)
  refine ⟨hown, by decide, s', hrun, hin 1027 (by decide) (by decide), ?_⟩
  rw [hfree]
  refine mem_append_left _ ((hmem _).mpr ⟨1, ⟨by decide, ?_, by decide, ?_⟩, by decide⟩)
  · unfold Touched
    decide
  · intro t _
    by_cases ht : t = 3
    · exact .inl (by omega)
    · exact .inr (by rw [show oneEntry.tables (oneEntry.table 1) t = 0 from if_neg ht]; rfl)

end KosKernel.Paging
