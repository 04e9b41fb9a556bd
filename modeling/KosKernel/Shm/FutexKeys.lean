import KosKernel.Shm.FutexLists
import KosKernel.Shm.UnmapExact

/-!
# KosKernel.Shm.FutexKeys

**Which list and which id belong to an address.** `kshm_getfutex_unlocked` looks a futex up by the
part of the region that the address lies in and by the number of the word in its page
(`futexKey_spec`). A part has many pages, so two words have the same key exactly if they are the
same word of one page, or the same word of two pages of one part (`futexKey_eq_iff`).
-/

namespace KosKernel.Shm

open WindowTree PageFrame List

variable {α : Type} {m : Mem α} {t t' : Tree Branch} {others others' : List Branch}
  {addr addr' rid page rid' page' i j : Nat} {r : Region}

/-- The part of a region has a page. -/
def InPart (r : Region) (i page : Nat) : Prop :=
  ∃ part, r.scPartv[i]? = some part ∧ part.spStart ≤ page ∧ page < part.spStart + part.spPages

/-- Two addresses lie in the same word of the same page of a region. -/
def SameWord (t : Tree Branch) (addr : Nat) (t' : Tree Branch) (addr' : Nat) : Prop :=
  ∃ rid page, MapsTo t addr rid page ∧ MapsTo t' addr' rid page ∧
    addr % pageSize / 4 = addr' % pageSize / 4

/-- Two addresses lie in the same word of two pages of one part. -/
def Confused (m : Mem α) (t : Tree Branch) (addr : Nat) (t' : Tree Branch) (addr' : Nat) : Prop :=
  ∃ rid r i page page', m.regions rid = some r ∧ MapsTo t addr rid page ∧
    MapsTo t' addr' rid page' ∧ page ≠ page' ∧ InPart r i page ∧ InPart r i page' ∧
    addr % pageSize / 4 = addr' % pageSize / 4

/-! ### Parts -/

theorem walkParts_spec {parts : List Part} {start index : Nat} (hparts : PartsFrom start parts)
    (hlo : start ≤ page) (hhi : page < start + (pageFrames parts).length) :
    ∃ k part, walkParts parts index page = .ok (index + k) ∧ parts[k]? = some part ∧
      part.spStart ≤ page ∧ page < part.spStart + part.spPages := by
  induction parts generalizing start index with
  | nil => exact absurd hhi (by simp only [pageFrames_nil, length_nil]; omega)
  | cons part rest ih =>
    obtain ⟨hstart, -, hrest⟩ := hparts
    by_cases hnext : part.spStart + part.spPages ≤ page
    · have hlen : page < start + part.spPages + (pageFrames rest).length := by
        rw [pageFrames_cons, length_append, length_range'] at hhi
        omega
      obtain ⟨k, found, hval, hfound⟩ := ih hrest (by omega) hlen
      refine ⟨k + 1, found, ?_, hfound⟩
      rw [walkParts, if_pos hnext, hval]
      congr 1
      omega
    · exact ⟨0, part, by rw [walkParts, if_neg hnext]; rfl, rfl, by omega, by omega⟩

theorem RegionWf.inPart_unique (h : RegionWf r) (hi : InPart r i page) (hj : InPart r j page) :
    i = j := by
  obtain ⟨part, hi, hp⟩ := hi
  obtain ⟨part', hj, hp'⟩ := hj
  exact h.parts.unique hi hj hp hp'

/-- The shortcut from the cluster leads to the part of the page. -/
theorem RegionWf.walkParts (h : RegionWf r) (hpage : page < r.scPages) :
    ∃ i, Shm.walkParts (r.scPartv.drop (r.scPart (getcluster page)))
      (r.scPart (getcluster page)) page = .ok i ∧ InPart r i page := by
  obtain ⟨part, rest, hdrop, hlo, -, hparts, hframes⟩ := h.partsAt (h.cluster_lt hpage)
  have hcluster : getcluster page * clusterSize ≤ page := Nat.div_mul_le_self ..
  have hlen : (pageFrames (part :: rest)).length = r.scPages - part.spStart := by
    rw [hframes, length_drop, h.pages]
  obtain ⟨k, found, hval, hk, hfound⟩ := walkParts_spec
    hparts (by omega) (by rw [hlen]; omega : page < _)
  rw [hdrop]
  refine ⟨_, hval, found, ?_, hfound⟩
  rw [← getElem?_drop, hdrop, hk]

/-! ### Addresses -/

namespace TreeHolds

variable (h : TreeHolds m others 0 addrLevelInit t)
include h

theorem locate (addr : Nat) : ∃ r, kshmbranchLocate t addr = .ok r ∧ Found t addr r :=
  locateLoop_spec window_init h.stored h.leaves

theorem mapsTo_unique (hp : MapsTo t addr rid page) (hp' : MapsTo t addr rid' page') :
    rid = rid' ∧ page = page' := by
  obtain ⟨b, hb, hm, rfl, rfl⟩ := hp
  obtain ⟨b', hb', hm', rfl, rfl⟩ := hp'
  obtain rfl := unique_of_apart h.leaves.apart hb hb' hm hm'
  exact ⟨rfl, rfl⟩

/-- A mapped page is a page of a region that is there, and its cluster is referred to. -/
theorem mapsTo_region (hp : MapsTo t addr rid page) :
    ∃ r, m.regions rid = some r ∧ RegionWf r ∧ page < r.scPages ∧
      r.scRefcnt (getcluster page) ≠ 0 := by
  obtain ⟨b, hb, ⟨hlo, hhi⟩, rfl, rfl⟩ := hp
  have hok := h.branch b hb
  obtain ⟨r, hr, hpages, -⟩ := hok.region
  have hwf := h.ledger.tally.wf _ _ hr
  have hoff : (addr - b.sbMapMin) / pageSize < b.sbRpages := by
    have hsize := hok.size
    rw [Nat.div_lt_iff_lt_mul (by decide)]
    omega
  have hlt : b.sbRstart + (addr - b.sbMapMin) / pageSize < r.scPages := by omega
  refine ⟨r, hr, hwf, hlt, ?_⟩
  rw [h.ledger.tally.refcnt _ _ hr _ (hwf.cluster_lt hlt)]
  refine coverCount_pos (mem_append_left _ hb) ⟨rfl, ?_, ?_⟩
  · rw [hok.clusterMin]
    exact Nat.div_le_div_right (Nat.le_add_right ..)
  · refine Nat.le_trans (Nat.div_le_div_right ?_) hok.clusterMax
    omega

/-- **The key of a mapped address**: the part that has its page, and its word of the page. -/
theorem futexKey_spec (hp : MapsTo t addr rid page) :
    ∃ r i, m.regions rid = some r ∧ InPart r i page ∧
      futexKey m t addr = .ok (some ((rid, i), addr % pageSize / 4)) := by
  obtain ⟨r, hr, hwf, hlt, hrefcnt⟩ := h.mapsTo_region hp
  obtain ⟨found, hlocate, hfound⟩ := h.locate addr
  obtain ⟨b, hb, hm, rfl, rfl⟩ := hp
  cases found with
  | none => exact absurd hm (hfound b hb)
  | some c =>
    obtain rfl := unique_of_apart h.leaves.apart hfound.1 hb hfound.2 hm
    have hdiv : (c.sbRstart * pageSize + (addr - c.sbMapMin)) / pageSize =
        c.sbRstart + (addr - c.sbMapMin) / pageSize := by
      rw [Nat.add_comm, Nat.add_mul_div_right _ _ (by decide), Nat.add_comm]
    have hmod : (c.sbRstart * pageSize + (addr - c.sbMapMin)) % pageSize = addr % pageSize := by
      have halign := (h.leaves.leaf c hb).aligned_min
      have hle := hm.1
      simp only [pageSize] at halign ⊢
      omega
    obtain ⟨i, hwalk, hin⟩ := hwf.walkParts hlt
    refine ⟨r, i, hr, hin, ?_⟩
    have hcount := hwf.cluster_lt hlt
    rw [futexKey, hlocate]
    simp only [hr, hdiv, hmod]
    rw [if_neg, if_neg hrefcnt]
    · simp only [hwalk, bind, Except.bind, Nat.shiftRight_eq_div_pow]
    · have hparts : r.scPartv ≠ [] := by
        intro hnil
        have hlen := hwf.pages
        rw [hnil, pageFrames_nil, length_nil] at hlen
        exact Nat.ne_of_lt hwf.pos hlen
      have haddr : c.sbRstart * pageSize + (addr - c.sbMapMin) < r.scPages * pageSize := by
        rw [← hdiv] at hlt
        exact (Nat.div_lt_iff_lt_mul (by decide)).1 hlt
      simp only [hparts, hm, not_true, false_or, not_or, Nat.not_le]
      exact ⟨Nat.ne_of_gt (Nat.zero_lt_of_lt hcount), Nat.ne_of_gt hwf.pos, haddr, hcount⟩

theorem futexKey_none (hp : ∀ rid page, ¬MapsTo t addr rid page) :
    futexKey m t addr = .ok none := by
  obtain ⟨found, hlocate, hfound⟩ := h.locate addr
  cases found with
  | none => rw [futexKey, hlocate]
  | some b => exact absurd ⟨b, hfound.1, hfound.2, rfl, rfl⟩ (hp _ _)

theorem futexKey_cases (addr : Nat) :
    futexKey m t addr = .ok none ∨
      ∃ rid page key, MapsTo t addr rid page ∧ futexKey m t addr = .ok (some key) := by
  by_cases hp : ∃ rid page, MapsTo t addr rid page
  · obtain ⟨rid, page, hp⟩ := hp
    obtain ⟨r, i, -, -, hkey⟩ := h.futexKey_spec hp
    exact .inr ⟨rid, page, _, hp, hkey⟩
  · exact .inl (h.futexKey_none fun rid page hmaps => hp ⟨rid, page, hmaps⟩)

/-- Where the word is the same, the pages cannot differ. -/
theorem not_confused_of_sameWord (h' : TreeHolds m others' 0 addrLevelInit t')
    (hsame : SameWord t addr t' addr') : ¬Confused m t addr t' addr' := by
  rintro ⟨rid, r, i, page, page', hr, hp, hp', hne, -⟩
  obtain ⟨rid0, page0, hq, hq', -⟩ := hsame
  obtain ⟨rfl, rfl⟩ := h.mapsTo_unique hp hq
  obtain ⟨-, rfl⟩ := h'.mapsTo_unique hp' hq'
  exact hne rfl

/-- **Two mapped addresses have the same key** if they lie in the same word of a page, or of two
pages of one part. -/
theorem futexKey_eq_iff (h' : TreeHolds m others' 0 addrLevelInit t')
    (hp : MapsTo t addr rid page) (hp' : MapsTo t' addr' rid' page') :
    futexKey m t addr = futexKey m t' addr' ↔
      SameWord t addr t' addr' ∨ Confused m t addr t' addr' := by
  obtain ⟨r, i, hr, hi, hkey⟩ := h.futexKey_spec hp
  obtain ⟨r', i', hr', hi', hkey'⟩ := h'.futexKey_spec hp'
  obtain ⟨-, -, hwf, -⟩ := h.mapsTo_region hp
  rw [hkey, hkey']
  constructor
  · intro heq
    simp only [Except.ok.injEq, Option.some.injEq, Prod.mk.injEq] at heq
    obtain ⟨⟨rfl, rfl⟩, hword⟩ := heq
    obtain rfl := Option.some.inj (hr.symm.trans hr')
    by_cases hpage : page = page'
    · subst hpage
      exact .inl ⟨rid, page, hp, hp', hword⟩
    · exact .inr ⟨rid, r, i, page, page', hr, hp, hp', hpage, hi, hi', hword⟩
  · rintro (⟨rid0, page0, hq, hq', hword⟩ |
      ⟨rid0, r0, i0, p, p', hr0, hq, hq', -, hin, hin', hword⟩)
    · obtain ⟨rfl, rfl⟩ := h.mapsTo_unique hp hq
      obtain ⟨rfl, rfl⟩ := h'.mapsTo_unique hp' hq'
      obtain rfl := Option.some.inj (hr.symm.trans hr')
      rw [hword, (h.ledger.tally.wf _ _ hr).inPart_unique hi hi']
    · obtain ⟨rfl, rfl⟩ := h.mapsTo_unique hp hq
      obtain ⟨rfl, rfl⟩ := h'.mapsTo_unique hp' hq'
      obtain rfl := Option.some.inj (hr.symm.trans hr0)
      obtain rfl := Option.some.inj (hr.symm.trans hr')
      have hwf := h.ledger.tally.wf _ _ hr
      rw [hword, hwf.inPart_unique hi hin, hwf.inPart_unique hi' hin']

end TreeHolds

end KosKernel.Shm
