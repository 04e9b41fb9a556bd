import KosKernel.Shm.Remap
import KosKernel.Shm.UnmapExact

/-!
# KosKernel.Shm.Translate

**Addresses of a region** (`kshmregion_translate` of `src/kernel/shm.c`): a byte offset into
the region is a page of it and an offset into that page. A page with the frame `NULL`, as in
a region of physical page 0, cannot be translated. The end of the region is computed in 32
bits, so a region of 4 GiB or more ends too early.
-/

namespace KosKernel.Shm

open PageFrame List

/-- `kshmregion_translate_fast`: the physical address, and the bytes that follow it there. -/
def kshmregionTranslateFast (r : Region) (addressOffset : Nat) : Except Fault (Nat × Nat) :=
  if r.scPages * pageSize % 4294967296 ≤ addressOffset then .error .assertion
  else do
    let (frame, maxPages) ← kshmregionGetphyspage r (addressOffset / pageSize)
    let maxBytes := (maxPages * pageSize - addressOffset % pageSize) % 4294967296
    if frame % 1048576 = 0 ∨ maxPages = 0 ∨ maxBytes = 0 then .error .assertion
    else return ((frame * pageSize + addressOffset % pageSize) % 4294967296, maxBytes)

/-- `kshmregion_translate`; `none` is `NULL`. -/
def kshmregionTranslate (r : Region) (addressOffset : Nat) : Except Fault (Option Nat × Nat) :=
  if r.scPages * pageSize % 4294967296 ≤ addressOffset then .ok (none, 0)
  else do
    let (address, maxBytes) ← kshmregionTranslateFast r addressOffset
    return (some address, maxBytes)

/-- A region of these parts can be set up. The lookup of a page then gives its frame and
the number of pages left in the part of the page, and the translation of an address gives
`NULL` exactly behind the end. -/
def Translates (flags : RegionFlags) (parts : List Part) : Prop :=
  ∃ r, kshmregionSetup flags (pageFrames parts).length parts = .ok r ∧
    (∀ page < r.scPages, ∃ part ∈ parts, ∃ found < part.spPages, part.spStart + found = page ∧
      ∃ frame, (pageFrames parts)[page]? = some frame ∧
        kshmregionGetphyspage r page = .ok (frame, part.spPages - found)) ∧
    ∀ addr < 4294967296, ∃ address maxBytes,
      kshmregionTranslate r addr = .ok (address, maxBytes) ∧
      (address = none ↔ r.scPages * pageSize ≤ addr)

/-- **The exact condition**: the region is smaller than 4 GiB, and none of its frames is `NULL`. -/
def TranslateOk (parts : List Part) : Prop :=
  (pageFrames parts).length < 1048576 ∧ ∀ frame ∈ pageFrames parts, frame % 1048576 ≠ 0

variable {r : Region}

/-- Where the end of the region is not cut, an address before it is translated. -/
theorem kshmregionTranslate_some (h : RegionWf r) (hok : TranslateOk r.scPartv) {addr : Nat}
    (haddr : addr < r.scPages * pageSize) :
    ∃ address maxBytes, kshmregionTranslate r addr = .ok (some address, maxBytes) := by
  have hpage : addr / pageSize < r.scPages := Nat.div_lt_of_lt_mul (Nat.mul_comm .. ▸ haddr)
  obtain ⟨part, hmem, found, hlt, -, hval, hrun⟩ := kshmregionGetphyspage_part h hpage
  have hnull := hok.2 _ (mem_of_getElem? (hrun 0 hlt))
  have hpages := h.pages ▸ hok.1
  -- the rest of the part lies in the region
  obtain ⟨hin, -⟩ := List.getElem?_eq_some_iff.1 (hrun (part.spPages - found - 1) (by omega))
  rw [h.pages] at hin
  have hend : ¬r.scPages * pageSize % 4294967296 ≤ addr := by
    unfold pageSize at *
    omega
  rw [kshmregionTranslate, if_neg hend, kshmregionTranslateFast, if_neg hend, hval]
  simp only [bind, Except.bind]
  rw [if_neg (by unfold pageSize at *; omega)]
  exact ⟨_, _, rfl⟩

/-- An address in a page with the frame `NULL` is not translated. -/
theorem kshmregionTranslate_null (hpages : r.scPages < 1048576) {page frame maxPages : Nat}
    (hpage : page < r.scPages) (hval : kshmregionGetphyspage r page = .ok (frame, maxPages))
    (hnull : frame % 1048576 = 0) :
    kshmregionTranslate r (page * pageSize) = .error .assertion := by
  have hend : ¬r.scPages * pageSize % 4294967296 ≤ page * pageSize := by
    unfold pageSize
    omega
  rw [kshmregionTranslate, if_neg hend, kshmregionTranslateFast, if_neg hend,
    Nat.mul_div_cancel _ (show 0 < pageSize by decide), hval]
  simp only [bind, Except.bind]
  rw [if_pos (.inl hnull)]

/-- **Region address translation**: a page is looked up and an address translated as they
should, exactly under the condition. -/
theorem kshmregion_translates_iff (flags : RegionFlags) {parts : List Part}
    (hparts : PartsFrom 0 parts) (hsome : parts ≠ []) :
    Translates flags parts ↔ TranslateOk parts := by
  have hpos : 0 < (pageFrames parts).length := by
    obtain ⟨part, rest, rfl⟩ := exists_cons_of_ne_nil hsome
    have := hparts.2.1
    rw [pageFrames_cons, length_append, length_range']
    omega
  obtain ⟨r, hsetup, hwf, -, hpages, hpartv, -⟩ := kshmregionSetup_spec flags hparts rfl hpos
  constructor
  · rintro ⟨r', hsetup', -, htrans⟩
    obtain rfl : r' = r := by simpa [hsetup'] using hsetup
    have hlt : r'.scPages < 1048576 := by
      -- the address at which the computed end lies
      obtain ⟨address, maxBytes, hval, hiff⟩ := htrans (r'.scPages * pageSize % 4294967296)
        (Nat.mod_lt _ (by decide))
      rw [kshmregionTranslate, if_pos le_rfl] at hval
      cases hval
      have hle := hiff.1 rfl
      unfold pageSize at hle
      omega
    refine ⟨hpages ▸ hlt, fun frame hmem hnull => ?_⟩
    obtain ⟨page, hframe⟩ := mem_iff_getElem?.1 hmem
    obtain ⟨hin, -⟩ := List.getElem?_eq_some_iff.1 hframe
    rw [← hpages] at hin
    obtain ⟨part, -, found, hfound, -, hpage, hrun⟩ := kshmregionGetphyspage_part hwf hin
    have hrun0 := hrun 0 hfound
    rw [Region.frame, hpartv, Nat.add_zero, hframe] at hrun0
    cases hrun0
    obtain ⟨address, maxBytes, hval, -⟩ := htrans (page * pageSize) (by unfold pageSize; omega)
    rw [kshmregionTranslate_null hlt hin hpage hnull] at hval
    cases hval
  · intro hok
    refine ⟨r, hsetup, fun page hpage => ?_, fun addr _ => ?_⟩
    · obtain ⟨part, hmem, found, hfound, hsum, hval, hrun⟩ := kshmregionGetphyspage_part hwf hpage
      exact ⟨part, hpartv ▸ hmem, found, hfound, hsum, _, hpartv ▸ hrun 0 hfound, hval⟩
    by_cases hend : r.scPages * pageSize ≤ addr
    · refine ⟨none, 0, if_pos ((Nat.mod_le ..).trans hend), iff_of_true rfl hend⟩
    · obtain ⟨address, maxBytes, hval⟩ := kshmregionTranslate_some hwf (hpartv ▸ hok)
        (not_le.1 hend)
      exact ⟨_, _, hval, iff_of_false (by simp) hend⟩

/-- A region of two parts, of which the second is longer than a cluster. -/
theorem kshmregion_translates_two : PartsFrom 0 [⟨256, 0, 3⟩, ⟨1024, 3, 40⟩] ∧
    Translates ramFlags [⟨256, 0, 3⟩, ⟨1024, 3, 40⟩] := by
  have hparts : PartsFrom 0 [⟨256, 0, 3⟩, ⟨1024, 3, 40⟩] := by simp [PartsFrom]
  exact ⟨hparts, (kshmregion_translates_iff _ hparts (by decide)).2
    ⟨by simp, by decide⟩⟩

/-- Physical page 0 as a region: its first address is not translated. -/
theorem kshmregion_translate_null_frame :
    ∃ r, kshmregionSetup ramFlags 1 [⟨0, 0, 1⟩] = .ok r ∧
      r.scPages = 1 ∧ kshmregionTranslate r 0 = .error .assertion :=
  ⟨_, rfl, rfl, rfl⟩

end KosKernel.Shm
