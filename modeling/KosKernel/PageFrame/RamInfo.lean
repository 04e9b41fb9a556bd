import KosKernel.PageFrame.AllocAt

/-!
# KosKernel.PageFrame.RamInfo

**Boot memory regions**: `raminfo_addregion` of `src/kernel/pageframe.c`, which hands
the usable pages of a region that the boot loader reports to the frame allocator.

A region is trimmed to whole pages, page zero and the kernel image are left out, and
what remains goes to `kpageframe_free`. The model gives the list of those calls (start
and number of pages); the arithmetic is that of the 32-bit `uintptr_t` and `size_t`,
with a region's own start and size still of 64 bits. `kpageframe_free` does not look for a
call with no pages: it would list an empty region.
-/

namespace KosKernel.PageFrame

/-- Where the linker has put the kernel: `__kernel_begin` and `__kernel_end`. -/
structure KernelImage where
  kernelBegin : Nat
  kernelEnd : Nat
  nonempty : kernelBegin < kernelEnd
  below : kernelEnd < addrSpace

/-- `align(x,PAGEALIGN)` and `alignd(x,PAGESIZE)` on 32-bit numbers. -/
def align (x : Nat) : Nat := (x + (pageSize - 1)) % addrSpace / pageSize * pageSize
def alignd (x : Nat) : Nat := x / pageSize * pageSize

/-- The tail of `raminfo_addregion`: align the used memory by the alignment of pages,
and mask the region as free. -/
def useRegion (nativeStart nativeSize : Nat) : List (Nat × Nat) :=
  let usedStart := align nativeStart
  let usedSize := alignd (sizeSub nativeSize (sizeSub usedStart nativeStart))
  if usedStart = 0 then
    if usedSize ≤ pageSize then []
    else [(usedStart + pageSize, (usedSize - pageSize) / pageSize)]
  else [(usedStart, usedSize / pageSize)]

/-- `raminfo_addregion`. It calls itself for the part of the region below the kernel, so
the first argument bounds the depth; two is enough. -/
def raminfoAddregion (k : KernelImage) : Nat → Nat → Nat → Option (List (Nat × Nat))
  | 0, _, _ => none
  | depth + 1, start, size =>
    -- Quickly dismiss regions too small to use for anything
    if size < pageSize then some []
    else
      let last := (start + (size - 1)) % 2 ^ 64
      if addrSpace - 1 < last ∨ last < start then some []  -- Can't use 64-bit RAM region
      else
        let nativeStart := start % addrSpace
        let nativeSize := size % addrSpace
        if nativeStart < k.kernelEnd ∧
            k.kernelBegin < (nativeStart + nativeSize) % addrSpace then
          let lower :=
            if nativeStart ≤ k.kernelBegin then
              raminfoAddregion k depth nativeStart (k.kernelBegin - nativeStart)
            else some []
          let temp := k.kernelEnd - nativeStart
          if nativeSize ≤ temp then lower
          else lower.map (· ++ useRegion k.kernelEnd (nativeSize - temp))
        else some (useRegion nativeStart nativeSize)

/-- Whether a call of `kpageframe_free` gives the page `p`. -/
def gives (call : Nat × Nat) (p : Nat) : Bool :=
  decide (call.1 ≤ p ∧ (p - call.1) % pageSize = 0 ∧ (p - call.1) / pageSize < call.2)

/-- How often a page is given. -/
def timesGiven (calls : List (Nat × Nat)) (p : Nat) : Nat := calls.countP (gives · p)

/-- A whole page of a region, other than page zero. -/
def WholePage (start size p : Nat) : Prop :=
  p % pageSize = 0 ∧ start ≤ p ∧ p + pageSize ≤ start + size ∧ p ≠ 0

instance (start size p : Nat) : Decidable (WholePage start size p) :=
  inferInstanceAs (Decidable (_ ∧ _))

/-- A page that `raminfo_addregion` should give: outside of the kernel image too. -/
def Usable (k : KernelImage) (start size p : Nat) : Prop :=
  WholePage start size p ∧ (p + pageSize ≤ k.kernelBegin ∨ k.kernelEnd ≤ p)

instance (k : KernelImage) (start size p : Nat) : Decidable (Usable k start size p) :=
  inferInstanceAs (Decidable (_ ∧ _))

/-- Every call is for some pages. -/
def AllPos (calls : List (Nat × Nat)) : Prop := ∀ call ∈ calls, 0 < call.2

/-- Every usable page of the region is given once, no other page is, and no call is made for
no pages. -/
def RaminfoRight (k : KernelImage) (start size : Nat) : Prop :=
  ∃ calls, raminfoAddregion k 2 start size = some calls ∧ AllPos calls ∧
    ∀ p, timesGiven calls p = if Usable k start size p then 1 else 0

/-- The next page boundary, without wrapping. -/
def boundary (x : Nat) : Nat := (x + (pageSize - 1)) / pageSize * pageSize

/-- A stretch of memory begins with page zero, or has a page behind its first boundary. -/
def HasPage (start stop : Nat) : Prop := start = 0 ∨ boundary start + pageSize ≤ stop

instance (start stop : Nat) : Decidable (HasPage start stop) :=
  inferInstanceAs (Decidable (_ ∨ _))

/-- A region with a part of the kernel: what is left of it above the kernel has a page, and so
has what is left below it unless that is smaller than a page. -/
def OverlapOk (k : KernelImage) (start size : Nat) : Prop :=
  (k.kernelBegin < start + pageSize ∨ HasPage start k.kernelBegin) ∧
  (start + size ≤ k.kernelEnd ∨ HasPage k.kernelEnd (start + size))

instance (k : KernelImage) (start size : Nat) : Decidable (OverlapOk k start size) :=
  inferInstanceAs (Decidable (_ ∧ _))

/-- **The exact condition on a region.** A region below 4 GiB has a page, and if there is a
part of the kernel in it, then what is left of it has; a region that ends at 4 GiB must have
the kernel below its first page; other regions are fine only if there is nothing to give. -/
def RaminfoOk (k : KernelImage) (start size : Nat) : Prop :=
  size < pageSize ∨
  (start + size < addrSpace ∧
    if k.kernelEnd ≤ start ∨ start + size ≤ k.kernelBegin then HasPage start (start + size)
    else OverlapOk k start size) ∨
  (start + size = addrSpace ∧ start ≠ 0 ∧ k.kernelEnd ≤ boundary start) ∨
  ((addrSpace < start + size ∨ (start = 0 ∧ size = addrSpace)) ∧
    ∀ p, ¬ Usable k start size p)

/-! ### One stretch of memory -/

theorem boundary_spec (x : Nat) :
    x ≤ boundary x ∧ boundary x < x + pageSize ∧ boundary x % pageSize = 0 := by
  unfold boundary pageSize
  omega

theorem align_of_lt {x : Nat} (h : boundary x < addrSpace) : align x = boundary x := by
  unfold align boundary addrSpace pageSize at *
  omega

theorem align_of_eq {x : Nat} (h : boundary x = addrSpace) : align x = 0 := by
  have hfit : (x + (pageSize - 1)) % addrSpace < pageSize := by
    unfold boundary pageSize addrSpace at *
    omega
  rw [align, Nat.div_eq_of_lt hfit, Nat.zero_mul]

@[simp] theorem timesGiven_nil (p : Nat) : timesGiven [] p = 0 := rfl

theorem timesGiven_append (a b : List (Nat × Nat)) (p : Nat) :
    timesGiven (a ++ b) p = timesGiven a p + timesGiven b p :=
  List.countP_append

theorem allPos_append {a b : List (Nat × Nat)} : AllPos (a ++ b) ↔ AllPos a ∧ AllPos b :=
  List.forall_mem_append

theorem allPos_nil : AllPos [] := fun _ h => absurd h List.not_mem_nil

/-- An aligned stretch of `size` bytes gives the whole pages in it. -/
theorem timesGiven_stretch {start size : Nat} (halign : start % pageSize = 0)
    (hpos : start ≠ 0) (p : Nat) :
    timesGiven [(start, size / pageSize)] p = if WholePage start size p then 1 else 0 := by
  have hgives : gives (start, size / pageSize) p = decide (WholePage start size p) := by
    rw [gives, decide_eq_decide]
    unfold WholePage pageSize at *
    omega
  simp [timesGiven, hgives]

theorem timesGiven_small {start size : Nat} (h : size < pageSize) (p : Nat) :
    timesGiven [] p = if WholePage start size p then 1 else 0 := by
  rw [timesGiven_nil, if_neg]
  unfold WholePage
  omega

section
variable {start size : Nat} (hlt : boundary start < addrSpace)
  (hreach : boundary start ≤ start + size) (hsize : size < addrSpace)

include hlt hreach hsize

theorem useRegion_eq : useRegion start size =
    if boundary start = 0 then
      if alignd (start + size - boundary start) ≤ pageSize then []
      else [(boundary start + pageSize,
        (alignd (start + size - boundary start) - pageSize) / pageSize)]
    else [(boundary start, alignd (start + size - boundary start) / pageSize)] := by
  have hge := (boundary_spec start).1
  have hgap : sizeSub (boundary start) start = boundary start - start :=
    sizeSub_eq (Nat.add_sub_of_le hge).symm hlt
  have hrest : sizeSub size (boundary start - start) = start + size - boundary start :=
    sizeSub_eq (by omega) hsize
  rw [useRegion, align_of_lt hlt]
  simp only [hgap, hrest]

/-- A stretch that reaches its first page boundary gives its whole pages, once each. -/
theorem timesGiven_useRegion (p : Nat) :
    timesGiven (useRegion start size) p = if WholePage start size p then 1 else 0 := by
  obtain ⟨hge, hnear, haligned⟩ := boundary_spec start
  rw [useRegion_eq hlt hreach hsize]
  by_cases hzero : boundary start = 0
  · -- page zero is in the stretch: it begins one page later
    have hstart : start = 0 := by omega
    subst hstart
    rw [if_pos hzero, hzero, Nat.zero_add, Nat.sub_zero]
    by_cases hsmall : alignd size ≤ pageSize
    · rw [if_pos hsmall, timesGiven_nil, if_neg]
      unfold WholePage alignd pageSize at *
      omega
    rw [if_neg hsmall, Nat.zero_add, timesGiven_stretch (by decide) (by decide)]
    refine if_congr ?_ rfl rfl
    unfold WholePage alignd pageSize at *
    omega
  · have hpages : alignd (start + size - boundary start) / pageSize =
        (start + size - boundary start) / pageSize := by
      unfold alignd pageSize
      omega
    rw [if_neg hzero, hpages, timesGiven_stretch haligned hzero]
    refine if_congr ?_ rfl rfl
    unfold WholePage pageSize at *
    omega

/-- Such a stretch is given with a call for some pages, if it has a page. -/
theorem allPos_useRegion : AllPos (useRegion start size) ↔ HasPage start (start + size) := by
  obtain ⟨hge, hnear, -⟩ := boundary_spec start
  rw [useRegion_eq hlt hreach hsize]
  by_cases hzero : boundary start = 0
  · have hhas : HasPage start (start + size) := .inl (by omega)
    split_ifs with hsmall
    · exact iff_of_true allPos_nil hhas
    · refine iff_of_true (List.forall_mem_singleton.2 ?_) hhas
      unfold alignd pageSize at *
      omega
  · rw [if_neg hzero, AllPos, List.forall_mem_singleton, HasPage]
    have hstart : start ≠ 0 := fun h => hzero (by rw [h]; rfl)
    unfold alignd pageSize at *
    omega

end

/-- A stretch that ends before its first page boundary gives a page that it should not:
its size has wrapped. -/
theorem timesGiven_useRegion_short {start stop : Nat} (hstop : start < stop)
    (hshort : stop < boundary start) (hlt : stop < addrSpace) :
    ∃ p, timesGiven (useRegion start (stop - start)) p = 1 ∧
      ¬ WholePage start (stop - start) p := by
  obtain ⟨hge, hnear, haligned⟩ := boundary_spec start
  rcases Nat.lt_or_ge (boundary start) addrSpace with hin | hout
  · -- the boundary itself is given, and almost all of the address space after it
    have hgap : sizeSub (boundary start) start = boundary start - start :=
      sizeSub_eq (Nat.add_sub_of_le hge).symm hin
    have hwrap : alignd (sizeSub (stop - start) (boundary start - start)) =
        addrSpace - pageSize := by
      unfold alignd sizeSub pageSize addrSpace at *
      omega
    refine ⟨boundary start, ?_, ?_⟩
    · rw [useRegion, align_of_lt hin]
      simp only [hgap, hwrap]
      rw [if_neg (by omega), timesGiven_stretch haligned (by omega), if_pos]
      unfold WholePage pageSize addrSpace at *
      omega
    · unfold WholePage
      omega
  · -- the boundary has wrapped to zero: the memory from the second page on is given
    have heq : boundary start = addrSpace := by
      unfold pageSize addrSpace at *
      omega
    have hwrap : alignd (sizeSub (stop - start) (sizeSub 0 start)) = addrSpace - pageSize := by
      unfold alignd sizeSub pageSize addrSpace at *
      omega
    refine ⟨pageSize, ?_, ?_⟩
    · rw [useRegion, align_of_eq heq]
      simp only [hwrap]
      decide
    · unfold WholePage pageSize addrSpace at *
      omega

/-! ### What is done with a region -/

section
variable (k : KernelImage) {depth start size : Nat}

/-- A region that ends before 4 GiB: nothing is truncated, so the kernel is found in it
whenever it is there. -/
theorem raminfoAddregion_below (hsize : pageSize ≤ size) (h : start + size < addrSpace) :
    raminfoAddregion k (depth + 1) start size =
      if start < k.kernelEnd ∧ k.kernelBegin < start + size then
        let lower :=
          if start ≤ k.kernelBegin then
            raminfoAddregion k depth start (k.kernelBegin - start)
          else some []
        if size ≤ k.kernelEnd - start then lower
        else lower.map (· ++ useRegion k.kernelEnd (size - (k.kernelEnd - start)))
      else some (useRegion start size) := by
  have hpage : 0 < pageSize := by decide
  have hspace : addrSpace < 2 ^ 64 := by decide
  have hlast : (start + (size - 1)) % 2 ^ 64 = start + (size - 1) :=
    Nat.mod_eq_of_lt (by omega)
  have hstart : start % addrSpace = start := Nat.mod_eq_of_lt (by omega)
  have hsize' : size % addrSpace = size := Nat.mod_eq_of_lt (by omega)
  have hend : (start + size) % addrSpace = start + size := Nat.mod_eq_of_lt h
  rw [raminfoAddregion, if_neg (by omega)]
  simp only [hlast, hstart, hsize', hend]
  rw [if_neg (by omega)]

/-- A region without a part of the kernel is used as it is. -/
theorem raminfoAddregion_apart (hsize : pageSize ≤ size) (h : start + size < addrSpace)
    (hapart : k.kernelEnd ≤ start ∨ start + size ≤ k.kernelBegin) :
    raminfoAddregion k (depth + 1) start size = some (useRegion start size) := by
  rw [raminfoAddregion_below k hsize h, if_neg (by omega)]

/-- The recursive call for the part below the kernel, if there is one, gives the whole pages of
that part. -/
theorem raminfoAddregion_lower (start : Nat) : ∃ calls,
    (if start ≤ k.kernelBegin then raminfoAddregion k 1 start (k.kernelBegin - start)
      else some []) = some calls ∧
      (AllPos calls ↔ k.kernelBegin < start + pageSize ∨ HasPage start k.kernelBegin) ∧
      ∀ p, timesGiven calls p =
        if WholePage start (k.kernelBegin - start) p then 1 else 0 := by
  have hlt : k.kernelBegin < addrSpace := k.nonempty.trans k.below
  rcases Nat.lt_or_ge (k.kernelBegin - start) pageSize with hsmall | hlarge
  · refine ⟨[], ?_, iff_of_true allPos_nil (.inl (by omega)), timesGiven_small hsmall⟩
    rw [raminfoAddregion, if_pos hsmall, ite_self]
  · have hle : start ≤ k.kernelBegin := by
      unfold pageSize at hlarge
      omega
    have hnear := (boundary_spec start).2.1
    rw [if_pos hle, raminfoAddregion_apart k hlarge (by omega) (by omega)]
    refine ⟨_, rfl, ?_, timesGiven_useRegion (by omega) (by omega) (by omega)⟩
    rw [allPos_useRegion (by omega) (by omega) (by omega), Nat.add_sub_of_le hle,
      or_iff_right (by omega)]

/-- A region with a part of the kernel: the whole pages below it are given, then those
of the rest above it, if there is a rest. -/
theorem raminfoAddregion_overlap (hsize : pageSize ≤ size) (h : start + size < addrSpace)
    (hlow : start < k.kernelEnd) (hhigh : k.kernelBegin < start + size) :
    ∃ lower, (AllPos lower ↔ k.kernelBegin < start + pageSize ∨ HasPage start k.kernelBegin) ∧
      (∀ p, timesGiven lower p =
        if WholePage start (k.kernelBegin - start) p then 1 else 0) ∧
      raminfoAddregion k 2 start size = some (lower ++
        if start + size ≤ k.kernelEnd then []
        else useRegion k.kernelEnd (start + size - k.kernelEnd)) := by
  obtain ⟨lower, hlower, hpos, htimes⟩ := raminfoAddregion_lower k start
  refine ⟨lower, hpos, htimes, ?_⟩
  rw [raminfoAddregion_below k hsize h, if_pos ⟨hlow, hhigh⟩]
  simp only [hlower]
  by_cases hrest : start + size ≤ k.kernelEnd
  · rw [if_pos (by omega), if_pos hrest, List.append_nil]
  rw [if_neg (by omega), if_neg hrest,
    show size - (k.kernelEnd - start) = start + size - k.kernelEnd by omega]
  rfl

/-- A region that ends at 4 GiB: its end wraps to zero, and the kernel is not found. -/
theorem raminfoAddregion_top (hsize : pageSize ≤ size) (h : start + size = addrSpace)
    (hstart : start ≠ 0) :
    raminfoAddregion k (depth + 1) start size = some (useRegion start size) := by
  have hpage : 0 < pageSize := by decide
  have hlast : (start + (size - 1)) % 2 ^ 64 = addrSpace - 1 := by
    rw [show start + (size - 1) = addrSpace - 1 by omega]
    decide
  have hstart' : start % addrSpace = start := Nat.mod_eq_of_lt (by omega)
  have hsize' : size % addrSpace = size := Nat.mod_eq_of_lt (by omega)
  rw [raminfoAddregion, if_neg (by omega)]
  simp only [hlast, hstart', hsize', h, Nat.mod_self]
  rw [if_neg (by omega), if_neg (by omega)]

/-- A region that reaches past 4 GiB is not used, and the one that is all of the address
space has its size truncated to zero. -/
theorem raminfoAddregion_beyond (hstart : start < 2 ^ 64) (hsize : size < 2 ^ 64)
    (hlarge : pageSize ≤ size)
    (h : addrSpace < start + size ∨ (start = 0 ∧ size = addrSpace)) :
    raminfoAddregion k (depth + 1) start size = some [] := by
  rcases h with hover | ⟨rfl, rfl⟩
  · have hlast : addrSpace - 1 < (start + (size - 1)) % 2 ^ 64 ∨
        (start + (size - 1)) % 2 ^ 64 < start := by
      have hspace : 0 < addrSpace := by decide
      rcases Nat.lt_or_ge (start + (size - 1)) (2 ^ 64) with hin | hout
      · rw [Nat.mod_eq_of_lt hin]
        omega
      · rw [Nat.mod_eq_sub_mod hout, Nat.mod_eq_of_lt (by omega)]
        omega
    rw [raminfoAddregion, if_neg (by omega)]
    simp only [if_pos hlast]
  · rw [raminfoAddregion, if_neg (by decide)]
    rw [if_neg (by decide), Nat.mod_self, if_neg (by simp)]
    rfl

theorem raminfoRight_iff_times {calls : List (Nat × Nat)}
    (h : raminfoAddregion k 2 start size = some calls) :
    RaminfoRight k start size ↔ AllPos calls ∧
      ∀ p, timesGiven calls p = if Usable k start size p then 1 else 0 := by
  simp [RaminfoRight, h]

/-! ### The usable pages of a region -/

section Overlap

variable (hlow : start < k.kernelEnd) (hhigh : k.kernelBegin < start + size)

include hlow hhigh

/-- Otherwise the usable pages are the whole pages below the kernel and those above. -/
theorem usable_iff_overlap (p : Nat) :
    Usable k start size p ↔ WholePage start (k.kernelBegin - start) p ∨
      WholePage k.kernelEnd (start + size - k.kernelEnd) p := by
  unfold Usable WholePage pageSize
  omega

theorem times_overlap (p : Nat) : (if Usable k start size p then 1 else 0) =
      (if WholePage start (k.kernelBegin - start) p then 1 else 0) +
        if WholePage k.kernelEnd (start + size - k.kernelEnd) p then 1 else 0 := by
  have husable := usable_iff_overlap k hlow hhigh p
  by_cases hbelow : WholePage start (k.kernelBegin - start) p
  · have habove : ¬WholePage k.kernelEnd (start + size - k.kernelEnd) p := by
      have := k.nonempty
      unfold WholePage pageSize at *
      omega
    rw [if_pos (husable.2 (.inl hbelow)), if_pos hbelow, if_neg habove]
  · rw [if_neg hbelow, Nat.zero_add]
    exact if_congr (husable.trans (or_iff_right hbelow)) rfl rfl

/-- **A region with a part of the kernel.** -/
theorem raminfoRight_overlap (hsize : pageSize ≤ size) (h : start + size < addrSpace) :
    RaminfoRight k start size ↔ OverlapOk k start size := by
  obtain ⟨lower, hlower, htimes, hcalls⟩ := raminfoAddregion_overlap k hsize h hlow hhigh
  have hend : k.kernelEnd ≠ 0 := by have := k.nonempty; omega
  rw [raminfoRight_iff_times k hcalls, allPos_append, hlower, and_assoc, OverlapOk]
  refine and_congr_right fun _ => ?_
  simp only [timesGiven_append, htimes, times_overlap k hlow hhigh, Nat.add_left_cancel_iff]
  rcases Nat.lt_or_ge k.kernelEnd (start + size) with hrest | hnone
  · rw [if_neg (by omega), or_iff_right (by omega)]
    have hstop : k.kernelEnd + (start + size - k.kernelEnd) = start + size := by omega
    constructor
    · rintro ⟨hpos, htimes⟩
      by_cases hreach : boundary k.kernelEnd ≤ start + size
      · exact hstop ▸ (allPos_useRegion (by omega) (by omega) (by omega)).1 hpos
      obtain ⟨p, hone, hnot⟩ := timesGiven_useRegion_short hrest (by omega) h
      rw [htimes, if_neg hnot] at hone
      exact absurd hone Nat.zero_ne_one
    · intro hhas
      have hreach : boundary k.kernelEnd ≤ start + size :=
        (Nat.le_add_right ..).trans (hhas.resolve_left hend)
      exact ⟨(allPos_useRegion (by omega) (by omega) (by omega)).2 (by rwa [hstop]),
        timesGiven_useRegion (by omega) (by omega) (by omega)⟩
  · rw [if_pos hnone, or_iff_left_of_imp (fun _ => hnone)]
    exact iff_of_true ⟨allPos_nil, timesGiven_small (by unfold pageSize; omega)⟩ hnone

end Overlap

/-- A region that ends at 4 GiB is used as it should be exactly if the kernel is below its
first page. -/
theorem raminfoRight_top (hsize : pageSize ≤ size) (h : start + size = addrSpace)
    (hstart : start ≠ 0) :
    RaminfoRight k start size ↔ k.kernelEnd ≤ boundary start := by
  obtain ⟨hge, hnear, haligned⟩ := boundary_spec start
  have hlt : boundary start < addrSpace := by
    omega
  have hpos : AllPos (useRegion start size) := by
    refine (allPos_useRegion hlt (by omega) (by omega)).2 (.inr ?_)
    unfold pageSize addrSpace at *
    omega
  rw [raminfoRight_iff_times k (raminfoAddregion_top k hsize h hstart), and_iff_right hpos]
  simp only [timesGiven_useRegion hlt (by omega) (by omega : size < addrSpace)]
  have hnonempty := k.nonempty
  have hbelow := k.below
  constructor
  · -- otherwise the page of the kernel's last byte is given
    intro htimes
    by_contra hin
    have hpage : WholePage start size (alignd (k.kernelEnd - 1)) := by
      unfold WholePage alignd pageSize addrSpace at *
      omega
    have hnot : ¬ Usable k start size (alignd (k.kernelEnd - 1)) := by
      unfold Usable alignd pageSize
      omega
    have hone := htimes (alignd (k.kernelEnd - 1))
    rw [if_pos hpage, if_neg hnot] at hone
    exact Nat.one_ne_zero hone
  · intro habove p
    refine if_congr (Iff.symm (and_iff_left_of_imp fun hpage => .inr ?_)) rfl rfl
    unfold WholePage pageSize at *
    omega

/-- What is given of a region that is not used. -/
theorem raminfoRight_nil (h : raminfoAddregion k 2 start size = some []) :
    RaminfoRight k start size ↔ ∀ p, ¬ Usable k start size p := by
  rw [raminfoRight_iff_times k h, and_iff_right allPos_nil]
  refine forall_congr' fun p => ?_
  by_cases husable : Usable k start size p <;> simp [husable]

/-- **Boot memory regions.** The frame allocator is given every usable page of a region
once and no other page, with calls for some pages only, exactly if the region meets the
condition. -/
theorem raminfoAddregion_right_iff (hstart : start < 2 ^ 64) (hsize : size < 2 ^ 64) :
    RaminfoRight k start size ↔ RaminfoOk k start size := by
  unfold RaminfoOk
  rcases Nat.lt_or_ge size pageSize with hsmall | hlarge
  · refine iff_of_true ⟨[], by rw [raminfoAddregion, if_pos hsmall], allPos_nil, fun p => ?_⟩
      (.inl hsmall)
    rw [timesGiven_nil, if_neg]
    unfold Usable WholePage
    omega
  rw [or_iff_right (by omega : ¬ size < pageSize)]
  rcases Nat.lt_trichotomy (start + size) addrSpace with hlt | heq | hgt
  · rw [or_iff_left (by omega), and_iff_right hlt]
    by_cases hapart : k.kernelEnd ≤ start ∨ start + size ≤ k.kernelBegin
    · have hnear := (boundary_spec start).2.1
      rw [if_pos hapart, raminfoRight_iff_times k (raminfoAddregion_apart k hlarge hlt hapart),
        allPos_useRegion (by omega) (by omega) (by omega)]
      refine and_iff_left fun p => ?_
      rw [timesGiven_useRegion (by omega) (by omega) (by omega)]
      -- without a part of the kernel, all of its whole pages are usable
      refine if_congr ?_ rfl rfl
      unfold Usable WholePage
      omega
    · rw [if_neg hapart]
      exact raminfoRight_overlap k (by omega) (by omega) hlarge hlt
  · by_cases hzero : start = 0
    · rw [raminfoRight_nil k
        (raminfoAddregion_beyond k hstart hsize hlarge (.inr ⟨hzero, by omega⟩))]
      simp [hzero, show size = addrSpace by omega]
    · rw [raminfoRight_top k hlarge heq hzero]
      simp [heq, hzero]
  · rw [raminfoRight_nil k (raminfoAddregion_beyond k hstart hsize hlarge (.inl hgt))]
    simp [hgt, hgt.not_gt, hgt.ne']

end

/-- A kernel of half a megabyte that ends in the middle of a page. -/
def imageExample : KernelImage := ⟨0x100000, 0x180800, by decide, by decide⟩

/-- The region ends in the page in which the kernel ends: almost 4 GiB are given. -/
theorem raminfoAddregion_wrong :
    raminfoAddregion imageExample 2 0x100000 0x80C00 = some [(0x181000, 0xFFFFF)] ∧
      ¬ RaminfoRight imageExample 0x100000 0x80C00 := by
  have hcalls : raminfoAddregion imageExample 2 0x100000 0x80C00 =
      some [(0x181000, 0xFFFFF)] := by decide
  refine ⟨hcalls, fun hright => ?_⟩
  have hone := ((raminfoRight_iff_times imageExample hcalls).1 hright).2 0x181000
  exact absurd hone (by decide)

/-- A megabyte around the kernel is used as it should be. -/
theorem raminfoAddregion_right_megabyte :
    RaminfoOk imageExample 0x100000 0x100000 ∧
      RaminfoRight imageExample 0x100000 0x100000 := by
  have hok : RaminfoOk imageExample 0x100000 0x100000 := by
    right
    left
    decide
  exact ⟨hok, (raminfoAddregion_right_iff imageExample (by decide) (by decide)).2 hok⟩

end KosKernel.PageFrame
