import KosKernel.Fat.Cache
import Mathlib.Tactic.IntervalCases

/-!
# KosKernel.Fat.CacheCalls

**What the calls on the FAT cache do**, in two parts: first sectors are loaded (`Cached`), then
entries are written and sectors marked as changed (`Wrote`).

What the table holds does not depend on which sectors are loaded (`view`). What an entry is read
as does so in one case: in a FAT12 an entry may lie in two sectors, and only the first one is
loaded for it (`seen`).
-/

namespace KosKernel.Fat

open List PackedFlags

/-! ### Volumes -/

/-- The volume is one that `kfatfs_init` opens, and its metadata has bits for every sector. -/
structure Volume.Wf (v : Volume) : Prop where
  secsize_ge : 512 ≤ v.fSecsize
  secsize_le : v.fSecsize ≤ 4096
  firstfatsec : v.fFirstfatsec < 65536
  fatcount : v.fFatcount < 256
  sec4fat : v.fSec4fat ≤ v.fSecsize
  fatsize : v.fFatsize = v.fSec4fat * v.fSecsize
  entry : ∀ c < v.fClseof, v.fType.Entry v.fFatsize c
  marker : v.fType = .fat12 → v.fClseofMarker = 0xfff

theorem entry_of_lt_entries {ty : FatType} {fatsize c : Nat} (h : c < entries fatsize ty) :
    ty.Entry fatsize c := by
  cases ty <;> simp only [entries] at h <;>
    simp only [FatType.Entry, FatType.offset, FatType.width] <;> omega

/-- **`kfatfs_init` opens well-formed volumes**, but for those that are larger than their
metadata. -/
theorem kfatfsInit_wf {dev : Ksdev} {h : KfatHeader} {fatv : Nat → Byte} {s : Kfatfs}
    (hinit : kfatfsInit dev h fatv = .ok s) (hsmall : s.vol.fSec4fat ≤ s.vol.fSecsize) :
    s.vol.Wf := by
  have hreserved := h.bpbReservedSectors.isLt
  have hfatc := h.bpbFatc.isLt
  unfold kfatfsInit at hinit
  dsimp only at hinit
  split_ifs at hinit with _ _ hsize
  cases hinit
  dsimp only at hsmall ⊢
  have hsecsize : 512 ≤ h.bpbBytesPerSector.toNat ∧ h.bpbBytesPerSector.toNat ≤ 4096 := by omega
  have hmul := Nat.mul_le_mul hsmall hsecsize.2
  refine ⟨hsecsize.1, hsecsize.2, hreserved, hfatc, hsmall, Nat.mod_eq_of_lt (by omega),
    fun c hc => entry_of_lt_entries (Nat.lt_of_lt_of_le hc (Nat.min_le_left _ _)), fun hty => ?_⟩
  dsimp only at hty ⊢
  rw [hty]
  rfl

/-! ### What the cache and the device hold -/

variable {s s1 s2 s' : Kfatfs} {k c p : Nat} {L L1 L2 M M1 M2 : List Nat}

/-- A sector of the table is loaded. -/
def loaded (s : Kfatfs) (k : Nat) : Bool := flag s.fFatmeta 2 k 1

/-- A sector of the table is marked as changed. -/
def changed (s : Kfatfs) (k : Nat) : Bool := flag s.fFatmeta 2 k 0

/-- A byte of a copy of the table on the device. -/
def copy (s : Kfatfs) (j p : Nat) : Byte :=
  s.fDev.data ((s.vol.fFirstfatsec + j * s.vol.fSec4fat) * s.vol.fSecsize + p)

/-- The sector of a byte. -/
def secOf (s : Kfatfs) (p : Nat) : Nat := p / s.vol.fSecsize

/-- The sector in which an entry starts. -/
def firstSec (s : Kfatfs) (c : Nat) : Nat := secOf s (s.vol.fType.offset c)

/-- A byte of the table: in the cache, or on the device if its sector is not loaded. -/
def view (s : Kfatfs) (p : Nat) : Byte := if loaded s (secOf s p) then s.fFatv p else copy s 0 p

/-- An entry as it is read when some sectors have been loaded. -/
def seen (s : Kfatfs) (L : List Nat) (c : Nat) : Nat :=
  s.vol.fType.value (fun p => if secOf s p ∈ L then view s p else s.fFatv p) c

/-- Some entries are written, one after the other. -/
def puts (ty : FatType) (mem : Nat → Byte) (W : List (Nat × Nat)) : Nat → Byte :=
  W.foldl (fun mem w => ty.put mem w.1 w.2) mem

/-- Sectors have been loaded. -/
structure Cached (s s' : Kfatfs) (L : List Nat) : Prop where
  vol : s'.vol = s.vol
  dev : s'.fDev = s.fDev
  fatchanged : s'.fatchanged = s.fatchanged
  loaded : ∀ k, loaded s' k = (loaded s k || decide (k ∈ L))
  changed : ∀ k, changed s' k = changed s k
  fatv : ∀ p, s'.fFatv p = if secOf s p ∈ L then view s p else s.fFatv p

/-- Entries have been written, and sectors marked as changed. -/
structure Wrote (s s' : Kfatfs) (W : List (Nat × Nat)) (M : List Nat) : Prop where
  vol : s'.vol = s.vol
  dev : s'.fDev = s.fDev
  flag : s.fatchanged = true → s'.fatchanged = true
  marked : ∀ k ∈ M, Fat.changed s k = true ∨ s'.fatchanged = true
  loaded : ∀ k, loaded s' k = loaded s k
  changed : ∀ k, changed s' k = (changed s k || decide (k ∈ M))
  fatv : s'.fFatv = puts s.vol.fType s.fFatv W

theorem copy_congr (hvol : s'.vol = s.vol) (hdev : s'.fDev = s.fDev) : copy s' = copy s := by
  unfold copy
  rw [hvol, hdev]

theorem secOf_congr (hvol : s'.vol = s.vol) : secOf s' = secOf s := by
  unfold secOf
  rw [hvol]

theorem firstSec_congr (hvol : s'.vol = s.vol) : firstSec s' = firstSec s := by
  unfold firstSec
  rw [secOf_congr hvol, hvol]

theorem Cached.refl : Cached s s [] :=
  ⟨rfl, rfl, rfl, fun k => by simp, fun _ => rfl, fun p => by simp⟩

/-- **Loading changes nothing** of what the table holds. -/
theorem Cached.view_eq (h : Cached s s' L) : view s' = view s := by
  funext p
  unfold view
  rw [secOf_congr h.vol, copy_congr h.vol h.dev, h.loaded, h.fatv, view]
  by_cases hload : Fat.loaded s (secOf s p) = true
  · simp [hload]
  · by_cases hL : secOf s p ∈ L <;> simp [hload, hL]

theorem Cached.trans (h1 : Cached s s1 L1) (h2 : Cached s1 s2 L2) : Cached s s2 (L1 ++ L2) := by
  refine ⟨h2.vol.trans h1.vol, h2.dev.trans h1.dev, h2.fatchanged.trans h1.fatchanged,
    fun k => ?_, fun k => (h2.changed k).trans (h1.changed k),
    fun p => ?_⟩
  · rw [h2.loaded, h1.loaded, Bool.or_assoc]
    simp [mem_append]
  · rw [h2.fatv, h1.fatv, h1.view_eq, secOf_congr h1.vol]
    by_cases h1 : secOf s p ∈ L1 <;> by_cases h2 : secOf s p ∈ L2 <;> simp [h1, h2]

theorem Wrote.trans {W1 W2 : List (Nat × Nat)} (h1 : Wrote s s1 W1 M1) (h2 : Wrote s1 s2 W2 M2) :
    Wrote s s2 (W1 ++ W2) (M1 ++ M2) := by
  refine ⟨h2.vol.trans h1.vol, h2.dev.trans h1.dev, fun h => h2.flag (h1.flag h), fun k hk => ?_,
    fun k => (h2.loaded k).trans (h1.loaded k),
    fun k => ?_, ?_⟩
  · rcases mem_append.mp hk with hk | hk
    · exact (h1.marked k hk).imp_right h2.flag
    rcases h2.marked k hk with hmark | hflag
    · rw [h1.changed, Bool.or_eq_true, decide_eq_true_eq] at hmark
      rcases hmark with hmark | hmark
      · exact .inl hmark
      · exact (h1.marked k hmark).imp_right h2.flag
    · exact .inr hflag
  · rw [h2.changed, h1.changed, Bool.or_assoc]
    simp [mem_append]
  · rw [h2.fatv, h1.fatv, h1.vol, puts, puts, puts, foldl_append]

/-! ### Metadata -/

variable {val : Byte}

theorem metaByte_ok (h : metaByte s k = .ok val) : s.fFatmeta[k]? = some val := by
  unfold metaByte at h
  split at h
  · cases h
  rename_i hget
  cases h
  exact hget

section

variable (h : s.fFatmeta[fatmetaAddr k]? = some val)

include h

theorem loaded_test : val &&& fatmetaMask k fatmetaLoaded ≠ 0#8 ↔ loaded s k = true :=
  flag_test (by decide) (by decide) h

theorem changed_test : val &&& fatmetaMask k fatmetaChanged ≠ 0#8 ↔ changed s k = true :=
  flag_test (by decide) (by decide) h

end

theorem fatmetaMask_shift (k : Nat) :
    fatmetaMask k fatmetaLoaded >>> 1 = fatmetaMask k fatmetaChanged := by
  have hlt : k % 4 < 4 := Nat.mod_lt k (by decide)
  unfold fatmetaMask mask
  generalize k % 4 = r at hlt ⊢
  interval_cases r <;> rfl

/-! ### Loading -/

section

variable (hwf : s.vol.Wf)

include hwf

theorem secOf_eq_iff :
    secOf s p = k ↔ k * s.vol.fSecsize ≤ p ∧ p < k * s.vol.fSecsize + s.vol.fSecsize := by
  have hpos : 0 < s.vol.fSecsize := Nat.lt_of_lt_of_le (by decide) hwf.secsize_ge
  rw [secOf, Nat.div_eq_iff hpos]
  omega

theorem loadFat_eq (h : loadFat s k = .ok s') :
    s' = { s with fFatv := fun p => if secOf s p = k then copy s 0 p else s.fFatv p } := by
  unfold loadFat at h
  dsimp only at h
  split at h
  · cases h
  rename_i buf hload
  split_ifs at h with hsize
  cases h
  have hk : k < s.vol.fSec4fat := by
    by_contra hge
    rw [hwf.fatsize] at hsize
    have := Nat.mul_le_mul_right s.vol.fSecsize (Nat.le_of_not_lt hge)
    have := hwf.secsize_ge
    omega
  have hsec : wrap32 (s.vol.fFirstfatsec + k) = s.vol.fFirstfatsec + k := by
    have := hwf.firstfatsec
    have := hwf.sec4fat
    have := hwf.secsize_le
    exact Nat.mod_eq_of_lt (by omega)
  congr 1
  funext p
  by_cases hp : secOf s p = k
  · have hin := (secOf_eq_iff hwf).mp hp
    rw [if_pos hp, if_pos hin, kfatfsLoadsectors_eq hload (s.fDev.sector_le hwf.secsize_le)
      (by omega), hsec, copy, Nat.zero_mul, Nat.add_zero,
      Nat.add_mul]
    congr 1
    omega
  · rw [if_neg hp, if_neg fun hin => hp ((secOf_eq_iff hwf).mpr hin)]

/-- A sector is loaded if it is not yet, and marked as loaded. -/
theorem loadFat_cached (hget : s.fFatmeta[fatmetaAddr k]? = some val)
    (h : (if val &&& fatmetaMask k fatmetaLoaded ≠ 0#8 then .ok s else loadFat s k) = .ok s1) :
    s1.fFatmeta = s.fFatmeta ∧
      Cached s (setMeta s1 (fatmetaAddr k) (val ||| fatmetaMask k fatmetaLoaded)) [k] := by
  obtain rfl : s1 =
      { s with fFatv := fun p => if secOf s p = k then view s p else s.fFatv p } := by
    simp only [loaded_test hget] at h
    unfold view
    split_ifs at h with hload
    · cases h
      refine congrArg (fun fatv => { s with fFatv := fatv }) (funext fun p => ?_)
      by_cases hp : secOf s p = k <;> simp [hp, hload]
    · rw [loadFat_eq hwf h]
      congr 1
      funext p
      by_cases hp : secOf s p = k <;> simp [hp, hload]
  have hset := fun c (hc : c < 2) i =>
    flag_set_or (b := 1) (j := i) (by decide) hc (by decide) hget
  refine ⟨rfl, rfl, rfl, rfl, fun i => (hset 1 (by decide) i).trans ?_,
    fun i => (hset 0 (by decide) i).trans ?_, fun p => ?_⟩
  · simp [loaded]
  · simp [changed]
  · simp only [mem_singleton, setMeta]

theorem cacheSector_cached (h : cacheSector s k = .ok s') : Cached s s' [k] := by
  unfold cacheSector at h
  split at h
  · cases h
  rename_i val hmeta
  have hget := metaByte_ok hmeta
  split_ifs at h with htest
  · -- the sector is loaded
    cases h
    have hload := (loaded_test hget).mp htest
    refine ⟨rfl, rfl, rfl, fun i => ?_, fun _ => rfl, fun p => ?_⟩
    · by_cases hi : i = k <;> simp [hi, hload]
    · by_cases hp : secOf s p = k <;> simp [hp, view, hload]
  · split at h
    · cases h
    rename_i s1 hload
    cases h
    exact (loadFat_cached hwf hget (by rw [if_neg htest, hload])).2

/-! ### Reading -/

omit hwf in
theorem Volume.Wf.fatsize_le {v : Volume} (h : v.Wf) : v.fFatsize ≤ 4294967296 := by
  have hmul := Nat.mul_le_mul (Nat.le_trans h.sec4fat h.secsize_le) h.secsize_le
  rw [h.fatsize]
  omega

theorem fatGetclusteroffset_eq (hc : c < s.vol.fClseof) : fatGetclusteroffset s c = firstSec s c :=
  getfatsec_eq (hwf.entry c hc) hwf.fatsize_le _

theorem fatRead_eq (hc : c < s.vol.fClseof) : fatRead s c = s.vol.fType.value s.fFatv c :=
  readfat_eq (hwf.entry c hc) hwf.fatsize_le

omit hwf in
theorem Cached.fatRead_eq {s0 : Kfatfs} (hwf : s0.vol.Wf) (hs : Cached s0 s L)
    (hc : c < s0.vol.fClseof) (h : cacheSector s (fatGetclusteroffset s c) = .ok s') :
    Cached s0 s' (L ++ [firstSec s0 c]) ∧ fatRead s' c = seen s0 (L ++ [firstSec s0 c]) c := by
  have hwf' : s.vol.Wf := hs.vol ▸ hwf
  rw [fatGetclusteroffset_eq hwf' (by rwa [hs.vol]), firstSec_congr hs.vol] at h
  have hcached := hs.trans (cacheSector_cached hwf' h)
  refine ⟨hcached, ?_⟩
  rw [Fat.fatRead_eq (hcached.vol ▸ hwf) (by rwa [hcached.vol]), hcached.vol, seen,
    funext hcached.fatv]

omit hwf in
theorem kfatfsFatRead_spec {s0 : Kfatfs} (hwf : s0.vol.Wf) {index target : Nat}
    (hs : Cached s0 s L) (h : kfatfsFatRead s index = .ok (target, s')) :
    index < s0.vol.fClseof ∧ Cached s0 s' (L ++ [firstSec s0 index]) ∧
      target = seen s0 (L ++ [firstSec s0 index]) index := by
  unfold kfatfsFatRead at h
  split_ifs at h with hlt
  split at h
  · cases h
  rename_i s1 hcache
  cases h
  rw [hs.vol] at hlt
  exact ⟨hlt, hs.fatRead_eq hwf hlt hcache⟩

/-! ### Searching a free cluster -/

/-- The sectors that the search for a free cluster has loaded when it looks at a cluster. -/
def searched (s : Kfatfs) (c : Nat) : List Nat := (List.range' 2 (c - 1)).map (firstSec s)

/-- The first cluster that is seen to be free, when some sectors have been loaded before. -/
structure FirstFree (s : Kfatfs) (L : List Nat) (c : Nat) : Prop where
  ge : 2 ≤ c
  lt : c < s.vol.fClseof
  free : seen s (L ++ searched s c) c = 0
  used : ∀ d, 2 ≤ d → d < c → seen s (L ++ searched s d) d ≠ 0

omit hwf in
theorem searched_succ (s : Kfatfs) (hc : 2 ≤ c) :
    searched s c = searched s (c - 1) ++ [firstSec s c] := by
  obtain ⟨n, rfl⟩ := Nat.exists_eq_add_of_le hc
  rw [searched, searched, show 2 + n - 1 = n + 1 by omega, show n + 1 - 1 = n from rfl,
    List.range'_concat, map_append, Nat.one_mul]
  rfl

omit hwf in
/-- The search goes on at a cluster. -/
theorem getfreeLoop_spec {s0 : Kfatfs} (hwf : s0.vol.Wf) {n cls : Nat} (hge : 2 ≤ cls)
    (hend : cls + n ≤ s0.vol.fClseof) (hs : Cached s0 s (L ++ searched s0 (cls - 1)))
    (hused : ∀ d, 2 ≤ d → d < cls → seen s0 (L ++ searched s0 d) d ≠ 0)
    (h : getfreeLoop n cls s = .ok (c, s')) :
    Cached s0 s' (L ++ searched s0 c) ∧ FirstFree s0 L c := by
  induction n generalizing cls s with
  | zero => cases h
  | succ n ih =>
    rw [getfreeLoop] at h
    split at h
    · cases h
    rename_i s1 hcache
    have hlt : cls < s0.vol.fClseof := by omega
    obtain ⟨hcached, hread⟩ := hs.fatRead_eq hwf hlt hcache
    rw [append_assoc, ← searched_succ s0 hge] at hcached hread
    rw [hread] at h
    split_ifs at h with hfree
    · cases h
      exact ⟨hcached, hge, hlt, hfree, hused⟩
    refine ih (by omega) (by omega) hcached (fun d hd hlt => ?_) h
    rcases Nat.lt_or_eq_of_le (Nat.le_of_lt_succ hlt) with hlt | rfl
    · exact hused d hd hlt
    · exact hfree

omit hwf in
theorem kfatfsFatGetfreeclusterUnlocked_spec {s0 : Kfatfs} (hwf : s0.vol.Wf) (hs : Cached s0 s L)
    (h : kfatfsFatGetfreeclusterUnlocked s = .ok (c, s')) :
    Cached s0 s' (L ++ searched s0 c) ∧ FirstFree s0 L c := by
  unfold kfatfsFatGetfreeclusterUnlocked at h
  rw [hs.vol] at h
  by_cases hsmall : s0.vol.fClseof ≤ 2
  · rw [Nat.sub_eq_zero_of_le hsmall] at h
    cases h
  refine getfreeLoop_spec hwf (Nat.le_refl 2) (by omega) ?_ (fun d hd hlt => by omega) h
  rw [show searched s0 (2 - 1) = [] from rfl, append_nil]
  exact hs

/-! ### Writing -/

variable {v : Nat}

theorem fatWrite_fatv (hc : c < s.vol.fClseof) :
    (fatWrite s c v).fFatv = s.vol.fType.put s.fFatv c v :=
  writefat_eq (hwf.entry c hc) hwf.fatsize_le

omit hwf in
theorem wrote_of_mark {W : List (Nat × Nat)} (hget : s.fFatmeta[fatmetaAddr k]? = some val)
    (hvol : s'.vol = s.vol) (hdev : s'.fDev = s.fDev)
    (hfatv : s'.fFatv = puts s.vol.fType s.fFatv W)
    (hmeta : s'.fFatmeta =
      s.fFatmeta.set (fatmetaAddr k) (val ||| fatmetaMask k fatmetaChanged))
    (hflag : s'.fatchanged = true ∨ changed s k = true ∧ s'.fatchanged = s.fatchanged) :
    Wrote s s' W [k] := by
  have hset := fun c (hc : c < 2) i =>
    flag_set_or (b := 0) (j := i) (by decide) hc (by decide) hget
  refine ⟨hvol, hdev, fun hf => ?_, fun i hi => ?_, fun i => ?_, fun i => ?_, hfatv⟩
  · exact hflag.elim id fun hh => hh.2.trans hf
  · rw [mem_singleton] at hi
    rw [hi]
    exact hflag.symm.imp_left And.left
  · rw [loaded, hmeta]
    exact (hset 1 (by decide) i).trans (by simp [loaded])
  · rw [changed, hmeta]
    exact (hset 0 (by decide) i).trans (by simp [changed])

/-- **An entry is written** and the sector with the number of its cluster marked. -/
theorem fatChanged_wrote (hc : c < s.vol.fClseof) (h : fatChanged (fatWrite s c v) c = .ok s') :
    Wrote s s' [(c, v)] [c] := by
  unfold fatChanged at h
  split_ifs at h with hvalid
  split at h
  · cases h
  rename_i val hmeta
  cases h
  exact wrote_of_mark (metaByte_ok hmeta) rfl rfl (fatWrite_fatv hwf hc) rfl (.inl rfl)

theorem kfatfsFatWrite_spec (h : kfatfsFatWrite s c v = .ok s') :
    c < s.vol.fClseof ∧ ∃ s1, Cached s s1 [firstSec s c] ∧
      Wrote s1 s' [(c, v)] [firstSec s c] := by
  unfold kfatfsFatWrite at h
  split_ifs at h with hlt
  dsimp only at h
  rw [fatGetclusteroffset_eq hwf hlt, fatmetaMask_shift] at h
  generalize firstSec s c = k at h ⊢
  split at h
  · cases h
  rename_i val hmeta
  have hget := metaByte_ok hmeta
  split at h
  · cases h
  rename_i s1 hload
  cases h
  obtain ⟨hmeta1, hcached⟩ := loadFat_cached hwf hget hload
  refine ⟨hlt, _, hcached, ?_⟩
  -- the byte is written once, with both marks
  generalize hval1 : val ||| fatmetaMask k fatmetaLoaded = val1 at hcached ⊢
  have hget1 : (setMeta s1 (fatmetaAddr k) val1).fFatmeta[fatmetaAddr k]? = some val1 := by
    have hlen := (List.getElem?_eq_some_iff.mp hget).1
    rw [← hmeta1] at hlen
    exact getElem?_set_self hlen
  have hwf1 : s1.vol.Wf := show (setMeta s1 (fatmetaAddr k) val1).vol.Wf by rwa [hcached.vol]
  have hlt1 : c < s1.vol.fClseof := by
    rw [show s1.vol = s.vol from hcached.vol]
    exact hlt
  have hmeta2 : s1.fFatmeta.set (fatmetaAddr k) (val1 ||| fatmetaMask k fatmetaChanged) =
      (setMeta s1 (fatmetaAddr k) val1).fFatmeta.set (fatmetaAddr k)
        (val1 ||| fatmetaMask k fatmetaChanged) := by simp only [setMeta, set_set]
  by_cases htest : val1 &&& fatmetaMask k fatmetaChanged ≠ 0#8
  · rw [if_pos htest]
    exact wrote_of_mark hget1 rfl rfl (fatWrite_fatv hwf1 hlt1) hmeta2
      (.inr ⟨(changed_test hget1).mp htest, rfl⟩)
  · rw [if_neg htest]
    exact wrote_of_mark hget1 rfl rfl (fatWrite_fatv hwf1 hlt1) hmeta2 (.inl rfl)

/-! ### Allocating -/

variable {index target first : Nat} {l : List Nat}

theorem kfatfsFatAllocfirst_spec (h : kfatfsFatAllocfirst s = .ok (c, s')) :
    FirstFree s [] c ∧ ∃ s1, Cached s s1 (searched s c) ∧
      Wrote s1 s' [(c, s.vol.fClseofMarker)] [c] := by
  unfold kfatfsFatAllocfirst at h
  split at h
  · cases h
  rename_i target s1 hsearch
  obtain ⟨hcached, hfree⟩ := kfatfsFatGetfreeclusterUnlocked_spec hwf .refl hsearch
  split at h
  · cases h
  rename_i s2 hwrite
  cases h
  refine ⟨hfree, s1, hcached, ?_⟩
  rw [← hcached.vol]
  exact fatChanged_wrote (hcached.vol ▸ hwf) (hcached.vol ▸ hfree.lt) hwrite

/-- **The link to a new cluster** is written, and the end of the chain; the sectors of both
entries are marked. -/
theorem linkCluster_wrote (hindex : index < s.vol.fClseof) (htarget : target < s.vol.fClseof)
    (hload : loaded s (firstSec s index) = true) (h : linkCluster s index target = .ok s') :
    Wrote s s' [(index, target), (target, s.vol.fClseofMarker)]
      [firstSec s index, firstSec s target] := by
  unfold linkCluster at h
  dsimp only at h
  rw [fatGetclusteroffset_eq hwf hindex, fatmetaMask_shift] at h
  have hfatv : (fatWrite (fatWrite s index target) target s.vol.fClseofMarker).fFatv =
      puts s.vol.fType s.fFatv [(index, target), (target, s.vol.fClseofMarker)] :=
    (fatWrite_fatv (s := fatWrite s index target) hwf htarget).trans
      (congrArg (s.vol.fType.put · target s.vol.fClseofMarker) (fatWrite_fatv hwf hindex))
  split at h
  · cases h
  rename_i val hmeta
  have hget : s.fFatmeta[fatmetaAddr (firstSec s index)]? = some val := metaByte_ok hmeta
  -- the sector of the index is loaded already
  have hor : val ||| (fatmetaMask (firstSec s index) fatmetaLoaded |||
      fatmetaMask (firstSec s index) fatmetaChanged) =
      val ||| fatmetaMask (firstSec s index) fatmetaChanged := by
    rw [← BitVec.or_assoc]
    congr 1
    refine or_mask_of_bit (b := 1) (by decide) (by decide) ?_
    have htest := (loaded_test hget).mpr hload
    exact (and_mask_ne_zero (by decide) (by decide)).mp htest
  rw [hor] at h
  generalize hs1 : setMeta (fatWrite (fatWrite s index target) target s.vol.fClseofMarker)
    (fatmetaAddr (firstSec s index)) (val ||| fatmetaMask (firstSec s index) fatmetaChanged) = s1
    at h
  have hvol1 : s1.vol = s.vol := by
    rw [← hs1]
    rfl
  rw [fatGetclusteroffset_eq (hvol1 ▸ hwf) (hvol1 ▸ htarget), firstSec_congr hvol1] at h
  have hfirst : Wrote s { s1 with fatchanged := true }
      [(index, target), (target, s.vol.fClseofMarker)] [firstSec s index] := by
    subst hs1
    exact wrote_of_mark hget rfl rfl hfatv rfl (.inl rfl)
  split at h
  · cases h
  rename_i val' hmeta'
  cases h
  have hget' : ({ s1 with fatchanged := true } : Kfatfs).fFatmeta[fatmetaAddr
      (firstSec s target)]? = some val' := metaByte_ok hmeta'
  exact hfirst.trans (wrote_of_mark (W := []) hget' rfl rfl rfl rfl (.inl rfl))

theorem kfatfsFatReadandalloc_spec (h : kfatfsFatReadandalloc s index = .ok (target, s')) :
    index < s.vol.fClseof ∧
      (seen s [firstSec s index] index < s.vol.fClseof ∧ Cached s s' [firstSec s index] ∨
        s.vol.fClseof ≤ seen s [firstSec s index] index ∧ FirstFree s [firstSec s index] target ∧
        ∃ s1, Cached s s1 ([firstSec s index] ++ searched s target) ∧
          Wrote s1 s' [(index, target), (target, s.vol.fClseofMarker)]
            [firstSec s index, firstSec s target]) := by
  unfold kfatfsFatReadandalloc at h
  split at h
  · cases h
  rename_i next s1 hread
  obtain ⟨hindex, hcached, hnext⟩ := kfatfsFatRead_spec hwf .refl hread
  refine ⟨hindex, ?_⟩
  simp only [kfatfsIseofcluster, hcached.vol, hnext, decide_eq_true_eq, ite_not] at h
  split_ifs at h with heof
  swap
  · cases h
    exact .inl ⟨Nat.lt_of_not_le heof, hcached⟩
  · split at h
    · cases h
    rename_i free s2 hsearch
    obtain ⟨hcached2, hfree⟩ := kfatfsFatGetfreeclusterUnlocked_spec hwf hcached hsearch
    split at h
    · cases h
    rename_i s3 hlink
    cases h
    refine .inr ⟨heof, hfree, s2, hcached2, ?_⟩
    have hload : loaded s2 (firstSec s2 index) = true := by
      rw [hcached2.loaded, firstSec_congr hcached2.vol]
      simp
    have hwrote := linkCluster_wrote (hcached2.vol ▸ hwf) (hcached2.vol ▸ hindex)
      (hcached2.vol ▸ hfree.lt) hload hlink
    rwa [hcached2.vol, firstSec_congr hcached2.vol] at hwrote

end

/-! ### Freeing -/

/-- The clusters of a chain, as they are read when some sectors have been loaded. -/
inductive Chain (s : Kfatfs) : List Nat → Nat → List Nat → Prop
  | last {L : List Nat} {c : Nat} (h : s.vol.fClseof ≤ seen s (L ++ [firstSec s c]) c) :
      Chain s L c [c]
  | cons {L : List Nat} {c : Nat} {l : List Nat}
      (hlt : seen s (L ++ [firstSec s c]) c < s.vol.fClseof)
      (h : Chain s (L ++ [firstSec s c]) (seen s (L ++ [firstSec s c]) c) l) :
      Chain s L c (c :: l)

/-- **The whole chain is loaded** before its entries are written, from the last one on. -/
theorem kfatfsFatFreeallUnlocked_spec {s0 : Kfatfs} (hwf : s0.vol.Wf) {depth : Nat}
    (hs : Cached s0 s L) (h : kfatfsFatFreeallUnlocked depth s first = .ok s') :
    ∃ l s1, Chain s0 L first l ∧ (∀ c ∈ l, c < s0.vol.fClseof) ∧
      Cached s0 s1 (L ++ l.map (firstSec s0)) ∧
      Wrote s1 s' (l.reverse.map fun c => (c, 0)) l.reverse := by
  induction depth generalizing s L first s' with
  | zero => cases h
  | succ depth ih =>
    rw [kfatfsFatFreeallUnlocked] at h
    split at h
    · cases h
    rename_i next s1 hread
    unfold kfatfsFatReadUnlocked at hread
    split_ifs at hread with hvalid
    obtain ⟨hlt, hcached, hnext⟩ := kfatfsFatRead_spec hwf hs hread
    split at h
    · cases h
    rename_i s2 hrest
    -- what the write of this cluster adds to that of the rest of the chain
    have hwrite : ∀ {l : List Nat} {s3 : Kfatfs}, s3.vol = s0.vol →
        Wrote s3 s2 (l.reverse.map fun c => (c, 0)) l.reverse →
        Wrote s3 s' ((first :: l).reverse.map fun c => (c, 0)) (first :: l).reverse := by
      intro l s3 hvol3 hwrote
      have hvol : s2.vol = s0.vol := hwrote.vol.trans hvol3
      rw [reverse_cons, map_append]
      exact hwrote.trans (fatChanged_wrote (hvol ▸ hwf) (hvol ▸ hlt) h)
    split_ifs at hrest with heof
    · cases hrest
      rw [kfatfsIseofcluster, hcached.vol, hnext, decide_eq_true_eq] at heof
      refine ⟨[first], s1, .last heof, by simpa using hlt, hcached, ?_⟩
      exact hwrite hcached.vol ⟨rfl, rfl, id, by simp, fun _ => rfl, by simp, rfl⟩
    rw [kfatfsIseofcluster, hcached.vol, hnext, decide_eq_true_eq, Nat.not_le] at heof
    rw [hnext] at hrest
    obtain ⟨l, s3, hchain, hall, hcached3, hwrote⟩ := ih hcached hrest
    have hcached' : Cached s0 s3 (L ++ (first :: l).map (firstSec s0)) := by
      rwa [append_assoc] at hcached3
    exact ⟨first :: l, s3, .cons heof hchain, forall_mem_cons.mpr ⟨hlt, hall⟩, hcached',
      hwrite hcached'.vol hwrote⟩

end KosKernel.Fat
