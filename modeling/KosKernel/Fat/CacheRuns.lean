import KosKernel.Fat.CacheCalls

/-!
# KosKernel.Fat.CacheRuns

**What a flush leaves on the device**: in every copy of the table each entry has the value that
was last written into it, along every run of calls in order.

What keeps a call from being in order: `FAT_CHANGED` of `kfatfs_fat_allocfirst` and
`kfatfs_fat_freeall` marks the sector that has the number of the cluster, so that the sector of
the entry is not saved, and one that was never loaded may be; a write into an entry of a FAT12
with an even number does not clear what the entry held; and of an entry of a FAT12 that lies in
two sectors only the first one is marked.
-/

namespace KosKernel.Fat

open Function List

variable {s s₀ s1 s' : Kfatfs} {k c p v : Nat} {L M : List Nat} {W : List (Nat × Nat)}
  {m : Nat → Nat}

/-! ### The table that was written -/

/-- The table after some writes: an entry has the value that was last written into it. -/
def lastWritten (ty : FatType) (orig : Nat → Nat) (W : List (Nat × Nat)) : Nat → Nat :=
  W.foldl (fun m w => update m w.1 (w.2 % ty.limit)) orig

/-- A write leaves its value in the entry. -/
def Fits (ty : FatType) (mem : Nat → Byte) (c v : Nat) : Prop :=
  ty.written c (ty.value mem c) v = v % ty.limit

/-- Each of some writes, one after the other, leaves its value in the entry. -/
def FitsAll (ty : FatType) (mem : Nat → Byte) : List (Nat × Nat) → Prop
  | [] => True
  | w :: W => Fits ty mem w.1 w.2 ∧ FitsAll ty (ty.put mem w.1 w.2) W

variable {ty : FatType} {mem : Nat → Byte}

theorem value_puts {orig : Nat → Nat} {d : Nat} (h : FitsAll ty mem W)
    (htable : ty.value mem d = orig d) : ty.value (puts ty mem W) d = lastWritten ty orig W d := by
  induction W generalizing mem orig with
  | nil => exact htable
  | cons w W ih =>
    refine ih h.2 ?_
    dsimp only
    by_cases hd : d = w.1
    · rw [hd, value_put_self, update_self]
      exact h.1
    · rw [value_put_of_ne hd, update_of_ne hd, htable]

theorem puts_of_not_covers (h : ∀ w ∈ W, ¬ty.Covers w.1 p) : puts ty mem W p = mem p := by
  induction W generalizing mem with
  | nil => rfl
  | cons w W ih =>
    have hw := forall_mem_cons.mp h
    exact (ih hw.2).trans (put_of_not_covers hw.1)

/-- Writes into bytes that two memories share. -/
theorem puts_agree {mem' : Nat → Byte} (A : Nat → Prop)
    (hcover : ∀ w ∈ W, ∀ p, ty.Covers w.1 p → A p) (h : ∀ p, A p → mem p = mem' p) (hp : A p) :
    puts ty mem W p = puts ty mem' W p := by
  induction W generalizing mem mem' with
  | nil => exact h p hp
  | cons w W ih =>
    have hw := forall_mem_cons.mp hcover
    refine ih hw.2 fun q hq => ?_
    dsimp only
    by_cases hq' : ty.Covers w.1 q
    · exact put_congr (fun r hr => h r (hw.1 r hr)) hq'
    · rw [put_of_not_covers hq', put_of_not_covers hq', h q hq]

/-! ### The invariant -/

/-- The table on the device when the volume is opened. -/
def original (s : Kfatfs) : Nat → Nat := s.vol.fType.value (copy s 0)

/-- The cache is coherent, and the table is `m`. -/
structure Inv (s₀ : Kfatfs) (m : Nat → Nat) (s : Kfatfs) : Prop where
  wf : s.vol.Wf
  vol : s.vol = s₀.vol
  loaded_of_changed : ∀ k < s.vol.fSec4fat, changed s k = true → loaded s k = true
  flagged : ∀ k < s.vol.fSec4fat, changed s k = true → s.fatchanged = true
  stored : ∀ j < s.vol.fFatcount, ∀ p < s.vol.fFatsize, changed s (secOf s p) = false →
    copy s j p = view s p
  table : ∀ c, s.vol.fType.Entry s.vol.fFatsize c →
    s.vol.fType.value (view s) c = m c

theorem secOf_lt (hwf : s.vol.Wf) (hp : p < s.vol.fFatsize) : secOf s p < s.vol.fSec4fat := by
  rw [hwf.fatsize] at hp
  exact Nat.div_lt_of_lt_mul (by rwa [Nat.mul_comm] at hp)

theorem Inv.cached (h : Inv s₀ m s) (hc : Cached s s' L) : Inv s₀ m s' := by
  obtain ⟨hwf, hvol, hload, hflag, hstored, htable⟩ := h
  refine ⟨hc.vol ▸ hwf, hc.vol.trans hvol, fun k hk hch => ?_, fun k hk hch => ?_,
    fun j hj p hp hch => ?_, fun c hentry => ?_⟩
  · rw [hc.vol] at hk
    rw [hc.changed] at hch
    rw [hc.loaded, hload k hk hch, Bool.true_or]
  · rw [hc.vol] at hk
    rw [hc.changed] at hch
    rw [hc.fatchanged, hflag k hk hch]
  · rw [hc.vol] at hj hp
    rw [hc.changed, secOf_congr hc.vol] at hch
    rw [copy_congr hc.vol hc.dev, hc.view_eq, hstored j hj p hp hch]
  · rw [hc.vol] at hentry
    rw [hc.view_eq, hc.vol, htable c hentry]

theorem covers_lt {fatsize : Nat} (hentry : ty.Entry fatsize c) (hp : ty.Covers c p) :
    p < fatsize := Nat.lt_of_lt_of_le hp.2 hentry

/-- **Writing keeps the cache coherent** when the sectors of the entries are marked as changed,
the sectors that are marked are loaded, and the values fit. -/
theorem Inv.wrote (h : Inv s₀ m s) (hw : Wrote s s' W M)
    (hentry : ∀ w ∈ W, s.vol.fType.Entry s.vol.fFatsize w.1)
    (hmark : ∀ w ∈ W, ∀ p, s.vol.fType.Covers w.1 p →
      changed s (secOf s p) = true ∨ secOf s p ∈ M)
    (hload : ∀ k ∈ M, k < s.vol.fSec4fat → loaded s k = true)
    (hfits : FitsAll s.vol.fType (view s) W) :
    Inv s₀ (lastWritten s.vol.fType m W) s' := by
  have hcover : ∀ w ∈ W, ∀ p, s.vol.fType.Covers w.1 p → loaded s (secOf s p) = true := by
    intro w hwW p hp
    have hlt := secOf_lt h.wf (covers_lt (hentry w hwW) hp)
    rcases hmark w hwW p hp with hch | hM
    · exact h.loaded_of_changed _ hlt hch
    · exact hload _ hM hlt
  have hview : view s' = puts s.vol.fType (view s) W := by
    funext p
    rw [view, secOf_congr hw.vol, hw.loaded, copy_congr hw.vol hw.dev, hw.fatv]
    by_cases hp : loaded s (secOf s p) = true
    · rw [if_pos hp]
      refine puts_agree (fun p => loaded s (secOf s p) = true) hcover (fun q hq => ?_) hp
      rw [view, if_pos hq]
    · rw [if_neg hp, puts_of_not_covers fun w hwW hc => hp (hcover w hwW p hc), view, if_neg hp]
  refine ⟨hw.vol ▸ h.wf, hw.vol.trans h.vol, fun k hk hch => ?_, fun k hk hch => ?_,
    fun j hj p hp hch => ?_, fun c hc => ?_⟩
  · rw [hw.vol] at hk
    rw [hw.changed, Bool.or_eq_true, decide_eq_true_eq] at hch
    rw [hw.loaded]
    exact hch.elim (h.loaded_of_changed k hk) fun hM => hload k hM hk
  · rw [hw.vol] at hk
    rw [hw.changed, Bool.or_eq_true, decide_eq_true_eq] at hch
    rcases hch with hch | hM
    · exact hw.flag (h.flagged k hk hch)
    · exact (hw.marked k hM).elim (fun hch => hw.flag (h.flagged k hk hch)) id
  · rw [hw.vol] at hj hp
    rw [hw.changed, secOf_congr hw.vol, Bool.or_eq_false_iff, decide_eq_false_iff_not] at hch
    rw [copy_congr hw.vol hw.dev, hview, puts_of_not_covers, h.stored j hj p hp hch.1]
    intro w hwW hc
    rcases hmark w hwW p hc with hch' | hM
    · rw [hch.1] at hch'
      exact Bool.false_ne_true hch'
    · exact hch.2 hM
  · rw [hw.vol] at hc
    rw [hview, hw.vol, value_puts hfits (h.table c hc)]

/-! ### Flushing -/

variable {i j : Nat}

theorem mul_add_inj {n i' j' : Nat} (hi : i < n) (hi' : i' < n) (h : j' * n + i' = j * n + i) :
    j' = j ∧ i' = i := by
  have hpos := Nat.zero_lt_of_lt hi
  have hdiv : ∀ {m r : Nat}, r < n → (m * n + r) / n = m := by
    intro m r hr
    rw [Nat.add_comm, Nat.add_mul_div_right _ _ hpos, Nat.div_eq_of_lt hr, Nat.zero_add]
  have hj : j' = j := (hdiv hi').symm.trans ((congrArg (· / n) h).trans (hdiv hi))
  subst hj
  exact ⟨rfl, Nat.add_left_cancel h⟩

theorem copy_sector_iff (hwf : s.vol.Wf) {j' : Nat} (hi : i < s.vol.fSec4fat)
    (hp : p < s.vol.fFatsize) :
    (s.vol.fFirstfatsec + i + j * s.vol.fSec4fat) * s.vol.fSecsize ≤
        (s.vol.fFirstfatsec + j' * s.vol.fSec4fat) * s.vol.fSecsize + p ∧
      (s.vol.fFirstfatsec + j' * s.vol.fSec4fat) * s.vol.fSecsize + p <
        (s.vol.fFirstfatsec + i + j * s.vol.fSec4fat) * s.vol.fSecsize + s.vol.fSecsize ↔
      j' = j ∧ secOf s p = i := by
  have hpos : 0 < s.vol.fSecsize := Nat.lt_of_lt_of_le (by decide) hwf.secsize_ge
  have hsec := secOf_lt hwf hp
  have hdiv : secOf s ((s.vol.fFirstfatsec + j' * s.vol.fSec4fat) * s.vol.fSecsize + p) =
      s.vol.fFirstfatsec + j' * s.vol.fSec4fat + secOf s p := by
    unfold secOf
    rw [Nat.add_comm, Nat.add_mul_div_right _ _ hpos, Nat.add_comm]
  rw [← secOf_eq_iff hwf, hdiv]
  constructor
  · intro h
    exact mul_add_inj hi hsec (by omega)
  · rintro ⟨rfl, rfl⟩
    omega

theorem ite_or_ite {α : Type} {A B C : Prop} [Decidable A] [Decidable B] [Decidable C]
    (h : C ↔ A ∨ B) (x y : α) :
    (if A then x else if B then x else y) = if C then x else y := by
  by_cases hA : A <;> by_cases hB : B <;> simp [h, hA, hB]

/-- Some copies of a sector have been saved. -/
structure Saved (s s' : Kfatfs) (i j count : Nat) : Prop where
  vol : s'.vol = s.vol
  fatchanged : s'.fatchanged = s.fatchanged
  fatv : s'.fFatv = s.fFatv
  fatmeta : s'.fFatmeta = s.fFatmeta
  copies : ∀ j' p, p < s.vol.fFatsize → copy s' j' p =
    if secOf s p = i ∧ j ≤ j' ∧ j' < j + count then s.fFatv p else copy s j' p

variable {lbabuf : Nat → Byte} {count : Nat}

theorem saveCopies_saved (hwf : s.vol.Wf) (hi : i < s.vol.fSec4fat)
    (hj : j + count ≤ s.vol.fFatcount) (h : saveCopies lbabuf i count j s = .ok s') :
    Saved s s' i j count := by
  induction count generalizing j s with
  | zero =>
    cases h
    refine ⟨rfl, rfl, rfl, rfl, fun j' p _ => ?_⟩
    rw [if_neg (by omega)]
  | succ count ih =>
    rw [saveCopies] at h
    split at h
    · cases h
    rename_i dev hsave
    have hdev := kfatfsSavesectors_eq hsave (s.fDev.sector_le hwf.secsize_le)
    have hsec : wrap32 (s.vol.fFirstfatsec + i + j * s.vol.fSec4fat) =
        s.vol.fFirstfatsec + i + j * s.vol.fSec4fat := by
      have hmul := Nat.mul_le_mul (show j ≤ 255 by have := hwf.fatcount; omega)
        (Nat.le_trans hwf.sec4fat hwf.secsize_le)
      have := hwf.firstfatsec
      have := hwf.sec4fat
      have := hwf.secsize_le
      exact Nat.mod_eq_of_lt (by omega)
    rw [hsec, Nat.mul_one] at hdev
    obtain ⟨hvol, hflag, hfatv, hmeta, hcopies⟩ := ih (s := { s with fDev := dev }) hwf
      hi (by
      show j + 1 + count ≤ s.vol.fFatcount
      omega) h
    refine ⟨hvol, hflag, hfatv, hmeta, fun j' p hp => ?_⟩
    rw [hcopies j' p hp]
    have hcopy : copy { s with fDev := dev } j' p =
        if j' = j ∧ secOf s p = i then s.fFatv p else copy s j' p := by
      unfold copy
      rw [hdev]
      simp only [Ksdev.store, copy_sector_iff hwf hi hp]
      split_ifs with hin
      · obtain ⟨rfl, hsecOf⟩ := hin
        have hle := ((secOf_eq_iff hwf).mp hsecOf).1
        rw [show s.vol.fFirstfatsec + i + j' * s.vol.fSec4fat =
          s.vol.fFirstfatsec + j' * s.vol.fSec4fat + i by omega, Nat.add_mul _ i]
        congr 1
        omega
      · rfl
    rw [hcopy]
    exact ite_or_ite (show _ ↔ (secOf s p = i ∧ j + 1 ≤ j' ∧ j' < j + 1 + count) ∨ _ by omega) _ _

/-- Some sectors have been flushed. -/
structure Flushed (s s' : Kfatfs) (i count : Nat) : Prop where
  vol : s'.vol = s.vol
  fatchanged : s'.fatchanged = s.fatchanged
  fatv : s'.fFatv = s.fFatv
  loaded : ∀ k, loaded s' k = loaded s k
  changed : ∀ k, changed s' k = (changed s k && !decide (i ≤ k ∧ k < i + count))
  copies : ∀ j p, p < s.vol.fFatsize → copy s' j p =
    if Fat.changed s (secOf s p) = true ∧ (i ≤ secOf s p ∧ secOf s p < i + count) ∧
      j < s.vol.fFatcount then s.fFatv p else copy s j p

/-- A sector that is marked is saved in every copy, and the mark is cleared. -/
theorem flushed_one (hwf : s.vol.Wf) {val : Byte} (hi : i < s.vol.fSec4fat)
    (hget : s.fFatmeta[fatmetaAddr i]? = some val) (hch : changed s i = true)
    (h : saveCopies lbabuf i s.vol.fFatcount 0 s = .ok s1) :
    Flushed s (setMeta s1 (fatmetaAddr i) (val &&& ~~~fatmetaMask i fatmetaChanged)) i 1 := by
  have hsaved := saveCopies_saved hwf hi (by omega) h
  have hget1 : s1.fFatmeta[fatmetaAddr i]? = some val := by
    rw [hsaved.fatmeta]
    exact hget
  have hset := fun c (hc : c < 2) k =>
    PackedFlags.flag_set_andNot (b := 0) (j := k) (by decide) hc (by decide) hget1
  refine ⟨hsaved.vol, hsaved.fatchanged, hsaved.fatv, fun k => ?_, fun k => ?_,
    fun j p hp => ?_⟩
  · exact (hset 1 (by decide) k).trans (by simp [loaded, hsaved.fatmeta])
  · have hone : (i ≤ k ∧ k < i + 1) ↔ k = i := by omega
    refine (hset 0 (by decide) k).trans ?_
    simp only [changed, hsaved.fatmeta, hone, and_true]
  · refine (hsaved.copies j p hp).trans (if_congr ⟨fun hin => ?_, fun hin => ?_⟩ rfl rfl)
    · rw [hin.1]
      exact ⟨hch, by omega, by omega⟩
    · omega

theorem Flushed.trans (h1 : Flushed s s1 i 1) (h2 : Flushed s1 s' (i + 1) count) :
    Flushed s s' i (count + 1) := by
  refine ⟨h2.vol.trans h1.vol, h2.fatchanged.trans h1.fatchanged, h2.fatv.trans h1.fatv,
    fun k => (h2.loaded k).trans (h1.loaded k), fun k => ?_,
    fun j p hp => ?_⟩
  · rw [h2.changed, h1.changed, Bool.and_assoc, ← Bool.not_or, ← Bool.decide_or]
    congr 3
    exact propext (by omega)
  · rw [h2.copies j p (by rwa [h1.vol]), h1.copies j p hp, h1.changed, h1.fatv, h1.vol,
      secOf_congr h1.vol]
    refine ite_or_ite ?_ _ _
    simp only [Bool.and_eq_true, Bool.not_eq_true', decide_eq_false_iff_not]
    constructor
    · rintro ⟨hch, hin, hj⟩
      by_cases hfirst : secOf s p = i
      · exact .inr ⟨hch, by omega, hj⟩
      · exact .inl ⟨⟨hch, by omega⟩, by omega, hj⟩
    · rintro (⟨⟨hch, -⟩, hin, hj⟩ | ⟨hch, hin, hj⟩) <;> exact ⟨hch, by omega, hj⟩

theorem flushLoop_flushed (hwf : s.vol.Wf) (hend : i + count ≤ s.vol.fSec4fat)
    (h : flushLoop lbabuf count i s = .ok s') : Flushed s s' i count := by
  induction count generalizing i s with
  | zero =>
    cases h
    refine ⟨rfl, rfl, rfl, fun _ => rfl, fun k => ?_, fun j p _ => ?_⟩
    · rw [decide_eq_false (by omega), Bool.not_false, Bool.and_true]
    · rw [if_neg (by omega)]
  | succ count ih =>
    rw [flushLoop] at h
    split at h
    · cases h
    rename_i val hmeta
    have hget := metaByte_ok hmeta
    split_ifs at h with htest
    · split at h
      · cases h
      rename_i s1 hsave
      have hone := flushed_one hwf (by omega) hget ((changed_test hget).mp htest) hsave
      exact hone.trans (ih (hone.vol ▸ hwf) (by rw [hone.vol]; omega) h)
    -- a sector without a mark is left as it is
    have hch : changed s i = false :=
      Bool.eq_false_iff.mpr fun hh => htest ((changed_test hget).mpr hh)
    have hone : Flushed s s i 1 := by
      refine ⟨rfl, rfl, rfl, fun _ => rfl, fun k => ?_, fun j p _ => ?_⟩
      · by_cases hk : k = i
        · rw [hk, hch, Bool.false_and]
        · rw [decide_eq_false (by omega), Bool.not_false, Bool.and_true]
      · rw [if_neg]
        rintro ⟨hch', hin, -⟩
        rw [show secOf s p = i by omega, hch] at hch'
        exact Bool.false_ne_true hch'
    exact hone.trans (ih hwf (by omega) h)

/-- **After a flush** every copy is what the table holds, and the cache is coherent. -/
theorem Inv.flush (h : Inv s₀ m s) (hflush : kfatfsFatFlush lbabuf s = .ok s') :
    Inv s₀ m s' ∧ ∀ j < s.vol.fFatcount, ∀ p < s.vol.fFatsize, copy s' j p = view s' p := by
  unfold kfatfsFatFlush at hflush
  split_ifs at hflush with hflag
  · split at hflush
    · cases hflush
    rename_i s1 hloop
    cases hflush
    have hf := flushLoop_flushed h.wf (by omega) hloop
    have hclean : ∀ k < s.vol.fSec4fat, changed s1 k = false := by
      intro k hk
      rw [hf.changed, decide_eq_true (by omega), Bool.not_true, Bool.and_false]
    have hcopies : ∀ j < s.vol.fFatcount, ∀ p < s.vol.fFatsize, copy s1 j p = view s p := by
      intro j hj p hp
      have hlt := secOf_lt h.wf hp
      rw [hf.copies j p hp]
      by_cases hch : changed s (secOf s p) = true
      · rw [if_pos ⟨hch, by omega, hj⟩, view, if_pos (h.loaded_of_changed _ hlt hch)]
      · rw [if_neg fun hin => hch hin.1, h.stored j hj p hp (Bool.eq_false_iff.mpr hch)]
    have hview : ∀ p < s.vol.fFatsize, view s1 p = view s p := by
      intro p hp
      have hlt := secOf_lt h.wf hp
      rw [view, view, hf.loaded, hf.fatv, secOf_congr hf.vol]
      split_ifs with hload
      · rfl
      · rw [hf.copies 0 p hp, if_neg fun hin => hload (h.loaded_of_changed _ hlt hin.1)]
    refine ⟨⟨hf.vol ▸ h.wf, hf.vol.trans h.vol, fun k hk hch => ?_, fun k hk hch => ?_,
      fun j hj p hp _ => ?_, fun c hc => ?_⟩, fun j hj p hp =>
        (hcopies j hj p hp).trans (hview p hp).symm⟩
    · have hnot := hclean k (hf.vol ▸ hk)
      exact absurd (hnot.symm.trans hch) Bool.false_ne_true
    · have hnot := hclean k (hf.vol ▸ hk)
      exact absurd (hnot.symm.trans hch) Bool.false_ne_true
    · have hp' : p < s.vol.fFatsize := hf.vol ▸ hp
      exact (hcopies j (hf.vol ▸ hj) p hp').trans (hview p hp').symm
    · have hc' : s.vol.fType.Entry s.vol.fFatsize c := hf.vol ▸ hc
      show s1.vol.fType.value (view s1) c = m c
      rw [hf.vol, ← h.table c hc']
      exact value_congr fun p hp => hview p (covers_lt hc' hp)
  · -- without the flag no sector is marked
    cases hflush
    refine ⟨h, fun j hj p hp => h.stored j hj p hp (Bool.eq_false_iff.mpr fun hch => ?_)⟩
    exact hflag (h.flagged _ (secOf_lt h.wf hp) hch)

/-! ### Calls in order -/

/-- A call; `depth` is the room on the stack, and `lbabuf` what a buffer holds. -/
inductive Action where
  | read (index : Nat)
  | write (index target : Nat)
  | readandalloc (index : Nat)
  | allocfirst
  | freeall (first depth : Nat)
  | flush (lbabuf : Nat → Byte)

/-- A call that succeeds, with the cluster that it returns. -/
def exec (s : Kfatfs) : Action → Except Failure (Option Nat × Kfatfs)
  | .read index => (kfatfsFatRead s index).map fun r => (some r.1, r.2)
  | .write index target => (kfatfsFatWrite s index target).map fun s => (none, s)
  | .readandalloc index => (kfatfsFatReadandalloc s index).map fun r => (some r.1, r.2)
  | .allocfirst => (kfatfsFatAllocfirst s).map fun r => (some r.1, r.2)
  | .freeall first depth => (kfatfsFatFreeallUnlocked depth s first).map fun s => (none, s)
  | .flush lbabuf => (kfatfsFatFlush lbabuf s).map fun s => (none, s)

/-- The clusters of a chain in a table, as far as `depth` calls get. -/
def chainIn (clseof : Nat) (m : Nat → Nat) : Nat → Nat → List Nat
  | 0, _ => []
  | depth + 1, c => if clseof ≤ m c then [c] else c :: chainIn clseof m depth (m c)

/-- What a call writes into a table, by its arguments and the cluster that it returned. -/
def writesOf (v : Volume) (m : Nat → Nat) : Action × Option Nat → List (Nat × Nat)
  | (.write index target, _) => [(index, target)]
  | (.readandalloc index, some target) =>
    if v.fClseof ≤ m index then [(index, target), (target, v.fClseofMarker)] else []
  | (.allocfirst, some target) => [(target, v.fClseofMarker)]
  | (.freeall first depth, _) =>
    (chainIn v.fClseof m depth first).reverse.map fun c => (c, 0)
  | _ => []

/-- The table after some calls. -/
def tableAfter (v : Volume) (orig : Nat → Nat) (t : List (Action × Option Nat)) : Nat → Nat :=
  t.foldl (fun m call => lastWritten v.fType m (writesOf v m call)) orig

/-- Every sector of an entry is marked as changed, or is one of those that a call marks. -/
def Marks (s : Kfatfs) (M : List Nat) (c : Nat) : Prop :=
  ∀ p, s.vol.fType.Covers c p → changed s (secOf s p) = true ∨ secOf s p ∈ M

/-- A call is in order in a state: the entries that it follows are seen as they are, the sectors
of those that it writes are marked after it, the sectors that it marks are loaded, and the values
fit. -/
def Sound (s : Kfatfs) : Action → Prop
  | .read _ => True
  | .write index target => Marks s [firstSec s index] index ∧
      Fits s.vol.fType (view s) index target
  | .readandalloc index =>
      seen s [firstSec s index] index = s.vol.fType.value (view s) index ∧
      (s.vol.fClseof ≤ s.vol.fType.value (view s) index →
      ∀ target, FirstFree s [firstSec s index] target →
        (∀ c ∈ [index, target], Marks s [firstSec s index, firstSec s target] c) ∧
        Fits s.vol.fType (view s) index target)
  | .allocfirst => ∀ target, FirstFree s [] target → Marks s [target] target ∧
      (target < s.vol.fSec4fat → loaded s target = true ∨ target ∈ searched s target)
  | .freeall first depth => ∀ l, Chain s [] first l →
      l = chainIn s.vol.fClseof (s.vol.fType.value (view s)) depth first ∧ ∀ c ∈ l, Marks s l c ∧
      (c < s.vol.fSec4fat → loaded s c = true ∨ c ∈ l.map (firstSec s)) ∧
      Fits s.vol.fType (view s) c 0
  | .flush _ => True

theorem fits_marker (hwf : s.vol.Wf) (mem : Nat → Byte) (c : Nat) :
    Fits s.vol.fType mem c s.vol.fClseofMarker := by
  unfold Fits FatType.written
  split_ifs with h
  · obtain ⟨hty, heven⟩ := h
    rw [hwf.marker hty, hty, FatType.value, if_neg (by omega)]
    have hlt := Nat.mod_lt (load16 mem (FatType.fat12.offset c)) (show 0 < 4096 by decide)
    generalize load16 mem (FatType.fat12.offset c) % 4096 = val at hlt ⊢
    refine Nat.eq_of_testBit_eq fun i => ?_
    rw [Nat.testBit_or, show 0xfff % 4096 = 2 ^ 12 - 1 from rfl, FatType.limit,
      show 0xfff % 4096 = 2 ^ 12 - 1 from rfl, Nat.testBit_two_pow_sub_one]
    by_cases hi : i < 12
    · rw [decide_eq_true hi, Bool.or_true]
    have hpow : (4096 : Nat) ≤ 2 ^ i := Nat.pow_le_pow_right (show 0 < 2 by decide)
      (show 12 ≤ i by omega)
    rw [decide_eq_false hi, Bool.or_false, Nat.testBit_eq_false_of_lt (by omega)]
  · rfl

/-- Entries that can be cleared one by one can be cleared one after the other. -/
theorem fitsAll_zero {l : List Nat} (h : ∀ c ∈ l, Fits ty mem c 0) :
    FitsAll ty mem (l.map fun c => (c, 0)) := by
  induction l generalizing mem with
  | nil => trivial
  | cons c l ih =>
    have hc := forall_mem_cons.mp h
    refine ⟨hc.1, ih fun d hd => ?_⟩
    by_cases hdc : d = c
    · have hzero := hc.1
      unfold Fits at hzero ⊢
      rw [hdc, value_put_self, hzero]
      simp [FatType.written]
    · have hfits := hc.2 d hd
      unfold Fits at hfits ⊢
      rw [value_put_of_ne hdc, hfits]

/-! ### Runs -/

theorem map_ok {α β : Type} {x : Except Failure α} {f : α → β} {b : β}
    (h : x.map f = .ok b) : ∃ a, x = .ok a ∧ f a = b := by
  cases x with
  | error e => cases h
  | ok a => exact ⟨a, rfl, Except.ok.inj h⟩

/-- **Loading and then writing** keeps the cache coherent, as a call does it. -/
theorem Inv.call (h : Inv s₀ m s) (hc : Cached s s1 L) (hw : Wrote s1 s' W M)
    (hlt : ∀ w ∈ W, w.1 < s.vol.fClseof) (hmark : ∀ w ∈ W, Marks s M w.1)
    (hload : ∀ k ∈ M, k < s.vol.fSec4fat → loaded s k = true ∨ k ∈ L)
    (hfits : FitsAll s.vol.fType (view s) W) :
    Inv s₀ (lastWritten s.vol.fType m W) s' := by
  rw [← hc.vol]
  refine (h.cached hc).wrote hw (fun w hwW => ?_) (fun w hwW p hp => ?_) (fun k hk hlt => ?_) ?_
  · rw [hc.vol]
    exact h.wf.entry _ (hlt w hwW)
  · rw [hc.vol] at hp
    rw [hc.changed, secOf_congr hc.vol]
    exact hmark w hwW p hp
  · rw [hc.vol] at hlt
    rw [hc.loaded, Bool.or_eq_true, decide_eq_true_eq]
    exact hload k hk hlt
  · rw [hc.view_eq, hc.vol]
    exact hfits

theorem chainIn_congr (m' : Nat → Nat) {clseof depth : Nat}
    (h : ∀ d ∈ chainIn clseof m depth c, m d = m' d) :
    chainIn clseof m depth c = chainIn clseof m' depth c := by
  induction depth generalizing c with
  | zero => rfl
  | succ depth ih =>
    have hc : m c = m' c := h c (by rw [chainIn]; split_ifs <;> exact mem_cons_self)
    rw [chainIn, chainIn, ← hc]
    rw [chainIn] at h
    split_ifs at h ⊢
    · rfl
    · rw [ih fun d hd => h d (.tail _ hd)]

/-- **A call in order** does to the table what its arguments and its reply say. -/
theorem Inv.exec (h : Inv s₀ m s) {a : Action} (ha : Sound s a) {r : Option Nat}
    (hexec : exec s a = .ok (r, s')) :
    Inv s₀ (lastWritten s.vol.fType m (writesOf s.vol m (a, r))) s' := by
  cases a with
  | read index =>
    obtain ⟨⟨target, s1⟩, hread, heq⟩ := map_ok hexec
    cases heq
    exact h.cached (kfatfsFatRead_spec h.wf .refl hread).2.1
  | write index target =>
    obtain ⟨s1, hwrite, heq⟩ := map_ok hexec
    cases heq
    obtain ⟨hlt, s1, hc, hw⟩ := kfatfsFatWrite_spec h.wf hwrite
    rw [writesOf]
    refine h.call hc hw (by simpa using hlt) (by simpa using ha.1) (fun k hk _ => .inr hk) ?_
    exact ⟨ha.2, trivial⟩
  | readandalloc index =>
    obtain ⟨⟨target, s1⟩, hcall, heq⟩ := map_ok hexec
    cases heq
    obtain ⟨hseen, halloc⟩ := ha
    obtain ⟨hlt, hcase⟩ := kfatfsFatReadandalloc_spec h.wf hcall
    have htable := h.table _ (h.wf.entry _ hlt)
    rw [hseen, htable] at hcase
    dsimp only [writesOf]
    obtain ⟨hnot, hc⟩ | ⟨heof, hfree, s2, hc, hw⟩ := hcase
    · rw [if_neg (Nat.not_le.mpr hnot)]
      exact h.cached hc
    obtain ⟨hmark, hfits⟩ := halloc (htable ▸ heof) target hfree
    rw [if_pos heof]
    refine h.call hc hw ?_ ?_ (fun k hk _ => .inr ?_) ⟨hfits, fits_marker h.wf _ _, trivial⟩
    · simp [hlt, hfree.lt]
    · simpa using hmark
    · rw [searched_succ s hfree.ge]
      simp only [mem_cons, not_mem_nil, or_false] at hk
      rcases hk with rfl | rfl <;> simp
  | allocfirst =>
    obtain ⟨⟨target, s1⟩, hcall, heq⟩ := map_ok hexec
    cases heq
    obtain ⟨hfree, s2, hc, hw⟩ := kfatfsFatAllocfirst_spec h.wf hcall
    obtain ⟨hmark, hload⟩ := ha target hfree
    rw [writesOf]
    refine h.call hc hw (by simpa using hfree.lt) (by simpa using hmark) ?_
      ⟨fits_marker h.wf _ _, trivial⟩
    simpa using hload
  | freeall first depth =>
    obtain ⟨s1, hcall, heq⟩ := map_ok hexec
    cases heq
    obtain ⟨l, s2, hchain, hlt, hc, hw⟩ := kfatfsFatFreeallUnlocked_spec h.wf .refl hcall
    obtain ⟨hl, hall⟩ := ha l hchain
    have hsame := chainIn_congr m fun d hd => h.table d (h.wf.entry d (hlt d (hl ▸ hd)))
    rw [writesOf, ← hsame, ← hl]
    refine h.call hc hw ?_ ?_ ?_ (fitsAll_zero ?_)
    · simpa using hlt
    · intro w hwW p hp
      simp only [mem_map, mem_reverse] at hwW ⊢
      obtain ⟨c, hcl, rfl⟩ := hwW
      exact (hall c hcl).1 p hp
    · intro k hk
      exact (hall k (mem_reverse.mp hk)).2.1
    · intro c hcl
      exact (hall c (mem_reverse.mp hcl)).2.2
  | flush lbabuf =>
    obtain ⟨s1, hflush, heq⟩ := map_ok hexec
    cases heq
    exact (h.flush hflush).1

/-- A run of calls that succeed, each in order. -/
inductive Run (s₀ : Kfatfs) : List (Action × Option Nat) → Kfatfs → Prop
  | nil : Run s₀ [] s₀
  | step {t : List (Action × Option Nat)} {s s' : Kfatfs} {a : Action} {r : Option Nat}
      (h : Run s₀ t s) (ha : Sound s a) (hexec : exec s a = .ok (r, s')) :
      Run s₀ (t ++ [(a, r)]) s'

/-- The copies of the table on the device are the same. -/
def Mirrored (s : Kfatfs) : Prop :=
  ∀ j < s.vol.fFatcount, ∀ p < s.vol.fFatsize, copy s j p = copy s 0 p

theorem kfatfsInit_inv {dev : Ksdev} {header : KfatHeader} {fatv : Nat → Byte}
    (hinit : kfatfsInit dev header fatv = .ok s) (hsmall : s.vol.fSec4fat ≤ s.vol.fSecsize)
    (hmirror : Mirrored s) : Inv s (original s) s := by
  have hwf := kfatfsInit_wf hinit hsmall
  obtain ⟨n, hmeta⟩ : ∃ n, s.fFatmeta = List.replicate n 0 := by
    unfold kfatfsInit at hinit
    dsimp only at hinit
    split_ifs at hinit
    cases hinit
    exact ⟨_, rfl⟩
  have hflag : ∀ k b, PackedFlags.flag s.fFatmeta 2 k b = false := by
    intro k b
    rw [PackedFlags.flag, hmeta, getElem?_replicate]
    split_ifs <;> exact BitVec.getLsbD_zero
  have hview : view s = copy s 0 := by
    funext p
    rw [view, loaded, hflag, if_neg Bool.false_ne_true]
  refine ⟨hwf, rfl, fun k _ hch => ?_, fun k _ hch => ?_, fun j hj p hp _ => ?_, fun c _ => ?_⟩
  · exact absurd ((hflag k 0).symm.trans hch) Bool.false_ne_true
  · exact absurd ((hflag k 0).symm.trans hch) Bool.false_ne_true
  · rw [hview]
    exact hmirror j hj p hp
  · rw [hview]
    rfl

theorem Run.inv {t : List (Action × Option Nat)} (h : Run s₀ t s)
    (hinv : Inv s₀ (original s₀) s₀) : Inv s₀ (tableAfter s₀.vol (original s₀) t) s := by
  induction h with
  | nil => exact hinv
  | step _ ha hexec ih =>
    rw [tableAfter, foldl_append, ← ih.vol]
    exact (ih.vol ▸ ih).exec ha hexec

/-- **A flush writes back.** After a run of calls in order on a volume whose copies of the table
were the same, a flush that succeeds leaves in every entry of every copy the value that the calls
wrote into it last, by their arguments and replies, or the one that it had at first. -/
theorem kfatfs_flush_writes_back {dev : Ksdev} {header : KfatHeader} {fatv lbabuf : Nat → Byte}
    {t : List (Action × Option Nat)} (hinit : kfatfsInit dev header fatv = .ok s₀)
    (hsmall : s₀.vol.fSec4fat ≤ s₀.vol.fSecsize) (hmirror : Mirrored s₀) (hrun : Run s₀ t s)
    (hflush : kfatfsFatFlush lbabuf s = .ok s') :
    ∀ j < s₀.vol.fFatcount, ∀ c, s₀.vol.fType.Entry s₀.vol.fFatsize c →
      s₀.vol.fType.value (copy s' j) c = tableAfter s₀.vol (original s₀) t c := by
  intro j hj c hc
  have hinv := hrun.inv (kfatfsInit_inv hinit hsmall hmirror)
  obtain ⟨hinv', hcopies⟩ := hinv.flush hflush
  rw [hinv.vol] at hcopies
  have htable := hinv'.table c (hinv'.vol ▸ hc)
  rw [hinv'.vol] at htable
  rw [← htable]
  exact value_congr fun p hp => hcopies j hj p (covers_lt hc hp)

/-- The header of a floppy disk with a FAT12. -/
def floppyHeader : KfatHeader where
  bootSignature := 0xaa55
  bpbBytesPerSector := 512
  bpbSectorsPerCluster := 1
  bpbReservedSectors := 1
  bpbFatc := 2
  bpbMaxrootsize := 224
  bpbShortsectorc := 2880
  bpbSectorsPerFat := 9
  bpbLongsectorc := 0
  -- the fields of the two extended records share their bytes
  x16Signature := 0x29
  x32SectorsPerFat := 0x290000
  x32RootCluster := 0
  x32Signature := 0

/-- A floppy disk that was formatted: every cluster is free. -/
def floppyDev : Ksdev := ⟨.ata28, false, 512, 2880, fun _ => 0, by decide, .inr rfl⟩

/-- The volume on the disk; the memory of the cache is filled with `0xAA`. -/
def floppy : Kfatfs where
  vol := ⟨.fat12, 19, 512, 1, 9, 33, 1, 224, 2, 4608, 2304, 0xfff⟩
  fDev := floppyDev
  fatchanged := false
  fFatv := fun _ => 0xaa
  fFatmeta := List.replicate 128 0

theorem kfatfsInit_floppy : kfatfsInit floppyDev floppyHeader (fun _ => 0xaa) = .ok floppy := by
  have htype : volumeType floppyHeader = (33, .fat12) := by decide
  unfold kfatfsInit
  rw [htype]
  rfl

/-- The end of a chain is written into cluster 3, and flushed. -/
theorem kfatfs_flush_writes_back_floppy :
    ∃ s s', Run floppy [(.write 3 0xfff, none)] s ∧ kfatfsFatFlush (fun _ => 0) s = .ok s' ∧
      ∀ j < 2, ∀ c, FatType.fat12.Entry 4608 c → FatType.fat12.value (copy s' j) c =
        update (original floppy) 3 0xfff c := by
  have hmark : Marks floppy [0] 3 := by
    intro p hp
    have hp' : 4 ≤ p ∧ p < 6 := hp
    exact .inr (mem_singleton.mpr (Nat.div_eq_of_lt (show p < 512 by omega)))
  have hrun : Run floppy ([] ++ [(.write 3 0xfff, none)]) _ := .step .nil ⟨hmark, rfl⟩ rfl
  exact ⟨_, _, hrun, rfl, kfatfs_flush_writes_back kfatfsInit_floppy (by decide)
    (fun _ _ _ _ => rfl) hrun (show kfatfsFatFlush (fun _ => 0) _ = .ok _ from rfl)⟩

/-- The first cluster is allocated on the disk. The flush does not save its entry, and fills
another sector of the table, which was never loaded, with what the memory held. -/
theorem kfatfs_fat_allocfirst_is_lost :
    ∃ s s', exec floppy .allocfirst = .ok (some 2, s) ∧
      kfatfsFatFlush (fun _ => 0) s = .ok s' ∧
      tableAfter floppy.vol (original floppy) [(.allocfirst, some 2)] 2 = 0xfff ∧
      FatType.fat12.value (copy s' 0) 2 = 0 ∧
      tableAfter floppy.vol (original floppy) [(.allocfirst, some 2)] 700 = 0 ∧
      FatType.fat12.value (copy s' 0) 700 = 0xaaa :=
  ⟨_, _, rfl, rfl, rfl, rfl, rfl, rfl⟩

end KosKernel.Fat
