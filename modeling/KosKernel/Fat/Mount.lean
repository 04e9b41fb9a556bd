import KosKernel.Fat.CacheRuns

/-!
# KosKernel.Fat.Mount

**What a boot sector has to say** for its volume to be opened safely. `kfatfs_init` accepts a
header by its signatures and its sector size; the limits of the cache are computed from other
fields, which nothing compares.
-/

namespace KosKernel.Fat

/-! ### What a header says -/

/-- `f_type` of the volume -/
def KfatHeader.type (h : KfatHeader) : FatType := (volumeType h).2

/-- `f_sec4fat` -/
def KfatHeader.sec4fat (h : KfatHeader) : Nat := (volumeFields h h.type).2.1

/-- `f_fatsize` -/
def KfatHeader.fatsize (h : KfatHeader) : Nat := wrap32 (h.sec4fat * h.bpbBytesPerSector.toNat)

/-- `f_clseof` -/
def KfatHeader.clseof (h : KfatHeader) : Nat :=
  min (entries h.fatsize h.type) (volumeFields h h.type).2.2.2

/-- What the size of the FAT is divided by, to get that of `f_fatmeta`. -/
def KfatHeader.divisor (h : KfatHeader) : Nat := wrap32 (h.sec4fat * 4)

/-- The number of data clusters; the first one has the number 2. -/
def KfatHeader.dataClusters (h : KfatHeader) : Nat :=
  (kfatcomTotalsectors h - (volumeType h).1) / h.bpbSectorsPerCluster.toNat

/-- The least value of an entry that ends a chain. -/
def FatType.endOfChain (ty : FatType) : Nat := ty.limit - 8

/-- The checks of `kfatfs_init`. -/
structure Accepted (dev : Ksdev) (h : KfatHeader) : Prop where
  blocksize : ¬dev.sdBlocksize < 92
  boot : ¬h.bootSignature ≠ 0xaa55
  secsize : ¬(h.bpbBytesPerSector.toNat ≠ 512 ∧ h.bpbBytesPerSector.toNat ≠ 1024 ∧
    h.bpbBytesPerSector.toNat ≠ 2048 ∧ h.bpbBytesPerSector.toNat ≠ 4096)
  cluster : ¬h.bpbSectorsPerCluster = 0
  reserved : ¬h.bpbReservedSectors = 0
  signature : ¬(signature h h.type ≠ 0x28 ∧ signature h h.type ≠ 0x29)

/-- What `kfatfs_init` does not check. -/
structure Consistent (h : KfatHeader) : Prop where
  divisor : h.divisor ≠ 0
  lastSector : h.clseof = 0 ∨
    fatmetaAddr (getfatsec h.type h.bpbBytesPerSector.toNat (h.clseof - 1)) <
      ceildiv h.fatsize h.divisor
  data : h.dataClusters = 0 ∨ h.dataClusters + 2 ≤ h.clseof
  marker : h.clseof ≤ h.type.endOfChain

/-! ### The volume -/

variable {dev : Ksdev} {h : KfatHeader} {fatv : Nat → Byte} {s : Kfatfs}

/-- The parameters of a volume agree with each other and with the header. -/
structure Safe (h : KfatHeader) (s : Kfatfs) : Prop where
  sector : ∀ c < s.vol.fClseof, fatGetclusteroffset s c < s.vol.fSec4fat
  metaSector : ∀ c < s.vol.fClseof, fatmetaAddr (fatGetclusteroffset s c) < s.fFatmeta.length
  /-- `FAT_CHANGED` takes the cluster itself, and asserts that it is valid. -/
  metaCluster : ∀ c < s.vol.fClseof, fatValidcluster s c → fatmetaAddr c < s.fFatmeta.length
  data : ∀ c, 2 ≤ c → c < h.dataClusters + 2 → c < s.vol.fClseof
  marker : ∀ v, s.vol.fType.endOfChain ≤ v → v < s.vol.fType.limit → s.vol.fClseof ≤ v

/-- A volume is not opened, or safely so, and nothing is divided by zero. -/
def MountsSafely (dev : Ksdev) (h : KfatHeader) (fatv : Nat → Byte) : Prop :=
  kfatfsInit dev h fatv ≠ .error .overrun ∧ ∀ s, kfatfsInit dev h fatv = .ok s → Safe h s

/-- The parameters are those of the header. -/
structure Opened (h : KfatHeader) (s : Kfatfs) : Prop where
  type : s.vol.fType = h.type
  secsize : s.vol.fSecsize = h.bpbBytesPerSector.toNat
  sec4fat : s.vol.fSec4fat = h.sec4fat
  fatsize : s.vol.fFatsize = h.fatsize
  clseof : s.vol.fClseof = h.clseof
  metaSize : s.fFatmeta.length = ceildiv h.fatsize h.divisor

/-- **What `kfatfs_init` does** with a header. -/
theorem kfatfsInit_cases (dev : Ksdev) (h : KfatHeader) (fatv : Nat → Byte) :
    ¬Accepted dev h ∧ (∃ e, e ≠ .overrun ∧ kfatfsInit dev h fatv = .error e) ∨
      Accepted dev h ∧ (h.divisor = 0 ∧ kfatfsInit dev h fatv = .error .overrun ∨
        h.divisor ≠ 0 ∧ ∃ s, kfatfsInit dev h fatv = .ok s ∧ Opened h s) := by
  unfold kfatfsInit
  dsimp only
  split_ifs with h1 h2 h3 h4 h5 h6 h7
  · exact .inl ⟨fun ha => ha.blocksize h1, _, by decide, rfl⟩
  · exact .inl ⟨fun ha => ha.boot h2, _, by decide, rfl⟩
  · exact .inl ⟨fun ha => ha.secsize h3, _, by decide, rfl⟩
  · exact .inl ⟨fun ha => ha.cluster h4, _, by decide, rfl⟩
  · exact .inl ⟨fun ha => ha.reserved h5, _, by decide, rfl⟩
  · exact .inl ⟨fun ha => ha.signature h6, _, by decide, rfl⟩
  · exact .inr ⟨⟨h1, h2, h3, h4, h5, h6⟩, .inl ⟨h7, rfl⟩⟩
  · exact .inr ⟨⟨h1, h2, h3, h4, h5, h6⟩, .inr ⟨h7, _, rfl, rfl, rfl, rfl, rfl, rfl,
      List.length_replicate⟩⟩

theorem offset_mono (ty : FatType) {c d : Nat} (hle : c ≤ d) : ty.offset c ≤ ty.offset d := by
  cases ty <;> simp only [FatType.offset] <;> omega

theorem KfatHeader.getfatsec_eq {c : Nat} (hc : c < h.clseof) :
    getfatsec h.type h.bpbBytesPerSector.toNat c =
        h.type.offset c / h.bpbBytesPerSector.toNat ∧
      h.type.offset c < h.sec4fat * h.bpbBytesPerSector.toNat := by
  have hentry := entry_of_lt_entries (Nat.lt_of_lt_of_le hc (Nat.min_le_left _ _))
  have hwrap := Nat.mod_lt (h.sec4fat * h.bpbBytesPerSector.toNat) (show 0 < 4294967296 by decide)
  exact ⟨Fat.getfatsec_eq hentry (Nat.le_of_lt hwrap) _,
    Nat.lt_of_lt_of_le hentry.lt (Nat.mod_le _ _)⟩

/-- Four valid clusters share a byte of the metadata, at most. -/
theorem addr_lt_of_lt_ceildiv {x n c : Nat} (hdiv : wrap32 (n * 4) ≠ 0) (hc : c < ceildiv x n) :
    fatmetaAddr c < ceildiv x (wrap32 (n * 4)) := by
  have hle : wrap32 (n * 4) ≤ n * 4 := Nat.mod_le _ _
  have hcount := ceildiv_mul_lt x (show 0 < n by omega)
  have hmul := Nat.mul_le_mul_left n hc
  have hbytes := (ceildiv_mul_lt x (Nat.pos_of_ne_zero hdiv)).1
  refine Nat.lt_of_mul_lt_mul_left (a := wrap32 (n * 4)) (Nat.lt_of_lt_of_le ?_ hbytes)
  calc wrap32 (n * 4) * (c / 4) ≤ n * 4 * (c / 4) := Nat.mul_le_mul_right _ hle
    _ = n * (4 * (c / 4)) := Nat.mul_assoc _ _ _
    _ ≤ n * c := Nat.mul_le_mul_left _ (Nat.mul_div_le c 4)
    _ < x := by
      rw [Nat.mul_succ] at hmul
      omega

/-- **A volume is safe** iff the header is consistent. -/
theorem Opened.safe_iff (ho : Opened h s) (hacc : Accepted dev h) (hdiv : h.divisor ≠ 0) :
    Safe h s ↔ Consistent h := by
  have hsecsize := hacc.secsize
  have hoffset : ∀ c, fatGetclusteroffset s c =
      getfatsec h.type h.bpbBytesPerSector.toNat c := by
    intro c
    rw [fatGetclusteroffset, ho.type, ho.secsize]
  constructor
  · intro hsafe
    refine ⟨hdiv, ?_, ?_, ?_⟩
    · refine (Nat.eq_zero_or_pos h.clseof).imp_right fun hpos => ?_
      rw [← hoffset, ← ho.metaSize]
      exact hsafe.metaSector _ (by rw [ho.clseof]; omega)
    · refine (Nat.eq_zero_or_pos h.dataClusters).imp_right fun hpos => ?_
      have hlast := hsafe.data (h.dataClusters + 1) (by omega) (by omega)
      rwa [ho.clseof] at hlast
    · have heoc := hsafe.marker _ (Nat.le_refl _) (by rw [ho.type]; cases h.type <;> decide)
      rwa [ho.clseof, ho.type] at heoc
  · intro hcons
    constructor <;> rw [ho.clseof]
    · intro c hc
      obtain ⟨heq, hlt⟩ := KfatHeader.getfatsec_eq hc
      rw [hoffset, heq, ho.sec4fat]
      exact (Nat.div_lt_iff_lt_mul (by omega)).mpr hlt
    · intro c hc
      have hlast := hcons.lastSector.resolve_left (by omega)
      rw [(KfatHeader.getfatsec_eq (by omega)).1] at hlast
      rw [hoffset, (KfatHeader.getfatsec_eq hc).1, ho.metaSize]
      refine Nat.lt_of_le_of_lt (Nat.div_le_div_right ?_) hlast
      exact Nat.div_le_div_right (offset_mono _ (by omega))
    · intro c hc hvalid
      rw [fatValidcluster, ho.fatsize, ho.sec4fat, decide_eq_true_eq] at hvalid
      rw [ho.metaSize]
      exact addr_lt_of_lt_ceildiv hdiv hvalid
    · intro c hge hlt
      have hdata := hcons.data
      omega
    · intro v hge _
      rw [ho.type] at hge
      exact Nat.le_trans hcons.marker hge

/-- **Mounting is safe** iff a header that is accepted is consistent. -/
theorem kfatfs_init_safe_iff (dev : Ksdev) (h : KfatHeader) (fatv : Nat → Byte) :
    MountsSafely dev h fatv ↔ (Accepted dev h → Consistent h) := by
  unfold MountsSafely
  rcases kfatfsInit_cases dev h fatv with
    ⟨hacc, e, he, hinit⟩ | ⟨hacc, ⟨hdiv, hinit⟩ | ⟨hdiv, s, hinit, ho⟩⟩
  · rw [hinit]
    refine ⟨fun _ ha => absurd ha hacc, fun _ => ⟨fun heq => he (Except.error.inj heq), ?_⟩⟩
    rintro s ⟨⟩
  · rw [hinit]
    exact ⟨fun hsafe => absurd rfl hsafe.1, fun hcons => absurd hdiv (hcons hacc).divisor⟩
  have hiff := ho.safe_iff hacc hdiv
  constructor
  · intro hsafe _
    exact hiff.mp (hsafe.2 s hinit)
  · intro hcons
    rw [hinit]
    constructor
    · rintro ⟨⟩
    · rintro s' ⟨⟩
      exact hiff.mpr (hcons hacc)

/-- A floppy disk with 2847 clusters is opened, but every cluster from 2304 on is taken for the
end of a chain: an entry of a FAT12 is counted as two bytes. Where the header has no sectors for
a FAT, the code divides by zero. -/
theorem kfatfs_init_floppy_short :
    kfatfsInit floppyDev floppyHeader (fun _ => 0xaa) = .ok floppy ∧
      floppyHeader.dataClusters = 2847 ∧ floppy.vol.fClseof = 2304 ∧
      kfatfsInit floppyDev { floppyHeader with
          bpbSectorsPerFat := 0, x16Signature := 0, x32SectorsPerFat := 0, x32Signature := 0x29 }
        (fun _ => 0xaa) = .error .overrun :=
  ⟨kfatfsInit_floppy, by decide, rfl, rfl⟩

end KosKernel.Fat
