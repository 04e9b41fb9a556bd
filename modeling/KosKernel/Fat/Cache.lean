import KosKernel.Fat.Table
import KosKernel.Lib.PackedFlags

/-!
# KosKernel.Fat.Cache

**The cache of the FAT**: `kfatfs_init` and the functions of `fat-internal-fatcache.c.inl`.

The sectors of the table are loaded when they are needed. Two bits for each sector, four sectors
in a byte, tell whether it is loaded and whether it is changed; `kfatfs_fat_flush` saves the
changed sectors in every copy of the table. A violated assertion is a failure of the call. The
lock is held from the start of a call to its end.
-/

namespace KosKernel.Fat

/-- The fields of `union kfat_header` that `kfatfs_init` looks at, and the boot signature. -/
structure KfatHeader where
  bootSignature : BitVec 16
  bpbBytesPerSector : BitVec 16
  bpbSectorsPerCluster : BitVec 8
  bpbReservedSectors : BitVec 16
  bpbFatc : BitVec 8
  bpbMaxrootsize : BitVec 16
  bpbShortsectorc : BitVec 16
  bpbSectorsPerFat : BitVec 16
  bpbLongsectorc : BitVec 32
  x16Signature : BitVec 8
  x32SectorsPerFat : BitVec 32
  x32RootCluster : BitVec 32
  x32Signature : BitVec 8

/-- The constants of `struct kfatfs`. -/
structure Volume where
  fType : FatType
  /-- `f_rootcls` or `f_rootsec` -/
  fRoot : Nat
  fSecsize : Nat
  fSec4clus : Nat
  fSec4fat : Nat
  fFirstdatasec : Nat
  fFirstfatsec : Nat
  fRootmax : Nat
  fFatcount : Nat
  fFatsize : Nat
  fClseof : Nat
  fClseofMarker : Nat

/-- `struct kfatfs` -/
structure Kfatfs where
  vol : Volume
  fDev : Ksdev
  /-- `KFATFS_FLAG_FATCHANGED` -/
  fatchanged : Bool
  fFatv : Nat → Byte
  fFatmeta : List Byte

/-! ### Opening a volume -/

def kfatcomTotalsectors (h : KfatHeader) : Nat :=
  if h.bpbShortsectorc ≠ 0 then h.bpbShortsectorc.toNat else h.bpbLongsectorc.toNat

/-- The sectors of the root directory of a FAT12 or FAT16. -/
def rootSectors (h : KfatHeader) : Nat :=
  ceildiv (h.bpbMaxrootsize.toNat * 32) h.bpbBytesPerSector.toNat

/-- The first data sector, and the type of the file system. -/
def volumeType (h : KfatHeader) : Nat × FatType :=
  if h.bpbSectorsPerFat = 0 ∨ h.bpbMaxrootsize = 0 then
    (wrap32 (h.bpbReservedSectors.toNat + h.x32SectorsPerFat.toNat * h.bpbFatc.toNat), .fat32)
  else
    let first := h.bpbReservedSectors.toNat + h.bpbFatc.toNat * h.bpbSectorsPerFat.toNat +
      rootSectors h
    let dataSectors := wrap32 (kfatcomTotalsectors h + 4294967296 - first)
    let totalClusters := dataSectors / h.bpbSectorsPerCluster.toNat
    (first, if 65524 < totalClusters then .fat32 else if 4084 < totalClusters then .fat16
      else .fat12)

/-- The constants that depend on the type: the root directory, the sectors of a FAT, the size of
the root directory and the marker. -/
def volumeFields (h : KfatHeader) : FatType → Nat × Nat × Nat × Nat
  | .fat12 => (h.bpbReservedSectors.toNat + h.bpbFatc.toNat * h.bpbSectorsPerFat.toNat,
      h.bpbSectorsPerFat.toNat, h.bpbMaxrootsize.toNat, 0xfff)
  | .fat16 => (h.bpbReservedSectors.toNat + h.bpbFatc.toNat * h.bpbSectorsPerFat.toNat,
      h.bpbSectorsPerFat.toNat, h.bpbMaxrootsize.toNat, 0xffff)
  | .fat32 => (h.x32RootCluster.toNat, h.x32SectorsPerFat.toNat, 4294967295, 0x0fffffff)

/-- The signature of the extended boot record. -/
def signature (h : KfatHeader) : FatType → BitVec 8
  | .fat12 => h.x16Signature
  | .fat16 => h.x16Signature
  | .fat32 => h.x32Signature

/-- The number of entries that a FAT of some bytes is taken to have. -/
def entries (fatsize : Nat) : FatType → Nat
  | .fat12 => fatsize / 2
  | .fat16 => fatsize / 2
  | .fat32 => fatsize / 4

/-- `kfatfs_init` of a volume with a header; `fatv` is what the memory of the cache holds when
it is allocated. -/
def kfatfsInit (dev : Ksdev) (h : KfatHeader) (fatv : Nat → Byte) : Except Failure Kfatfs :=
  let secsize := h.bpbBytesPerSector.toNat
  let ty := (volumeType h).2
  let (root, sec4fat, rootmax, marker) := volumeFields h ty
  let fatsize := wrap32 (sec4fat * secsize)
  if dev.sdBlocksize < 92 then .error .keRange
  else if h.bootSignature ≠ 0xaa55 then .error .keInval
  else if secsize ≠ 512 ∧ secsize ≠ 1024 ∧ secsize ≠ 2048 ∧ secsize ≠ 4096 then .error .keInval
  else if h.bpbSectorsPerCluster = 0 then .error .keInval
  else if h.bpbReservedSectors = 0 then .error .keInval
  else if signature h ty ≠ 0x28 ∧ signature h ty ≠ 0x29 then .error .keInval
  -- the size of the metadata is divided by this
  else if wrap32 (sec4fat * 4) = 0 then .error .overrun
  else .ok {
    vol := {
      fType := ty
      fRoot := root
      fSecsize := secsize
      fSec4clus := h.bpbSectorsPerCluster.toNat
      fSec4fat := sec4fat
      fFirstdatasec := (volumeType h).1
      fFirstfatsec := h.bpbReservedSectors.toNat
      fRootmax := rootmax
      fFatcount := h.bpbFatc.toNat
      fFatsize := fatsize
      fClseof := min (entries fatsize ty) marker
      fClseofMarker := marker }
    fDev := dev
    fatchanged := false
    fFatv := fatv
    fFatmeta := List.replicate (ceildiv fatsize (wrap32 (sec4fat * 4))) 0 }

/-! ### Metadata -/

/-- `FATMETA_CHANGED` -/
def fatmetaChanged : Nat := 2 ^ 0

/-- `FATMETA_LOADED` -/
def fatmetaLoaded : Nat := 2 ^ 1

/-- `FATMETA_ADDR` -/
def fatmetaAddr (cluster : Nat) : Nat := PackedFlags.addr 8 2 cluster

/-- `FATMETA_MASK` -/
def fatmetaMask (cluster bits : Nat) : Byte := PackedFlags.mask 8 2 cluster bits

/-- A byte of `f_fatmeta`. -/
def metaByte (self : Kfatfs) (addr : Nat) : Except Failure Byte :=
  match self.fFatmeta[addr]? with
  | none => .error .overrun
  | some val => .ok val

def setMeta (self : Kfatfs) (addr : Nat) (val : Byte) : Kfatfs :=
  { self with fFatmeta := self.fFatmeta.set addr val }

def kfatfsIseofcluster (self : Kfatfs) (cls : Nat) : Bool := self.vol.fClseof ≤ cls

/-- `FAT_VALIDCLUSTER` -/
def fatValidcluster (self : Kfatfs) (cluster : Nat) : Bool :=
  cluster < ceildiv self.vol.fFatsize self.vol.fSec4fat

/-- `FAT_GETCLUSTEROFFSET` -/
def fatGetclusteroffset (self : Kfatfs) (cluster : Nat) : Nat :=
  getfatsec self.vol.fType self.vol.fSecsize cluster

/-- The entry of a cluster, as the cache has it. -/
def fatRead (self : Kfatfs) (cluster : Nat) : Nat :=
  readfat self.vol.fType self.vol.fFatsize self.fFatv cluster

/-- `FAT_WRITE` -/
def fatWrite (self : Kfatfs) (cluster value : Nat) : Kfatfs :=
  { self with fFatv := writefat self.vol.fType self.vol.fFatsize self.fFatv cluster value }

/-- `FAT_CHANGED`, which is given the number of a cluster and not that of its sector. -/
def fatChanged (self : Kfatfs) (cluster : Nat) : Except Failure Kfatfs :=
  if ¬fatValidcluster self cluster then .error .assertion
  else
    match metaByte self (fatmetaAddr cluster) with
    | .error e => .error e
    | .ok val =>
      .ok { setMeta self (fatmetaAddr cluster) (val ||| fatmetaMask cluster fatmetaChanged) with
        fatchanged := true }

/-! ### Loading sectors -/

/-- A sector of the table is loaded into the cache. -/
def loadFat (self : Kfatfs) (fatIndex : Nat) : Except Failure Kfatfs :=
  let start := fatIndex * self.vol.fSecsize
  match kfatfsLoadsectors self.vol.fSecsize self.fDev
    (wrap32 (self.vol.fFirstfatsec + fatIndex)) 1 with
  | .error e => .error e
  | .ok buf =>
    if self.vol.fFatsize < start + self.vol.fSecsize then .error .overrun
    else .ok { self with
      fFatv := fun p =>
        if start ≤ p ∧ p < start + self.vol.fSecsize then buf (p - start) else self.fFatv p }

/-- A sector that is not cached is loaded and marked as such. -/
def cacheSector (self : Kfatfs) (fatIndex : Nat) : Except Failure Kfatfs :=
  match metaByte self (fatmetaAddr fatIndex) with
  | .error e => .error e
  | .ok val =>
    if val &&& fatmetaMask fatIndex fatmetaLoaded ≠ 0#8 then .ok self
    else
      match loadFat self fatIndex with
      | .error e => .error e
      | .ok self =>
        .ok (setMeta self (fatmetaAddr fatIndex)
          (val ||| fatmetaMask fatIndex fatmetaLoaded))

/-! ### Reading and writing -/

def kfatfsFatRead (self : Kfatfs) (index : Nat) : Except Failure (Nat × Kfatfs) :=
  if ¬index < self.vol.fClseof then .error .assertion
  else
    match cacheSector self (fatGetclusteroffset self index) with
    | .error e => .error e
    | .ok self => .ok (fatRead self index, self)

/-- `_kfatfs_fat_read_unlocked` -/
def kfatfsFatReadUnlocked (self : Kfatfs) (index : Nat) : Except Failure (Nat × Kfatfs) :=
  if ¬fatValidcluster self index then .error .assertion else kfatfsFatRead self index

def kfatfsFatWrite (self : Kfatfs) (index target : Nat) : Except Failure Kfatfs :=
  if ¬index < self.vol.fClseof then .error .assertion
  else
    let fatIndex := fatGetclusteroffset self index
    let loadedMask := fatmetaMask fatIndex fatmetaLoaded
    let changedMask := loadedMask >>> 1
    match metaByte self (fatmetaAddr fatIndex) with
    | .error e => .error e
    | .ok val =>
      match (if val &&& loadedMask ≠ 0#8 then .ok self else loadFat self fatIndex) with
      | .error e => .error e
      | .ok self =>
        let val := val ||| loadedMask
        let self := fatWrite self index target
        let self := if val &&& changedMask ≠ 0#8 then self else { self with fatchanged := true }
        .ok (setMeta self (fatmetaAddr fatIndex) (val ||| changedMask))

/-- The loop of `_kfatfs_fat_getfreecluster_unlocked` over `count` clusters. -/
def getfreeLoop : Nat → Nat → Kfatfs → Except Failure (Nat × Kfatfs)
  | 0, _, _ => .error .keNospc
  | count + 1, cls, self =>
    match cacheSector self (fatGetclusteroffset self cls) with
    | .error e => .error e
    | .ok self => if fatRead self cls = 0 then .ok (cls, self) else getfreeLoop count (cls + 1) self

/-- `_kfatfs_fat_getfreecluster_unlocked`; the hint is not used. -/
def kfatfsFatGetfreeclusterUnlocked (self : Kfatfs) : Except Failure (Nat × Kfatfs) :=
  getfreeLoop (self.vol.fClseof - 2) 2 self

def kfatfsFatAllocfirst (self : Kfatfs) : Except Failure (Nat × Kfatfs) :=
  match kfatfsFatGetfreeclusterUnlocked self with
  | .error e => .error e
  | .ok (target, self) =>
    match fatChanged (fatWrite self target self.vol.fClseofMarker) target with
    | .error e => .error e
    | .ok self => .ok (target, self)

/-- The entries that `kfatfs_fat_readandalloc` links, and the marks that it sets. -/
def linkCluster (self : Kfatfs) (index target : Nat) : Except Failure Kfatfs :=
  let fatIndex := fatGetclusteroffset self index
  let loadedMask := fatmetaMask fatIndex fatmetaLoaded
  let self := fatWrite (fatWrite self index target) target self.vol.fClseofMarker
  match metaByte self (fatmetaAddr fatIndex) with
  | .error e => .error e
  | .ok val =>
    let self := setMeta self (fatmetaAddr fatIndex) (val ||| (loadedMask ||| loadedMask >>> 1))
    let fatIndex := fatGetclusteroffset self target
    match metaByte self (fatmetaAddr fatIndex) with
    | .error e => .error e
    | .ok val =>
      .ok { setMeta self (fatmetaAddr fatIndex) (val ||| fatmetaMask fatIndex fatmetaChanged)
        with fatchanged := true }

def kfatfsFatReadandalloc (self : Kfatfs) (index : Nat) : Except Failure (Nat × Kfatfs) :=
  match kfatfsFatRead self index with
  | .error e => .error e
  | .ok (target, self) =>
    if ¬kfatfsIseofcluster self target then .ok (target, self)
    else
      match kfatfsFatGetfreeclusterUnlocked self with
      | .error e => .error e
      | .ok (target, self) =>
        match linkCluster self index target with
        | .error e => .error e
        | .ok self => .ok (target, self)

/-- `_kfatfs_fat_freeall_unlocked`, on a stack that has room for `depth` calls. -/
def kfatfsFatFreeallUnlocked : Nat → Kfatfs → Nat → Except Failure Kfatfs
  | 0, _, _ => .error .overrun
  | depth + 1, self, first =>
    match kfatfsFatReadUnlocked self first with
    | .error e => .error e
    | .ok (next, self) =>
      match (if kfatfsIseofcluster self next then .ok self
        else kfatfsFatFreeallUnlocked depth self next) with
      | .error e => .error e
      -- Actually mark the cluster as unused.
      | .ok self => fatChanged (fatWrite self first 0) first

/-! ### Flushing -/

/-- A sector of the table is saved in `count` copies from `j` on; `lbabuf` is what the buffer of
the device holds. -/
def saveCopies (lbabuf : Nat → Byte) (i : Nat) : Nat → Nat → Kfatfs → Except Failure Kfatfs
  | 0, _, self => .ok self
  | count + 1, j, self =>
    match kfatfsSavesectors self.vol.fSecsize self.fDev
      (wrap32 (self.vol.fFirstfatsec + i + j * self.vol.fSec4fat)) 1
      (fun k => self.fFatv (i * self.vol.fSecsize + k)) lbabuf with
    | .error e => .error e
    | .ok dev => saveCopies lbabuf i count (j + 1) { self with fDev := dev }

/-- The loop of `_kfatfs_fat_doflush_unlocked` over `count` sectors from `i` on. -/
def flushLoop (lbabuf : Nat → Byte) : Nat → Nat → Kfatfs → Except Failure Kfatfs
  | 0, _, self => .ok self
  | count + 1, i, self =>
    let metamask := fatmetaMask i fatmetaChanged
    match metaByte self (fatmetaAddr i) with
    | .error e => .error e
    | .ok val =>
      if val &&& metamask ≠ 0#8 then
        match saveCopies lbabuf i self.vol.fFatcount 0 self with
        | .error e => .error e
        | .ok self =>
          flushLoop lbabuf count (i + 1)
            (setMeta self (fatmetaAddr i) (val &&& ~~~metamask))
      else flushLoop lbabuf count (i + 1) self

def kfatfsFatFlush (lbabuf : Nat → Byte) (self : Kfatfs) : Except Failure Kfatfs :=
  if self.fatchanged then
    match flushLoop lbabuf self.vol.fSec4fat 0 self with
    | .error e => .error e
    | .ok self => .ok { self with fatchanged := false }
  else .ok self

end KosKernel.Fat
