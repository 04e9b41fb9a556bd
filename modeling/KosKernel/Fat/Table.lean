import KosKernel.Fat.Device
import Mathlib.Data.Nat.Bitwise
import Mathlib.Logic.Function.Basic

/-!
# KosKernel.Fat.Table

**The entries of a File Allocation Table**: `kfatfs_getfatsec_*`, `kfatfs_readfat_*` and
`kfatfs_writefat_*` of `fat-internal.c.inl`.

A write of an entry is read back, and leaves the other entries alone, also where two entries of
a FAT12 share a byte. The one exception is an entry of a FAT12 with an even number, into which
the value is only or-ed.
-/

namespace KosKernel.Fat

open Function

/-- `f_type` -/
inductive FatType where
  | fat12
  | fat16
  | fat32
  deriving DecidableEq, Repr

/-! ### Words in memory -/

/-- `*(__u16 *)` -/
def load16 (mem : Nat → Byte) (p : Nat) : Nat := (mem p).toNat + 256 * (mem (p + 1)).toNat

def store16 (mem : Nat → Byte) (p v : Nat) : Nat → Byte :=
  update (update mem p (BitVec.ofNat 8 v)) (p + 1) (BitVec.ofNat 8 (v / 256))

/-- `*(__u32 *)` -/
def load32 (mem : Nat → Byte) (p : Nat) : Nat := load16 mem p + 65536 * load16 mem (p + 2)

def store32 (mem : Nat → Byte) (p v : Nat) : Nat → Byte :=
  store16 (store16 mem p v) (p + 2) (v / 65536)

variable {mem mem' : Nat → Byte} {p q v : Nat}

theorem load16_lt (mem : Nat → Byte) (p : Nat) : load16 mem p < 65536 := by
  unfold load16
  omega

theorem store16_of_ne (h0 : q ≠ p) (h1 : q ≠ p + 1) : store16 mem p v q = mem q := by
  rw [store16, update_of_ne h1, update_of_ne h0]

theorem store16_self : store16 mem p v p = BitVec.ofNat 8 v := by
  rw [store16, update_of_ne (by omega), update_self]

theorem store16_next : store16 mem p v (p + 1) = BitVec.ofNat 8 (v / 256) := by
  rw [store16, update_self]

theorem load16_store16 : load16 (store16 mem p v) p = v % 65536 := by
  rw [load16, store16_self, store16_next, BitVec.toNat_ofNat, BitVec.toNat_ofNat]
  omega

theorem load16_store16_of_disjoint (h : q + 2 ≤ p ∨ p + 2 ≤ q) :
    load16 (store16 mem p v) q = load16 mem q := by
  rw [load16, load16, store16_of_ne (by omega) (by omega), store16_of_ne (by omega) (by omega)]

theorem load16_congr (h : ∀ k < 2, mem (p + k) = mem' (p + k)) :
    load16 mem p = load16 mem' p := by
  rw [load16, load16, h 1 (by omega), show mem p = mem' p from h 0 (by omega)]

theorem store32_of_ne (h : ∀ k < 4, q ≠ p + k) : store32 mem p v q = mem q := by
  have h0 := h 0 (by omega)
  have h1 := h 1 (by omega)
  have h2 := h 2 (by omega)
  have h3 := h 3 (by omega)
  rw [store32, store16_of_ne (by omega) (by omega), store16_of_ne (by omega) (by omega)]

theorem load32_store32 : load32 (store32 mem p v) p = v % 4294967296 := by
  rw [load32, store32, load16_store16, load16_store16_of_disjoint (by omega), load16_store16]
  omega

theorem load32_congr (h : ∀ k < 4, mem (p + k) = mem' (p + k)) :
    load32 mem p = load32 mem' p := by
  have hlow : load16 mem p = load16 mem' p := load16_congr fun k hk => h k (by omega)
  have hhigh : load16 mem (p + 2) = load16 mem' (p + 2) := load16_congr fun k hk => by
    rw [Nat.add_assoc, h (2 + k) (by omega)]
  rw [load32, load32, hlow, hhigh]

/-! ### The functions of the source -/

def kfatfsGetfatsec12 (secsize index : Nat) : Nat := wrap32 (index + index / 2) / secsize

def kfatfsGetfatsec16 (secsize index : Nat) : Nat := wrap32 (index * 2) / secsize

def kfatfsGetfatsec32 (secsize index : Nat) : Nat := wrap32 (index * 4) / secsize

def kfatfsReadfat12 (fatsize : Nat) (fatv : Nat → Byte) (cluster : Nat) : Nat :=
  let val := load16 fatv (wrap32 (cluster + cluster / 2) % fatsize)
  if cluster % 2 = 1 then val >>> 4 else val &&& 0x0fff

def kfatfsReadfat16 (fatsize : Nat) (fatv : Nat → Byte) (cluster : Nat) : Nat :=
  load16 fatv (wrap32 (cluster * 2) % fatsize)

def kfatfsReadfat32 (fatsize : Nat) (fatv : Nat → Byte) (cluster : Nat) : Nat :=
  load32 fatv (wrap32 (cluster * 4) % fatsize) &&& 0x0fffffff

def kfatfsWritefat12 (fatsize : Nat) (fatv : Nat → Byte) (cluster value : Nat) : Nat → Byte :=
  let fatoff := wrap32 (cluster + cluster / 2) % fatsize
  let val := load16 fatv fatoff
  if cluster % 2 = 1 then store16 fatv fatoff ((val &&& 0xf) ||| (value <<< 4))
  else store16 fatv fatoff (val ||| (value &&& 0xfff))

def kfatfsWritefat16 (fatsize : Nat) (fatv : Nat → Byte) (cluster value : Nat) : Nat → Byte :=
  store16 fatv (wrap32 (cluster * 2) % fatsize) value

def kfatfsWritefat32 (fatsize : Nat) (fatv : Nat → Byte) (cluster value : Nat) : Nat → Byte :=
  store32 fatv (wrap32 (cluster * 4) % fatsize) (value &&& 0x0fffffff)

/-- `f_getfatsec` -/
def getfatsec : FatType → Nat → Nat → Nat
  | .fat12 => kfatfsGetfatsec12
  | .fat16 => kfatfsGetfatsec16
  | .fat32 => kfatfsGetfatsec32

/-- `f_readfat` -/
def readfat : FatType → Nat → (Nat → Byte) → Nat → Nat
  | .fat12 => kfatfsReadfat12
  | .fat16 => kfatfsReadfat16
  | .fat32 => kfatfsReadfat32

/-- `f_writefat` -/
def writefat : FatType → Nat → (Nat → Byte) → Nat → Nat → Nat → Byte
  | .fat12 => kfatfsWritefat12
  | .fat16 => kfatfsWritefat16
  | .fat32 => kfatfsWritefat32

/-! ### Entries -/

/-- The first byte of an entry. -/
def FatType.offset : FatType → Nat → Nat
  | .fat12, c => c + c / 2
  | .fat16, c => c * 2
  | .fat32, c => c * 4

/-- The number of bytes in which an entry lies. -/
def FatType.width : FatType → Nat
  | .fat12 => 2
  | .fat16 => 2
  | .fat32 => 4

/-- The values of an entry are below this. -/
def FatType.limit : FatType → Nat
  | .fat12 => 4096
  | .fat16 => 65536
  | .fat32 => 268435456

/-- An entry lies in a table of `fatsize` bytes. -/
def FatType.Entry (ty : FatType) (fatsize c : Nat) : Prop :=
  ty.offset c + ty.width ≤ fatsize

/-- A byte is one of those in which an entry lies. -/
def FatType.Covers (ty : FatType) (c p : Nat) : Prop :=
  ty.offset c ≤ p ∧ p < ty.offset c + ty.width

/-- The value of an entry. -/
def FatType.value (ty : FatType) (mem : Nat → Byte) (c : Nat) : Nat :=
  match ty with
  | .fat12 =>
    if c % 2 = 1 then load16 mem (FatType.fat12.offset c) / 16
    else load16 mem (FatType.fat12.offset c) % 4096
  | .fat16 => load16 mem (FatType.fat16.offset c)
  | .fat32 => load32 mem (FatType.fat32.offset c) % 268435456

/-- A value is written into an entry. -/
def FatType.put (ty : FatType) (mem : Nat → Byte) (c value : Nat) : Nat → Byte :=
  match ty with
  | .fat12 =>
    let val := load16 mem (FatType.fat12.offset c)
    store16 mem (FatType.fat12.offset c)
      (if c % 2 = 1 then val % 16 + value * 16 else val ||| value % 4096)
  | .fat16 => store16 mem (FatType.fat16.offset c) value
  | .fat32 => store32 mem (FatType.fat32.offset c) (value % 268435456)

/-- What an entry holds after a write: the value, which is or-ed to what an entry of a FAT12
with an even number held before. -/
def FatType.written (ty : FatType) (c old value : Nat) : Nat :=
  if ty = .fat12 ∧ c % 2 = 0 then old ||| value % 4096 else value % ty.limit

variable {ty : FatType} {fatsize c d : Nat}

open FatType

theorem FatType.Entry.lt (h : ty.Entry fatsize c) : ty.offset c < fatsize := by
  unfold FatType.Entry width at h
  split at h <;> omega

section

variable (h : ty.Entry fatsize c) (hsize : fatsize ≤ 4294967296)

include h hsize

theorem FatType.Entry.wrap :
    wrap32 (ty.offset c) = ty.offset c ∧ ty.offset c % fatsize = ty.offset c := by
  have hlt := h.lt
  exact ⟨Nat.mod_eq_of_lt (by omega), Nat.mod_eq_of_lt hlt⟩

theorem getfatsec_eq (secsize : Nat) : getfatsec ty secsize c = ty.offset c / secsize := by
  obtain ⟨hwrap, -⟩ := h.wrap hsize
  cases ty <;> exact congrArg (· / secsize) hwrap

theorem readfat_eq : readfat ty fatsize mem c = ty.value mem c := by
  obtain ⟨hwrap, hmod⟩ := h.wrap hsize
  cases ty <;> unfold offset at hwrap hmod
  case fat12 =>
    simp only [readfat, kfatfsReadfat12, value, offset, hwrap, hmod,
      Nat.shiftRight_eq_div_pow, show (0x0fff : Nat) = 2 ^ 12 - 1 from rfl,
      Nat.and_two_pow_sub_one_eq_mod]
  case fat16 => simp only [readfat, kfatfsReadfat16, value, offset, hwrap, hmod]
  case fat32 =>
    simp only [readfat, kfatfsReadfat32, value, offset, hwrap, hmod,
      show (0x0fffffff : Nat) = 2 ^ 28 - 1 from rfl, Nat.and_two_pow_sub_one_eq_mod]

theorem writefat_eq : writefat ty fatsize mem c v = ty.put mem c v := by
  obtain ⟨hwrap, hmod⟩ := h.wrap hsize
  cases ty <;> unfold offset at hwrap hmod
  case fat12 =>
    have hor : ∀ val, (val &&& 0xf) ||| (v <<< 4) = val % 16 + v * 16 := by
      intro val
      rw [show (0xf : Nat) = 2 ^ 4 - 1 from rfl, Nat.and_two_pow_sub_one_eq_mod, Nat.or_comm,
        ← Nat.shiftLeft_add_eq_or_of_lt (Nat.mod_lt _ (by decide)), Nat.shiftLeft_eq,
        Nat.add_comm]
    simp only [writefat, kfatfsWritefat12, put, offset, hwrap, hmod, hor,
      show (0xfff : Nat) = 2 ^ 12 - 1 from rfl, Nat.and_two_pow_sub_one_eq_mod]
    split_ifs <;> rfl
  case fat16 => simp only [writefat, kfatfsWritefat16, put, offset, hwrap, hmod]
  case fat32 =>
    simp only [writefat, kfatfsWritefat32, put, offset, hwrap, hmod,
      show (0x0fffffff : Nat) = 2 ^ 28 - 1 from rfl, Nat.and_two_pow_sub_one_eq_mod]

end

/-- A value that is or-ed into the lower 12 bits of a word leaves the others alone. -/
theorem or_low (val x : Nat) (hval : val < 65536) : val ||| x % 4096 < 65536 ∧
    (val ||| x % 4096) % 4096 = (val % 4096) ||| x % 4096 ∧
    (val ||| x % 4096) / 4096 = val / 4096 := by
  have hx := Nat.mod_lt x (show 0 < 4096 by decide)
  refine ⟨Nat.or_lt_two_pow (n := 16) hval (by omega), ?_, ?_⟩
  · rw [show (4096 : Nat) = 2 ^ 12 from rfl, Nat.or_mod_two_pow, Nat.mod_mod]
  · have hshift := Nat.shiftRight_or_distrib (a := val) (b := x % 4096) (i := 12)
    simp only [Nat.shiftRight_eq_div_pow, show (2 ^ 12 : Nat) = 4096 from rfl] at hshift
    rw [hshift, Nat.div_eq_of_lt hx, Nat.or_zero]

/-- **A write is read back.** -/
theorem value_put_self : ty.value (ty.put mem c v) c = ty.written c (ty.value mem c) v := by
  cases ty with
  | fat12 =>
    simp only [value, put, written, limit, load16_store16,
      true_and]
    by_cases hodd : c % 2 = 1
    · rw [if_pos hodd, if_pos hodd, if_neg (by omega)]
      omega
    · obtain ⟨hlt, hmod, -⟩ := or_low (load16 mem (fat12.offset c)) v (load16_lt _ _)
      rw [if_neg hodd, if_neg hodd, if_neg hodd, if_pos (by omega), Nat.mod_eq_of_lt hlt, hmod]
  | fat16 => simp [value, put, written, limit, load16_store16]
  | fat32 =>
    simp only [value, put, written, limit, load32_store32]
    rw [if_neg (by simp)]
    omega

/-- Two entries of a FAT12 that share a byte. -/
theorem value_put_shared (hne : d ≠ c) (hshare : d / 2 = c / 2) :
    fat12.value (fat12.put mem c v) d = fat12.value mem d := by
  by_cases hodd : c % 2 = 1
  · -- the first byte of the entry is the second one of the other
    have hoff : fat12.offset c = fat12.offset d + 1 := by
      simp only [offset]
      omega
    simp only [value, put, if_neg (show ¬d % 2 = 1 by omega), if_pos hodd]
    rw [load16, ← hoff, store16_self, store16_of_ne (by omega) (by omega), load16, load16, ← hoff,
      BitVec.toNat_ofNat]
    omega
  -- the second byte of the entry is the first one of the other
  have hoff : fat12.offset d = fat12.offset c + 1 := by
    simp only [offset]
    omega
  obtain ⟨hlt, -, hdiv⟩ := or_low (load16 mem (fat12.offset c)) v (load16_lt _ _)
  simp only [value, put, if_pos (show d % 2 = 1 by omega), if_neg hodd]
  generalize hword : (load16 mem (fat12.offset c) ||| v % 4096) = word at hlt hdiv ⊢
  rw [load16, hoff, store16_next, store16_of_ne (by omega) (by omega), load16,
    BitVec.toNat_ofNat]
  unfold load16 at hdiv
  omega

/-- **A write leaves the other entries alone.** -/
theorem value_put_of_ne (hne : d ≠ c) : ty.value (ty.put mem c v) d = ty.value mem d := by
  cases ty with
  | fat12 =>
    by_cases hshare : d / 2 = c / 2
    · exact value_put_shared hne hshare
    have hdisjoint : fat12.offset d + 2 ≤ fat12.offset c ∨
        fat12.offset c + 2 ≤ fat12.offset d := by
      simp only [offset]
      omega
    simp only [value, put, load16_store16_of_disjoint hdisjoint]
  | fat16 =>
    simp only [value, put, offset]
    exact load16_store16_of_disjoint (by omega)
  | fat32 =>
    simp only [value, put, offset]
    rw [load32_congr fun k hk => store32_of_ne fun k' hk' => by omega]

/-- **A write is read back and leaves the other entries alone**, except that an entry of a FAT12
with an even number keeps the bits that it had. -/
theorem readfat_writefat (h : ty.Entry fatsize c) (hsize : fatsize ≤ 4294967296)
    (hv : v < ty.limit) :
    (readfat ty fatsize (writefat ty fatsize mem c v) c = v ∧
      ∀ d ≠ c, ty.Entry fatsize d →
        readfat ty fatsize (writefat ty fatsize mem c v) d = readfat ty fatsize mem d) ↔
    (ty = .fat12 → c % 2 = 0 → readfat ty fatsize mem c ||| v = v) := by
  rw [writefat_eq h hsize, readfat_eq h hsize, readfat_eq h hsize, value_put_self]
  have hothers : ∀ d ≠ c, ty.Entry fatsize d →
      readfat ty fatsize (ty.put mem c v) d = readfat ty fatsize mem d := by
    intro d hne hd
    rw [readfat_eq hd hsize, readfat_eq hd hsize, value_put_of_ne hne]
  rw [and_iff_left hothers, written]
  split_ifs with heven
  · obtain ⟨rfl, heven⟩ := heven
    rw [show v % 4096 = v from Nat.mod_eq_of_lt hv]
    exact ⟨fun hor _ _ => hor, fun hor => hor rfl heven⟩
  · exact ⟨fun _ hty hc => absurd ⟨hty, hc⟩ heven, fun _ => Nat.mod_eq_of_lt hv⟩

/-- A free entry with an even number is written. -/
theorem readfat_writefat_free :
    readfat .fat12 512 (writefat .fat12 512 (fun _ => 0) 4 0xabc) 4 = 0xabc ∧
      ∀ d ≠ 4, FatType.fat12.Entry 512 d →
        readfat .fat12 512 (writefat .fat12 512 (fun _ => 0) 4 0xabc) d =
          readfat .fat12 512 (fun _ => 0) d :=
  (readfat_writefat (Nat.le_of_ble_eq_true rfl) (by decide) (by decide)).mpr fun _ _ => rfl

/-- An entry with an even number that holds the end of a chain cannot be made free. -/
theorem readfat_writefat_even :
    readfat .fat12 512 (writefat .fat12 512 (fun _ => 0xff) 4 0) 4 = 0xfff := by
  decide

theorem put_of_not_covers (h : ¬ty.Covers c p) : ty.put mem c v p = mem p := by
  cases ty with
  | fat12 | fat16 =>
    simp only [Covers, width] at h
    exact store16_of_ne (by omega) (by omega)
  | fat32 =>
    simp only [Covers, width] at h
    exact store32_of_ne fun k hk => by omega

theorem covers_offset_add {k : Nat} (hk : k < ty.width) : ty.Covers c (ty.offset c + k) :=
  ⟨Nat.le_add_right _ _, Nat.add_lt_add_left hk _⟩

theorem value_congr (h : ∀ p, ty.Covers c p → mem p = mem' p) :
    ty.value mem c = ty.value mem' c := by
  cases ty with
  | fat12 =>
    simp only [value, load16_congr fun k hk => h (fat12.offset c + k) (covers_offset_add hk)]
  | fat16 => exact load16_congr fun k hk => h _ (covers_offset_add hk)
  | fat32 =>
    simp only [value, load32_congr fun k hk => h (fat32.offset c + k) (covers_offset_add hk)]

theorem put_congr (h : ∀ p, ty.Covers c p → mem p = mem' p) (hq : ty.Covers c q) :
    ty.put mem c v q = ty.put mem' c v q := by
  have hstore : ∀ (m m' : Nat → Byte) (p v : Nat), q = p ∨ q = p + 1 →
      store16 m p v q = store16 m' p v q := by
    rintro m m' p v (rfl | rfl)
    · rw [store16_self, store16_self]
    · rw [store16_next, store16_next]
  cases ty with
  | fat12 =>
    have hval := load16_congr fun k hk => h (fat12.offset c + k) (covers_offset_add hk)
    simp only [Covers, width] at hq
    simp only [put, hval]
    exact hstore _ _ _ _ (by omega)
  | fat16 =>
    simp only [Covers, width] at hq
    exact hstore _ _ _ _ (by omega)
  | fat32 =>
    simp only [Covers, width] at hq
    simp only [put, store32]
    have hlow : q ≠ fat32.offset c + 2 → q ≠ fat32.offset c + 2 + 1 →
        q = fat32.offset c ∨ q = fat32.offset c + 1 := by omega
    by_cases hhigh : q = fat32.offset c + 2 ∨ q = fat32.offset c + 2 + 1
    · exact hstore _ _ _ _ hhigh
    obtain ⟨h2, h3⟩ := not_or.mp hhigh
    rw [store16_of_ne h2 h3, store16_of_ne h2 h3]
    exact hstore _ _ _ _ (hlow h2 h3)

end KosKernel.Fat
