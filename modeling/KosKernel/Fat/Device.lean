import Mathlib.Tactic.SplitIfs
import Mathlib.Tactic.Common

/-!
# KosKernel.Fat.Device

**The sectors of a FAT volume on its storage device**: `kfatfs_loadsectors` and
`kfatfs_savesectors` of `fat-internal-rw.c.inl`, and the transfer of blocks under them
(`src/kernel/dev/storage.c.inl` and the drivers).

Blocks of the device and sectors of the volume need not have one size. Loading is right
whenever the sectors lie in the blocks that are read; saving is so only when a sector is made
of whole blocks, since the code never reads what surrounds the sectors in their blocks. And
all blocks must be transferred at once: when a driver transfers less than it is asked for, the
rest is taken from the first block again. The last block of a partition or a RAM disk cannot be
transferred at all.
-/

namespace KosKernel.Fat

abbrev Byte : Type := BitVec 8

/-- How a call fails: with an error, or in a way that the code does not handle. -/
inductive Failure where
  | keRange
  | keDevice
  | keInval
  | keNospc
  /-- An assertion of the code is violated. -/
  | assertion
  /-- Memory outside of an array is accessed, or the stack is exhausted. -/
  | overrun
  deriving DecidableEq, Repr

/-! ### Storage devices -/

/-- The drivers of disks. -/
inductive Driver where
  | ata28
  | ata48
  | ramdisk
  deriving DecidableEq, Repr

/-- The most blocks of one transfer: `MAX_SECTORS` of a drive, and all of memory. -/
def Driver.maxBlocks : Driver → Nat
  | .ata28 => 0xff
  | .ata48 => 0xffff
  | .ramdisk => 0xffffffff

/-- `struct ksdev`: a disk, or a partition of one. -/
structure Ksdev where
  driver : Driver
  part : Bool
  sdBlocksize : Nat
  sdBlockcount : Nat
  data : Nat → Byte
  blocksize_pos : 0 < sdBlocksize
  /-- `KATA_SECTORSIZE` -/
  blocksize_ata : driver = .ramdisk ∨ sdBlocksize = 512

namespace Ksdev

/-- A partition and a RAM disk check all of a transfer. -/
def checks (self : Ksdev) : Bool := self.part || self.driver = .ramdisk

/-- Bytes are stored from `start` on. -/
def store (self : Ksdev) (start count : Nat) (buf : Nat → Byte) : Ksdev :=
  { self with
    data := fun p => if start ≤ p ∧ p < start + count then buf (p - start) else self.data p }

/-- `count` blocks from `addr` on are put into a buffer, behind `pos` blocks. -/
def fetch (self : Ksdev) (addr pos count : Nat) (blocks : Nat → Byte) : Nat → Byte := fun k =>
  if pos * self.sdBlocksize ≤ k ∧ k < (pos + count) * self.sdBlocksize then
    self.data (addr * self.sdBlocksize + (k - pos * self.sdBlocksize))
  else blocks k

/-- `sd_readblocks` and `sd_writeblocks`: the number of blocks that are transferred. -/
def transfer (self : Ksdev) (addr c : Nat) : Except Failure Nat :=
  if self.sdBlockcount ≤ addr then .error .assertion
  else if self.checks ∧ (c = 0 ∨ self.sdBlockcount ≤ addr + c) then .error .assertion
  else
    let c := min c self.driver.maxBlocks
    -- the drive reports an error when the transfer reaches behind its end
    if self.sdBlockcount < addr + c then .error .keDevice else .ok c

end Ksdev

/-- `__u32`, `size_t` -/
def wrap32 (n : Nat) : Nat := n % 4294967296

def ceildiv (x y : Nat) : Nat := (x + y - 1) / y

/-- The loop of `ksdev_readallblocks_unlocked` and `ksdev_writeallblocks_unlocked`, by what moves
some blocks: `blocks` moves on by `pos` blocks, `addr` does not. What is left gets less in every
round, so `c` rounds are enough. -/
def allblocksLoop {β : Type} (self : Ksdev) (addr : Nat) (move : Nat → Nat → β → β) :
    Nat → Nat → Nat → Nat → β → Except Failure β
  | 0, _, _, _, x => .ok x
  | fuel + 1, pos, nextc, c, x =>
    if c = 0 then .ok x
    else
      match self.transfer addr (c - nextc) with
      | .error e => .error e
      | .ok rc =>
        allblocksLoop self addr move fuel (pos + nextc) rc (c - nextc) (move (pos + nextc) rc x)

def allblocks {β : Type} (self : Ksdev) (addr c : Nat) (move : Nat → Nat → β → β) (x : β) :
    Except Failure β :=
  match self.transfer addr c with
  | .error e => .error e
  | .ok rc =>
    if rc = c then .ok (move 0 rc x)
    else allblocksLoop self addr move (c + 1) 0 rc c (move 0 rc x)

def ksdevReadallblocks (self : Ksdev) (addr c : Nat) : Except Failure (Nat → Byte) :=
  allblocks self addr c (self.fetch addr) fun _ => 0

def ksdevWriteallblocks (self : Ksdev) (addr c : Nat) (blocks : Nat → Byte) :
    Except Failure Ksdev :=
  allblocks self addr c (fun pos wc dev =>
    dev.store (addr * self.sdBlocksize) (wc * self.sdBlocksize) fun k =>
      blocks (pos * self.sdBlocksize + k)) self

/-! ### Sectors -/

def kfatfsLoadsectors (secsize : Nat) (sdev : Ksdev) (sec c : Nat) :
    Except Failure (Nat → Byte) :=
  if secsize = sdev.sdBlocksize then
    if sdev.sdBlockcount ≤ sec then .error .keRange
    else ksdevReadallblocks sdev sec c
  else
    let secaddr := sec * secsize
    let lba := secaddr / sdev.sdBlocksize
    let lbaaddr := lba * sdev.sdBlocksize
    let secbytes := secsize * c
    let lbacount := ceildiv secbytes sdev.sdBlocksize
    if sdev.sdBlockcount ≤ lba then .error .keRange
    else
      match ksdevReadallblocks sdev lba lbacount with
      | .error e => .error e
      | .ok lbabuf =>
        let addroff := secaddr - lbaaddr
        if sdev.sdBlocksize * lbacount < addroff + secbytes then .error .overrun
        else .ok fun k => lbabuf (addroff + k)

/-- `kfatfs_savesectors`; `lbabuf` is what the buffer holds when it is allocated. What is read
below and above of the sectors is always less than one block, so nothing is read. -/
def kfatfsSavesectors (secsize : Nat) (sdev : Ksdev) (sec c : Nat) (buf lbabuf : Nat → Byte) :
    Except Failure Ksdev :=
  if secsize = sdev.sdBlocksize then
    if sdev.sdBlockcount ≤ sec then .error .keRange
    else ksdevWriteallblocks sdev sec c buf
  else
    let secaddr := sec * secsize
    let lba := secaddr / sdev.sdBlocksize
    let lbaaddr := lba * sdev.sdBlocksize
    let secbytes := secsize * c
    let lbacount := ceildiv secbytes sdev.sdBlocksize
    let lbabytes := sdev.sdBlocksize * lbacount
    let addroff := secaddr - lbaaddr
    if ¬secbytes ≤ lbabytes - addroff ∨ addroff % sdev.sdBlocksize ≠ 0 then .error .assertion
    else if sdev.sdBlockcount ≤ lba then .error .keRange
    else if (lbabytes - secbytes) % sdev.sdBlocksize ≠ 0 then .error .assertion
    else
      ksdevWriteallblocks sdev lba lbacount fun k =>
        if addroff ≤ k ∧ k < addroff + secbytes then buf (k - addroff) else lbabuf k

variable {sdev sdev' : Ksdev} {secsize sec c addr n : Nat} {buf lbabuf blocks : Nat → Byte}

/-! ### All blocks at once -/

/-- The blocks can be transferred, all at once. -/
def Transfers (sdev : Ksdev) (addr n : Nat) : Prop :=
  n ≤ sdev.driver.maxBlocks ∧ (sdev.checks = true → addr + n < sdev.sdBlockcount)

theorem maxBlocks_pos (driver : Driver) : 0 < driver.maxBlocks := by
  cases driver <;> decide

theorem transfer_le {rc : Nat} (h : sdev.transfer addr n = .ok rc) :
    rc = min n sdev.driver.maxBlocks ∧ (sdev.checks = true → addr + n < sdev.sdBlockcount) := by
  unfold Ksdev.transfer at h
  dsimp only at h
  split_ifs at h with _ hcheck
  cases h
  exact ⟨rfl, fun hc => Nat.lt_of_not_le fun hle => hcheck ⟨hc, .inr hle⟩⟩

theorem Transfers.transfer (h : Transfers sdev addr n) (hpos : 0 < n)
    (hend : addr + n ≤ sdev.sdBlockcount) : sdev.transfer addr n = .ok n := by
  have hcheck : ¬(sdev.checks = true ∧ (n = 0 ∨ sdev.sdBlockcount ≤ addr + n)) := by
    rintro ⟨hc, hout⟩
    have := h.2 hc
    omega
  unfold Ksdev.transfer
  rw [if_neg (by omega), if_neg hcheck, Nat.min_eq_left h.1]
  exact if_neg (by omega)

section
variable {β : Type} {move : Nat → Nat → β → β} {x y : β}

theorem Transfers.allblocks (h : Transfers sdev addr n) (hpos : 0 < n)
    (hend : addr + n ≤ sdev.sdBlockcount) : allblocks sdev addr n move x = .ok (move 0 n x) := by
  rw [Fat.allblocks, h.transfer hpos hend]
  exact if_pos rfl

theorem allblocks_ok (h : allblocks sdev addr n move x = .ok y)
    (hmax : n ≤ sdev.driver.maxBlocks) : y = move 0 n x := by
  unfold allblocks at h
  split at h
  · cases h
  rename_i rc htrans
  rw [(transfer_le htrans).1, Nat.min_eq_left hmax, if_pos rfl] at h
  exact (Except.ok.inj h).symm

theorem allblocksLoop_inv {Q : β → Prop} {fuel pos nextc : Nat}
    (hmove : ∀ pos' rc x, pos + nextc ≤ pos' → rc ≤ sdev.driver.maxBlocks → Q x →
      Q (move pos' rc x))
    (h : allblocksLoop sdev addr move fuel pos nextc c x = .ok y) (hx : Q x) : Q y := by
  induction fuel generalizing pos nextc c x with
  | zero => exact Except.ok.inj h ▸ hx
  | succ fuel ih =>
    rw [allblocksLoop] at h
    split_ifs at h
    · exact Except.ok.inj h ▸ hx
    split at h
    · cases h
    rename_i rc htrans
    have hrc : rc ≤ sdev.driver.maxBlocks := (transfer_le htrans).1 ▸ Nat.min_le_right ..
    exact ih (fun pos' rc' x hpos' => hmove pos' rc' x (by omega)) h
      (hmove _ _ _ (Nat.le_refl _) hrc hx)

/-- **A transfer in pieces**: the second piece is one of the first blocks. -/
theorem allblocks_pieces {Q : β → Prop} (h : allblocks sdev addr n move x = .ok y)
    (hnot : ¬Transfers sdev addr n)
    (hsecond : ∀ rc, 0 < rc → rc ≤ sdev.driver.maxBlocks →
      Q (move sdev.driver.maxBlocks rc (move 0 sdev.driver.maxBlocks x)))
    (hmove : ∀ pos rc x, sdev.driver.maxBlocks < pos → rc ≤ sdev.driver.maxBlocks → Q x →
      Q (move pos rc x)) : sdev.driver.maxBlocks < n ∧ Q y := by
  have hmax := maxBlocks_pos sdev.driver
  unfold allblocks at h
  split at h
  · cases h
  rename_i rc htrans
  obtain ⟨hrc, hcheck⟩ := transfer_le htrans
  have hlt : sdev.driver.maxBlocks < n := Nat.lt_of_not_le fun hle => hnot ⟨hle, hcheck⟩
  rw [Nat.min_eq_right (Nat.le_of_lt hlt)] at hrc
  subst hrc
  rw [if_neg (Nat.ne_of_lt hlt), allblocksLoop, if_neg (by omega)] at h
  split at h
  · cases h
  rename_i rc htrans
  have hrc := (transfer_le htrans).1
  rw [Nat.zero_add] at h
  exact ⟨hlt, allblocksLoop_inv (fun pos' rc' x hpos' => hmove pos' rc' x (by omega)) h
    (hsecond _ (by omega) (by omega))⟩

end

/-- A read in pieces gets the first block once more. -/
theorem readall_pieces (h : ksdevReadallblocks sdev addr n = .ok buf)
    (hnot : ¬Transfers sdev addr n) :
    sdev.driver.maxBlocks < n ∧ buf (sdev.driver.maxBlocks * sdev.sdBlocksize) =
      sdev.data (addr * sdev.sdBlocksize) := by
  have hpos := sdev.blocksize_pos
  refine allblocks_pieces (Q := fun buf : Nat → Byte =>
    buf (sdev.driver.maxBlocks * sdev.sdBlocksize) = sdev.data (addr * sdev.sdBlocksize)) h hnot
    (fun rc hrc _ => ?_) fun pos rc x hlt _ hx => ?_
  · have hin := Nat.mul_le_mul_right sdev.sdBlocksize hrc
    rw [Ksdev.fetch, if_pos (by rw [Nat.add_mul]; omega), Nat.sub_self, Nat.add_zero]
  · have hout := Nat.mul_lt_mul_of_pos_right hlt hpos
    rw [Ksdev.fetch, if_neg (by omega), hx]

/-- A write in pieces leaves the blocks behind the first piece as they were. -/
theorem writeall_pieces (h : ksdevWriteallblocks sdev addr n blocks = .ok sdev')
    (hnot : ¬Transfers sdev addr n) {p : Nat}
    (hp : (addr + sdev.driver.maxBlocks) * sdev.sdBlocksize ≤ p) :
    sdev.driver.maxBlocks < n ∧ sdev'.data p = sdev.data p := by
  have hstore {rc : Nat} (dev : Ksdev) (buf : Nat → Byte) (hrc : rc ≤ sdev.driver.maxBlocks) :
      (dev.store (addr * sdev.sdBlocksize) (rc * sdev.sdBlocksize) buf).data p = dev.data p := by
    have hle := Nat.mul_le_mul_right sdev.sdBlocksize (Nat.add_le_add_left hrc addr)
    rw [Nat.add_mul] at hle
    exact if_neg (by omega)
  exact allblocks_pieces (Q := fun dev : Ksdev => dev.data p = sdev.data p) h hnot
    (fun rc _ hrc => (hstore _ _ hrc).trans (hstore _ _ (Nat.le_refl _)))
    fun pos rc x _ hrc hx => (hstore _ _ hrc).trans hx

/-! ### The sectors in their blocks -/

theorem ceildiv_mul_lt (x : Nat) {y : Nat} (hy : 0 < y) :
    x ≤ y * ceildiv x y ∧ y * ceildiv x y < x + y := by
  have hdiv := Nat.div_add_mod (x + y - 1) y
  have hmod := Nat.mod_lt (x + y - 1) hy
  unfold ceildiv
  omega

theorem ceildiv_mul_left {y : Nat} (hy : 0 < y) (x : Nat) : ceildiv (y * x) y = x := by
  obtain ⟨hle, hlt⟩ := ceildiv_mul_lt (y * x) hy
  have hge := Nat.le_of_mul_le_mul_left hle hy
  exact Nat.le_antisymm (Nat.le_of_lt_succ (Nat.lt_of_mul_lt_mul_left hlt)) hge

/-- **A load** reads as many blocks as the bytes fill, and has to find the sectors in them. -/
theorem kfatfsLoadsectors_ok (h : kfatfsLoadsectors secsize sdev sec c = .ok buf) :
    ∃ lbabuf, ksdevReadallblocks sdev (sec * secsize / sdev.sdBlocksize)
        (ceildiv (secsize * c) sdev.sdBlocksize) = .ok lbabuf ∧
      sec * secsize % sdev.sdBlocksize + secsize * c ≤
        sdev.sdBlocksize * ceildiv (secsize * c) sdev.sdBlocksize ∧
      ∀ k, buf k = lbabuf (sec * secsize % sdev.sdBlocksize + k) := by
  have hpos := sdev.blocksize_pos
  unfold kfatfsLoadsectors at h
  dsimp only at h
  split_ifs at h with hsize _ _ hover
  · subst hsize
    rw [Nat.mul_div_cancel _ hpos, ceildiv_mul_left hpos, Nat.mul_mod_left]
    exact ⟨buf, h, by omega, fun k => by rw [Nat.zero_add]⟩
  · split at h <;> cases h
  split at h
  · cases h
  rename_i lbabuf hread
  cases h
  have hoff := Nat.div_add_mod' (sec * secsize) sdev.sdBlocksize
  rw [← Nat.sub_eq_of_eq_add' hoff.symm]
  exact ⟨lbabuf, hread, Nat.le_of_not_lt hover, fun _ => rfl⟩

/-- **A save** writes whole blocks only: that the sectors are made of them is asserted. -/
theorem kfatfsSavesectors_ok (h : kfatfsSavesectors secsize sdev sec c buf lbabuf = .ok sdev') :
    sdev.sdBlocksize ∣ sec * secsize ∧ sdev.sdBlocksize ∣ secsize * c ∧
      ∃ blocks, (∀ k < secsize * c, blocks k = buf k) ∧
        ksdevWriteallblocks sdev (sec * secsize / sdev.sdBlocksize)
          (ceildiv (secsize * c) sdev.sdBlocksize) blocks = .ok sdev' := by
  have hpos := sdev.blocksize_pos
  unfold kfatfsSavesectors at h
  dsimp only at h
  split_ifs at h with hsize _ hassert _ hupper
  · subst hsize
    rw [Nat.mul_div_cancel _ hpos, ceildiv_mul_left hpos]
    exact ⟨Nat.dvd_mul_left _ _, Nat.dvd_mul_right _ _, buf, fun _ _ => rfl, h⟩
  obtain ⟨hfits, halign⟩ := not_or.mp hassert
  have hoff := Nat.div_add_mod' (sec * secsize) sdev.sdBlocksize
  have hcount := ceildiv_mul_lt (secsize * c) hpos
  rw [Nat.sub_eq_of_eq_add' hoff.symm, Nat.mod_mod, not_ne_iff] at halign
  rw [Nat.sub_eq_of_eq_add' hoff.symm, halign] at h
  rw [Nat.mod_eq_of_lt (by omega), not_ne_iff] at hupper
  have hend : secsize * c = sdev.sdBlocksize * ceildiv (secsize * c) sdev.sdBlocksize := by omega
  refine ⟨Nat.dvd_of_mod_eq_zero halign, hend ▸ Nat.dvd_mul_right _ _, _, fun k hk => ?_, h⟩
  rw [if_pos (by omega), Nat.sub_zero]

/-- What is loaded are the bytes of the sectors, if the blocks are read at once. -/
theorem kfatfsLoadsectors_eq (h : kfatfsLoadsectors secsize sdev sec c = .ok buf)
    (hmax : ceildiv (secsize * c) sdev.sdBlocksize ≤ sdev.driver.maxBlocks) {k : Nat}
    (hk : k < secsize * c) : buf k = sdev.data (sec * secsize + k) := by
  obtain ⟨lbabuf, hread, hfits, hbuf⟩ := kfatfsLoadsectors_ok h
  rw [hbuf, allblocks_ok hread hmax, Ksdev.fetch, Nat.zero_mul, Nat.zero_add,
    Nat.mul_comm (ceildiv _ _), Nat.sub_zero, if_pos (by omega)]
  have hoff := Nat.div_add_mod' (sec * secsize) sdev.sdBlocksize
  congr 1
  omega

theorem store_congr {start count : Nat} {buf buf' : Nat → Byte}
    (h : ∀ k < count, buf k = buf' k) :
    sdev.store start count buf = sdev.store start count buf' := by
  simp only [Ksdev.store, Ksdev.mk.injEq, true_and]
  funext p
  split_ifs with hp
  · exact h _ (by omega)
  · rfl

/-- **A save** changes the bytes of the sectors, and no other one, if the blocks are written at
once. -/
theorem kfatfsSavesectors_eq (h : kfatfsSavesectors secsize sdev sec c buf lbabuf = .ok sdev')
    (hmax : ceildiv (secsize * c) sdev.sdBlocksize ≤ sdev.driver.maxBlocks) :
    sdev' = sdev.store (sec * secsize) (secsize * c) buf := by
  obtain ⟨hstart, ⟨m, hm⟩, blocks, hblocks, hwrite⟩ := kfatfsSavesectors_ok h
  have hend : ceildiv (secsize * c) sdev.sdBlocksize * sdev.sdBlocksize = secsize * c := by
    rw [hm, ceildiv_mul_left sdev.blocksize_pos, Nat.mul_comm]
  rw [allblocks_ok hwrite hmax, Nat.div_mul_cancel hstart, hend]
  refine store_congr fun k hk => ?_
  rw [Nat.zero_mul, Nat.zero_add, hblocks k hk]

theorem Ksdev.sector_le (self : Ksdev) (h : secsize ≤ 4096) :
    ceildiv (secsize * 1) self.sdBlocksize ≤ self.driver.maxBlocks := by
  have hpos := self.blocksize_pos
  obtain ⟨-, hlt⟩ := ceildiv_mul_lt (secsize * 1) hpos
  rcases self.blocksize_ata with hram | hata
  · rw [hram, Driver.maxBlocks]
    have hle := Nat.le_mul_of_pos_left (ceildiv (secsize * 1) self.sdBlocksize - 1) hpos
    rw [Nat.mul_sub] at hle
    omega
  · rw [hata] at hlt ⊢
    cases self.driver <;> simp only [Driver.maxBlocks] <;> omega

/-! ### Sectors inside of the device -/

/-- There are some sectors, and they lie on the device. -/
def OnDevice (secsize : Nat) (sdev : Ksdev) (sec c : Nat) : Prop :=
  0 < secsize * c ∧ sec * secsize + secsize * c ≤ sdev.sdBlockcount * sdev.sdBlocksize

/-- The bytes of the sectors are loaded, whatever the device holds. -/
def LoadsRight (secsize : Nat) (sdev : Ksdev) (sec c : Nat) : Prop :=
  ∀ data, ∃ buf, kfatfsLoadsectors secsize { sdev with data := data } sec c = .ok buf ∧
    ∀ k < secsize * c, buf k = data (sec * secsize + k)

/-- The bytes of the sectors are saved, and the other ones stay, whatever the buffer held. -/
def SavesRight (secsize : Nat) (sdev : Ksdev) (sec c : Nat) : Prop :=
  ∀ buf lbabuf, kfatfsSavesectors secsize sdev sec c buf lbabuf =
    .ok (sdev.store (sec * secsize) (secsize * c) buf)

/-- As many blocks as the bytes of the sectors fill, from the one on that they start in, are
transferred at once. -/
def AtOnce (secsize : Nat) (sdev : Ksdev) (sec c : Nat) : Prop :=
  Transfers sdev (sec * secsize / sdev.sdBlocksize) (ceildiv (secsize * c) sdev.sdBlocksize)

section
variable (h : OnDevice secsize sdev sec c)

include h

theorem OnDevice.inside : sec * secsize / sdev.sdBlocksize +
    ceildiv (secsize * c) sdev.sdBlocksize ≤ sdev.sdBlockcount ∧
      0 < ceildiv (secsize * c) sdev.sdBlocksize := by
  obtain ⟨hsome, hend⟩ := h
  have hpos := sdev.blocksize_pos
  have hcount := ceildiv_mul_lt (secsize * c) hpos
  have hlba := Nat.div_mul_le_self (sec * secsize) sdev.sdBlocksize
  refine ⟨Nat.le_of_lt_succ (Nat.lt_of_mul_lt_mul_right (a := sdev.sdBlocksize) ?_),
    Nat.pos_of_ne_zero fun hzero => ?_⟩
  · rw [Nat.add_mul, Nat.succ_mul, Nat.mul_comm (ceildiv _ _)]
    omega
  · rw [hzero] at hcount
    omega

/-- **A load** is right iff the sectors lie in the blocks that are read, at once. -/
theorem OnDevice.loads : LoadsRight secsize sdev sec c ↔
    sec * secsize % sdev.sdBlocksize + secsize * c ≤
      sdev.sdBlocksize * ceildiv (secsize * c) sdev.sdBlocksize ∧ AtOnce secsize sdev sec c := by
  obtain ⟨hblocks, hsome⟩ := h.inside
  have hpos := sdev.blocksize_pos
  have hoff := Nat.div_add_mod' (sec * secsize) sdev.sdBlocksize
  constructor
  · intro hright
    -- a device on which the first byte of the blocks is not like the others
    obtain ⟨buf, hload, hbytes⟩ := hright fun p =>
      if p = sec * secsize / sdev.sdBlocksize * sdev.sdBlocksize then 1 else 0
    obtain ⟨lbabuf, hread, hfits, hbuf⟩ := kfatfsLoadsectors_ok hload
    refine ⟨hfits, by_contra fun hnot => ?_⟩
    obtain ⟨hlt, hspike⟩ := readall_pieces hread hnot
    dsimp only at hspike hbuf hlt
    rw [if_pos rfl] at hspike
    have hmod := Nat.mod_lt (sec * secsize) hpos
    have hcount := (ceildiv_mul_lt (secsize * c) hpos).2
    have hmax := Nat.mul_le_mul_right sdev.sdBlocksize (maxBlocks_pos sdev.driver)
    have hpieces := Nat.mul_le_mul_right sdev.sdBlocksize hlt
    rw [Nat.succ_mul, Nat.mul_comm (ceildiv _ _)] at hpieces
    have hbyte := hbytes (sdev.driver.maxBlocks * sdev.sdBlocksize -
      sec * secsize % sdev.sdBlocksize) (by omega)
    rw [hbuf, Nat.add_sub_cancel' (by omega), hspike, if_neg (by omega)] at hbyte
    exact absurd hbyte (by decide)
  · rintro ⟨hfits, htrans⟩ data
    have hread : ksdevReadallblocks { sdev with data := data } _ _ = .ok _ :=
      Transfers.allblocks htrans hsome hblocks
    suffices hload : ∃ buf, kfatfsLoadsectors secsize { sdev with data := data } sec c = .ok buf by
      obtain ⟨buf, hload⟩ := hload
      exact ⟨buf, hload, fun k hk => kfatfsLoadsectors_eq hload htrans.1 hk⟩
    unfold kfatfsLoadsectors
    dsimp only at hread ⊢
    by_cases hsize : secsize = sdev.sdBlocksize
    · subst hsize
      rw [Nat.mul_div_cancel _ hpos, ceildiv_mul_left hpos] at hread hblocks
      rw [ceildiv_mul_left hpos] at hsome
      rw [if_pos rfl, if_neg (by omega), hread]
      exact ⟨_, rfl⟩
    · rw [if_neg hsize, if_neg (by omega), hread, Nat.sub_eq_of_eq_add' hoff.symm]
      exact ⟨_, if_neg (Nat.not_lt.mpr hfits)⟩

/-- **A save** is right iff the sectors are made of whole blocks, which are written at once. -/
theorem OnDevice.saves : SavesRight secsize sdev sec c ↔
    (sdev.sdBlocksize ∣ sec * secsize ∧ sdev.sdBlocksize ∣ secsize * c) ∧
      AtOnce secsize sdev sec c := by
  obtain ⟨hblocks, hsome⟩ := h.inside
  have hpos := sdev.blocksize_pos
  constructor
  · intro hright
    -- every byte that is written differs from the one that the device has behind the first piece
    have hsave := hright (fun _ => ~~~sdev.data
      ((sec * secsize / sdev.sdBlocksize + sdev.driver.maxBlocks) * sdev.sdBlocksize)) sdev.data
    obtain ⟨hstart, ⟨m, hm⟩, blocks, -, hwrite⟩ := kfatfsSavesectors_ok hsave
    refine ⟨⟨hstart, ⟨m, hm⟩⟩, by_contra fun hnot => ?_⟩
    obtain ⟨hlt, hold⟩ := writeall_pieces hwrite hnot (Nat.le_refl _)
    have hpieces := Nat.mul_lt_mul_of_pos_right hlt hpos
    rw [hm, ceildiv_mul_left hpos, Nat.mul_comm m, ← hm] at hpieces
    have hin : sec * secsize ≤ (sec * secsize / sdev.sdBlocksize + sdev.driver.maxBlocks) *
        sdev.sdBlocksize ∧ (sec * secsize / sdev.sdBlocksize + sdev.driver.maxBlocks) *
        sdev.sdBlocksize < sec * secsize + secsize * c := by
      rw [Nat.add_mul, Nat.div_mul_cancel hstart]
      omega
    have hflip := (if_pos hin).symm.trans hold
    bv_omega
  · rintro ⟨⟨hstart, m, hm⟩, htrans⟩ buf lbabuf
    have hwrite (blocks : Nat → Byte) : ksdevWriteallblocks sdev _ _ blocks = .ok _ :=
      Transfers.allblocks htrans hsome hblocks
    suffices hsave : ∃ sdev', kfatfsSavesectors secsize sdev sec c buf lbabuf = .ok sdev' by
      obtain ⟨sdev', hsave⟩ := hsave
      rw [hsave, kfatfsSavesectors_eq hsave htrans.1]
    unfold kfatfsSavesectors
    by_cases hsize : secsize = sdev.sdBlocksize
    · subst hsize
      rw [Nat.mul_div_cancel _ hpos, ceildiv_mul_left hpos] at hwrite hblocks
      rw [ceildiv_mul_left hpos] at hsome
      rw [if_pos rfl, if_neg (by omega), hwrite]
      exact ⟨_, rfl⟩
    · rw [if_neg hsize]
      dsimp only
      have hend : sdev.sdBlocksize * ceildiv (secsize * c) sdev.sdBlocksize = secsize * c := by
        rw [hm, ceildiv_mul_left hpos]
      rw [Nat.div_mul_cancel hstart, hend, Nat.sub_self, Nat.sub_self, Nat.zero_mod,
        if_neg (by omega), if_neg (by omega), if_neg (by omega), hwrite]
      exact ⟨_, rfl⟩

end

/-- A RAM disk with blocks of 1024 bytes. -/
def wideDev : Ksdev := ⟨.ramdisk, false, 1024, 8, fun _ => 0, by decide, .inl rfl⟩

end KosKernel.Fat
