import Mathlib.Data.Nat.Bitwise
import Mathlib.Tactic.SplitIfs

/-!
# KosKernel.Lib.PackedFlags

**Flags packed into words**: every element has `bits` flags, and a word of width `w` has those
of `w / bits` elements. Setting and clearing a flag through the mask of its element changes that
flag and no other one.
-/

namespace KosKernel.PackedFlags

/-- The word of an element. -/
def addr (w bits i : Nat) : Nat := i / (w / bits)

/-- The bit of a flag in the word of its element. -/
def bit (w bits i b : Nat) : Nat := i % (w / bits) * bits + b

/-- The mask of some flags of an element. -/
def mask (w bits i flags : Nat) : BitVec w := BitVec.ofNat w (flags <<< (i % (w / bits) * bits))

variable {w : Nat}

/-- A flag of an element; words that do not exist have none. -/
def flag (v : List (BitVec w)) (bits i b : Nat) : Bool :=
  (v[addr w bits i]?.getD 0).getLsbD (bit w bits i b)

variable {v : List (BitVec w)} {x : BitVec w} {bits i j b c : Nat}

section

variable (hb : b < bits)

include hb

theorem per_pos (hw : bits ≤ w) : 0 < w / bits :=
  Nat.div_pos hw (Nat.zero_lt_of_lt hb)

theorem bit_lt (hw : bits ≤ w) : bit w bits i b < w := by
  have hmod := Nat.mod_lt i (per_pos hb hw)
  have hper := Nat.div_mul_le_self w bits
  have hle := Nat.mul_le_mul_right bits (Nat.succ_le_of_lt hmod)
  rw [Nat.succ_mul] at hle
  unfold bit
  omega

theorem bit_eq_iff (hc : c < bits) (haddr : addr w bits i = addr w bits j) :
    bit w bits i b = bit w bits j c ↔ i = j ∧ b = c := by
  refine ⟨fun hbit => ?_, fun heq => by rw [heq.1, heq.2]⟩
  have hpos := Nat.zero_lt_of_lt hb
  have hdiv : ∀ m d, d < bits → (m * bits + d) / bits = m ∧ (m * bits + d) % bits = d := by
    intro m d hd
    rw [Nat.add_comm, Nat.add_mul_div_right _ _ hpos, Nat.div_eq_of_lt hd,
      Nat.add_mul_mod_self_right, Nat.mod_eq_of_lt hd]
    exact ⟨Nat.zero_add m, rfl⟩
  unfold bit at hbit
  have hi := hdiv (i % (w / bits)) b hb
  have hj := hdiv (j % (w / bits)) c hc
  rw [hbit] at hi
  refine ⟨?_, hi.2.symm.trans hj.2⟩
  rw [← Nat.div_add_mod i (w / bits), ← Nat.div_add_mod j (w / bits), hi.1.symm.trans hj.1,
    show i / (w / bits) = j / (w / bits) from haddr]

theorem getLsbD_mask (hw : bits ≤ w) (k : Nat) :
    (mask w bits i (2 ^ b)).getLsbD k = decide (k = bit w bits i b) := by
  have hlt := bit_lt (i := i) hb hw
  rw [mask, Nat.shiftLeft_eq, ← Nat.pow_add, Nat.add_comm b, BitVec.getLsbD_ofNat,
    Nat.testBit_two_pow]
  unfold bit at *
  by_cases hk : k = i % (w / bits) * bits + b
  · simp [hk, hlt]
  · simp [hk, Ne.symm hk]

theorem and_mask_ne_zero (hw : bits ≤ w) :
    x &&& mask w bits i (2 ^ b) ≠ 0#w ↔ x.getLsbD (bit w bits i b) = true := by
  rw [← not_iff_not, not_not]
  constructor
  · intro hzero hbit
    have hand := congrArg (BitVec.getLsbD · (bit w bits i b)) hzero
    simp [BitVec.getLsbD_and, getLsbD_mask hb hw, hbit] at hand
  · intro hbit
    refine BitVec.eq_of_getLsbD_eq fun k _ => ?_
    rw [BitVec.getLsbD_and, getLsbD_mask hb hw, BitVec.getLsbD_zero]
    by_cases hk : k = bit w bits i b
    · rw [hk, Bool.eq_false_iff.mpr hbit, Bool.false_and]
    · rw [decide_eq_false hk, Bool.and_false]

theorem flag_test (hw : bits ≤ w) (hi : v[addr w bits i]? = some x) :
    x &&& mask w bits i (2 ^ b) ≠ 0#w ↔ flag v bits i b = true := by
  rw [and_mask_ne_zero hb hw, flag, hi, Option.getD_some]

theorem or_mask_of_bit (hw : bits ≤ w) (h : x.getLsbD (bit w bits i b) = true) :
    x ||| mask w bits i (2 ^ b) = x := by
  refine BitVec.eq_of_getLsbD_eq fun k _ => ?_
  rw [BitVec.getLsbD_or, getLsbD_mask hb hw]
  by_cases hk : k = bit w bits i b
  · rw [hk, h, Bool.true_or]
  · rw [decide_eq_false hk, Bool.or_false]

omit hb in
theorem flag_set (hi : v[addr w bits i]? = some x) (y : BitVec w) :
    flag (v.set (addr w bits i) y) bits j c =
      if addr w bits j = addr w bits i then y.getLsbD (bit w bits j c) else flag v bits j c := by
  unfold flag
  split_ifs with haddr
  · rw [haddr, List.getElem?_set_self (List.getElem?_eq_some_iff.mp hi).1, Option.getD_some]
  · rw [List.getElem?_set_ne (Ne.symm haddr)]

/-- **Setting a flag** sets no other one. -/
theorem flag_set_or (hc : c < bits) (hw : bits ≤ w) (hi : v[addr w bits i]? = some x) :
    flag (v.set (addr w bits i) (x ||| mask w bits i (2 ^ b))) bits j c =
      (flag v bits j c || decide (j = i ∧ c = b)) := by
  rw [flag_set hi]
  split_ifs with haddr
  · rw [BitVec.getLsbD_or, getLsbD_mask hb hw, flag, haddr, hi, Option.getD_some]
    simp only [bit_eq_iff hc hb haddr]
  · have hne : ¬(j = i ∧ c = b) := fun heq => haddr (by rw [heq.1])
    rw [decide_eq_false hne, Bool.or_false]

/-- **Clearing a flag** clears no other one. -/
theorem flag_set_andNot (hc : c < bits) (hw : bits ≤ w) (hi : v[addr w bits i]? = some x) :
    flag (v.set (addr w bits i) (x &&& ~~~mask w bits i (2 ^ b))) bits j c =
      (flag v bits j c && !decide (j = i ∧ c = b)) := by
  rw [flag_set hi]
  split_ifs with haddr
  · rw [BitVec.getLsbD_and, BitVec.getLsbD_not, getLsbD_mask hb hw, flag, haddr, hi,
      Option.getD_some, decide_eq_true (bit_lt hc hw), Bool.true_and]
    simp only [bit_eq_iff hc hb haddr]
  · have hne : ¬(j = i ∧ c = b) := fun heq => haddr (by rw [heq.1])
    rw [decide_eq_false hne, Bool.not_false, Bool.and_true]

end

end KosKernel.PackedFlags
