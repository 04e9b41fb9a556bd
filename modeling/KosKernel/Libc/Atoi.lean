import KosKernel.Libc.Text
import Mathlib.Algebra.Group.Nat.Defs
import Mathlib.Algebra.Group.Int.Defs

/-!
# KosKernel.Libc.Atoi

**Reading integers** (`libs/libc/atoi.c`): `_strtou32` and its variants for 64 bits, for
signed numbers and for texts with a length.

The functions differ in the width, in the sign and in whether there is a bound, which are
parameters here. Digits are told by `CH2INT`, which takes the characters from `:` to `@` for
digits too; an overflow is noticed only when the new result is less than the old one, and
then `*endptr` is not written; the lowest signed number is clamped like those below it; and
a bounded text that ends behind `0x` is read at its bound. The condition of the main result
is what remains.
-/

namespace KosKernel.Libc.Atoi

open List

/-! ### The source -/

/-- `CH2INT` -/
def ch2int (c : Byte) : Int :=
  if (ascii 'a').toInt ≤ c.toInt then 10 + (c.toInt - (ascii 'a').toInt)
  else if (ascii 'A').toInt ≤ c.toInt then 10 + (c.toInt - (ascii 'A').toInt)
  else if (ascii '0').toInt ≤ c.toInt then c.toInt - (ascii '0').toInt
  else -1

/-- The result of a call: its value, whether it sets `errno` to `ERANGE`, and the number of
characters before the one that is stored in `*endptr`, if it is. -/
structure Parsed where
  value : Int
  erange : Bool
  endptr : Option Nat
  deriving DecidableEq, Repr

/-- The loop over the digits, at a number of characters from the start. It ends at the bound
of the text, or at the terminator, which is no digit. -/
def strtouLoop (w base : Nat) : List Byte → Nat → Nat → Parsed
  | [], result, pos => ⟨result, false, some pos⟩
  | ch :: string, result, pos =>
    let part := ch2int ch
    if 0 ≤ part ∧ part < base then
      let newresult := (result * base + part.toNat) % 2 ^ w
      if newresult < result then ⟨(2 ^ w - 1 : Nat), true, none⟩
      else strtouLoop w base string newresult (pos + 1)
    else ⟨result, false, some pos⟩

/-- `CONSUMENUMSYS` -/
def consumenumsys (s : TextPtr) : Except TextStop (Nat × TextPtr) := do
  if (← s.read .none) = ascii '0' then
    let s := s.next
    if (← s.read .none) = ascii 'x' then return (16, s.next)
    else if (← s.read .none) = ascii 'b' then return (2, s.next)
    else return (8, s)
  else return (10, s)

/-- `CONSUMENUMSYSN` -/
def consumenumsysn (bound : TextBound) (s : TextPtr) : Except TextStop (Nat × TextPtr) := do
  if (← s.read bound) = ascii '0' then
    let s := s.next
    if s.isEnd bound then return (10, s)
    else
      let ch ← s.read bound
      let s := if ch = ascii 'x' then s.next else s
      if ch = ascii 'x' ∧ !s.isEnd bound then return (16, s)
      else
        let ch ← s.read bound
        let s := if ch = ascii 'b' then s.next else s
        if ch = ascii 'b' ∧ !s.isEnd bound then return (2, s) else return (8, s)
  else return (10, s)

/-- `_strtou32` and `_strtou64`; with `bounded`, `_strntou32` and `_strntou64`. -/
def strtou (w : Nat) (bounded : Bool) (t : Text) (base : Nat) : Except TextStop Parsed := do
  if bounded ∧ (TextPtr.here t.chars).isEnd t.bound then return ⟨0, false, some 0⟩
  else
    let (base, ptr) ←
      if base = 0 then
        if bounded then consumenumsysn t.bound (.here t.chars) else consumenumsys (.here t.chars)
      else pure (base, .here t.chars)
    match ptr with
    | .here rest => return strtouLoop w base rest 0 (t.chars.length - rest.length)
    | .past => throw .overread

/-- The text behind a sign. -/
def unsigned (t : Text) : Text where
  chars := if t.chars.head? = some (ascii '-') then t.chars.tail else t.chars
  bound := t.bound
  nonzero := by
    split_ifs
    · exact fun h => t.nonzero (mem_of_mem_tail h)
    · exact t.nonzero

/-- What a signed function makes of the unsigned number behind the sign. -/
def clampSigned (w : Nat) (sign : Bool) (u : Parsed) : Parsed :=
  let endptr := u.endptr.map (· + if sign then 1 else 0)
  if 2 ^ (w - 1) ≤ u.value then
    ⟨if sign then -2 ^ (w - 1) else 2 ^ (w - 1) - 1, true, endptr⟩
  else ⟨if sign then -u.value else u.value, u.erange, endptr⟩

/-- `_strtos32` and `_strtos64`; with `bounded`, `_strntos32` and `_strntos64`. -/
def strtos (w : Nat) (bounded : Bool) (t : Text) (base : Nat) : Except TextStop Parsed := do
  let u ← strtou w bounded (unsigned t) base
  return clampSigned w (t.chars.head? = some (ascii '-')) u

def strtou32 (s : ZString) (base : Nat) := strtou 32 false s.text base
def strtou64 (s : ZString) (base : Nat) := strtou 64 false s.text base
def strtos32 (s : ZString) (base : Nat) := strtos 32 false s.text base
def strtos64 (s : ZString) (base : Nat) := strtos 64 false s.text base
def strntou32 (s : ZString) (max base : Nat) := strtou 32 true (s.cutAt max) base
def strntou64 (s : ZString) (max base : Nat) := strtou 64 true (s.cutAt max) base
def strntos32 (s : ZString) (max base : Nat) := strtos 32 true (s.cutAt max) base
def strntos64 (s : ZString) (max base : Nat) := strtos 64 true (s.cutAt max) base

/-! ### What the functions are for -/

/-- The value of a digit: the decimal digits, then the letters of either case. -/
def digit (c : Byte) : Option Nat :=
  if 48 ≤ c.toNat ∧ c.toNat ≤ 57 then some (c.toNat - 48)
  else if 65 ≤ c.toNat ∧ c.toNat ≤ 90 then some (c.toNat - 55)
  else if 97 ≤ c.toNat ∧ c.toNat ≤ 122 then some (c.toNat - 87)
  else none

/-- A digit of a base. -/
def isDigit (base : Nat) (c : Byte) : Bool := (digit c).any (· < base)

/-- The base, and what follows the marks that select it. -/
def number (base : Nat) (s : List Byte) : Nat × List Byte :=
  if base ≠ 0 then (base, s)
  else if s.take 2 = [ascii '0', ascii 'x'] then (16, s.drop 2)
  else if s.take 2 = [ascii '0', ascii 'b'] then (2, s.drop 2)
  else if s.take 1 = [ascii '0'] then (8, s.drop 1)
  else (10, s)

/-- The value of digits that follow a number. -/
def valueFrom (base v : Nat) (digits : List Nat) : Nat :=
  digits.foldl (fun v d => v * base + d) v

/-- The longest run of digits. -/
def run (base : Nat) (s : List Byte) : List Byte := s.takeWhile (isDigit base)

/-- The value of the longest run of digits. -/
def runValue (base : Nat) (s : List Byte) : Nat :=
  valueFrom base 0 ((run base s).map fun c => (digit c).getD 0)

/-- What an unsigned function should give. -/
def unsignedNumber (w base : Nat) (s : List Byte) : Parsed :=
  let (b, rest) := number base s
  let v := runValue b rest
  ⟨if v < 2 ^ w then v else (2 ^ w - 1 : Nat), decide (2 ^ w ≤ v),
    some (s.length - rest.length + (run b rest).length)⟩

/-- A signed number of `w` bits. -/
def inSigned (w : Nat) (x : Int) : Bool := decide (-2 ^ (w - 1) ≤ x ∧ x < 2 ^ (w - 1))

/-- What a signed function should give: the number, or the nearest that there is. -/
def signedNumber (w base : Nat) (s : List Byte) : Parsed :=
  let sign : Bool := s.head? = some (ascii '-')
  let t := if sign then s.tail else s
  let (b, rest) := number base t
  let x : Int := if sign then -runValue b rest else runValue b rest
  ⟨if inSigned w x then x else if sign then -2 ^ (w - 1) else 2 ^ (w - 1) - 1, !inSigned w x,
    some (t.length - rest.length + (run b rest).length + if sign then 1 else 0)⟩

/-- The call returns what it should; `stores` says that there is an `endptr`. -/
def ParseRight (stores : Bool) (result : Except TextStop Parsed) (wanted : Parsed) : Prop :=
  ∃ out, result = .ok out ∧ out.value = wanted.value ∧ out.erange = wanted.erange ∧
    (stores = true → out.endptr = wanted.endptr)

/-! ### The condition -/

/-- The character that the loop goes on at: `part >= 0 && part < base`. -/
def isPart (base : Nat) (c : Byte) : Bool := decide (0 ≤ ch2int c ∧ ch2int c < base)

/-- The characters that the loop takes for digits, if it does not stop before. -/
def taken (base : Nat) (s : List Byte) : List Byte := s.takeWhile (isPart base)

/-- The numbers that `CH2INT` gives for them. -/
def parts (base : Nat) (s : List Byte) : List Nat := (taken base s).map fun c => (ch2int c).toNat

def takenValue (base : Nat) (s : List Byte) : Nat := valueFrom base 0 (parts base s)

/-- Modulo `2 ^ w`, the value gets less with some digit. -/
def Drops (w base : Nat) : Nat → List Nat → Prop
  | _, [] => False
  | v, d :: digits =>
    (v * base + d) % 2 ^ w < v % 2 ^ w ∨ Drops w base (v * base + d) digits

/-- An overflow is noticed. -/
def Noticed (w base : Nat) (s : List Byte) : Prop := Drops w base 0 (parts base s)

/-- The condition for an unsigned number behind the marks of its base. -/
def UnsignedOk (w base : Nat) (stores : Bool) (s : List Byte) : Prop :=
  (runValue base s < 2 ^ w ∧ (taken base s = run base s ∨
    (stores = false ∧ ¬ Noticed w base s ∧ takenValue base s % 2 ^ w = runValue base s))) ∨
  (2 ^ w ≤ runValue base s ∧ stores = false ∧ Noticed w base s)

/-- The condition for a signed number behind its sign and the marks of its base. -/
def SignedOk (w base : Nat) (sign stores : Bool) (s : List Byte) : Prop :=
  (runValue base s < 2 ^ (w - 1) ∧ (taken base s = run base s ∨
    (stores = false ∧ ¬ Noticed w base s ∧ takenValue base s % 2 ^ w = runValue base s))) ∨
  (2 ^ (w - 1) ≤ runValue base s ∧ ¬(sign = true ∧ runValue base s = 2 ^ (w - 1)) ∧
    ((Noticed w base s ∧ stores = false) ∨
      (¬ Noticed w base s ∧ 2 ^ (w - 1) ≤ takenValue base s % 2 ^ w ∧
        (stores = true → taken base s = run base s))))

/-- The text ends at its bound, behind `0x`, and the base is to be found out. -/
def BareHex (base : Nat) (t : Text) : Prop :=
  base = 0 ∧ t.bound = .cut ∧ t.chars = [ascii '0', ascii 'x']

/-- **The exact condition for an unsigned function.** -/
def StrtouOk (w base : Nat) (stores : Bool) (t : Text) : Prop :=
  ¬ BareHex base t ∧ UnsignedOk w (number base t.chars).1 stores (number base t.chars).2

/-- **The exact condition for a signed function.** -/
def StrtosOk (w base : Nat) (stores : Bool) (t : Text) : Prop :=
  ¬ BareHex base (unsigned t) ∧
  SignedOk w (number base (unsigned t).chars).1 (decide (t.chars.head? = some (ascii '-'))) stores
    (number base (unsigned t).chars).2

/-! ### Digits -/

theorem ch2int_digit {c : Byte} {d : Nat} (h : digit c = some d) : ch2int c = d := by
  have ha : (ascii 'a').toInt = 97 := by decide
  have hA : (ascii 'A').toInt = 65 := by decide
  have h0 : (ascii '0').toInt = 48 := by decide
  unfold digit at h
  unfold ch2int
  have hint := BitVec.toInt_eq_toNat_cond c
  split_ifs at h <;> cases h <;> split_ifs at hint ⊢ <;> omega

theorem isPart_of_isDigit {base : Nat} {c : Byte} (h : isDigit base c = true) :
    isPart base c = true ∧ (ch2int c).toNat = (digit c).getD 0 := by
  unfold isDigit at h
  cases hd : digit c with
  | none => simp [hd] at h
  | some d =>
    have hlt : d < base := by simpa [hd] using h
    have hpart := ch2int_digit hd
    refine ⟨decide_eq_true ?_, by rw [hpart]; rfl⟩
    omega

/-- The run of digits is the first part of what the loop takes. -/
theorem run_prefix_taken (base : Nat) (s : List Byte) :
    ∃ rest, taken base s = run base s ++ rest := by
  induction s with
  | nil => exact ⟨[], rfl⟩
  | cons c s ih =>
    unfold taken run at *
    by_cases hc : isDigit base c = true
    · obtain ⟨rest, hrest⟩ := ih
      refine ⟨rest, ?_⟩
      rw [takeWhile_cons_of_pos hc, takeWhile_cons_of_pos (isPart_of_isDigit hc).1,
        hrest, cons_append]
    · exact ⟨_, by rw [takeWhile_cons_of_neg hc, nil_append]⟩

/-- The two runs are the same if they are of one length. -/
theorem taken_eq_run_iff {base : Nat} {s : List Byte} :
    taken base s = run base s ↔ (taken base s).length = (run base s).length := by
  obtain ⟨rest, hrest⟩ := run_prefix_taken base s
  rw [hrest]
  simp

theorem takenValue_of_eq {base : Nat} {s : List Byte} (h : taken base s = run base s) :
    takenValue base s = runValue base s := by
  unfold takenValue runValue parts
  rw [h]
  congr 1
  refine map_congr_left fun c hc => ?_
  exact (isPart_of_isDigit (all_eq_true.1 all_takeWhile c hc)).2

/-! ### The loop -/

section
variable {w base : Nat}

theorem valueFrom_cons (v d : Nat) (digits : List Nat) :
    valueFrom base v (d :: digits) = valueFrom base (v * base + d) digits := rfl

theorem le_append_digit (hbase : 0 < base) (v d : Nat) : v ≤ v * base + d :=
  (Nat.le_mul_of_pos_right v hbase).trans (Nat.le_add_right _ _)

theorem le_valueFrom (hbase : 0 < base) (digits : List Nat) :
    ∀ v, v ≤ valueFrom base v digits := by
  induction digits with
  | nil => exact fun v => le_rfl
  | cons d digits ih => exact fun v => (le_append_digit hbase v d).trans (ih _)

theorem not_drops_of_lt (hbase : 0 < base) {digits : List Nat} :
    ∀ {v : Nat}, valueFrom base v digits < 2 ^ w → ¬ Drops w base v digits := by
  induction digits with
  | nil => exact fun _ h => h
  | cons d digits ih =>
    intro v hlt hdrop
    have hle := le_append_digit hbase v d
    have hfits := (le_valueFrom hbase digits (v * base + d)).trans_lt hlt
    rcases hdrop with hdrop | hdrop
    · rw [Nat.mod_eq_of_lt hfits, Nat.mod_eq_of_lt (hle.trans_lt hfits)] at hdrop
      omega
    · exact ih hlt hdrop

/-- **The loop**: the value of what it takes, unless that drops at some digit. -/
theorem strtouLoop_spec (w base : Nat) (s : List Byte) : ∀ v pos,
    (Drops w base v (parts base s) ∧
      strtouLoop w base s (v % 2 ^ w) pos = ⟨(2 ^ w - 1 : Nat), true, none⟩) ∨
    (¬ Drops w base v (parts base s) ∧
      strtouLoop w base s (v % 2 ^ w) pos =
        ⟨(valueFrom base v (parts base s) % 2 ^ w : Nat), false,
          some (pos + (taken base s).length)⟩) := by
  induction s with
  | nil => exact fun v pos => .inr ⟨id, rfl⟩
  | cons c s ih =>
    intro v pos
    rw [strtouLoop, parts]
    by_cases hc : isPart base c = true
    · have htaken : taken base (c :: s) = c :: taken base s := takeWhile_cons_of_pos hc
      have hnew : (v % 2 ^ w * base + (ch2int c).toNat) % 2 ^ w =
          (v * base + (ch2int c).toNat) % 2 ^ w := by
        rw [Nat.add_mod, Nat.mod_mul_mod, ← Nat.add_mod]
      rw [htaken, map_cons, ← parts]
      simp only [if_pos (of_decide_eq_true hc), hnew]
      by_cases hdrop : (v * base + (ch2int c).toNat) % 2 ^ w < v % 2 ^ w
      · exact .inl ⟨.inl hdrop, if_pos hdrop⟩
      rw [if_neg hdrop]
      rcases ih (v * base + (ch2int c).toNat) (pos + 1) with ⟨hd, hval⟩ | ⟨hd, hval⟩
      · exact .inl ⟨.inr hd, hval⟩
      refine .inr ⟨fun h => h.elim hdrop hd, ?_⟩
      rw [hval, length_cons, valueFrom_cons]
      congr 2
      omega
    · rw [taken, takeWhile_cons_of_neg hc]
      simp only [if_neg (of_decide_eq_false (Bool.not_eq_true _ ▸ hc))]
      exact .inr ⟨id, rfl⟩

theorem strtouLoop_zero (w base : Nat) (s : List Byte) (pos : Nat) :
    (Noticed w base s ∧
      strtouLoop w base s 0 pos = ⟨(2 ^ w - 1 : Nat), true, none⟩) ∨
    (¬ Noticed w base s ∧
      strtouLoop w base s 0 pos =
        ⟨(takenValue base s % 2 ^ w : Nat), false, some (pos + (taken base s).length)⟩) := by
  have h := strtouLoop_spec w base s 0 pos
  rwa [Nat.zero_mod] at h

/-- When the loop gives the value of the digits, where this fits. -/
theorem value_right_iff (hbase : 0 < base) (stores : Bool) {s : List Byte} (pos : Nat)
    (hlt : runValue base s < 2 ^ w) :
    (¬ Noticed w base s ∧ takenValue base s % 2 ^ w = runValue base s ∧
      (stores = true → pos + (taken base s).length = pos + (run base s).length)) ↔
    (taken base s = run base s ∨
      (stores = false ∧ ¬ Noticed w base s ∧ takenValue base s % 2 ^ w = runValue base s)) := by
  constructor
  · rintro ⟨hn, hval, hend⟩
    cases stores with
    | false => exact .inr ⟨rfl, hn, hval⟩
    | true => exact .inl (taken_eq_run_iff.2 (Nat.add_left_cancel (hend rfl)))
  · rintro (heq | ⟨hstores, hn, hval⟩)
    · rw [← takenValue_of_eq heq] at hlt ⊢
      exact ⟨not_drops_of_lt hbase hlt, Nat.mod_eq_of_lt hlt, fun _ => by rw [heq]⟩
    · exact ⟨hn, hval, fun h => absurd h (by simp [hstores])⟩

/-- **The unsigned functions**, behind the marks of the base. -/
theorem unsigned_right_iff (hbase : 0 < base) (stores : Bool) (s : List Byte) (pos : Nat) :
    ParseRight stores (.ok (strtouLoop w base s 0 pos))
        ⟨if runValue base s < 2 ^ w then runValue base s else (2 ^ w - 1 : Nat),
          decide (2 ^ w ≤ runValue base s), some (pos + (run base s).length)⟩ ↔
      UnsignedOk w base stores s := by
  have hloop := strtouLoop_zero w base s pos
  unfold ParseRight UnsignedOk
  by_cases hlt : runValue base s < 2 ^ w
  · rw [← value_right_iff hbase stores pos hlt]
    have hcast : (takenValue base s : Int) % 2 ^ w = runValue base s ↔
        takenValue base s % 2 ^ w = runValue base s := by norm_cast
    rcases hloop with ⟨hn, hval⟩ | ⟨hn, hval⟩
    · simp [hval, hn, hlt]
    · simp [hval, hn, hlt, hcast]
  · rcases hloop with ⟨hn, hval⟩ | ⟨hn, hval⟩ <;> simp [hval, hn, hlt]

theorem inSigned_iff (sign : Bool) (v : Nat) :
    inSigned w (if sign then -(v : Int) else v) = true ↔
      v < 2 ^ (w - 1) ∨ (sign = true ∧ v = 2 ^ (w - 1)) := by
  have hlim : (2 : Int) ^ (w - 1) = ((2 ^ (w - 1) : Nat) : Int) := by norm_cast
  have hpos := Nat.two_pow_pos (w - 1)
  rw [inSigned, decide_eq_true_iff, hlim]
  cases sign with
  | false =>
    simp only [Bool.false_eq_true, if_false, false_and, or_false]
    omega
  | true =>
    simp only [if_true, true_and]
    omega

/-- **The signed functions**, behind the sign and the marks of the base. -/
theorem signed_right_iff (hbase : 0 < base) (hw : 0 < w) (sign stores : Bool) (s : List Byte)
    (pos : Nat) :
    ParseRight stores (.ok (clampSigned w sign (strtouLoop w base s 0 pos)))
        ⟨if inSigned w (if sign then -runValue base s else runValue base s) then
            (if sign then -runValue base s else runValue base s)
          else if sign then -2 ^ (w - 1) else 2 ^ (w - 1) - 1,
          !inSigned w (if sign then -runValue base s else runValue base s),
          some (pos + (run base s).length + if sign then 1 else 0)⟩ ↔
      SignedOk w base sign stores s := by
  have hloop := strtouLoop_zero w base s pos
  have hrange := inSigned_iff (w := w) sign (runValue base s)
  have hM : 2 ^ w = 2 * 2 ^ (w - 1) := by
    rw [← Nat.pow_succ', Nat.succ_eq_add_one, Nat.sub_add_cancel hw]
  have hlim : (2 : Int) ^ (w - 1) = ((2 ^ (w - 1) : Nat) : Int) := by norm_cast
  unfold ParseRight SignedOk clampSigned
  simp only [Except.ok.injEq, exists_eq_left', hlim]
  rcases Nat.lt_or_ge (runValue base s) (2 ^ (w - 1)) with hlt | hge
  · -- the number is one: it has to come out, without `ERANGE`
    have hin := hrange.2 (.inl hlt)
    have hfits : runValue base s < 2 ^ w := by omega
    rw [← value_right_iff hbase stores pos hfits]
    simp only [hin, if_true, Bool.not_true]
    rw [or_iff_left (by omega), and_iff_right hlt]
    rcases hloop with ⟨hn, hval⟩ | ⟨hn, hval⟩
    · rw [hval, if_pos (by dsimp only; omega)]
      simp [hn]
    rw [hval]
    by_cases hbig : 2 ^ (w - 1) ≤ takenValue base s % 2 ^ w
    · rw [if_pos (by dsimp only; omega)]
      refine iff_of_false (fun h => absurd h.2.1 (by simp)) fun h => ?_
      omega
    rw [if_neg (by dsimp only; omega)]
    have hsame : (if sign = true then -((takenValue base s % 2 ^ w : Nat) : Int)
        else ((takenValue base s % 2 ^ w : Nat) : Int)) =
          (if sign = true then -(runValue base s : Int) else runValue base s) ↔
        takenValue base s % 2 ^ w = runValue base s := by
      cases sign with
      | false => exact Int.ofNat_inj
      | true => exact Int.neg_inj.trans Int.ofNat_inj
    simp only [hsame, hn, not_false_iff, true_and, Option.map_some, Option.some.injEq,
      Nat.add_right_cancel_iff]
  rw [or_iff_right (by omega), and_iff_right hge]
  by_cases hedge : sign = true ∧ runValue base s = 2 ^ (w - 1)
  · -- the lowest number is not above the limit, so it is clamped
    obtain ⟨rfl, hv⟩ := hedge
    have hin := hrange.2 (.inr ⟨rfl, hv⟩)
    simp only [if_true] at hin ⊢
    simp only [hin, if_true, Bool.not_true]
    refine iff_of_false ?_ (fun h => h.1 ⟨trivial, hv⟩)
    rintro ⟨hvalue, herange, -⟩
    by_cases hbig : ((2 ^ (w - 1) : Nat) : Int) ≤ (strtouLoop w base s 0 pos).value
    · rw [if_pos hbig] at herange
      cases herange
    rw [if_neg hbig] at hvalue
    dsimp only at hvalue
    omega
  · have hout :
        inSigned w (if sign then -(runValue base s : Int) else runValue base s) = false := by
      rw [← Bool.not_eq_true, hrange]
      exact fun h => h.elim (fun h => by omega) hedge
    simp only [hout, Bool.false_eq_true, if_false, Bool.not_false, hedge, not_false_iff, true_and]
    rcases hloop with ⟨hn, hval⟩ | ⟨hn, hval⟩
    · rw [hval, if_pos (by dsimp only; omega)]
      simp [hn]
    rw [hval]
    by_cases hbig : 2 ^ (w - 1) ≤ takenValue base s % 2 ^ w
    · rw [if_pos (by dsimp only; omega)]
      simp [hn, hbig, taken_eq_run_iff]
    · rw [if_neg (by dsimp only; omega)]
      simp [hn, hbig]

end

/-! ### The marks of the base -/

theorem number_pos (base : Nat) (s : List Byte) : 0 < (number base s).1 := by
  unfold number
  split_ifs with hbase
  · exact Nat.pos_of_ne_zero hbase
  all_goals exact Nat.succ_pos _

theorem marks_ne : 0#8 ≠ ascii '0' ∧ 0#8 ≠ ascii 'x' ∧ 0#8 ≠ ascii 'b' ∧ ascii 'b' ≠ ascii 'x' := by
  decide

/-- Without a bound the marks are read as they should be. -/
theorem consumenumsys_eq (s : List Byte) :
    consumenumsys (.here s) = .ok ((number 0 s).1, .here (number 0 s).2) := by
  simp only [consumenumsys, bind, Except.bind, pure, Except.pure]
  cases s with
  | nil => simp [TextPtr.read, number, marks_ne]
  | cons c s =>
    by_cases hc : c = ascii '0'
    · cases s with
      | nil => simp [TextPtr.read, TextPtr.next, number, hc, marks_ne]
      | cons d s =>
        by_cases hdx : d = ascii 'x'
        · simp [TextPtr.read, TextPtr.next, number, hc, hdx]
        · by_cases hdb : d = ascii 'b' <;>
            simp [TextPtr.read, TextPtr.next, number, hc, hdx, hdb, marks_ne]
    · simp [TextPtr.read, number, hc]

/-- With a bound the marks are read as they should be, but for `0x` at the bound; there is
nothing behind those whose base comes out differently. -/
theorem consumenumsysn_eq (bound : TextBound) (s : List Byte) (hne : bound = .cut → s ≠ []) :
    (bound = .cut ∧ s = [ascii '0', ascii 'x'] ∧
      consumenumsysn bound (.here s) = .error .overread) ∨
    (¬(bound = .cut ∧ s = [ascii '0', ascii 'x']) ∧
      ∃ b, consumenumsysn bound (.here s) = .ok (b, .here (number 0 s).2) ∧
        (b = (number 0 s).1 ∨ (number 0 s).2 = [])) := by
  simp only [consumenumsysn, bind, Except.bind, pure, Except.pure]
  cases s with
  | nil =>
    cases bound with
    | cut => exact absurd rfl (hne rfl)
    | none | behind => simp [TextPtr.read, number, marks_ne]
  | cons c s =>
    by_cases hc : c = ascii '0'
    · subst hc
      cases s with
      | nil => cases bound <;> simp [TextPtr.read, TextPtr.next, TextPtr.isEnd, number, marks_ne]
      | cons d s =>
        by_cases hdx : d = ascii 'x'
        · subst hdx
          cases s <;> cases bound <;>
            simp [TextPtr.read, TextPtr.next, TextPtr.isEnd, number]
        by_cases hdb : d = ascii 'b'
        · subst hdb
          cases s <;> cases bound <;>
            simp [TextPtr.read, TextPtr.next, TextPtr.isEnd, number, marks_ne]
        · simp [TextPtr.read, TextPtr.next, TextPtr.isEnd, number, hdx, hdb]
    · simp [TextPtr.read, number, hc]

/-- **The unsigned call**: the loop, behind the marks of the base, unless these are read at
the bound. -/
theorem strtou_eq (w : Nat) (bounded : Bool) (t : Text) (base : Nat)
    (hcut : t.bound = .cut → bounded = true) :
    (BareHex base t ∧ strtou w bounded t base = .error .overread) ∨
    (¬ BareHex base t ∧ strtou w bounded t base =
      .ok (strtouLoop w (number base t.chars).1 (number base t.chars).2 0
        (t.chars.length - (number base t.chars).2.length))) := by
  simp only [strtou, bind, Except.bind, pure, Except.pure]
  by_cases hend : t.bound = .cut ∧ t.chars = []
  · obtain ⟨hc, hnil⟩ := hend
    have hrest : (number base []).2 = [] := by
      unfold number
      split_ifs <;> rfl
    refine .inr ⟨fun h => absurd (hnil.symm.trans h.2.2) (by simp), ?_⟩
    rw [if_pos ⟨hcut hc, by rw [hnil]; exact decide_eq_true hc⟩, hnil, hrest]
    rfl
  have hgo : ¬(bounded = true ∧ (TextPtr.here t.chars).isEnd t.bound = true) := by
    rintro ⟨-, h⟩
    cases hs : t.chars with
    | nil => exact hend ⟨by rw [hs] at h; exact of_decide_eq_true h, hs⟩
    | cons c s => rw [hs] at h; cases h
  rw [if_neg hgo]
  by_cases hbase : base = 0
  · subst hbase
    rw [if_pos rfl]
    cases bounded with
    | false =>
      rw [if_neg Bool.false_ne_true, consumenumsys_eq]
      exact .inr ⟨fun h => Bool.false_ne_true (hcut h.2.1), rfl⟩
    | true =>
      rw [if_pos rfl]
      rcases consumenumsysn_eq t.bound t.chars (fun hc hnil => hend ⟨hc, hnil⟩) with
        ⟨hc, hs, hread⟩ | ⟨hbare, b, hread, hb⟩
      · exact .inl ⟨⟨rfl, hc, hs⟩, by rw [hread]⟩
      refine .inr ⟨fun h => hbare h.2, ?_⟩
      rw [hread]
      -- The loop gives nothing on an empty text, in every base.
      rcases hb with rfl | hnil
      · rfl
      · rw [hnil]
        rfl
  · have hnumber : number base t.chars = (base, t.chars) := if_pos hbase
    refine .inr ⟨fun h => hbase h.1, ?_⟩
    rw [if_neg hbase, hnumber]

/-- **With a bound** the result is that without one for the same characters, but for a bare
`0x`. -/
theorem strtou_bounded (w : Nat) {t t' : Text} {base : Nat} (hchars : t'.chars = t.chars)
    (hbound : t'.bound = .none) (h : ¬ BareHex base t) :
    strtou w true t base = strtou w false t' base := by
  have hnot : ¬ BareHex base t' := by simp [BareHex, hbound]
  have hcall := (strtou_eq w true t base fun _ => rfl).resolve_left fun hbare => h hbare.1
  have hcall' := (strtou_eq w false t' base (by simp [hbound])).resolve_left
    fun hbare => hnot hbare.1
  rw [hcall.2, hcall'.2, hchars]

theorem strtos_bounded (w : Nat) {t t' : Text} {base : Nat} (hchars : t'.chars = t.chars)
    (hbound : t'.bound = .none) (h : ¬ BareHex base (unsigned t)) :
    strtos w true t base = strtos w false t' base := by
  have hrest : (unsigned t').chars = (unsigned t).chars := by simp only [unsigned, hchars]
  rw [strtos, strtos, strtou_bounded w hrest hbound h, hchars]

/-! ### When the calls give what they should -/

theorem not_parseRight_error (stores : Bool) (e : TextStop) (wanted : Parsed) :
    ¬ ParseRight stores (.error e) wanted := by
  rintro ⟨out, hout, -⟩
  cases hout

/-- **The unsigned functions.** -/
theorem strtou_right_iff (w : Nat) (bounded : Bool) (t : Text) (base : Nat) (stores : Bool)
    (hcut : t.bound = .cut → bounded = true) :
    ParseRight stores (strtou w bounded t base) (unsignedNumber w base t.chars) ↔
      StrtouOk w base stores t := by
  rcases strtou_eq w bounded t base hcut with ⟨hbare, hcall⟩ | ⟨hbare, hcall⟩
  · rw [hcall]
    exact iff_of_false (not_parseRight_error _ _ _) fun h => h.1 hbare
  · rw [hcall, StrtouOk, and_iff_right hbare]
    exact unsigned_right_iff (number_pos _ _) _ _ _

/-- **The signed functions.** -/
theorem strtos_right_iff (w : Nat) (hw : 0 < w) (bounded : Bool) (t : Text) (base : Nat)
    (stores : Bool) (hcut : t.bound = .cut → bounded = true) :
    ParseRight stores (strtos w bounded t base) (signedNumber w base t.chars) ↔
      StrtosOk w base stores t := by
  simp only [strtos, bind, Except.bind, pure, Except.pure]
  rcases strtou_eq w bounded (unsigned t) base hcut with ⟨hbare, hcall⟩ | ⟨hbare, hcall⟩
  · rw [hcall]
    exact iff_of_false (not_parseRight_error _ _ _) fun h => h.1 hbare
  rw [hcall, StrtosOk, and_iff_right hbare]
  have hchars : (if decide (t.chars.head? = some (ascii '-')) = true then t.chars.tail
      else t.chars) = (unsigned t).chars := by
    simp only [decide_eq_true_iff]
    rfl
  unfold signedNumber
  simp only [hchars]
  exact signed_right_iff (number_pos _ _) hw _ _ _ _

/-- **Reading integers**, when it is right: for every string, base and bound, and with and
without an `endptr`. -/
theorem parse_right_iff (s : ZString) (max base : Nat) (stores : Bool) :
    (ParseRight stores (strtou32 s base) (unsignedNumber 32 base s.chars) ↔
      StrtouOk 32 base stores s.text) ∧
    (ParseRight stores (strtou64 s base) (unsignedNumber 64 base s.chars) ↔
      StrtouOk 64 base stores s.text) ∧
    (ParseRight stores (strtos32 s base) (signedNumber 32 base s.chars) ↔
      StrtosOk 32 base stores s.text) ∧
    (ParseRight stores (strtos64 s base) (signedNumber 64 base s.chars) ↔
      StrtosOk 64 base stores s.text) ∧
    (ParseRight stores (strntou32 s max base) (unsignedNumber 32 base (s.chars.take max)) ↔
      StrtouOk 32 base stores (s.cutAt max)) ∧
    (ParseRight stores (strntou64 s max base) (unsignedNumber 64 base (s.chars.take max)) ↔
      StrtouOk 64 base stores (s.cutAt max)) ∧
    (ParseRight stores (strntos32 s max base) (signedNumber 32 base (s.chars.take max)) ↔
      StrtosOk 32 base stores (s.cutAt max)) ∧
    (ParseRight stores (strntos64 s max base) (signedNumber 64 base (s.chars.take max)) ↔
      StrtosOk 64 base stores (s.cutAt max)) := by
  have huncut : s.text.bound = .cut → false = true := fun h => by cases h
  have hbounded : (s.cutAt max).bound = .cut → true = true := fun _ => rfl
  have h32 : 0 < 32 := by decide
  have h64 : 0 < 64 := by decide
  exact ⟨strtou_right_iff 32 false s.text base stores huncut,
    strtou_right_iff 64 false s.text base stores huncut,
    strtos_right_iff 32 h32 false s.text base stores huncut,
    strtos_right_iff 64 h64 false s.text base stores huncut,
    strtou_right_iff 32 true (s.cutAt max) base stores hbounded,
    strtou_right_iff 64 true (s.cutAt max) base stores hbounded,
    strtos_right_iff 32 h32 true (s.cutAt max) base stores hbounded,
    strtos_right_iff 64 h64 true (s.cutAt max) base stores hbounded⟩

/-- The text `1:`. -/
def oneColon : ZString := ⟨[ascii '1', ascii ':'], by decide⟩

/-- **A colon is taken for a digit**: the text `1:` gives 26 in base 16, not 1. -/
theorem strtou32_colon :
    strtou32 oneColon 16 = .ok ⟨26, false, some 2⟩ ∧
    unsignedNumber 32 16 oneColon.chars = ⟨1, false, some 1⟩ ∧
    ¬ ParseRight true (strtou32 oneColon 16) (unsignedNumber 32 16 oneColon.chars) := by
  have hcall : strtou32 oneColon 16 = .ok ⟨26, false, some 2⟩ := by decide
  have hwanted : unsignedNumber 32 16 oneColon.chars = ⟨1, false, some 1⟩ := by decide
  refine ⟨hcall, hwanted, ?_⟩
  rintro ⟨out, hout, hvalue, -⟩
  cases hout
  exact absurd hvalue (by decide)

end KosKernel.Libc.Atoi
