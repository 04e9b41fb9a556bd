import KosKernel.Libc.Quote

/-!
# KosKernel.Libc.Text

**Texts in memory**, as the string functions with and without a length read them.

A text ends at its terminator or, if the function has a length, at the bound if that comes
first. A pointer into it is the part of the text from there on. The terminator may be read,
but nothing behind it, nothing at the bound and nothing behind the bound.
-/

namespace KosKernel.Libc

/-- Where the bound of a text lies. -/
inductive TextBound where
  /-- There is none, or it is further away than one behind the terminator. -/
  | none
  /-- The text ends there, not at a terminator. -/
  | cut
  /-- One behind the terminator. -/
  | behind
  deriving DecidableEq, Repr

/-- A text: its characters and its bound. -/
structure Text where
  chars : List Byte
  bound : TextBound
  nonzero : 0 ∉ chars

/-- A zero-terminated string. -/
structure ZString where
  chars : List Byte
  nonzero : 0 ∉ chars

/-- A string without a bound. -/
def ZString.text (s : ZString) : Text := ⟨s.chars, .none, s.nonzero⟩

/-- A string with a bound. -/
def ZString.cutAt (s : ZString) (max : Nat) : Text where
  chars := s.chars.take max
  bound :=
    if max ≤ s.chars.length then .cut
    else if max = s.chars.length + 1 then .behind
    else .none
  nonzero := fun h => s.nonzero (List.mem_of_mem_take h)

/-- How a call on texts fails to return. -/
inductive TextStop where
  /-- A read behind the terminator, or at the bound or behind it. -/
  | overread
  /-- The bound of the model is too small. -/
  | outOfFuel
  deriving DecidableEq, Repr

/-- A pointer into a text, or behind its end. -/
inductive TextPtr where
  | here (rest : List Byte)
  | past
  deriving DecidableEq, Repr

namespace TextPtr

variable {bound : TextBound} {c : Byte} {rest : List Byte}

/-- `*ptr` -/
def read (bound : TextBound) : TextPtr → Except TextStop Byte
  | here (c :: _) => .ok c
  | here [] => if bound = .cut then .error .overread else .ok 0
  | past => .error .overread

/-- `++ptr` -/
def next : TextPtr → TextPtr
  | here (_ :: rest) => here rest
  | _ => past

/-- `ptr == end`, where the text has a bound. -/
def isEnd (bound : TextBound) : TextPtr → Bool
  | here [] => bound = .cut
  | here (_ :: _) => false
  | past => bound = .behind

/-- `ptr == end || !*ptr`, or without a bound `!*ptr`. -/
def atEnd (bound : TextBound) (ptr : TextPtr) : Except TextStop Bool :=
  if ptr.isEnd bound then .ok true else do return (← ptr.read bound) = 0

@[simp] theorem atEnd_nil : (here []).atEnd bound = .ok true := by
  cases bound <;> rfl

theorem atEnd_cons (h : c ≠ 0) : (here (c :: rest)).atEnd bound = .ok false :=
  congrArg Except.ok (decide_eq_false h)

end TextPtr

end KosKernel.Libc
