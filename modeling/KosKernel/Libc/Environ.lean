import KosKernel.Lib.Blocks
import KosKernel.Libc.Quote

/-!
# KosKernel.Libc.Environ

**The environment of the C library** (`libs/libc/environ.c`).

`environ` is an array of lines `n=v`. At start-up the lines lie one after the other in a single
block, the text received from the kernel, and must not be released one by one; every line stored
later has a block of its own. The array is a block as well, or the static `__env_default` while
there is nothing to keep.

A pointer is a block and an offset in it. Where the code would assert something false, hand a
pointer that is not the begin of a live block to `free` or `realloc`, or leave the array, the
model stops with a `Fault`. The calls that repeat a change to the kernel are hints, whose outcome
the code ignores; they are left out.
-/

namespace KosKernel.Libc

scoped instance : LawfulBEq Byte := inferInstance

/-! ### Memory -/

/-- A string as it is handed over in a call: bytes without the terminating zero. -/
structure CString where
  bytes : List Byte
  terminated : 0 ∉ bytes
  deriving DecidableEq

structure Ptr where
  block : Nat
  offset : Nat
  deriving DecidableEq, Repr

/-- A word of the array; what `realloc` adds is not initialised. -/
inductive Slot where
  | null
  | line (p : Ptr)
  | junk
  deriving DecidableEq, Repr

/-- `__environ_v`: the static array or a block. -/
inductive EnvArray where
  | envDefault
  | heap (block : Nat)
  deriving DecidableEq, Repr

inductive Fault where
  | assertion
  | free
  | realloc
  | access
  deriving DecidableEq, Repr

structure Environ where
  blocks : Blocks
  /-- What a block holds, if it holds characters. -/
  chars : Nat → List Byte
  envtextBegin : Option Nat
  envtextEnd : Nat
  environV : EnvArray
  /-- The words of the array `environV`. -/
  slots : List Slot
  environC : Nat
  environA : Nat

/-- Which allocations of a call succeed. -/
structure Allocs where
  chars : Bool
  vector : Bool

namespace Environ

/-- The string at a pointer -/
def string (s : Environ) (p : Ptr) : List Byte :=
  ((s.chars p.block).drop p.offset).takeWhile (· ≠ 0)

/-- `line >= __envtext_begin && line < __envtext_end` -/
def inText (s : Environ) (p : Ptr) : Bool :=
  s.envtextBegin == some p.block && decide (p.offset < s.envtextEnd)

/-- A new block with the given characters -/
def malloc (s : Environ) (bytes : List Byte) : Environ :=
  { s with
    blocks := s.blocks.alloc
    chars := Function.update s.chars s.blocks.next bytes }

@[simp] theorem malloc_next (s : Environ) (bytes : List Byte) :
    (s.malloc bytes).blocks.next = s.blocks.next + 1 := rfl

def free (s : Environ) (p : Ptr) : Except Fault Environ :=
  if p.offset ≠ 0 then .error .free
  else match s.blocks.free p.block with
    | none => .error .free
    | some blocks => .ok { s with blocks }

/-- Lines in the initial text are left alone. -/
def freeLine (s : Environ) (p : Ptr) : Except Fault Environ :=
  if s.inText p then .ok s else s.free p

/-- `SET_ENVIRON(__env_default),__environ_a = __environ_c = 0` -/
def setDefault (s : Environ) : Environ :=
  { s with environV := .envDefault, slots := [.null], environC := 0, environA := 0 }

end Environ

/-- `strlen(line) > name_size && memcmp(line,name,name_size) == 0 && line[name_size] == '='` -/
def isLine (line name : List Byte) : Bool :=
  decide (name.length < line.length) && line.take name.length == name &&
    (line)[name.length]? == some (ascii '=')

/-! ### `user_initialize_environ` -/

/-- The loop over the text: where its lines start. The flag is set at the start of a line. -/
def lineStarts : List Byte → Nat → Bool → List Nat
  | [], _, _ => []
  | ch :: rest, iter, true =>
    if ch = 0 then [] else iter :: lineStarts rest (iter + 1) false
  | ch :: rest, iter, false => lineStarts rest (iter + 1) (ch == 0)

/-- The same loop: where it ends. -/
def textEnd : List Byte → Nat → Bool → Nat
  | [], iter, _ => iter
  | ch :: rest, iter, true => if ch = 0 then iter else textEnd rest (iter + 1) false
  | ch :: rest, iter, false => textEnd rest (iter + 1) (ch == 0)

/-- The environment before `user_initialize_environ`. -/
def Environ.static : Environ where
  blocks := .empty
  chars := fun _ => []
  envtextBegin := none
  envtextEnd := 0
  environV := .envDefault
  slots := [.null]
  environC := 0
  environA := 0

@[simp] theorem Environ.static_next : Environ.static.blocks.next = 0 := rfl

/-- `user_initialize_environ`; `text` is what `kos_allocenvtext` received. -/
def userInitializeEnviron (alloc : Allocs) (text : List Byte) : Environ :=
  if !alloc.chars then .static
  else
    let begin := Environ.static.blocks.next
    let s := Environ.static.malloc text
    let lines := lineStarts text 0 true
    if !alloc.vector then
      -- The text is released again.
      match s.free ⟨begin, 0⟩ with
      | .ok s => s
      | .error _ => s
    else
      { s with
        blocks := s.blocks.alloc
        envtextBegin := some begin
        envtextEnd := textEnd text 0 true
        environV := .heap s.blocks.next
        slots := lines.map (fun iter => .line ⟨begin, iter⟩) ++ [.null]
        environC := lines.length
        environA := lines.length }

/-! ### The calls -/

namespace Environ

/-- `(__environ_v != __env_default) == (__environ_c != 0)` -/
def consistent (s : Environ) : Bool := decide (s.environV ≠ .envDefault) == decide (s.environC ≠ 0)

/-- `__clearenv`; the blocks of the lines outside of the text are released in order. -/
def clearenv (s : Environ) : Except Fault Environ :=
  let old := s
  let s := { s.setDefault with envtextBegin := none, envtextEnd := 0 }
  match freeText s old.envtextBegin with
  | .error e => .error e
  | .ok s =>
    if !old.consistent then .error .assertion
    else if old.environC = 0 then .ok s
    else match freeLines old s (old.slots.take old.environC) with
      | .error e => .error e
      | .ok s => match old.environV with
        | .envDefault => .error .free
        | .heap env => s.free ⟨env, 0⟩
where
  /-- `free(old_text_begin)`, which may be a null pointer. -/
  freeText (s : Environ) : Option Nat → Except Fault Environ
    | none => .ok s
    | some begin => s.free ⟨begin, 0⟩
  freeLines (old : Environ) : Environ → List Slot → Except Fault Environ
    | s, [] => .ok s
    | s, .null :: rest => freeLines old s rest
    | _, .junk :: _ => .error .access
    | s, .line line :: rest =>
      if old.inText line then freeLines old s rest
      else match s.free line with
        | .error e => .error e
        | .ok s => freeLines old s rest

/-- The search of `__setenv`, from the last line to the first. -/
def findLast (s : Environ) (name : List Byte) : Nat → Except Fault (Option (Nat × Ptr))
  | 0 => .ok none
  | i + 1 => match s.slots[i]? with
    | some (.line line) =>
      if isLine (s.string line) name then .ok (some (i, line)) else findLast s name i
    | _ => .error .access

/-- The `realloc` of `__setenv`; `none` if there is no memory. -/
def grow (alloc : Allocs) (s : Environ) : Except Fault (Option Environ) :=
  if s.environA = s.environC then
    let newenva := if s.environA ≠ 0 then s.environA * 2 else 2
    match s.environV with
    | .envDefault => .error .realloc
    | .heap env =>
      if !alloc.vector then .ok none
      else match s.blocks.free env with
        | none => .error .realloc
        | some blocks => .ok (some { s with
            blocks := blocks.alloc
            environV := .heap blocks.next
            slots := s.slots ++ List.replicate (newenva + 1 - s.slots.length) .junk
            environA := newenva })
  else .ok (some s)

/-- Append a line and the terminator. -/
def append (s : Environ) (line : Ptr) : Except Fault Environ :=
  if s.environC + 1 < s.slots.length then
    .ok { s with
      slots := (s.slots.set s.environC (.line line)).set (s.environC + 1) .null
      environC := s.environC + 1 }
  else .error .access

/-- `__setenv` -/
def setenvl (alloc : Allocs) (s : Environ) (name value : List Byte) (overwrite : Bool) :
    Except Fault (Int × Environ) :=
  if !alloc.chars then .ok (-1, s)
  else
    let line : Ptr := ⟨s.blocks.next, 0⟩
    let s := s.malloc (name ++ ascii '=' :: value ++ [0])
    match s.findLast name s.environC with
    | .error e => .error e
    | .ok (some (i, existingLine)) =>
      if !overwrite then (s.free line).map fun s => (0, s)
      else (s.freeLine existingLine).map fun s =>
        (0, { s with slots := s.slots.set i (.line line) })
    | .ok none => match s.grow alloc with
      | .error e => .error e
      | .ok none => .ok (-1, s)
      | .ok (some s) => (s.append line).map fun s => (0, s)

/-- The search of `unsetenvl`, from the first line on. -/
def findFirst (s : Environ) (name : List Byte) :
    List Slot → Nat → Except Fault (Option (Nat × Ptr))
  | [], _ => .ok none
  | .null :: rest, i => findFirst s name rest (i + 1)
  | .junk :: _, _ => .error .access
  | .line line :: rest, i =>
    if isLine (s.string line) name then .ok (some (i, line)) else findFirst s name rest (i + 1)

/-- Take the word `i` out of the array. The move covers the words up to the last line and not the
terminator behind it. -/
def remove (s : Environ) (i : Nat) : Except Fault Environ :=
  let c := s.environC - 1
  let s := { s with
    environC := c
    slots := s.slots.take i ++ (s.slots.drop (i + 1)).take (c - i) ++ s.slots.drop c }
  if c ≠ 0 then .ok s
  else match s.environV with
    | .envDefault => .ok s.setDefault
    | .heap env => (s.free ⟨env, 0⟩).map setDefault

def unsetenvl (s : Environ) (name : List Byte) : Except Fault Environ :=
  match s.findFirst name (s.slots.take s.environC) 0 with
  | .error e => .error e
  | .ok none => .ok s
  | .ok (some (i, line)) => match s.freeLine line with
    | .error e => .error e
    | .ok s => s.remove i

/-- The loop of `getenvl`, up to the terminator. -/
def findValue (s : Environ) (name : List Byte) : List Slot → Except Fault (Option (List Byte))
  | [] => .error .access
  | .null :: _ => .ok none
  | .junk :: _ => .error .access
  | .line e :: rest =>
    if isLine (s.string e) name then .ok (some ((s.string e).drop (name.length + 1)))
    else findValue s name rest

def getenvl (s : Environ) (name : List Byte) : Except Fault (Option (List Byte)) :=
  if !s.consistent then .error .assertion
  else s.findValue name s.slots

end Environ

/-- A call of the program; `none` is a null pointer. -/
inductive EnvCall where
  | setenv (name value : Option CString) (overwrite : Bool)
  | putenv (string : CString)
  | unsetenv (name : Option CString)
  | clearenv
  | getenv (name : Option CString)

/-- What a call returns: a number, or the string at the returned pointer. -/
inductive EnvRet where
  | code (n : Int)
  | value (v : Option (List Byte))
  deriving DecidableEq

/-- The name in `n=v`: up to the first `=` -/
def nameOf (line : List Byte) : List Byte := line.takeWhile (· ≠ ascii '=')

/-- What follows the first `=` -/
def valueOf (line : List Byte) : List Byte := (line.dropWhile (· ≠ ascii '=')).drop 1

def Environ.exec (alloc : Allocs) (s : Environ) : EnvCall → Except Fault (EnvRet × Environ)
  | .setenv (some name) (some value) overwrite =>
    if ascii '=' ∈ name.bytes then .ok (.code (-1), s)
    else (s.setenvl alloc name.bytes value.bytes overwrite).map fun r => (.code r.1, r.2)
  | .setenv _ _ _ => .ok (.code (-1), s)
  | .putenv string =>
    if ascii '=' ∈ string.bytes then
      (s.setenvl alloc (nameOf string.bytes) (valueOf string.bytes) true).map
        fun r => (.code r.1, r.2)
    else (s.unsetenvl string.bytes).map fun s => (.code 0, s)
  | .unsetenv (some name) => (s.unsetenvl name.bytes).map fun s => (.code 0, s)
  | .unsetenv none => .ok (.code (-1), s)
  | .clearenv => s.clearenv.map fun s => (.code 0, s)
  | .getenv (some name) => (s.getenvl name.bytes).map fun v => (.value v, s)
  | .getenv none => .ok (.value none, s)

end KosKernel.Libc
