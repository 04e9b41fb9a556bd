import KosKernel.Libc.Environ
import Mathlib.Data.List.TakeWhile

/-!
# KosKernel.Libc.EnvironRuns

**The environment over a whole run of the program.**

What the program may expect is a table of variables (`Vars`), changed by `stored` as the calls
say. In the code three things go wrong: an empty text leaves an array that is not `__env_default`
with no line in it, which two assertions exclude; removing a variable does not move the
terminator; and the first variable of a cleared environment is stored by reallocating the static
array. `Meets` says when a call stays clear of them, and then the array lists exactly the
variables, in live memory, after every call.
-/

namespace KosKernel.Libc

open Function List

/-! ### Lines -/

/-- The line of a variable -/
def lineOf (name value : List Byte) : List Byte := name ++ ascii '=' :: value

variable {name : List Byte}

theorem isLine_iff {line : List Byte} :
    isLine line name = true ↔ ∃ value, line = lineOf name value := by
  simp only [isLine, Bool.and_eq_true, decide_eq_true_eq, beq_iff_eq]
  constructor
  · rintro ⟨⟨-, htake⟩, hget⟩
    refine ⟨line.drop (name.length + 1), ?_⟩
    obtain ⟨hlen, hget⟩ := List.getElem?_eq_some_iff.1 hget
    calc line = line.take name.length ++ line.drop name.length :=
          (take_append_drop _ _).symm
      _ = lineOf name (line.drop (name.length + 1)) := by
          rw [htake, drop_eq_getElem_cons hlen, hget, lineOf]
  · rintro ⟨value, rfl⟩
    simp [lineOf]

theorem differs {x : Byte} {line : List Byte} (h : x ∉ line) :
    ∀ ch ∈ line, decide (ch ≠ x) = true := by
  intro ch hch
  have hne : ch ≠ x := fun heq => h (heq ▸ hch)
  simpa using hne

theorem nameOf_lineOf (hname : ascii '=' ∉ name) (value : List Byte) :
    nameOf (lineOf name value) = name := by
  rw [nameOf, lineOf, takeWhile_append_of_pos (differs hname)]
  simp

variable {n v : List Byte}

/-- Names without `=` can be read off their lines. -/
theorem eq_of_isLine {n' : List Byte} (hn : ascii '=' ∉ n) (hn' : ascii '=' ∉ n')
    (hline : isLine (lineOf n v) n' = true) : n = n' := by
  obtain ⟨v', h⟩ := isLine_iff.1 hline
  rw [← nameOf_lineOf hn v, h, nameOf_lineOf hn' v']

theorem zero_mem_lineOf : 0 ∈ lineOf n v ↔ 0 ∈ n ∨ 0 ∈ v := by
  have heq : (0 : Byte) ≠ ascii '=' := by decide
  rw [lineOf, mem_append, mem_cons, or_iff_right heq]

theorem not_mem_nameOf (line : List Byte) : ascii '=' ∉ nameOf line := by
  intro hmem
  have := mem_takeWhile_imp hmem
  simp at this

/-- A string with `=` is the line of its name and its value. -/
theorem lineOf_nameOf_valueOf {line : List Byte} (h : ascii '=' ∈ line) :
    lineOf (nameOf line) (valueOf line) = line := by
  have hdrop : line.dropWhile (· ≠ ascii '=') ≠ [] := by
    intro hnil
    have := dropWhile_eq_nil_iff.1 hnil _ h
    simp at this
  obtain ⟨ch, rest, hcons⟩ := exists_cons_of_ne_nil hdrop
  have hch : ch = ascii '=' := by
    have := head_dropWhile_not (· ≠ ascii '=') hdrop
    simp only [hcons, head_cons] at this
    simpa using this
  have hsplit := takeWhile_append_dropWhile (p := (· ≠ ascii '=')) (l := line)
  rw [hcons, hch] at hsplit
  rw [lineOf, nameOf, valueOf, hcons, drop_one, tail_cons]
  exact hsplit

/-! ### The variables -/

/-- What the program may expect: the value stored under each name. -/
abbrev Vars := List Byte → Option (List Byte)

/-- The variables after a call that returned `ret`. -/
def stored (m : Vars) : EnvCall → EnvRet → Vars
  | .setenv (some name) (some value) overwrite, ret =>
    if ret = .code 0 ∧ (overwrite = true ∨ m name.bytes = none) then
      update m name.bytes (some value.bytes)
    else m
  | .putenv string, ret =>
    if ascii '=' ∈ string.bytes then
      if ret = .code 0 then
        update m (nameOf string.bytes) (some (valueOf string.bytes))
      else m
    else update m string.bytes none
  | .unsetenv (some name), _ => update m name.bytes none
  | .clearenv, _ => fun _ => none
  | _, _ => m

/-- A text of the kernel: lines `n=v`, one for each variable, and a final zero. -/
structure EnvText where
  vars : List (CString × CString)
  names : ∀ x ∈ vars, ascii '=' ∉ x.1.bytes
  distinct : (vars.map (·.1.bytes)).Nodup

def EnvText.bytes (text : EnvText) : List Byte :=
  text.vars.flatMap (fun x => lineOf x.1.bytes x.2.bytes ++ [0]) ++ [0]

/-- The names and values of a text -/
def EnvText.pairs (text : EnvText) : List (List Byte × List Byte) :=
  text.vars.map fun x => (x.1.bytes, x.2.bytes)

/-- The variables of a text -/
def EnvText.lookup (text : EnvText) : Vars := fun n =>
  (text.vars.find? (·.1.bytes = n)).map (·.2.bytes)

namespace Environ

/-- Some line starts with `name=`. -/
def HasLine (s : Environ) (name : List Byte) : Prop :=
  ∃ p, .line p ∈ s.slots.take s.environC ∧ isLine (s.string p) name = true

/-- A variable may be stored unless that reallocates the static array. -/
def Storable (alloc : Allocs) (s : Environ) : Prop :=
  alloc.chars = false ∨ s.environV ≠ .envDefault

/-- A variable may be removed if it is the only one, or not there. -/
def Removable (s : Environ) (name : List Byte) : Prop :=
  ¬ s.HasLine name ∨ ascii '=' ∉ name ∧ s.environC = 1

/-- **When a call goes well.** -/
def Meets (alloc : Allocs) (s : Environ) : EnvCall → Prop
  | .setenv (some name) (some _) _ => ascii '=' ∈ name.bytes ∨ s.Storable alloc
  | .setenv _ _ _ => True
  | .putenv string =>
    if ascii '=' ∈ string.bytes then s.Storable alloc else s.Removable string.bytes
  | .unsetenv (some name) => s.Removable name.bytes
  | .unsetenv none => True
  | .clearenv => s.consistent = true
  | .getenv (some name) =>
    s.consistent = true ∧ (ascii '=' ∈ name.bytes → ¬ s.HasLine name.bytes)
  | .getenv none => True

/-- The states of the runs all of whose calls go well, with what the program may expect. -/
inductive Run : Environ → Vars → Prop
  | start (alloc : Allocs) (text : EnvText) :
      Run (userInitializeEnviron alloc text.bytes)
        (if alloc.chars && alloc.vector then text.lookup else fun _ => none)
  | call {s s' : Environ} {m : Vars} {ret : EnvRet} (alloc : Allocs) (call : EnvCall) :
      Run s m → s.Meets alloc call → s.exec alloc call = .ok (ret, s') →
      Run s' (stored m call ret)

/-! ### The invariant -/

/-- The blocks that are released line by line -/
def ownBlocks (s : Environ) (lines : List Ptr) : List Nat :=
  (lines.filter (!s.inText ·)).map Ptr.block

/-- The lines of the array, what they spell, and who owns which block. -/
structure Inv (s : Environ) (m : Vars) (lines : List Ptr)
    (vars : List (List Byte × List Byte)) : Prop where
  slots : ∃ rest, s.slots = lines.map .line ++ .null :: rest
  count : s.environC = lines.length
  room : s.slots.length = s.environA + 1
  static : s.environV = .envDefault → lines = []
  array : ∀ b, s.environV = .heap b →
    s.blocks.live b = true ∧ s.envtextBegin ≠ some b ∧ b ∉ s.ownBlocks lines
  text : ∀ t, s.envtextBegin = some t → s.blocks.live t = true
  own : ∀ p ∈ lines, s.inText p = false →
    p.offset = 0 ∧ s.blocks.live p.block = true ∧ s.envtextBegin ≠ some p.block
  nodup : (s.ownBlocks lines).Nodup
  strings : lines.map s.string = vars.map fun x => lineOf x.1 x.2
  names : ∀ x ∈ vars, ascii '=' ∉ x.1
  distinct : (vars.map Prod.fst).Nodup
  expected : ∀ n v, m n = some v ↔ (n, v) ∈ vars

variable {s s' : Environ} {m : Vars} {lines : List Ptr} {vars : List (List Byte × List Byte)}

/-- A block the environment still needs -/
def Uses (s : Environ) (lines : List Ptr) (b : Nat) : Prop :=
  s.envtextBegin = some b ∨ s.environV = .heap b ∨ b ∈ s.ownBlocks lines

variable {b : Nat}

theorem mem_ownBlocks : b ∈ s.ownBlocks lines ↔ ∃ p ∈ lines, s.inText p = false ∧ p.block = b := by
  simp [ownBlocks, and_assoc]

variable {p : Ptr}

theorem inText_block (h : s.inText p = true) : s.envtextBegin = some p.block := by
  simp only [inText, Bool.and_eq_true, beq_iff_eq] at h
  exact h.1

theorem Uses.of_line (hp : p ∈ lines) : s.Uses lines p.block := by
  cases hin : s.inText p with
  | true => exact .inl (inText_block hin)
  | false => exact .inr (.inr (mem_ownBlocks.2 ⟨p, hp, hin, rfl⟩))

section

variable (h : Inv s m lines vars)

include h

theorem Inv.live (hb : s.Uses lines b) : s.blocks.live b = true := by
  rcases hb with htext | hvec | hown
  · exact h.text b htext
  · exact (h.array b hvec).1
  · obtain ⟨p, hp, hin, rfl⟩ := mem_ownBlocks.1 hown
    exact (h.own p hp hin).2.1

omit h in
theorem string_congr (h : s'.chars p.block = s.chars p.block) : s'.string p = s.string p := by
  rw [string, string, h]

theorem Inv.frame {blocks : Blocks} {chars : Nat → List Byte}
    (hlive : ∀ b, s.Uses lines b → blocks.live b = true)
    (hchars : ∀ b, s.Uses lines b → chars b = s.chars b) :
    Inv { s with blocks, chars } m lines vars :=
  { h with
    array b hb := ⟨hlive b (.inr (.inl hb)), (h.array b hb).2⟩
    text t ht := hlive t (.inl ht)
    own p hp hin := ⟨(h.own p hp hin).1, hlive _ (Uses.of_line hp), (h.own p hp hin).2.2⟩
    strings := by
      rw [← h.strings]
      exact map_congr_left fun p hp => string_congr (hchars _ (Uses.of_line hp)) }

theorem Inv.not_uses_next : ¬ s.Uses lines s.blocks.next := by
  intro huse
  have := h.live huse
  rw [s.blocks.not_live_next] at this
  cases this

theorem Inv.malloc (bytes : List Byte) : Inv (s.malloc bytes) m lines vars := by
  refine h.frame (fun b hb => Blocks.alloc_live (h.live hb)) fun b hb => ?_
  refine update_of_ne (fun heq => ?_) _ _
  exact h.not_uses_next (heq ▸ hb)

theorem Inv.free (hb : s.blocks.live b = true) (hnot : ¬ s.Uses lines b) :
    ∃ s', s.free ⟨b, 0⟩ = .ok s' ∧ Inv s' m lines vars := by
  obtain ⟨blocks, hfree, -, hlive⟩ := Blocks.free_of_live hb
  refine ⟨{ s with blocks }, by simp [Environ.free, hfree], ?_⟩
  refine h.frame (fun c hc => ?_) fun _ _ => rfl
  have hne : c ≠ b := fun heq => hnot (heq ▸ hc)
  show blocks.live c = true
  rw [hlive, update_of_ne hne]
  exact h.live hc

/-! ### The searches -/

theorem Inv.take_slots : s.slots.take s.environC = lines.map .line := by
  obtain ⟨rest, hrest⟩ := h.slots
  rw [hrest, h.count]
  exact take_left' (by simp)

/-- The words behind the terminator are the room that is left. -/
theorem Inv.room_left {rest : List Slot} (hslots : s.slots = lines.map .line ++ .null :: rest) :
    s.environC + rest.length = s.environA := by
  have hroom := h.room
  have hcount := h.count
  simp only [hslots, length_append, length_map, length_cons] at hroom
  omega

variable {name : List Byte}

theorem Inv.hasLine_iff : s.HasLine name ↔ ∃ p ∈ lines, isLine (s.string p) name = true := by
  rw [HasLine, h.take_slots]
  simp

/-- A line found under a name without `=` belongs to that variable. -/
theorem Inv.found (hp : p ∈ lines) (hname : ascii '=' ∉ name)
    (hline : isLine (s.string p) name = true) :
    ∃ v, s.string p = lineOf name v ∧ m name = some v := by
  have hmem : s.string p ∈ vars.map fun x => lineOf x.1 x.2 :=
    h.strings ▸ mem_map_of_mem hp
  obtain ⟨⟨n, v⟩, hx, heq⟩ := mem_map.1 hmem
  have hn : n = name := by
    rw [← heq] at hline
    exact eq_of_isLine (h.names _ hx) hname hline
  subst hn
  exact ⟨v, heq.symm, (h.expected n v).2 hx⟩

theorem Inv.not_found (hnone : ∀ p ∈ lines, isLine (s.string p) name = false) : m name = none := by
  cases hm : m name with
  | none => rfl
  | some v =>
    have hmem : lineOf name v ∈ lines.map s.string := by
      rw [h.strings]
      exact mem_map.2 ⟨(name, v), (h.expected name v).1 hm, rfl⟩
    obtain ⟨p, hp, heq⟩ := mem_map.1 hmem
    have := hnone p hp
    rw [heq, isLine_iff.2 ⟨v, rfl⟩] at this
    cases this

end

theorem findLast_spec (s : Environ) (name : List Byte) {lines : List Ptr} {rest : List Slot}
    (hslots : s.slots = lines.map .line ++ rest) {i : Nat} (hi : i ≤ lines.length) :
    (s.findLast name i = .ok none ∧ ∀ p ∈ lines.take i, isLine (s.string p) name = false) ∨
      ∃ pre p post, lines = pre ++ p :: post ∧ isLine (s.string p) name = true ∧
        s.findLast name i = .ok (some (pre.length, p)) := by
  induction i with
  | zero => exact .inl ⟨rfl, by simp⟩
  | succ i ih =>
    have hlt : i < lines.length := hi
    have hget : s.slots[i]? = some (.line lines[i]) := by
      rw [hslots, getElem?_append_left (by simpa using hlt), getElem?_map,
        getElem?_eq_getElem hlt, Option.map_some]
    have hsplit : lines = lines.take i ++ lines[i] :: lines.drop (i + 1) := by
      rw [← drop_eq_getElem_cons hlt, take_append_drop]
    have hround : s.findLast name (i + 1) =
        if isLine (s.string lines[i]) name then .ok (some (i, lines[i]))
        else s.findLast name i := by
      rw [findLast, hget]
    rw [hround]
    cases hline : isLine (s.string lines[i]) name with
    | true =>
      refine .inr ⟨_, _, _, hsplit, hline, ?_⟩
      rw [if_pos rfl, length_take, Nat.min_eq_left (Nat.le_of_lt hlt)]
    | false =>
      rcases ih (Nat.le_of_lt hlt) with ⟨hnone, hall⟩ | hsome
      · refine .inl ⟨hnone, ?_⟩
        rw [take_add_one, getElem?_eq_getElem hlt]
        exact forall_mem_append.2 ⟨hall, forall_mem_singleton.2 hline⟩
      · exact .inr hsome

theorem findFirst_spec (s : Environ) (name : List Byte) (lines : List Ptr) (k : Nat) :
    (s.findFirst name (lines.map .line) k = .ok none ∧
      ∀ p ∈ lines, isLine (s.string p) name = false) ∨
      ∃ pre p post, lines = pre ++ p :: post ∧ isLine (s.string p) name = true ∧
        s.findFirst name (lines.map .line) k = .ok (some (k + pre.length, p)) := by
  induction lines generalizing k with
  | nil => exact .inl ⟨rfl, by simp⟩
  | cons q lines ih =>
    cases hline : isLine (s.string q) name with
    | true => exact .inr ⟨[], q, lines, rfl, hline, by simp [findFirst, hline]⟩
    | false =>
      have hnext : s.findFirst name ((q :: lines).map .line) k =
          s.findFirst name (lines.map .line) (k + 1) := by
        simp [findFirst, hline]
      rw [hnext]
      rcases ih (k + 1) with ⟨hnone, hall⟩ | ⟨pre, p, post, hsplit, hp, hsome⟩
      · exact .inl ⟨hnone, forall_mem_cons.2 ⟨hline, hall⟩⟩
      · refine .inr ⟨q :: pre, p, post, by simp [hsplit], hp, ?_⟩
        rw [hsome, length_cons, Nat.add_right_comm, Nat.add_assoc]

theorem findValue_spec (s : Environ) (name : List Byte) (lines : List Ptr) (rest : List Slot) :
    (s.findValue name (lines.map .line ++ .null :: rest) = .ok none ∧
      ∀ p ∈ lines, isLine (s.string p) name = false) ∨
      ∃ p ∈ lines, isLine (s.string p) name = true ∧
        s.findValue name (lines.map .line ++ .null :: rest) =
          .ok (some ((s.string p).drop (name.length + 1))) := by
  induction lines with
  | nil => exact .inl ⟨rfl, by simp⟩
  | cons q lines ih =>
    cases hline : isLine (s.string q) name with
    | true => exact .inr ⟨q, by simp, hline, by simp [findValue, hline]⟩
    | false =>
      have hnext : s.findValue name ((q :: lines).map .line ++ .null :: rest) =
          s.findValue name (lines.map .line ++ .null :: rest) := by
        simp [findValue, hline]
      rw [hnext]
      rcases ih with ⟨hnone, hall⟩ | ⟨p, hp, hvalue⟩
      · exact .inl ⟨hnone, forall_mem_cons.2 ⟨hline, hall⟩⟩
      · exact .inr ⟨p, by simp [hp], hvalue⟩

/-! ### Storing a variable -/

/-- A live block that the environment does not use yet. -/
def Spare (s : Environ) (lines : List Ptr) (b : Nat) : Prop :=
  s.blocks.live b = true ∧ ¬ s.Uses lines b

theorem ownBlocks_append (s : Environ) (xs ys : List Ptr) :
    s.ownBlocks (xs ++ ys) = s.ownBlocks xs ++ s.ownBlocks ys := by
  simp [ownBlocks]

theorem Spare.not_inText (h : s.Spare lines b) (offset : Nat) : s.inText ⟨b, offset⟩ = false := by
  cases hin : s.inText ⟨b, offset⟩ with
  | false => rfl
  | true => exact absurd (.inl (inText_block hin)) h.2

theorem ownBlocks_singleton (h : s.inText p = false) : s.ownBlocks [p] = [p.block] := by
  simp [ownBlocks, h]

variable {pre post : List Ptr} {old : Ptr}

section

variable (h : Inv s m (pre ++ old :: post) vars)

include h

theorem Inv.freeLine :
    ∃ blocks : Blocks, s.freeLine old = .ok { s with blocks } ∧ ∀ b, s.blocks.live b = true →
      (s.inText old = false → b ≠ old.block) → blocks.live b = true := by
  rw [Environ.freeLine]
  cases hin : s.inText old with
  | true => exact ⟨s.blocks, rfl, fun b hb _ => hb⟩
  | false =>
    obtain ⟨hoff, hlive, -⟩ := h.own old (by simp) hin
    obtain ⟨blocks, hfree, -, hafter⟩ := Blocks.free_of_live hlive
    refine ⟨blocks, by simp [Environ.free, hoff, hfree], fun b hb hne => ?_⟩
    rw [hafter, update_of_ne (hne rfl)]
    exact hb

/-- The block of a line outside of the text is used for that line only. -/
theorem Inv.ne_old (hb : s.Uses (pre ++ post) b) (hin : s.inText old = false) : b ≠ old.block := by
  rintro rfl
  have hold : old.block ∈ s.ownBlocks (pre ++ old :: post) :=
    mem_ownBlocks.2 ⟨old, by simp, hin, rfl⟩
  rcases hb with htext | hvec | hown
  · exact (h.own old (by simp) hin).2.2 htext
  · exact (h.array _ hvec).2.2 hold
  have hnd := h.nodup
  rw [append_cons, ownBlocks_append, ownBlocks_append, ownBlocks_singleton hin] at hnd
  rw [ownBlocks_append] at hown
  grind

theorem Inv.split (hname : ascii '=' ∉ name) (hold : isLine (s.string old) name = true) :
    ∃ vpre v vpost, vars = vpre ++ (name, v) :: vpost ∧
      pre.map s.string = vpre.map (fun x => lineOf x.1 x.2) ∧
      post.map s.string = vpost.map (fun x => lineOf x.1 x.2) := by
  have hstrings := h.strings
  rw [map_append, map_cons, eq_comm] at hstrings
  obtain ⟨vpre, vtail, rfl, hpre, htail⟩ := map_eq_append_iff.1 hstrings
  obtain ⟨⟨n, v⟩, vpost, rfl, hx, hpost⟩ := map_eq_cons_iff.1 htail
  have hn : n = name := by
    rw [← hx] at hold
    exact eq_of_isLine (h.names (n, v) (by simp)) hname hold
  subst hn
  exact ⟨vpre, v, vpost, rfl, hpre.symm, hpost.symm⟩

variable {new : Nat} {value : List Byte}

omit h in
/-- A value is stored beside those of the other names. -/
theorem expected_cons {rest : List (List Byte × List Byte)} (hfresh : ∀ w, (name, w) ∉ rest)
    (hother : ∀ n w, n ≠ name → (m n = some w ↔ (n, w) ∈ rest)) (n w : List Byte) :
    update m name (some value) n = some w ↔ (n, w) ∈ (name, value) :: rest := by
  by_cases hn : n = name
  · subst hn
    simp [hfresh, eq_comm]
  · rw [update_of_ne hn, hother n w hn]
    simp [hn]

/-- **A new line takes the place of an old one.** -/
theorem Inv.replace (hname : ascii '=' ∉ name) (hold : isLine (s.string old) name = true)
    (hspare : s.Spare (pre ++ old :: post) new) (hstring : s.string ⟨new, 0⟩ = lineOf name value) :
    ∃ s' vars', s.freeLine old = .ok s' ∧
      Inv { s' with slots := s'.slots.set pre.length (.line ⟨new, 0⟩) }
        (update m name (some value)) (pre ++ ⟨new, 0⟩ :: post) vars' := by
  obtain ⟨blocks, hfree, hlive⟩ := h.freeLine
  obtain ⟨vpre, v, vpost, rfl, hpre, hpost⟩ := h.split hname hold
  have hin := hspare.not_inText 0
  have hown : s.ownBlocks (pre ++ ⟨new, 0⟩ :: post) =
      s.ownBlocks pre ++ new :: s.ownBlocks post := by
    rw [append_cons, ownBlocks_append, ownBlocks_append, ownBlocks_singleton hin,
      append_assoc, singleton_append]
  have hsub : (s.ownBlocks (pre ++ post)).Sublist (s.ownBlocks (pre ++ old :: post)) :=
    (((sublist_cons_self old post).append_left pre).filter _).map _
  have huse : ∀ b, s.Uses (pre ++ post) b → s.Uses (pre ++ old :: post) b :=
    fun b => Or.imp_right (Or.imp_right (hsub.subset ·))
  have hlive' : ∀ b, s.Uses (pre ++ post) b → blocks.live b = true := fun b hb =>
    hlive b (h.live (huse b hb)) (h.ne_old hb)
  have hnew : blocks.live new = true := by
    refine hlive new hspare.1 fun hout heq => hspare.2 ?_
    exact .inr (.inr (mem_ownBlocks.2 ⟨old, by simp, hout, heq.symm⟩))
  have hnd := h.nodup.sublist hsub
  rw [ownBlocks_append] at hnd hsub
  have hnot : new ∉ s.ownBlocks pre ++ s.ownBlocks post := fun hmem =>
    hspare.2 (.inr (.inr (hsub.subset hmem)))
  refine ⟨{ s with blocks }, vpre ++ (name, value) :: vpost, hfree, ?_⟩
  obtain ⟨rest, hslots⟩ := h.slots
  refine ⟨⟨rest, ?_⟩, ?_, ?_, ?_, ?_, ?_, ?_, ?_, ?_, ?_, ?_, ?_⟩
  · show s.slots.set pre.length _ = _
    rw [hslots]
    simp
  · simpa using h.count
  · simpa using h.room
  · intro hstatic
    exact absurd (h.static hstatic) (by simp)
  · intro b hb
    obtain ⟨-, htext, harr⟩ := h.array b hb
    refine ⟨hlive' b (.inr (.inl hb)), htext, ?_⟩
    show b ∉ s.ownBlocks _
    have hne : b ≠ new := fun heq => hspare.2 (.inr (.inl (heq ▸ hb)))
    grind
  · exact fun t ht => hlive' t (.inl ht)
  · intro p hp hout
    rcases mem_cons.1 (perm_middle.mem_iff.1 hp) with rfl | hp'
    · exact ⟨rfl, hnew, fun htext => hspare.2 (.inl htext)⟩
    · have hmem := perm_middle.mem_iff.2 (mem_cons_of_mem old hp')
      obtain ⟨hoff, -, htext⟩ := h.own p hmem hout
      exact ⟨hoff, hlive' _ (Uses.of_line hp'), htext⟩
  · show (s.ownBlocks _).Nodup
    rw [hown]
    exact nodup_middle.2 (nodup_cons.2 ⟨hnot, hnd⟩)
  · show List.map s.string _ = _
    simp [hpre, hpost, hstring]
  · have hnames := h.names
    rw [forall_mem_append, forall_mem_cons] at hnames ⊢
    exact ⟨hnames.1, hname, hnames.2.2⟩
  · simpa using h.distinct
  · intro n w
    have hnd := nodup_cons.1 ((perm_middle.map Prod.fst).nodup_iff.1 h.distinct)
    rw [perm_middle.mem_iff]
    refine expected_cons (fun w hw => hnd.1 (mem_map.2 ⟨_, hw, rfl⟩)) (fun n w hn => ?_) n w
    rw [h.expected n w]
    simp [hn]

end

section

variable (alloc : Allocs) (h : Inv s m lines vars)

include h

/-- **A new line is appended** where the array has room for it. -/
theorem Inv.append (hname : ascii '=' ∉ name)
    (hnone : ∀ p ∈ lines, isLine (s.string p) name = false) (hspare : s.Spare lines new)
    (hstring : s.string ⟨new, 0⟩ = lineOf name value) (hroom : s.environC < s.environA)
    (hvec : s.environV ≠ .envDefault) :
    ∃ s', s.append ⟨new, 0⟩ = .ok s' ∧
      Inv s' (update m name (some value)) (lines ++ [⟨new, 0⟩])
        (vars ++ [(name, value)]) := by
  have hin := hspare.not_inText 0
  have hown : s.ownBlocks (lines ++ [⟨new, 0⟩]) = s.ownBlocks lines ++ [new] := by
    rw [ownBlocks_append, ownBlocks_singleton hin]
  have hnew : new ∉ s.ownBlocks lines := fun hmem => hspare.2 (.inr (.inr hmem))
  have hfresh : ∀ w, (name, w) ∉ vars := by
    intro w hw
    have := h.not_found hnone
    rw [(h.expected name w).2 hw] at this
    cases this
  have hlen : s.environC + 1 < s.slots.length := by
    have := h.room
    omega
  refine ⟨_, by rw [Environ.append, if_pos hlen], ?_⟩
  obtain ⟨rest, hslots⟩ := h.slots
  have hleft := h.room_left hslots
  obtain ⟨x, rest, rfl⟩ := exists_cons_of_length_pos (show 0 < rest.length by omega)
  refine ⟨⟨rest, ?_⟩, ?_, ?_, fun hstatic => absurd hstatic hvec, ?_, h.text,
    ?_, ?_, ?_, ?_, ?_, ?_⟩
  · show (s.slots.set s.environC _).set (s.environC + 1) _ = _
    rw [hslots, h.count]
    simp
  · simpa using h.count
  · simpa using h.room
  · intro b hb
    obtain ⟨hlive, htext, harr⟩ := h.array b hb
    refine ⟨hlive, htext, ?_⟩
    show b ∉ s.ownBlocks _
    have hne : b ≠ new := fun heq => hspare.2 (.inr (.inl (heq ▸ hb)))
    rw [hown]
    simp [harr, hne]
  · refine forall_mem_append.2 ⟨h.own, forall_mem_singleton.2 fun _ => ?_⟩
    exact ⟨rfl, hspare.1, fun htext => hspare.2 (.inl htext)⟩
  · show (s.ownBlocks _).Nodup
    rw [hown, nodup_append]
    exact ⟨h.nodup, by simp, fun a ha b hb heq => hnew (by simp_all)⟩
  · show List.map s.string _ = _
    simp [h.strings, hstring]
  · exact forall_mem_append.2 ⟨h.names, forall_mem_singleton.2 hname⟩
  · rw [map_append, nodup_append]
    refine ⟨h.distinct, by simp, fun a ha b hb heq => ?_⟩
    obtain ⟨⟨n, w⟩, hx, rfl⟩ := mem_map.1 ha
    obtain rfl : n = name := by simp_all
    exact hfresh w hx
  · intro n w
    rw [(perm_append_singleton _ _).mem_iff]
    exact expected_cons hfresh (fun n w _ => h.expected n w) n w

/-- The array grows if it is full; then there is room for a line. -/
theorem Inv.grow (hspare : s.Spare lines new)
    (hvec : s.environV ≠ .envDefault) :
    s.grow alloc = .ok none ∨ ∃ s', s.grow alloc = .ok (some s') ∧ Inv s' m lines vars ∧
      s'.Spare lines new ∧ s'.chars = s.chars ∧ s'.environC < s'.environA ∧
      s'.environV ≠ .envDefault := by
  obtain ⟨rest, hslots⟩ := h.slots
  have hleft := h.room_left hslots
  rw [Environ.grow]
  by_cases hfull : s.environA = s.environC
  swap
  · rw [if_neg hfull]
    exact .inr ⟨s, rfl, h, hspare, rfl, by omega, hvec⟩
  rw [if_pos hfull]
  cases hv : s.environV with
  | envDefault => exact absurd hv hvec
  | heap env =>
    cases hok : alloc.vector with
    | false => exact .inl rfl
    | true =>
      obtain ⟨hlive, htext, harr⟩ := h.array env hv
      obtain ⟨blocks, hfree, hnext, hafter⟩ := Blocks.free_of_live hlive
      have hkeep : ∀ b, b ≠ env → s.blocks.live b = true → blocks.alloc.live b = true := by
        intro b hne hb
        refine Blocks.alloc_live ?_
        rw [hafter, update_of_ne hne]
        exact hb
      have hlt : ∀ b, s.blocks.live b = true → b ≠ blocks.next := by
        intro b hb
        rw [hnext]
        exact Nat.ne_of_lt (s.blocks.lt_next b hb)
      simp only [Bool.not_true, Bool.false_eq_true, if_false, hfree]
      refine .inr ⟨_, rfl, ?_, ⟨?_, ?_⟩, rfl, ?_, (fun h => by cases h)⟩
      · refine ⟨?_, h.count, ?_, (fun h => by cases h), ?_, ?_, ?_, h.nodup, h.strings, h.names,
          h.distinct, h.expected⟩
        · exact ⟨rest ++ _, by rw [hslots, append_assoc, cons_append]⟩
        · have := h.room
          simp only [length_append, length_replicate]
          split <;> omega
        · intro b hb
          obtain rfl : blocks.next = b := by simpa using hb
          refine ⟨blocks.alloc_live_self, fun ht => hlt _ (h.text _ ht) rfl, fun hmem => ?_⟩
          exact hlt _ (h.live (.inr (.inr hmem))) rfl
        · exact fun t ht => hkeep t (fun heq => htext (heq ▸ ht)) (h.text t ht)
        · intro p hp hout
          obtain ⟨hoff, hplive, hptext⟩ := h.own p hp hout
          refine ⟨hoff, hkeep _ (fun heq => harr ?_) hplive, hptext⟩
          exact heq ▸ mem_ownBlocks.2 ⟨p, hp, hout, rfl⟩
      · exact hkeep new (fun heq => hspare.2 (.inr (.inl (heq ▸ hv)))) hspare.1
      · rintro (huse | huse | huse)
        · exact hspare.2 (.inl huse)
        · obtain rfl : blocks.next = new := by simpa using huse
          exact hlt _ hspare.1 rfl
        · exact hspare.2 (.inr (.inr huse))
      · show s.environC < if s.environA ≠ 0 then s.environA * 2 else 2
        split <;> omega

omit h in
theorem string_malloc (s : Environ) (hname : 0 ∉ name) (hvalue : 0 ∉ value) :
    (s.malloc (name ++ ascii '=' :: value ++ [0])).string ⟨s.blocks.next, 0⟩ =
      lineOf name value := by
  have hline : 0 ∉ lineOf name value := fun hmem => (zero_mem_lineOf.1 hmem).elim hname hvalue
  simp only [string, Environ.malloc, update_self, drop_zero]
  rw [← lineOf, takeWhile_append_of_pos (differs hline)]
  simp

/-- **`__setenv`** stores the variable, or leaves the variables as they are. -/
theorem setenvl_spec (overwrite : Bool)
    (hname : ascii '=' ∉ name) (hname0 : 0 ∉ name) (hvalue0 : 0 ∉ value)
    (hmeets : s.Storable alloc) :
    ∃ ret s' lines' vars', s.setenvl alloc name value overwrite = .ok (ret, s') ∧
      Inv s' (if ret = 0 ∧ (overwrite = true ∨ m name = none) then
        update m name (some value) else m) lines' vars' := by
  cases hchars : alloc.chars with
  | false => exact ⟨-1, s, lines, vars, by simp [setenvl, hchars], by simpa using h⟩
  | true =>
    have hvec : s.environV ≠ .envDefault := by simpa [Storable, hchars] using hmeets
    have hinv := h.malloc (name ++ ascii '=' :: value ++ [0])
    have hstring := s.string_malloc hname0 hvalue0
    have hspare : (s.malloc (name ++ ascii '=' :: value ++ [0])).Spare lines s.blocks.next :=
      ⟨Blocks.alloc_live_self _, h.not_uses_next⟩
    have hvec1 : (s.malloc (name ++ ascii '=' :: value ++ [0])).environV ≠ .envDefault := hvec
    simp only [setenvl, hchars, Bool.not_true, Bool.false_eq_true, if_false]
    generalize s.malloc (name ++ ascii '=' :: value ++ [0]) = s1 at *
    generalize s.blocks.next = new at *
    obtain ⟨rest, hslots⟩ := hinv.slots
    have hall : lines.take s1.environC = lines := by rw [hinv.count, take_length]
    rcases findLast_spec s1 name hslots hinv.count.le with
      ⟨hnone, hno⟩ | ⟨pre, old, post, rfl, hold, hsome⟩
    · rw [hall] at hno
      simp only [hnone, hinv.not_found hno, or_true, and_true]
      rcases hinv.grow alloc hspare hvec1 with
        hgrow | ⟨s2, hgrow, hinv2, hspare2, hsame, hroom, hvec2⟩
      · exact ⟨-1, s1, lines, vars, by rw [hgrow], by simpa using hinv⟩
      have hstrings : ∀ p, s2.string p = s1.string p := fun p =>
        string_congr (congrFun hsame _)
      obtain ⟨s3, happ, hinv3⟩ := hinv2.append hname (fun p hp => hstrings p ▸ hno p hp)
        hspare2 ((hstrings _).trans hstring) hroom hvec2
      refine ⟨0, s3, lines ++ [⟨new, 0⟩], vars ++ [(name, value)], ?_, by simpa using hinv3⟩
      rw [hgrow]
      simp only [happ, Except.map]
    · obtain ⟨v, -, hm⟩ := hinv.found (by simp) hname hold
      simp only [hsome]
      cases overwrite with
      | false =>
        obtain ⟨s2, hfree, hinv2⟩ := hinv.free hspare.1 hspare.2
        refine ⟨0, s2, pre ++ old :: post, vars, ?_, by simpa [hm] using hinv2⟩
        simp only [hfree, Bool.not_false, if_true, Except.map]
      | true =>
        obtain ⟨s2, vars', hfree, hinv2⟩ := hinv.replace hname hold hspare hstring
        refine ⟨0, _, pre ++ ⟨new, 0⟩ :: post, vars', ?_, by simpa using hinv2⟩
        simp only [hfree, Bool.not_true, Bool.false_eq_true, if_false, Except.map]

/-! ### Removing variables -/

omit h in
/-- The environment without a variable, in the static array. -/
theorem Inv.cleared (hV : s.environV = .envDefault) (hslots : s.slots = [.null])
    (hC : s.environC = 0) (hA : s.environA = 0)
    (htext : ∀ t, s.envtextBegin = some t → s.blocks.live t = true) :
    Inv s (fun _ => none) [] [] := by
  refine ⟨⟨[], by simp [hslots]⟩, by simp [hC], by simp [hslots, hA], fun _ => rfl, ?_, htext,
    by simp, by simp [ownBlocks], rfl, by simp, by simp, by simp⟩
  intro b hb
  rw [hV] at hb
  cases hb

/-- **`unsetenv`** removes the variable if it is the only one. -/
theorem unsetenvl_spec (hmeets : s.Removable name) :
    ∃ s' lines' vars', s.unsetenvl name = .ok s' ∧
      Inv s' (update m name none) lines' vars' := by
  rw [unsetenvl, h.take_slots]
  rcases findFirst_spec s name lines 0 with ⟨hnone, hno⟩ | ⟨pre, old, post, rfl, hold, hsome⟩
  · refine ⟨s, lines, vars, by rw [hnone], ?_⟩
    rw [← h.not_found hno, update_eq_self]
    exact h
  have hhas : s.HasLine name := h.hasLine_iff.2 ⟨old, by simp, hold⟩
  obtain ⟨hname, hone⟩ := hmeets.resolve_left (not_not_intro hhas)
  -- The only variable: nothing stands before or behind it.
  have hlen := h.count
  rw [hone, length_append, length_cons] at hlen
  obtain rfl : pre = [] := eq_nil_of_length_eq_zero (by omega)
  obtain rfl : post = [] := eq_nil_of_length_eq_zero (by omega)
  obtain ⟨vpre, v, vpost, rfl, hpre, hpost⟩ := h.split hname hold
  obtain rfl : vpre = [] := by simpa using hpre.symm
  obtain rfl : vpost = [] := by simpa using hpost.symm
  have hm : update m name none = fun _ => none := by
    funext n
    by_cases hn : n = name
    · rw [hn, update_self]
    rw [update_of_ne hn]
    cases hmn : m n with
    | none => rfl
    | some w => exact absurd ((h.expected n w).1 hmn) (by simp [hn])
  obtain ⟨blocks, hfree, hlive⟩ := h.freeLine
  cases hv : s.environV with
  | envDefault => exact absurd (h.static hv) (by simp)
  | heap env =>
    have henv : blocks.live env = true :=
      hlive env (h.array env hv).1 (h.ne_old (.inr (.inl hv)))
    obtain ⟨blocks2, hfree2, -, hafter⟩ := Blocks.free_of_live henv
    refine ⟨{ s with blocks := blocks2 }.setDefault, [], [], ?_, ?_⟩
    · simp only [hsome, hfree]
      simp [remove, hone, hv, Environ.free, hfree2, Except.map, setDefault]
    · rw [hm]
      refine Inv.cleared rfl rfl rfl rfl fun t ht => ?_
      have hne : t ≠ env := fun heq => (h.array env hv).2.1 (heq ▸ ht)
      show blocks2.live t = true
      rw [hafter, update_of_ne hne]
      exact hlive t (h.text t ht) (h.ne_old (.inl ht))

omit h in
/-- The loop of `__clearenv` releases the blocks of the lines outside of the text. -/
theorem freeLines_eq (old s : Environ) {blocks : Blocks} (lines : List Ptr)
    (hoff : ∀ p ∈ lines, old.inText p = false → p.offset = 0)
    (hfree : s.blocks.freeAll (old.ownBlocks lines) = some blocks) :
    clearenv.freeLines old s (lines.map .line) = .ok { s with blocks } := by
  induction lines generalizing s with
  | nil =>
    obtain rfl : s.blocks = blocks := Option.some.inj hfree
    rfl
  | cons p lines ih =>
    have hoff' := fun q hq => hoff q (mem_cons_of_mem p hq)
    rw [map_cons, clearenv.freeLines]
    cases hin : old.inText p with
    | true =>
      simp only [ownBlocks, filter_cons, hin] at hfree
      simpa using ih s hoff' hfree
    | false =>
      simp only [ownBlocks, filter_cons, hin, Bool.not_false, if_true, map_cons,
        Blocks.freeAll] at hfree
      obtain ⟨blocks1, hfree1, hrest⟩ := Option.bind_eq_some_iff.1 hfree
      have hp : s.free p = .ok { s with blocks := blocks1 } := by
        simp [Environ.free, hoff p (by simp) hin, hfree1]
      simpa [hp] using ih { s with blocks := blocks1 } hoff' hrest

/-- The text can be released; the other blocks in use stay live. -/
theorem Inv.freeText (s0 : Environ) (hs0 : s0.blocks = s.blocks) :
    ∃ blocks : Blocks, clearenv.freeText s0 s.envtextBegin = .ok { s0 with blocks } ∧
      ∀ b, s.blocks.live b = true → s.envtextBegin ≠ some b → blocks.live b = true := by
  cases ht : s.envtextBegin with
  | none => exact ⟨s0.blocks, rfl, fun b hb _ => hs0 ▸ hb⟩
  | some t =>
    have hlive : s0.blocks.live t = true := hs0 ▸ h.text t ht
    obtain ⟨blocks, hfree, -, hafter⟩ := Blocks.free_of_live hlive
    refine ⟨blocks, by simp [clearenv.freeText, Environ.free, hfree], fun b hb hne => ?_⟩
    have hbt : b ≠ t := fun heq => hne (heq ▸ rfl)
    rw [hafter, update_of_ne hbt, hs0]
    exact hb

/-- **`clearenv`** leaves nothing. -/
theorem clearenv_spec (hmeets : s.consistent = true) :
    ∃ s', s.clearenv = .ok s' ∧ Inv s' (fun _ => none) [] [] := by
  obtain ⟨blocks, htext, hlive⟩ :=
    h.freeText { s.setDefault with envtextBegin := none, envtextEnd := 0 } rfl
  simp only [clearenv, htext, hmeets, Bool.not_true, Bool.false_eq_true, if_false]
  by_cases hC : s.environC = 0
  · rw [if_pos hC]
    exact ⟨_, rfl, Inv.cleared rfl rfl rfl rfl (fun _ => (fun h => by cases h))⟩
  rw [if_neg hC, h.take_slots]
  cases hv : s.environV with
  | envDefault => exact absurd hmeets (by simp [consistent, hv, hC])
  | heap env =>
    obtain ⟨henv, hentext, harr⟩ := h.array env hv
    have hown : ∀ b ∈ s.ownBlocks lines, blocks.live b = true := by
      intro b hb
      obtain ⟨p, hp, hin, rfl⟩ := mem_ownBlocks.1 hb
      exact hlive _ (h.own p hp hin).2.1 (h.own p hp hin).2.2
    obtain ⟨blocks2, hfree, hkeep⟩ := Blocks.freeAll_of_live hown h.nodup
    have hloop := freeLines_eq s
      { s.setDefault with blocks, envtextBegin := none, envtextEnd := 0 } lines
      (fun p hp hin => (h.own p hp hin).1) hfree
    have henv2 : blocks2.live env = true := (hkeep env harr).trans (hlive env henv hentext)
    obtain ⟨blocks3, hfree3, -, -⟩ := Blocks.free_of_live henv2
    refine ⟨{ s.setDefault with blocks := blocks3, envtextBegin := none, envtextEnd := 0 }, ?_,
      Inv.cleared rfl rfl rfl rfl (fun _ => (fun h => by cases h))⟩
    rw [hloop]
    simp only [Environ.free, ne_eq, not_true_eq_false, if_false, hfree3]

/-- **`getenv`** finds the value the program expects. -/
theorem getenvl_spec (hmeets : s.consistent = true)
    (hname : ascii '=' ∈ name → ¬ s.HasLine name) : s.getenvl name = .ok (m name) := by
  obtain ⟨rest, hslots⟩ := h.slots
  simp only [getenvl, hmeets, Bool.not_true, Bool.false_eq_true, if_false, hslots]
  rcases findValue_spec s name lines rest with ⟨hnone, hno⟩ | ⟨p, hp, hline, hsome⟩
  · rw [hnone, h.not_found hno]
  have hpure : ascii '=' ∉ name := fun hmem => hname hmem (h.hasLine_iff.2 ⟨p, hp, hline⟩)
  obtain ⟨v, hstring, hm⟩ := h.found hp hpure hline
  rw [hsome, hstring, hm, lineOf]
  simp

end

/-! ### The initial text -/

theorem lineStarts_inside {line : List Byte} (rest : List Byte) (hline : 0 ∉ line) (iter : Nat) :
    lineStarts (line ++ 0 :: rest) iter false = lineStarts rest (iter + line.length + 1) true ∧
      textEnd (line ++ 0 :: rest) iter false = textEnd rest (iter + line.length + 1) true := by
  induction line generalizing iter with
  | nil => simp [lineStarts, textEnd]
  | cons ch line ih =>
    obtain ⟨hch, hline⟩ : ¬ 0 = ch ∧ 0 ∉ line := by simpa using hline
    have hch' : (ch == 0) = false := by simpa using fun heq => hch heq.symm
    have hlen : iter + (ch :: line).length + 1 = iter + 1 + line.length + 1 := by
      rw [length_cons]
      omega
    rw [cons_append, lineStarts, textEnd, hch', hlen]
    exact ih hline (iter + 1)

/-- One line of the text is passed. -/
theorem lineStarts_line {line : List Byte} (rest : List Byte) (hne : line ≠ [])
    (hline : 0 ∉ line) (iter : Nat) :
    lineStarts (line ++ 0 :: rest) iter true =
        iter :: lineStarts rest (iter + line.length + 1) true ∧
      textEnd (line ++ 0 :: rest) iter true = textEnd rest (iter + line.length + 1) true := by
  obtain ⟨ch, line, rfl⟩ := exists_cons_of_ne_nil hne
  obtain ⟨hch, hline⟩ : ¬ 0 = ch ∧ 0 ∉ line := by simpa using hline
  obtain ⟨hstarts, hend⟩ := lineStarts_inside rest hline (iter + 1)
  have hlen : iter + (ch :: line).length + 1 = iter + 1 + line.length + 1 := by
    rw [length_cons]
    omega
  have hch' : ch ≠ 0 := fun heq => hch heq.symm
  rw [cons_append, lineStarts, textEnd, if_neg hch', if_neg hch', hstarts, hend, hlen]
  exact ⟨rfl, rfl⟩

/-- The text of some lines -/
def textOf (ls : List (List Byte)) : List Byte := ls.flatMap (· ++ [0]) ++ [0]

/-- The loop finds the lines of the text, all of them before its end. -/
theorem textLines (before : List Byte) (ls : List (List Byte)) (hne : ∀ l ∈ ls, l ≠ [])
    (hnul : ∀ l ∈ ls, 0 ∉ l) :
    (∀ i ∈ lineStarts (textOf ls) before.length true,
      i < textEnd (textOf ls) before.length true) ∧
    before.length ≤ textEnd (textOf ls) before.length true ∧
    (lineStarts (textOf ls) before.length true).map
      (fun i => ((before ++ textOf ls).drop i).takeWhile (· ≠ 0)) = ls := by
  induction ls generalizing before with
  | nil => simp [textOf, lineStarts, textEnd]
  | cons l ls ih =>
    have hrest : textOf (l :: ls) = l ++ 0 :: textOf ls := by simp [textOf]
    have hlen : before.length + l.length + 1 = (before ++ (l ++ [0])).length := by
      simp only [length_append, length_singleton]
      omega
    obtain ⟨hstarts, hend⟩ := lineStarts_line (textOf ls) (hne l (by simp)) (hnul l (by simp))
      before.length
    obtain ⟨hlt, hle, hmap⟩ := ih (before ++ (l ++ [0])) (fun x hx => hne x (by simp [hx]))
      (fun x hx => hnul x (by simp [hx]))
    have hword : ((before ++ (l ++ 0 :: textOf ls)).drop before.length).takeWhile (· ≠ 0) = l := by
      rw [drop_left, takeWhile_append_of_pos (differs (hnul l (by simp)))]
      simp
    have hsame : before ++ (l ++ 0 :: textOf ls) = before ++ (l ++ [0]) ++ textOf ls := by simp
    rw [hrest, hstarts, hend, hlen]
    refine ⟨forall_mem_cons.2 ⟨by omega, hlt⟩, by omega, ?_⟩
    rw [map_cons, hword, hsame, hmap]

theorem lookup_iff (vars : List (CString × CString)) (hnd : (vars.map (·.1.bytes)).Nodup)
    (n v : List Byte) :
    (vars.find? (·.1.bytes = n)).map (·.2.bytes) = some v ↔
      (n, v) ∈ vars.map fun x => (x.1.bytes, x.2.bytes) := by
  induction vars with
  | nil => simp
  | cons x vars ih =>
    rw [map_cons, nodup_cons] at hnd
    rw [map_cons, mem_cons]
    by_cases hx : x.1.bytes = n
    · have hnot : (n, v) ∉ vars.map fun x => (x.1.bytes, x.2.bytes) := by
        intro hmem
        obtain ⟨y, hy, heq⟩ := mem_map.1 hmem
        have hyn : y.1.bytes = n := congrArg Prod.fst heq
        exact hnd.1 (mem_map.2 ⟨y, hy, hyn.trans hx.symm⟩)
      rw [find?_cons_of_pos (by simpa using hx)]
      simp only [hnot, or_false, Option.map_some, Option.some.injEq, Prod.mk.injEq, hx, true_and]
      exact eq_comm
    · rw [find?_cons_of_neg (by simpa using hx), ih hnd.2]
      simp [Ne.symm hx]

/-- **The environment after start-up.** -/
theorem inv_initialize (alloc : Allocs) (text : EnvText) :
    ∃ lines vars, Inv (userInitializeEnviron alloc text.bytes)
      (if alloc.chars && alloc.vector then text.lookup else fun _ => none) lines vars := by
  cases hchars : alloc.chars with
  | false =>
    refine ⟨[], [], ?_⟩
    simp only [userInitializeEnviron, hchars]
    exact Inv.cleared rfl rfl rfl rfl (fun _ => (fun h => by cases h))
  | true =>
    cases hvector : alloc.vector with
    | false =>
      refine ⟨[], [], ?_⟩
      simp only [userInitializeEnviron, hchars, hvector]
      exact Inv.cleared rfl rfl rfl rfl (fun _ => (fun h => by cases h))
    | true =>
      have hbytes : text.bytes = textOf (text.pairs.map fun x => lineOf x.1 x.2) := by
        simp [EnvText.bytes, textOf, EnvText.pairs, flatMap_map]
      have hne : ∀ l ∈ text.pairs.map fun x => lineOf x.1 x.2, l ≠ [] := by
        intro l hl
        obtain ⟨x, -, rfl⟩ := mem_map.1 hl
        simp [lineOf]
      have hnul : ∀ l ∈ text.pairs.map fun x => lineOf x.1 x.2, 0 ∉ l := by
        intro l hl
        simp only [EnvText.pairs, map_map, mem_map, Function.comp_apply] at hl
        obtain ⟨x, -, rfl⟩ := hl
        exact fun hmem => (zero_mem_lineOf.1 hmem).elim x.1.terminated x.2.terminated
      obtain ⟨hlt, -, hmap⟩ := textLines [] _ hne hnul
      rw [← hbytes] at hlt hmap
      have hin : ∀ p ∈ (lineStarts text.bytes 0 true).map (Ptr.mk 0),
          (userInitializeEnviron ⟨true, true⟩ text.bytes).inText p = true := by
        intro p hp
        obtain ⟨i, hi, rfl⟩ := mem_map.1 hp
        simpa [inText, userInitializeEnviron] using hlt i hi
      have hown : (userInitializeEnviron ⟨true, true⟩ text.bytes).ownBlocks
          ((lineStarts text.bytes 0 true).map (Ptr.mk 0)) = [] := by
        rw [ownBlocks, filter_eq_nil_iff.2 (fun p hp => by simp [hin p hp]), map_nil]
      obtain ⟨chars, vector⟩ := alloc
      subst hchars hvector
      refine ⟨(lineStarts text.bytes 0 true).map (Ptr.mk 0), text.pairs, ?_⟩
      refine ⟨⟨[], ?_⟩, ?_, ?_, (fun h => by cases h), ?_, ?_, ?_, ?_, ?_, ?_, ?_, ?_⟩
      · simp [userInitializeEnviron]
      · simp [userInitializeEnviron]
      · simp [userInitializeEnviron]
      · intro b hb
        obtain rfl : 1 = b := by simpa [userInitializeEnviron] using hb
        exact ⟨rfl, by simp [userInitializeEnviron], by simp [hown]⟩
      · intro t ht
        obtain rfl : 0 = t := by simpa [userInitializeEnviron] using ht
        rfl
      · intro p hp hout
        exact absurd ((hin p hp).symm.trans hout) (by simp)
      · rw [hown]
        exact nodup_nil
      · rw [map_map]
        exact hmap
      · intro x hx
        obtain ⟨y, hy, rfl⟩ := mem_map.1 hx
        exact text.names y hy
      · simpa [EnvText.pairs, Function.comp_def] using text.distinct
      · exact lookup_iff text.vars text.distinct

/-! ### Runs -/

/-- **A call that goes well keeps the invariant.** -/
theorem exec_spec (h : Inv s m lines vars) (alloc : Allocs) (call : EnvCall)
    (hmeets : s.Meets alloc call) :
    ∃ ret s' lines' vars', s.exec alloc call = .ok (ret, s') ∧
      Inv s' (stored m call ret) lines' vars' := by
  match call with
  | .setenv none _ _ | .setenv (some _) none _ =>
    exact ⟨_, s, lines, vars, rfl, h⟩
  | .setenv (some name) (some value) overwrite =>
    by_cases hname : ascii '=' ∈ name.bytes
    · refine ⟨.code (-1), s, lines, vars, by simp [exec, hname], ?_⟩
      simpa [stored] using h
    obtain ⟨ret, s', lines', vars', hexec, hinv⟩ := setenvl_spec alloc h overwrite hname
      name.terminated value.terminated (hmeets.resolve_left hname)
    refine ⟨.code ret, s', lines', vars', by simp [exec, hname, hexec, Except.map], ?_⟩
    simpa [stored] using hinv
  | .putenv string =>
    by_cases heq : ascii '=' ∈ string.bytes
    · have hstring := string.terminated
      rw [← lineOf_nameOf_valueOf heq, zero_mem_lineOf, not_or] at hstring
      simp only [Meets, if_pos heq] at hmeets
      obtain ⟨ret, s', lines', vars', hexec, hinv⟩ := setenvl_spec alloc h true
        (not_mem_nameOf _) hstring.1 hstring.2 hmeets
      refine ⟨.code ret, s', lines', vars', by simp [exec, heq, hexec, Except.map], ?_⟩
      simpa [stored, heq] using hinv
    · simp only [Meets, if_neg heq] at hmeets
      obtain ⟨s', lines', vars', hexec, hinv⟩ := unsetenvl_spec h hmeets
      refine ⟨.code 0, s', lines', vars', by simp [exec, heq, hexec, Except.map], ?_⟩
      simpa [stored, heq] using hinv
  | .unsetenv none => exact ⟨_, s, lines, vars, rfl, h⟩
  | .unsetenv (some name) =>
    obtain ⟨s', lines', vars', hexec, hinv⟩ := unsetenvl_spec h hmeets
    exact ⟨.code 0, s', lines', vars', by simp [exec, hexec, Except.map], hinv⟩
  | .clearenv =>
    obtain ⟨s', hexec, hinv⟩ := clearenv_spec h hmeets
    exact ⟨.code 0, s', [], [], by simp [exec, hexec, Except.map], hinv⟩
  | .getenv none => exact ⟨_, s, lines, vars, rfl, h⟩
  | .getenv (some name) =>
    have hexec := getenvl_spec h hmeets.1 hmeets.2
    exact ⟨.value (m name.bytes), s, lines, vars, by simp [exec, hexec, Except.map], h⟩

theorem Run.inv (h : Run s m) : ∃ lines vars, Inv s m lines vars := by
  induction h with
  | start alloc text => exact inv_initialize alloc text
  | call alloc call _ hmeets hexec ih =>
    obtain ⟨lines, vars, hinv⟩ := ih
    obtain ⟨ret, s', lines', vars', hexec', hinv'⟩ := exec_spec hinv alloc call hmeets
    rw [hexec] at hexec'
    cases hexec'
    exact ⟨lines', vars', hinv'⟩

/-- What the environment promises in a state in which the program expects the variables `m`. -/
structure Contract (s : Environ) (m : Vars) : Prop where
  /-- The array is terminated, and lists one line in live memory for each variable. -/
  array : ∃ (lines : List Ptr) (rest : List Slot), s.slots = lines.map .line ++ .null :: rest ∧
    lines.length = s.environC ∧ (lines.map s.string).Nodup ∧
    (∀ l, l ∈ lines.map s.string ↔ ∃ n v, m n = some v ∧ l = lineOf n v) ∧
    ∀ p ∈ lines, s.blocks.live p.block = true
  /-- No call fails an assertion, releases what it may not, or leaves the array; `getenv` finds
  the value stored last. -/
  calls : ∀ alloc call, s.Meets alloc call → ∃ ret s', s.exec alloc call = .ok (ret, s') ∧
    ∀ name, call = .getenv (some name) → ret = .value (m name.bytes)

/-- **The environment keeps its contract in every run whose calls all go well.** -/
theorem environ_run (h : Run s m) : Contract s m := by
  obtain ⟨lines, vars, hinv⟩ := h.inv
  obtain ⟨rest, hslots⟩ := hinv.slots
  refine ⟨⟨lines, rest, hslots, hinv.count.symm, ?_, fun l => ?_, fun p hp => ?_⟩, ?_⟩
  · have hnames : (lines.map s.string).map nameOf = vars.map Prod.fst := by
      rw [hinv.strings, map_map]
      exact map_congr_left fun x hx => nameOf_lineOf (hinv.names x hx) x.2
    exact List.Nodup.of_map nameOf (hnames ▸ hinv.distinct)
  · rw [hinv.strings, mem_map]
    constructor
    · rintro ⟨x, hx, rfl⟩
      exact ⟨x.1, x.2, (hinv.expected _ _).2 hx, rfl⟩
    · rintro ⟨n, v, hm, rfl⟩
      exact ⟨(n, v), (hinv.expected n v).1 hm, rfl⟩
  · exact hinv.live (Uses.of_line hp)
  · intro alloc call hmeets
    obtain ⟨ret, s', -, -, hexec, -⟩ := exec_spec hinv alloc call hmeets
    refine ⟨ret, s', hexec, ?_⟩
    rintro name rfl
    simp only [exec, getenvl_spec hinv hmeets.1 hmeets.2, Except.map] at hexec
    cases hexec
    rfl

/-- The theorem where a second variable was stored beside the one of the text. -/
theorem environ_run_two :
    ∃ s m, Run s m ∧ m [ascii 'B'] = some [ascii '2'] ∧ s.environC = 2 ∧ Contract s m := by
  have hstart := Run.start ⟨true, true⟩ ⟨[(⟨[ascii 'A'], by decide⟩, ⟨[ascii '1'], by decide⟩)],
    by decide, by decide⟩
  have hrun := Run.call ⟨true, true⟩
    (.setenv (some ⟨[ascii 'B'], by decide⟩) (some ⟨[ascii '2'], by decide⟩) true)
    hstart (.inr (.inr (by decide))) rfl
  exact ⟨_, _, hrun, rfl, rfl, environ_run hrun⟩

/-- **Where calls do not go well.** `getenv` after an empty text fails its assertion; after
`clearenv` the next variable is stored by reallocating the static array; and when the second of
two variables is removed, its line is released and stays in the array in the terminator's
place. -/
theorem environ_faults :
    (∃ s m, Run s m ∧ s.exec ⟨true, true⟩ (.getenv (some ⟨[ascii 'A'], by decide⟩)) =
      .error .assertion) ∧
    (∃ s m, Run s m ∧ s.exec ⟨true, true⟩
      (.setenv (some ⟨[ascii 'A'], by decide⟩) (some ⟨[ascii '1'], by decide⟩) true) =
        .error .realloc) ∧
    ∃ s m s', Run s m ∧ m [ascii 'B'] = some [ascii '2'] ∧
      s.exec ⟨true, true⟩ (.unsetenv (some ⟨[ascii 'B'], by decide⟩)) = .ok (.code 0, s') ∧
      s'.environC = 1 ∧ s'.slots[1]? = some (.line ⟨2, 0⟩) ∧ s'.blocks.live 2 = false := by
  have hstart := Run.start ⟨true, true⟩ ⟨[(⟨[ascii 'A'], by decide⟩, ⟨[ascii '1'], by decide⟩)],
    by decide, by decide⟩
  have hclear := Run.call ⟨true, true⟩ .clearenv hstart rfl rfl
  have hstore := Run.call ⟨true, true⟩
    (.setenv (some ⟨[ascii 'B'], by decide⟩) (some ⟨[ascii '2'], by decide⟩) true)
    hstart (.inr (.inr (by decide))) rfl
  refine ⟨⟨_, _, Run.start ⟨true, true⟩ ⟨[], by simp, by simp⟩, rfl⟩, ⟨_, _, hclear, rfl⟩, ?_⟩
  exact ⟨_, _, _, hstore, rfl, rfl, rfl, rfl, rfl⟩

end Environ

end KosKernel.Libc
