import Mathlib.Data.List.Chain
import Mathlib.Tactic.SplitIfs

/-!
# KosKernel.Libc.Quote

**Quoting text and reading it back** (`format_quote` and `format_dequote` in
`libs/libc/format-printer.c`).

Quoting writes a byte as it is or as an escape sequence. An octal escape has one to three digits
and a hexadecimal one or two, and nothing marks where a short one ends: dequoting takes every
digit that follows. `Absorbs` says for which two neighbours a raw digit is taken for a part of
the escape before it. The round trip works exactly for the texts without such a pair.
-/

namespace KosKernel.Libc

open List

/-- A byte of a text. -/
abbrev Byte := BitVec 8

/-- A character constant of the source. -/
def ascii (c : Char) : Byte := BitVec.ofNat 8 c.toNat

/-! ### `format_quote` -/

/-- `flags & FORMAT_QUOTE_FLAG_*` -/
def flagSet (flags mask : BitVec 32) : Bool := flags &&& mask != 0

def formatQuoteFlagPrintraw : BitVec 32 := 0x01
def formatQuoteFlagForcehex : BitVec 32 := 0x02
def formatQuoteFlagForceoct : BitVec 32 := 0x04
def formatQuoteFlagNoctrl : BitVec 32 := 0x08
def formatQuoteFlagNoascii : BitVec 32 := 0x10
def formatQuoteFlagQuoteall : BitVec 32 := 0x20
def formatQuoteFlagLowerhex : BitVec 32 := 0x40

def tooct (x : Byte) : Byte := ascii '0' + x

/-- `__ctype_tohex` -/
def ctypeTohex (upper : Bool) (x : Byte) : Byte :=
  if x < 10 then ascii '0' + x else (if upper then ascii 'A' else ascii 'a') + (x - 10)

/-- The text of `encode_oct` -/
def encodeOct (ch : Byte) : List Byte :=
  if ch ≤ 0x07 then [ascii '\\', tooct (ch &&& 0x07)]
  else if ch ≤ 0x38 then [ascii '\\', tooct ((ch &&& 0x38) >>> 3), tooct (ch &&& 0x07)]
  else [ascii '\\', tooct ((ch &&& 0xC0) >>> 6), tooct ((ch &&& 0x38) >>> 3), tooct (ch &&& 0x07)]

/-- The text of `encode_hex` -/
def encodeHex (upper : Bool) (ch : Byte) : List Byte :=
  if ch ≤ 0xf then [ascii '\\', ascii 'x', ctypeTohex upper ch]
  else [ascii '\\', ascii 'x', ctypeTohex upper ((ch &&& 0xf0) >>> 4),
    ctypeTohex upper (ch &&& 0xf)]

/-- The text of `default_ctrl` -/
def defaultCtrl (flags : BitVec 32) (ch : Byte) : List Byte :=
  if flagSet flags formatQuoteFlagForcehex then
    encodeHex (!flagSet flags formatQuoteFlagLowerhex) ch
  else encodeOct ch

/-- The letter of a control character, and the characters that stand for themselves. -/
def controlLetter (ch : Byte) : Option Byte :=
  if ch = 7 then some (ascii 'a')
  else if ch = 8 then some (ascii 'b')
  else if ch = 12 then some (ascii 'f')
  else if ch = 10 then some (ascii 'n')
  else if ch = 13 then some (ascii 'r')
  else if ch = 9 then some (ascii 't')
  else if ch = 11 then some (ascii 'v')
  else if ch = 27 then some (ascii 'e')
  else if ch = ascii '\\' ∨ ch = ascii '\'' ∨ ch = ascii '"' then some ch
  else none

/-- The text of `special_control` -/
def specialControl (flags : BitVec 32) (ch : Byte) : List Byte :=
  match controlLetter ch with
  | some letter => [ascii '\\', letter]
  | none => defaultCtrl flags ch

/-- `\`, `'` and `"` -/
def isQuoting (ch : Byte) : Bool := ch == ascii '\\' || ch == ascii '\'' || ch == ascii '"'

/-- What is printed for a character that requires special encoding. -/
def encodedText (flags : BitVec 32) (ch : Byte) : List Byte :=
  if ch < 32 then
    if flagSet flags formatQuoteFlagNoctrl then defaultCtrl flags ch else specialControl flags ch
  else if isQuoting ch && !flagSet flags formatQuoteFlagNoctrl then specialControl flags ch
  else if flagSet flags formatQuoteFlagForceoct then encodeOct ch
  else encodeHex (!flagSet flags formatQuoteFlagLowerhex) ch

/-- Whether a character requires special encoding. -/
def isSpecial (flags : BitVec 32) (ch : Byte) : Bool :=
  decide (ch < 32) || decide (127 ≤ ch) || isQuoting ch || flagSet flags formatQuoteFlagNoascii

/-- A printer call that is left out if there is nothing to print. -/
def flushed (flush : List Byte) : List (List Byte) := if flush = [] then [] else [flush]

/-- The loop of `format_quote`; `flush` is the text from `flush_start` to `iter`. -/
def formatQuoteLoop (flags : BitVec 32) : List Byte → List Byte → List (List Byte)
  | [], flush => flushed flush
  | ch :: text, flush =>
    if isSpecial flags ch then
      if ch = 0 ∧ !flagSet flags formatQuoteFlagQuoteall then flushed flush
      else flushed flush ++ encodedText flags ch :: formatQuoteLoop flags text []
    else formatQuoteLoop flags text (flush ++ [ch])

/-- `format_quote`: the pieces that are handed to the printer. -/
def formatQuote (flags : BitVec 32) (text : List Byte) : List (List Byte) :=
  let quote := if flagSet flags formatQuoteFlagPrintraw then [] else [[ascii '"']]
  quote ++ formatQuoteLoop flags text [] ++ quote

/-! ### `format_dequote` -/

/-- `ch >= '0' && ch <= '7'` -/
def isOct (ch : Byte) : Bool := decide (ascii '0' ≤ ch) && decide (ch ≤ ascii '7')

/-- `OCT_STEP` -/
def octStep (escapedChar : Byte) : List Byte → Byte × List Byte
  | [] => (escapedChar, [])
  | ch :: rest =>
    if isOct ch then (escapedChar * 8 + (ch - ascii '0'), rest) else (escapedChar, ch :: rest)

/-- The value of a hexadecimal digit. -/
def hexValue (ch : Byte) : Option Byte :=
  if ascii '0' ≤ ch ∧ ch ≤ ascii '9' then some (ch - ascii '0')
  else if ascii 'a' ≤ ch ∧ ch ≤ ascii 'f' then some (ch - ascii 'a' + 10)
  else if ascii 'A' ≤ ch ∧ ch ≤ ascii 'F' then some (ch - ascii 'A' + 10)
  else none

/-- How an escape sequence ends: at the end of the text (`done`), as an unknown one that is
left in the text (`next`), or with a character to be printed (`print_escape`). -/
inductive Escape
  | done (skipped : List Byte)
  | next (skipped rest : List Byte)
  | print (escapedChar : Byte) (rest : List Byte)
deriving DecidableEq

/-- The escaped character of a single letter. -/
def letterControl (ch : Byte) : Option Byte :=
  if ch = ascii 'a' then some 7
  else if ch = ascii 'b' then some 8
  else if ch = ascii 'f' then some 12
  else if ch = ascii 'n' then some 10
  else if ch = ascii 'r' then some 13
  else if ch = ascii 't' then some 9
  else if ch = ascii 'v' then some 11
  else if ch = ascii 'e' then some 27
  else if isQuoting ch then some ch
  else none

/-- The digits behind `\x`. -/
def hexEscape : List Byte → Escape
  | [] => .done [ascii 'x']
  | high :: rest =>
    match hexValue high with
    | none => .next [ascii 'x', high] rest
    | some escapedChar =>
      match rest with
      | [] => .print escapedChar []
      | low :: rest' =>
        match hexValue low with
        | none => .print escapedChar (low :: rest')
        | some low4bit => .print (escapedChar <<< 4 ||| low4bit) rest'

/-- The text behind a `\`. -/
def readEscape : List Byte → Escape
  | [] => .done []
  | ch :: rest =>
    match letterControl ch with
    | some escapedChar => .print escapedChar rest
    | none =>
      if isOct ch then
        let first := octStep (ch - ascii '0') rest
        let second := octStep first.1 first.2
        .print second.1 second.2
      else if ch = ascii 'x' then hexEscape rest
      else .next [ch] rest

/-- The end of `format_dequote`, which does not print a quote that the text began with. -/
def dequoteDone (usedQuote : Byte) (flush : List Byte) : List (List Byte) :=
  if flush = [] then []
  else if flush.getLast? = some usedQuote then [flush.dropLast]
  else [flush]

/-- The loop of `format_dequote`; `flush` is the text from `flush_start` to `iter`, `start` tells
whether `iter` is still at the beginning. -/
def formatDequoteLoop : Nat → Bool → Byte → List Byte → List Byte → List (List Byte)
  | 0, _, _, _, _ => []
  | _ + 1, _, usedQuote, [], flush => dequoteDone usedQuote flush
  | fuel + 1, start, usedQuote, ch :: text, flush =>
    if ch = ascii '\\' then
      match readEscape text with
      | .done skipped => dequoteDone usedQuote (flush ++ ch :: skipped)
      | .next skipped rest => formatDequoteLoop fuel false usedQuote rest (flush ++ ch :: skipped)
      | .print escapedChar rest =>
        flushed flush ++ [escapedChar] :: formatDequoteLoop fuel false usedQuote rest []
    else if ch = 0 then dequoteDone usedQuote flush
    else if (ch = ascii '\'' ∨ ch = ascii '"') ∧ start then
      formatDequoteLoop fuel false ch text []
    else formatDequoteLoop fuel false usedQuote text (flush ++ [ch])

/-- `format_dequote`: the pieces that are handed to the printer. Every round of the loop takes a
byte, so that one more round than there are bytes is enough. -/
def formatDequote (text : List Byte) : List (List Byte) :=
  formatDequoteLoop (text.length + 1) true 0 text []

/-! ### The quoted text -/

/-- What quoting makes of a byte. -/
def quoted (flags : BitVec 32) (ch : Byte) : List Byte :=
  if isSpecial flags ch then encodedText flags ch else [ch]

@[simp] theorem flushed_flatten (flush : List Byte) : (flushed flush).flatten = flush := by
  unfold flushed
  split_ifs with h
  · simp [h]
  · simp

variable {flags : BitVec 32} {text : List Byte}

theorem formatQuoteLoop_flatten (hzero : 0 ∈ text → flagSet flags formatQuoteFlagQuoteall)
    (flush : List Byte) :
    (formatQuoteLoop flags text flush).flatten = flush ++ text.flatMap (quoted flags) := by
  induction text generalizing flush with
  | nil => simp [formatQuoteLoop]
  | cons ch text ih =>
    have ih := ih fun h => hzero (mem_cons_of_mem _ h)
    rw [formatQuoteLoop, flatMap_cons, quoted]
    by_cases hspecial : isSpecial flags ch = true
    · have hall : ¬ (ch = 0 ∧ !flagSet flags formatQuoteFlagQuoteall) := by
        rintro ⟨rfl, h⟩
        simp [hzero mem_cons_self] at h
      rw [if_pos hspecial, if_pos hspecial, if_neg hall]
      simp [ih]
    · rw [if_neg hspecial, if_neg hspecial, ih]
      simp

/-- The quote around the text. -/
def surrounding (flags : BitVec 32) : List Byte :=
  if flagSet flags formatQuoteFlagPrintraw then [] else [ascii '"']

theorem formatQuote_flatten (hzero : 0 ∈ text → flagSet flags formatQuoteFlagQuoteall) :
    (formatQuote flags text).flatten =
      surrounding flags ++ (text.flatMap (quoted flags) ++ surrounding flags) := by
  unfold formatQuote surrounding
  split_ifs <;> simp [formatQuoteLoop_flatten hzero]

/-! ### How a byte is written -/

/-- A control character that has a letter is not written as a number, unless letters are off. -/
def hasLetter (flags : BitVec 32) (ch : Byte) : Bool :=
  (controlLetter ch).isSome && !flagSet flags formatQuoteFlagNoctrl

/-- Of the bytes with an escape sequence, the ones that are written in octal. -/
def writtenOct (flags : BitVec 32) (ch : Byte) : Bool :=
  !hasLetter flags ch &&
    if ch < 32 then !flagSet flags formatQuoteFlagForcehex
    else flagSet flags formatQuoteFlagForceoct

/-- **A raw digit behind a short escape sequence**: `c` is written with less than three octal
digits or less than two hexadecimal ones, and `d` as it is, although it is such a digit. -/
def Absorbs (flags : BitVec 32) (c d : Byte) : Prop :=
  isSpecial flags c = true ∧ hasLetter flags c = false ∧ isSpecial flags d = false ∧
    if writtenOct flags c then c ≤ 0x38 ∧ isOct d else c ≤ 0xf ∧ (hexValue d).isSome

instance (flags : BitVec 32) (c d : Byte) : Decidable (Absorbs flags c d) :=
  inferInstanceAs (Decidable (_ ∧ _ ∧ _ ∧ _))

/-- Behind the control characters only `\`, `'` and `"` have a letter. -/
theorem controlLetter_of_le : ∀ ch : Byte, ¬ ch < 32 →
    controlLetter ch = if isQuoting ch then some ch else none := by
  decide

theorem letterControl_controlLetter :
    ∀ ch : Byte, ((controlLetter ch).elim (some ch) letterControl) = some ch := by
  decide

/-- **The three ways of writing a byte.** -/
theorem encodedText_eq (flags : BitVec 32) (ch : Byte) :
    encodedText flags ch =
      if hasLetter flags ch then ascii '\\' :: (controlLetter ch).toList
      else if writtenOct flags ch then encodeOct ch
      else encodeHex (!flagSet flags formatQuoteFlagLowerhex) ch := by
  unfold encodedText specialControl writtenOct hasLetter defaultCtrl
  by_cases hch : ch < 32
  · rw [if_pos hch, if_pos hch]
    cases flagSet flags formatQuoteFlagNoctrl <;> cases flagSet flags formatQuoteFlagForcehex <;>
      cases controlLetter ch <;> simp
  rw [if_neg hch, if_neg hch, controlLetter_of_le ch hch]
  cases isQuoting ch with
  | true => cases flagSet flags formatQuoteFlagNoctrl <;> simp
  | false => cases flagSet flags formatQuoteFlagForceoct <;> simp

/-! ### Reading an escape sequence -/

/-- The text does not go on with such a character. -/
def Stops (digit : Byte → Bool) (text : List Byte) : Prop :=
  ∀ ch rest, text = ch :: rest → digit ch = false

theorem octStep_stops (h : Stops isOct text) (escapedChar : Byte) :
    octStep escapedChar text = (escapedChar, text) := by
  cases text with
  | nil => rfl
  | cons ch rest => simp [octStep, h ch rest rfl]

variable {ch : Byte}

theorem octStep_oct (h : isOct ch) (escapedChar : Byte) (rest : List Byte) :
    octStep escapedChar (ch :: rest) = (escapedChar * 8 + (ch - ascii '0'), rest) := by
  simp [octStep, h]

theorem isOct_tooct : ∀ x : Byte, x < 8 → isOct (tooct x) = true ∧ tooct x - ascii '0' = x := by
  decide

theorem oct_digits : ∀ ch : Byte, (ch &&& 0x07) < 8 ∧ ((ch &&& 0x38) >>> 3) < 8 ∧
    ((ch &&& 0xC0) >>> 6) < 8 ∧ (ch ≤ 0x07 → ch &&& 0x07 = ch) ∧
    (ch ≤ 0x38 → ((ch &&& 0x38) >>> 3) * 8 + (ch &&& 0x07) = ch) ∧
    (((ch &&& 0xC0) >>> 6) * (8 : Byte) + (ch &&& 0x38) >>> 3) * (8 : Byte) + (ch &&& 0x07) =
      ch := by
  decide

theorem readEscape_oct (h : isOct ch) (rest : List Byte) :
    readEscape (ch :: rest) =
      let first := octStep (ch - ascii '0') rest
      let second := octStep first.1 first.2
      .print second.1 second.2 := by
  have hletter : ∀ ch : Byte, isOct ch = true → letterControl ch = none := by decide
  simp [readEscape, hletter ch h, h]

variable {rest : List Byte}

/-- An octal escape is read back, if it is a long one or no digit follows. -/
theorem readEscape_encodeOct (h : ch ≤ 0x38 → Stops isOct rest) :
    readEscape ((encodeOct ch).tail ++ rest) = .print ch rest := by
  obtain ⟨h0, h3, h6, hone, htwo, hthree⟩ := oct_digits ch
  obtain ⟨hoct0, hval0⟩ := isOct_tooct _ h0
  obtain ⟨hoct3, hval3⟩ := isOct_tooct _ h3
  obtain ⟨hoct6, hval6⟩ := isOct_tooct _ h6
  unfold encodeOct
  split_ifs with h7 h38 <;> simp only [tail_cons, cons_append, nil_append]
  · have hstop := h (BitVec.le_trans h7 (by decide))
    rw [readEscape_oct hoct0]
    simp only [octStep_stops hstop, hval0]
    rw [hone h7]
  · rw [readEscape_oct hoct3]
    simp only [octStep_oct hoct0, octStep_stops (h h38), hval0, hval3, htwo h38]
  · rw [readEscape_oct hoct6]
    simp only [octStep_oct hoct3, octStep_oct hoct0, hval0, hval3, hval6, hthree]

/-- **A short octal escape takes an octal digit that follows**, or two of them. -/
theorem readEscape_encodeOct_absorbs {digit : Byte} (rest : List Byte) (hch : ch ≤ 0x38)
    (hdigit : isOct digit) :
    ∃ read, readEscape ((encodeOct ch).tail ++ digit :: rest) = .print read rest ∨
      ∃ next rest', rest = next :: rest' ∧ isOct next ∧
        readEscape ((encodeOct ch).tail ++ digit :: rest) = .print read rest' := by
  obtain ⟨h0, h3, -, -, -, -⟩ := oct_digits ch
  obtain ⟨hoct0, -⟩ := isOct_tooct _ h0
  obtain ⟨hoct3, -⟩ := isOct_tooct _ h3
  unfold encodeOct
  split_ifs with h7 <;> simp only [tail_cons, cons_append, nil_append]
  · rw [readEscape_oct hoct0]
    simp only [octStep_oct hdigit]
    cases rest with
    | nil => exact ⟨_, .inl rfl⟩
    | cons next rest' =>
      by_cases hnext : isOct next
      · exact ⟨_, .inr ⟨next, rest', rfl, hnext, by rw [octStep_oct hnext]⟩⟩
      · exact ⟨_, .inl (by simp only [octStep, hnext]; rfl)⟩
  · rw [readEscape_oct hoct3]
    simp only [octStep_oct hoct0, octStep_oct hdigit]
    exact ⟨_, .inl rfl⟩

theorem hexValue_digits : ∀ (upper : Bool) (ch : Byte),
    (ch ≤ 0xf → hexValue (ctypeTohex upper ch) = some ch) ∧
      hexValue (ctypeTohex upper ((ch &&& 0xf0) >>> 4)) = some ((ch &&& 0xf0) >>> 4) ∧
      hexValue (ctypeTohex upper (ch &&& 0xf)) = some (ch &&& 0xf) ∧
      ((ch &&& 0xf0) >>> 4 : Byte) <<< 4 ||| (ch &&& 0xf) = ch := by
  decide

theorem readEscape_x (rest : List Byte) : readEscape (ascii 'x' :: rest) = hexEscape rest := rfl

/-- A hexadecimal escape is read back, if it is a long one or no digit follows. -/
theorem readEscape_encodeHex {upper : Bool}
    (h : ch ≤ 0xf → Stops (fun d => (hexValue d).isSome) rest) :
    readEscape ((encodeHex upper ch).tail ++ rest) = .print ch rest := by
  obtain ⟨hone, hhigh, hlow, htwo⟩ := hexValue_digits upper ch
  unfold encodeHex
  split_ifs with hf
  · simp only [tail_cons, cons_append, nil_append, readEscape_x, hexEscape, hone hf]
    cases rest with
    | nil => rfl
    | cons d rest =>
      have hnone : hexValue d = none := by simpa using h hf d rest rfl
      simp only [hnone]
  · simp only [tail_cons, cons_append, nil_append, readEscape_x, hexEscape, hhigh,
      hlow, htwo]

/-- **A short hexadecimal escape takes a hexadecimal digit that follows.** -/
theorem readEscape_encodeHex_absorbs (upper : Bool) {digit : Byte} (rest : List Byte)
    (hch : ch ≤ 0xf) (hdigit : (hexValue digit).isSome) :
    ∃ read, readEscape ((encodeHex upper ch).tail ++ digit :: rest) = .print read rest := by
  obtain ⟨hone, -, -, -⟩ := hexValue_digits upper ch
  obtain ⟨low, hlow⟩ := Option.isSome_iff_exists.1 hdigit
  unfold encodeHex
  rw [if_pos hch]
  simp only [tail_cons, cons_append, nil_append, readEscape_x, hexEscape, hone hch,
    hlow]
  exact ⟨_, rfl⟩

/-! ### The round trip -/

/-- What is read for a quoted text: never more bytes than there are, all of them if no byte is
absorbed, and less otherwise. -/
structure ReadBack (flags : BitVec 32) (text read : List Byte) : Prop where
  same : text.IsChain (fun c d => ¬ Absorbs flags c d) → read = text
  less : ¬ text.IsChain (fun c d => ¬ Absorbs flags c d) → read.length < text.length

variable {read : List Byte}

theorem ReadBack.length_le (h : ReadBack flags text read) : read.length ≤ text.length := by
  by_cases hchain : text.IsChain (fun c d => ¬ Absorbs flags c d)
  · rw [h.same hchain]
  · exact (h.less hchain).le

theorem ReadBack.cons (h : ReadBack flags text read)
    (hnot : ∀ d rest, text = d :: rest → ¬ Absorbs flags ch d) :
    ReadBack flags (ch :: text) (ch :: read) := by
  have hchain : (ch :: text).IsChain (fun c d => ¬ Absorbs flags c d) ↔
      text.IsChain (fun c d => ¬ Absorbs flags c d) := by
    cases text with
    | nil => simp
    | cons d rest => simp [isChain_cons_cons, hnot d rest rfl]
  exact
    { same := fun hc => by rw [h.same (hchain.1 hc)]
      less := fun hc => by
        have := h.less (fun h => hc (hchain.2 h))
        simpa using this }

/-- A byte that absorbs the beginning of what follows. -/
theorem ReadBack.absorb {d read' : Byte} {text' : List Byte} (h : ReadBack flags text' read)
    (hshort : text'.length ≤ text.length) (habsorbs : Absorbs flags ch d) :
    ReadBack flags (ch :: d :: text) (read' :: read) := by
  have hlen := h.length_le
  exact
    { same := fun hc => absurd habsorbs (isChain_cons_cons.1 hc).1
      less := fun _ => by simp only [length_cons]; omega }

theorem raw_of_not_special (h : isSpecial flags ch = false) :
    ch ≠ ascii '\\' ∧ ch ≠ ascii '\'' ∧ ch ≠ ascii '"' ∧ ch ≠ 0 := by
  have hall : ∀ ch : Byte, (decide (ch < 32) || decide (127 ≤ ch) || isQuoting ch) = false →
      ch ≠ ascii '\\' ∧ ch ≠ ascii '\'' ∧ ch ≠ ascii '"' ∧ ch ≠ 0 := by decide
  exact hall ch (Bool.or_eq_false_iff.1 h).1

theorem encodedText_head (flags : BitVec 32) (ch : Byte) :
    encodedText flags ch = ascii '\\' :: (encodedText flags ch).tail := by
  rw [encodedText_eq]
  unfold encodeOct encodeHex
  split_ifs <;> rfl

variable {digit : Byte → Bool} {tail : List Byte}

/-- **A digit in a quoted text is a raw byte.** -/
theorem quoted_digit {d : Byte} (hdigit : digit (ascii '\\') = false) (htail : Stops digit tail)
    (htext : text.flatMap (quoted flags) ++ tail = d :: rest) (hd : digit d = true) :
    ∃ text', text = d :: text' ∧ isSpecial flags d = false ∧
      rest = text'.flatMap (quoted flags) ++ tail := by
  cases text with
  | nil =>
    have := htail d rest (by simpa using htext)
    simp [hd] at this
  | cons ch text' =>
    rw [flatMap_cons, quoted] at htext
    by_cases hspecial : isSpecial flags ch = true
    · rw [if_pos hspecial, encodedText_head] at htext
      simp only [cons_append, List.cons.injEq] at htext
      rw [← htext.1, hdigit] at hd
      exact absurd hd (by decide)
    rw [if_neg hspecial] at htext
    simp only [cons_append, nil_append, List.cons.injEq] at htext
    obtain ⟨rfl, hrest⟩ := htext
    exact ⟨text', rfl, by simpa using hspecial, hrest.symm⟩

/-- The text behind the quoted one: nothing, or the closing quote. -/
def IsEnd (tail : List Byte) : Prop := tail = [] ∨ tail = [ascii '"']

theorem IsEnd.stops (h : IsEnd tail) (hquote : digit (ascii '"') = false) : Stops digit tail := by
  rcases h with rfl | rfl
  · exact fun _ _ h => by cases h
  · rintro ch rest ⟨rfl, rfl⟩
    exact hquote

/-- Behind a byte that absorbs nothing the digits of its escape sequence end. -/
theorem quoted_stops (hdigit : digit (ascii '\\') = false) (htail : Stops digit tail)
    (h : ∀ d rest, text = d :: rest → isSpecial flags d = false → digit d = false) :
    Stops digit (text.flatMap (quoted flags) ++ tail) := by
  intro d rest heq
  by_contra hd
  obtain ⟨text', htext, hraw, -⟩ := quoted_digit hdigit htail heq (by simpa using hd)
  exact hd (h d text' htext hraw)

/-- **Reading back one escape sequence of a quoted text**: the byte is read and the text goes on
behind it, or a digit is absorbed. -/
theorem readEscape_quoted (text : List Byte) (hspecial : isSpecial flags ch = true)
    (htail : IsEnd tail) :
    ∃ escapedChar text', text' <:+ text ∧
      readEscape ((encodedText flags ch).tail ++ (text.flatMap (quoted flags) ++ tail)) =
        .print escapedChar (text'.flatMap (quoted flags) ++ tail) ∧
      ∀ read, ReadBack flags text' read → ReadBack flags (ch :: text) (escapedChar :: read) := by
  have hoctTail : Stops isOct tail := htail.stops (by decide)
  have hhexTail : Stops (fun d => (hexValue d).isSome) tail := htail.stops (by decide)
  by_cases habsorbs : ∃ d text1, text = d :: text1 ∧ Absorbs flags ch d
  · obtain ⟨d, text1, rfl, hab⟩ := habsorbs
    have ⟨_, hletter, hraw, hkind⟩ := hab
    have hnext : (d :: text1).flatMap (quoted flags) ++ tail =
        d :: (text1.flatMap (quoted flags) ++ tail) := by
      simp [quoted, hraw]
    rw [encodedText_eq, hletter, hnext]
    by_cases hoct : writtenOct flags ch = true
    · rw [if_pos hoct] at hkind
      simp only [Bool.false_eq_true, if_false, if_pos hoct]
      obtain ⟨read, hread | ⟨next, rest', hrest, hnextOct, hread⟩⟩ :=
        readEscape_encodeOct_absorbs (text1.flatMap (quoted flags) ++ tail) hkind.1 hkind.2
      · exact ⟨read, text1, suffix_cons _ _, hread, fun _ h => h.absorb le_rfl hab⟩
      · obtain ⟨text2, rfl, -, rfl⟩ := quoted_digit (by decide) hoctTail hrest hnextOct
        exact ⟨read, text2, ⟨[d, next], rfl⟩, hread, fun _ h => h.absorb (by simp) hab⟩
    · rw [if_neg hoct] at hkind
      simp only [Bool.false_eq_true, if_false, if_neg hoct]
      obtain ⟨read, hread⟩ :=
        readEscape_encodeHex_absorbs (!flagSet flags formatQuoteFlagLowerhex)
          (text1.flatMap (quoted flags) ++ tail) hkind.1 hkind.2
      exact ⟨read, text1, suffix_cons _ _, hread, fun _ h => h.absorb le_rfl hab⟩
  · have hnot : ∀ d rest, text = d :: rest → ¬ Absorbs flags ch d :=
      fun d rest heq hab => habsorbs ⟨d, rest, heq, hab⟩
    refine ⟨ch, text, suffix_rfl, ?_, fun _ h => h.cons hnot⟩
    rw [encodedText_eq]
    split_ifs with hletter hoct
    · -- a letter is read back whatever follows
      have hback := letterControl_controlLetter ch
      simp only [hasLetter, Bool.and_eq_true] at hletter
      obtain ⟨letter, hsome⟩ := Option.isSome_iff_exists.1 hletter.1
      rw [hsome] at hback ⊢
      simp only [Option.elim_some] at hback
      simp [readEscape, hback]
    · refine readEscape_encodeOct fun hshort => quoted_stops (by decide) hoctTail ?_
      intro d rest heq hraw
      by_contra hd
      refine hnot d rest heq ⟨hspecial, by simpa using hletter, hraw, ?_⟩
      rw [if_pos hoct]
      exact ⟨hshort, by simpa using hd⟩
    · refine readEscape_encodeHex fun hshort => quoted_stops (by decide) hhexTail ?_
      intro d rest heq hraw
      by_contra hd
      refine hnot d rest heq ⟨hspecial, by simpa using hletter, hraw, ?_⟩
      rw [if_neg hoct]
      exact ⟨hshort, by simpa [Option.isSome_iff_ne_none] using hd⟩

variable {usedQuote : Byte}

/-- The end of the loop prints what is left, without the closing quote. -/
theorem dequoteDone_flatten {flush : List Byte} (h : usedQuote ∉ flush) :
    (dequoteDone usedQuote flush).flatten = flush := by
  unfold dequoteDone
  split_ifs with hnil hlast
  · simp [hnil]
  · exact absurd (mem_of_getLast? hlast) h
  · simp

theorem dequoteDone_quote (usedQuote : Byte) (flush : List Byte) :
    (dequoteDone usedQuote (flush ++ [usedQuote])).flatten = flush := by
  simp [dequoteDone]

/-- The quote that `format_dequote` takes off at the end, for each end of the text. -/
def Closes (tail : List Byte) (start : Bool) (usedQuote : Byte) : Prop :=
  tail = [] ∧ usedQuote = 0 ∨ tail = [ascii '"'] ∧ usedQuote = ascii '"' ∧ start = false

variable {start : Bool}

theorem Closes.isEnd (h : Closes tail start usedQuote) : IsEnd tail := h.imp And.left And.left

theorem Closes.later (h : Closes tail start usedQuote) : Closes tail false usedQuote :=
  h.imp id fun ⟨htail, hquote, _⟩ => ⟨htail, hquote, rfl⟩

theorem Closes.ne_raw (h : Closes tail start usedQuote) (hraw : isSpecial flags ch = false) :
    usedQuote ≠ ch := by
  obtain ⟨-, -, hquote, hzero⟩ := raw_of_not_special hraw
  rcases h with ⟨-, rfl⟩ | ⟨-, rfl, -⟩
  · exact hzero.symm
  · exact hquote.symm

theorem formatDequoteLoop_end {flush : List Byte} {fuel : Nat}
    (hcloses : Closes tail start usedQuote) (hflush : usedQuote ∉ flush)
    (hfuel : tail.length < fuel) :
    (formatDequoteLoop fuel start usedQuote tail flush).flatten = flush := by
  rcases hcloses with ⟨rfl, rfl⟩ | ⟨rfl, rfl, rfl⟩
  · obtain ⟨fuel, rfl⟩ := Nat.exists_eq_succ_of_ne_zero (show fuel ≠ 0 by omega)
    exact dequoteDone_flatten hflush
  obtain ⟨fuel, rfl⟩ : ∃ f, fuel = f + 2 :=
    ⟨fuel - 2, by simp only [length_singleton] at hfuel; omega⟩
  exact dequoteDone_quote _ _

/-- **Dequoting a quoted text**, from any place in it. -/
theorem formatDequoteLoop_quoted (text flush : List Byte) (start : Bool) (fuel : Nat)
    (hcloses : Closes tail start usedQuote) (hflush : usedQuote ∉ flush)
    (hfuel : (text.flatMap (quoted flags) ++ tail).length < fuel) :
    ∃ read, ReadBack flags text read ∧
      (formatDequoteLoop fuel start usedQuote (text.flatMap (quoted flags) ++ tail) flush).flatten =
        flush ++ read := by
  -- an escape may take more than one byte of the text, so the induction is on its length
  induction hn : text.length using Nat.strong_induction_on
    generalizing text flush start fuel with
  | _ n ih =>
  cases text with
  | nil =>
    refine ⟨[], ⟨fun _ => rfl, fun h => absurd isChain_nil h⟩, ?_⟩
    rw [append_nil]
    exact formatDequoteLoop_end hcloses hflush hfuel
  | cons ch text =>
    obtain _ | fuel := fuel
    · omega
    simp only [length_cons] at hn
    by_cases hspecial : isSpecial flags ch = true
    · have hquoted : (ch :: text).flatMap (quoted flags) ++ tail = ascii '\\' ::
          ((encodedText flags ch).tail ++ (text.flatMap (quoted flags) ++ tail)) := by
        rw [flatMap_cons, quoted, if_pos hspecial, append_assoc]
        nth_rewrite 1 [encodedText_head]
        rfl
      rw [hquoted] at hfuel ⊢
      obtain ⟨escapedChar, text', ⟨taken, rfl⟩, hescape, hback⟩ :=
        readEscape_quoted text hspecial hcloses.isEnd
      simp only [length_cons, length_append, flatMap_append] at hn hfuel
      obtain ⟨read, hread, hloop⟩ := ih text'.length (by omega) text' [] false fuel hcloses.later
        (by simp) (by rw [length_append]; omega) rfl
      refine ⟨escapedChar :: read, hback read hread, ?_⟩
      rw [formatDequoteLoop, if_pos rfl, hescape]
      simp [hloop]
    · have hraw : isSpecial flags ch = false := by simpa using hspecial
      have hquoted : (ch :: text).flatMap (quoted flags) ++ tail =
          ch :: (text.flatMap (quoted flags) ++ tail) := by
        simp [quoted, hraw]
      rw [hquoted] at hfuel ⊢
      obtain ⟨read, hread, hloop⟩ := ih text.length (by omega) text (flush ++ [ch]) false fuel
        hcloses.later (by simp [hflush, hcloses.ne_raw hraw])
        (by simpa using hfuel) rfl
      refine ⟨ch :: read, hread.cons fun d rest _ hab => hspecial hab.1, ?_⟩
      obtain ⟨hslash, hapos, hquote, hzero⟩ := raw_of_not_special hraw
      rw [formatDequoteLoop, if_neg hslash, if_neg hzero, if_neg (by simp [hapos, hquote]), hloop]
      simp

/-- **The round trip of a quoted text gives the text back exactly if no raw digit in it follows
a short escape sequence.** -/
theorem format_dequote_quote {flags : BitVec 32} {text : List Byte}
    (hzero : 0 ∈ text → flagSet flags formatQuoteFlagQuoteall) :
    (formatDequote (formatQuote flags text).flatten).flatten = text ↔
      text.IsChain (fun c d => ¬ Absorbs flags c d) := by
  have hread : ∃ read, ReadBack flags text read ∧
      (formatDequote (formatQuote flags text).flatten).flatten = read := by
    rw [formatQuote_flatten hzero]
    unfold surrounding formatDequote
    by_cases hraw : flagSet flags formatQuoteFlagPrintraw = true
    · rw [if_pos hraw]
      exact formatDequoteLoop_quoted text [] true _ (.inl ⟨rfl, rfl⟩) (by simp) (by simp)
    -- the opening quote tells which quote is taken off at the end
    rw [if_neg hraw]
    exact formatDequoteLoop_quoted text [] false _ (.inr ⟨rfl, rfl, rfl⟩) (by simp) (by simp)
  obtain ⟨read, hback, heq⟩ := hread
  rw [heq]
  constructor
  · intro hsame
    by_contra hchain
    have := hback.less hchain
    rw [hsame] at this
    exact lt_irrefl _ this
  · exact hback.same

/-- The theorem at a text with a line feed, a byte that is not ASCII, and a digit behind each. -/
theorem format_dequote_quote_line :
    (formatDequote (formatQuote 0 [104, 10, 49, 200, 49]).flatten).flatten =
      [104, 10, 49, 200, 49] :=
  (format_dequote_quote (by decide)).2 (by decide)

/-- **The byte 1 with the digit `1` behind it comes back as a tabulator.** -/
theorem format_dequote_quote_absorbs :
    (formatQuote 0 [1, 49]).flatten = [34, 92, 49, 49, 34] ∧
      (formatDequote (formatQuote 0 [1, 49]).flatten).flatten = [9] := by
  decide

end KosKernel.Libc
