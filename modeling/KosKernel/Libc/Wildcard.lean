import KosKernel.Lib.Glob
import KosKernel.Libc.Text

/-!
# KosKernel.Libc.Wildcard

**Wildcard matching** (`libs/libc/string-wmatch.c.inl`, which `_strwcmp`, `_striwcmp`,
`_strnwcmp` and `_strinwcmp` are made from).

The functions differ in two macros, which are parameters here: `CASTCH`, and where the
bounds of the texts lie.

After a star the function takes the next character of the pattern and moves behind it. If
that is a question mark it goes to `next`, which moves on once more: the character behind
the question mark is never looked at, or the terminator is stepped over. So what is matched
is not the pattern but `swallow` of it, and the main result says so. Where the bound lies one
behind the terminator, the step over the terminator ends at the bound and does no harm.
-/

namespace KosKernel.Libc.Wildcard

open Glob List

/-! ### The source -/

/-- `while (IF_STRN(ptr != pattern_end &&) *ptr == '*') ++ptr` -/
def skipStars (bound : TextBound) : TextPtr → Except TextStop TextPtr
  | .here rest => .ok (.here (rest.dropWhile (· = ascii '*')))
  | .past => if bound = .behind then .ok .past else .error .overread

def tolower (c : Byte) : Byte := if ascii 'A' ≤ c ∧ c ≤ ascii 'Z' then c + 32 else c

/-- `CASTCH`, with `STRI` or without. -/
def castch (stri : Bool) (c : Byte) : Byte := if stri then tolower c else c

/-- The loop behind a star: look for the character that follows it, and try the rest of the
pattern behind every one that is found. -/
def scanLoop (stri : Bool) (bound : TextBound) (cardPost : Byte)
    (self : TextPtr → Except TextStop Int) : List Byte → Except TextStop Int
  | [] =>
    -- The bound is looked at before the character, the terminator after it.
    if bound ≠ .cut ∧ castch stri 0 = cardPost then self .past
    else .ok (-cardPost.toInt)
  | ch :: str =>
    if castch stri ch = cardPost then do
      if (← self (.here str)) = 0 then return 0 else scanLoop stri bound cardPost self str
    else scanLoop stri bound cardPost self str

/-- The body of the functions. Every round moves on in the string, so its length bounds the
number of rounds. -/
def wcmpLoop (stri : Bool) (boundStr boundPattern : TextBound) :
    Nat → TextPtr → TextPtr → Except TextStop Int
  | 0, _, _ => .error .outOfFuel
  | fuel + 1, str, pattern => do
      if ← str.atEnd boundStr then
        -- End of string: the pattern must be empty, or only contain stars.
        let pattern ← skipStars boundPattern pattern
        if pattern.isEnd boundPattern then return 0
        else return -(castch stri (← pattern.read boundPattern)).toInt
      else if ← pattern.atEnd boundPattern then return (← str.read boundStr).toInt
      else
        let ch ← str.read boundStr
        let wild ← pattern.read boundPattern
        if wild = ascii '*' then
          let pattern ← skipStars boundPattern pattern
          if pattern.isEnd boundPattern then return 0
          else
            let cardPost ← pattern.read boundPattern
            let pattern := pattern.next
            if cardPost = 0 then return 0
            else if cardPost = ascii '?' then
              -- goto next
              wcmpLoop stri boundStr boundPattern fuel str.next pattern.next
            else
              match str with
              | .here rest =>
                scanLoop stri boundStr (castch stri cardPost)
                  (fun str => wcmpLoop stri boundStr boundPattern fuel str pattern) rest
              | .past => .error .overread
        else if castch stri wild = castch stri ch ∨ wild = ascii '?' then
          wcmpLoop stri boundStr boundPattern fuel str.next pattern.next
        else return (castch stri ch).toInt - (castch stri wild).toInt

/-- The functions, by whether `STRI` is defined; see `wcmpLoop_spec` for the bound. -/
def wcmp (stri : Bool) (str pattern : Text) : Except TextStop Int :=
  wcmpLoop stri str.bound pattern.bound (str.chars.length + 1) (.here str.chars)
    (.here pattern.chars)

/-- `_strwcmp` -/
def strwcmp (str pattern : ZString) : Except TextStop Int := wcmp false str.text pattern.text

/-- `_striwcmp` -/
def striwcmp (str pattern : ZString) : Except TextStop Int := wcmp true str.text pattern.text

/-- `_strnwcmp` -/
def strnwcmp (str : ZString) (maxstr : Nat) (pattern : ZString) (maxpattern : Nat) :
    Except TextStop Int := wcmp false (str.cutAt maxstr) (pattern.cutAt maxpattern)

/-- `_strinwcmp` -/
def strinwcmp (str : ZString) (maxstr : Nat) (pattern : ZString) (maxpattern : Nat) :
    Except TextStop Int := wcmp true (str.cutAt maxstr) (pattern.cutAt maxpattern)

/-! ### What is matched -/

/-- A character of a pattern. -/
def item (c : Byte) : Item Byte :=
  if c = ascii '*' then .star else if c = ascii '?' then .any else .lit c

/-- A pattern. -/
def glob (pattern : List Byte) : List (Item Byte) := pattern.map item

/-- A read pattern with more items before it. -/
def prepend (items : List (Item Byte)) (r : List (Item Byte) × Bool) :
    List (Item Byte) × Bool := (items ++ r.1, r.2)

/-- The pattern as the functions read it: a question mark behind stars swallows the stars
and the character behind it, whatever that is. The flag says that there is none to swallow
at the end, where that is a fault. `starred` says that there is a star before the pattern. -/
def swallow (bound : TextBound) : Bool → List Byte → List (Item Byte) × Bool
  | starred, [] => (if starred then [.star] else [], false)
  | starred, c :: pattern =>
    if c = ascii '*' then swallow bound true pattern
    else if c = ascii '?' then
      if starred then
        match pattern with
        | [] => ([.any], bound ≠ .behind)
        | _ :: pattern => prepend [.any] (swallow bound false pattern)
      else prepend [.any] (swallow bound false pattern)
    else prepend (if starred then [.star, .lit c] else [.lit c]) (swallow bound false pattern)

/-- The words with which the end of a read pattern is reached. -/
def reach (r : List (Item Byte) × Bool) : List (Item Byte) :=
  if r.2 then r.1 ++ [.star] else r.1

/-- What a call does with a word that reaches the end of the pattern. -/
def hit (dangling : Bool) : Except TextStop Int := if dangling then .error .overread else .ok 0

/-- The result of a call is that of a matcher for the pattern as it is read. -/
def Answers (stri : Bool) (r : List (Item Byte) × Bool) (s : List Byte)
    (result : Except TextStop Int) : Prop :=
  (Matches (castch stri) (reach r) s ∧ result = hit r.2) ∨
  (¬ Matches (castch stri) (reach r) s ∧ ∃ v : Int, v ≠ 0 ∧ result = .ok v)

@[simp] theorem reach_prepend (items : List (Item Byte)) (r : List (Item Byte) × Bool) :
    reach (prepend items r) = items ++ reach r := by
  obtain ⟨g, dangling⟩ := r
  cases dangling <;> simp [reach, prepend]

theorem castch_ne_zero {stri : Bool} {c : Byte} (h : c ≠ 0) : castch stri c ≠ 0 := by
  unfold castch tolower
  split_ifs with hstri hupper
  · rw [show ascii 'A' = 65 from rfl, show ascii 'Z' = 90 from rfl] at hupper
    bv_omega
  · exact h
  · exact h

theorem castch_zero (stri : Bool) : castch stri 0 = 0 := by
  cases stri <;> decide

theorem toInt_ne_zero {c : Byte} (h : c ≠ 0) : c.toInt ≠ 0 := by
  intro hzero
  exact h (BitVec.eq_of_toInt_eq (by simpa using hzero))

section
variable {bound : TextBound} {starred : Bool} {q : List Byte} {c : Byte}

theorem swallow_star : swallow bound starred (ascii '*' :: q) = swallow bound true q := by
  cases q <;> simp [swallow]

theorem swallow_any :
    swallow bound false (ascii '?' :: q) = prepend [.any] (swallow bound false q) := by
  cases q <;> rfl

theorem swallow_starred_any_nil :
    swallow bound true [ascii '?'] =
      prepend [.any] ([], decide (bound ≠ .behind)) := rfl

theorem swallow_starred_any :
    swallow bound true (ascii '?' :: c :: q) = prepend [.any] (swallow bound false q) := rfl

theorem swallow_lit (hstar : c ≠ ascii '*') (hany : c ≠ ascii '?') :
    swallow bound false (c :: q) = prepend [.lit c] (swallow bound false q) := by
  cases q <;> simp [swallow, hstar, hany]

theorem swallow_starred_lit (hstar : c ≠ ascii '*') (hany : c ≠ ascii '?') :
    swallow bound true (c :: q) = prepend [.star, .lit c] (swallow bound false q) := by
  cases q <;> simp [swallow, hstar, hany]

end

/-- Stars before the rest of a pattern are one star. -/
theorem swallow_dropWhile (bound : TextBound) (q : List Byte) :
    swallow bound true q = swallow bound true (q.dropWhile (· = ascii '*')) := by
  induction q with
  | nil => rfl
  | cons c q ih =>
    by_cases hstar : c = ascii '*'
    · subst hstar
      rw [dropWhile_cons_of_pos (by simp), ← ih, swallow_star]
    · rw [dropWhile_cons_of_neg (by simpa using hstar)]

/-- What is behind the stars at the start of a pattern is read with a star or without. -/
theorem swallow_skipStars (bound : TextBound) (p : List Byte) : ∃ starred,
    swallow bound false p = swallow bound starred (p.dropWhile (· = ascii '*')) := by
  cases p with
  | nil => exact ⟨false, rfl⟩
  | cons c q =>
    by_cases hstar : c = ascii '*'
    · subst hstar
      rw [dropWhile_cons_of_pos (by simp), swallow_star, swallow_dropWhile]
      exact ⟨true, rfl⟩
    · rw [dropWhile_cons_of_neg (by simpa using hstar)]
      exact ⟨false, rfl⟩

theorem head_dropWhile {p q : List Byte} {c : Byte}
    (h : p.dropWhile (· = ascii '*') = c :: q) :
    c ≠ ascii '*' ∧ ∀ x ∈ c :: q, x ∈ p := by
  have hne : p.dropWhile (· = ascii '*') ≠ [] := by simp [h]
  have hhead := head_dropWhile_not (fun x => decide (x = ascii '*')) hne
  simp only [h, head_cons, decide_eq_false_iff_not] at hhead
  exact ⟨hhead, fun x hx => (dropWhile_sublist _).subset (h ▸ hx)⟩

theorem not_matches_reach_nil {bound : TextBound} {stri starred : Bool} {c : Byte} {q : List Byte}
    (hstar : c ≠ ascii '*') :
    ¬ Matches (castch stri) (reach (swallow bound starred (c :: q))) [] := by
  by_cases hany : c = ascii '?'
  · subst hany
    cases starred with
    | false => simp [swallow_any]
    | true =>
      cases q with
      | nil => simp [swallow_starred_any_nil]
      | cons => simp [swallow_starred_any]
  · cases starred with
    | false => simp [swallow_lit hstar hany]
    | true => simp [swallow_starred_lit hstar hany]

/-! ### One round -/

section
variable {stri : Bool} {bound boundStr boundPattern : TextBound} {fuel : Nat}
  {s p q rest : List Byte} {c : Byte} {r r' : List (Item Byte) × Bool}
  {result : Except TextStop Int}

theorem Answers.miss (h : ¬ Matches (castch stri) (reach r) s) {v : Int} (hv : v ≠ 0) :
    Answers stri r s (.ok v) := .inr ⟨h, v, hv, rfl⟩

theorem Answers.congr {s' : List Byte} (h : Answers stri r' s' result)
    (hflag : r.2 = r'.2)
    (hiff : Matches (castch stri) (reach r) s ↔ Matches (castch stri) (reach r') s') :
    Answers stri r s result := by
  unfold Answers
  rw [hiff, hflag]
  exact h

/-- A pattern pointer behind the terminator is read, unless the bound is there. -/
theorem wcmpLoop_past (hs : 0 ∉ s) :
    Answers stri ([], decide (boundPattern ≠ .behind)) s
      (wcmpLoop stri boundStr boundPattern (fuel + 1) (.here s) .past) := by
  by_cases hbound : boundPattern = .behind
  · subst hbound
    cases s with
    | nil =>
      rw [wcmpLoop, TextPtr.atEnd_nil]
      exact .inl ⟨by simp [reach], rfl⟩
    | cons c s =>
      have hc := (ne_of_not_mem_cons hs).symm
      rw [wcmpLoop, TextPtr.atEnd_cons hc]
      exact .miss (by simp [reach]) (toInt_ne_zero hc)
  · rw [decide_eq_true hbound]
    refine .inl ⟨by simp [reach, matches_star], ?_⟩
    cases s with
    | nil =>
      rw [wcmpLoop, TextPtr.atEnd_nil]
      simp only [bind, Except.bind, if_true, skipStars, if_neg hbound]
      rfl
    | cons c s =>
      rw [wcmpLoop, TextPtr.atEnd_cons (ne_of_not_mem_cons hs).symm]
      simp only [bind, Except.bind, Bool.false_eq_true, if_false, TextPtr.atEnd, TextPtr.isEnd,
        decide_eq_false hbound, TextPtr.read]
      rfl

/-- **The loop behind a star.** -/
theorem scanLoop_spec {self : TextPtr → Except TextStop Int} (hc : c ≠ 0)
    (hself : ∀ t, t.length < s.length → 0 ∉ t → Answers stri r t (self (.here t))) (hs : 0 ∉ s) :
    Answers stri (prepend [.star, .lit c] r) s (scanLoop stri bound (castch stri c) self s) := by
  induction s with
  | nil =>
    rw [scanLoop, castch_zero, if_neg (fun h => castch_ne_zero hc h.2.symm)]
    exact .miss (by simp) (Int.neg_ne_zero.2 (toInt_ne_zero (castch_ne_zero hc)))
  | cons ch str ih =>
    have hstr := not_mem_of_not_mem_cons hs
    have hrest := ih (fun t ht => hself t (ht.trans (Nat.lt_succ_self _))) hstr
    rw [scanLoop]
    by_cases heq : castch stri ch = castch stri c
    · rw [if_pos heq]
      rcases hself str (Nat.lt_succ_self _) hstr with ⟨hmatch, hhit⟩ | ⟨hno, v, hv, hval⟩
      · -- found: zero, or the overread of the rest of the pattern
        refine .inl ⟨?_, ?_⟩
        · rw [reach_prepend]
          exact matches_star_lit_cons.2 (.inl ⟨heq.symm, hmatch⟩)
        · rw [hhit]
          obtain ⟨g, dangling⟩ := r
          cases dangling <;> rfl
      · rw [hval]
        simp only [bind, Except.bind]
        rw [if_neg hv]
        refine hrest.congr rfl ?_
        rw [reach_prepend]
        exact matches_star_lit_cons.trans (or_iff_right fun h => hno h.2)
    · rw [if_neg heq]
      refine hrest.congr rfl ?_
      simp [matches_star_lit_cons, Ne.symm heq]

/-- The end of the string: only stars may be left. -/
theorem wcmpLoop_nil (hp : 0 ∉ p) :
    Answers stri (swallow boundPattern false p) []
      (wcmpLoop stri boundStr boundPattern (fuel + 1) (.here []) (.here p)) := by
  rw [wcmpLoop, TextPtr.atEnd_nil]
  simp only [bind, Except.bind, if_true, skipStars]
  obtain ⟨starred, hread⟩ := swallow_skipStars boundPattern p
  rw [hread]
  cases hdrop : p.dropWhile (· = ascii '*') with
  | nil =>
    refine .inl ⟨?_, ?_⟩
    · cases starred <;> simp [swallow, reach]
    · -- the terminator is read, the bound is not; either way the result is zero
      cases boundPattern <;> cases stri <;> rfl
  | cons c q =>
    obtain ⟨hstar, hmem⟩ := head_dropWhile hdrop
    have hc : c ≠ 0 := fun hzero => hp (hzero ▸ hmem c mem_cons_self)
    exact .miss (not_matches_reach_nil hstar)
      (Int.neg_ne_zero.2 (toInt_ne_zero (castch_ne_zero hc)))

/-- **The rounds** are those of a matcher for the pattern as it is read. -/
theorem wcmpLoop_spec (fuel : Nat) : ∀ s p, 0 ∉ s → 0 ∉ p → s.length < fuel →
    Answers stri (swallow boundPattern false p) s
      (wcmpLoop stri boundStr boundPattern fuel (.here s) (.here p)) := by
  induction fuel with
  | zero => exact fun _ _ _ _ h => absurd h (Nat.not_lt_zero _)
  | succ fuel ih =>
    intro s p hs hp hlen
    cases s with
    | nil => exact wcmpLoop_nil hp
    | cons c t =>
      have hc := ne_of_not_mem_cons hs
      have ht := not_mem_of_not_mem_cons hs
      have hlen' : t.length < fuel := Nat.lt_of_succ_lt_succ hlen
      rw [wcmpLoop, TextPtr.atEnd_cons hc.symm]
      simp only [bind, Except.bind, Bool.false_eq_true, if_false, TextPtr.read]
      cases p with
      | nil =>
        rw [TextPtr.atEnd_nil]
        exact .miss (by simp [swallow, reach]) (toInt_ne_zero hc.symm)
      | cons w q =>
        have hq := not_mem_of_not_mem_cons hp
        rw [TextPtr.atEnd_cons (ne_of_not_mem_cons hp).symm]
        simp only [Bool.false_eq_true, if_false]
        by_cases hstar : w = ascii '*'
        · subst hstar
          rw [if_pos rfl, swallow_star, swallow_dropWhile]
          simp only [skipStars, dropWhile_cons_of_pos, decide_true]
          cases hdrop : q.dropWhile (· = ascii '*') with
          | nil =>
            refine .inl ⟨by simp [swallow, reach, matches_star], ?_⟩
            cases boundPattern <;> rfl
          | cons x q' =>
            obtain ⟨hx, hmem⟩ := head_dropWhile hdrop
            have hx0 : x ≠ 0 := fun hzero => hq (hzero ▸ hmem x mem_cons_self)
            have hq' : 0 ∉ q' := fun h => hq (hmem 0 (.tail _ h))
            simp only [TextPtr.isEnd, TextPtr.next, Bool.false_eq_true, if_false]
            rw [if_neg hx0]
            by_cases hany : x = ascii '?'
            · subst hany
              cases q' with
              | nil =>
                -- there is nothing behind the question mark
                obtain ⟨n, rfl⟩ : ∃ n, fuel = n + 1 := ⟨fuel - 1, by omega⟩
                rw [swallow_starred_any_nil]
                exact (wcmpLoop_past ht).congr rfl (by simp)
              | cons y q' =>
                rw [swallow_starred_any]
                exact (ih t q' ht (not_mem_of_not_mem_cons hq') hlen').congr rfl (by simp)
            · rw [if_neg hany, swallow_starred_lit hx hany]
              exact scanLoop_spec hx0 (fun t ht h0 => ih t q' h0 hq' (by simp at ht; omega)) hs
        · rw [if_neg hstar]
          by_cases hany : w = ascii '?'
          · subst hany
            rw [if_pos (.inr rfl), swallow_any]
            exact (ih t q ht hq hlen').congr rfl (by simp)
          rw [swallow_lit hstar hany]
          by_cases heq : castch stri w = castch stri c
          · rw [if_pos (.inl heq)]
            exact (ih t q ht hq hlen').congr rfl (by simp [heq])
          rw [if_neg (by simp [heq, hany])]
          refine .miss (by simp [heq]) fun hzero => heq (BitVec.eq_of_toInt_eq ?_)
          omega

end

/-! ### When the result is right -/

/-- The call returns, and with zero exactly if the pattern matches. -/
def WcmpRight (stri : Bool) (s p : List Byte) (result : Except TextStop Int) : Prop :=
  ∃ v, result = .ok v ∧ (v = 0 ↔ Matches (castch stri) (glob p) s)

/-- **The exact condition.** The pattern as it is read matches the string exactly if the
pattern does; and if it ends in a question mark with nothing to swallow, and its bound does
not lie behind the terminator, then the string must not lead there. -/
def WildOk (bound : TextBound) (stri : Bool) (s p : List Byte) : Prop :=
  (Matches (castch stri) (reach (swallow bound false p)) s ↔ Matches (castch stri) (glob p) s) ∧
  ((swallow bound false p).2 = true → ¬ Matches (castch stri) (reach (swallow bound false p)) s)

theorem wcmp_right_iff (stri : Bool) (str pattern : Text) :
    WcmpRight stri str.chars pattern.chars (wcmp stri str pattern) ↔
      WildOk pattern.bound stri str.chars pattern.chars := by
  have hspec : Answers stri (swallow pattern.bound false pattern.chars) str.chars
      (wcmp stri str pattern) :=
    wcmpLoop_spec _ _ _ str.nonzero pattern.nonzero (Nat.lt_succ_self _)
  unfold WcmpRight WildOk
  rcases hspec with ⟨hmatch, hhit⟩ | ⟨hno, v, hv, hval⟩
  · rw [hhit]
    cases hflag : (swallow pattern.bound false pattern.chars).2 with
    | false => simp [hit, hmatch]
    | true => simp [hit, hmatch]
  · simp [hval, hno, hv]

/-- A pattern without a question mark directly behind a star is read as it is. -/
theorem swallow_separate (bound : TextBound) (stri : Bool) (p : List Byte) : ∀ starred : Bool,
    ¬ [ascii '*', ascii '?'] <:+: (if starred then [ascii '*'] else []) ++ p →
      (swallow bound starred p).2 = false ∧ ∀ s,
        Matches (castch stri) (reach (swallow bound starred p)) s ↔
        Matches (castch stri) ((if starred then [.star] else []) ++ glob p) s := by
  induction p with
  | nil =>
    intro starred _
    cases starred <;> simp [swallow, reach, glob]
  | cons c q ih =>
    intro starred hsep
    have htail : ¬ [ascii '*', ascii '?'] <:+: q := fun h =>
      hsep (h.trans ⟨(if starred then [ascii '*'] else []) ++ [c], [], by simp⟩)
    obtain ⟨hflag, hiff⟩ := ih false (by simpa using htail)
    by_cases hstar : c = ascii '*'
    · subst hstar
      obtain ⟨hflag', hiff'⟩ := ih true fun h =>
        hsep (h.trans ⟨if starred then [ascii '*'] else [], [], by simp⟩)
      rw [swallow_star]
      refine ⟨hflag', fun s => (hiff' s).trans ?_⟩
      cases starred with
      | false => rfl
      | true => exact matches_star_star.symm
    by_cases hany : c = ascii '?'
    · subst hany
      cases starred with
      | false =>
        rw [swallow_any]
        refine ⟨hflag, fun s => ?_⟩
        cases s with
        | nil => simp [glob, item, hstar]
        | cons => simp [glob, item, hstar, hiff]
      | true => exact absurd ⟨[], q, rfl⟩ hsep
    · have hlit (s : List Byte) :
          Matches (castch stri) (.lit c :: reach (swallow bound false q)) s ↔
          Matches (castch stri) (.lit c :: glob q) s := by
        cases s with
        | nil => simp
        | cons => simp [hiff]
      have hitem : glob (c :: q) = .lit c :: glob q := by simp [glob, item, hstar, hany]
      cases starred with
      | false =>
        rw [swallow_lit hstar hany, reach_prepend, hitem]
        exact ⟨hflag, hlit⟩
      | true =>
        rw [swallow_starred_lit hstar hany, reach_prepend, hitem]
        exact ⟨hflag, fun s => matches_star_congr hlit⟩

/-- Such a pattern meets the condition with every string. -/
theorem wildOk_of_separate {bound : TextBound} {stri : Bool} {s p : List Byte}
    (h : ¬ [ascii '*', ascii '?'] <:+: p) : WildOk bound stri s p := by
  obtain ⟨hflag, hiff⟩ := swallow_separate bound stri p false (by simpa using h)
  exact ⟨hiff s, fun hdangling => absurd hdangling (by simp [hflag])⟩

/-- **Wildcard matching.** Each of the four functions returns zero for the strings that the
pattern matches and another value for all others, without a read outside of its texts,
exactly under the condition. -/
theorem wildcard_right_iff (str pattern : ZString) (maxstr maxpattern : Nat) :
    (WcmpRight false str.chars pattern.chars (strwcmp str pattern) ↔
      WildOk .none false str.chars pattern.chars) ∧
    (WcmpRight true str.chars pattern.chars (striwcmp str pattern) ↔
      WildOk .none true str.chars pattern.chars) ∧
    (WcmpRight false (str.chars.take maxstr) (pattern.chars.take maxpattern)
        (strnwcmp str maxstr pattern maxpattern) ↔
      WildOk (pattern.cutAt maxpattern).bound false (str.chars.take maxstr)
        (pattern.chars.take maxpattern)) ∧
    (WcmpRight true (str.chars.take maxstr) (pattern.chars.take maxpattern)
        (strinwcmp str maxstr pattern maxpattern) ↔
      WildOk (pattern.cutAt maxpattern).bound true (str.chars.take maxstr)
        (pattern.chars.take maxpattern)) :=
  ⟨wcmp_right_iff .., wcmp_right_iff .., wcmp_right_iff .., wcmp_right_iff ..⟩

/-- The text `a`. -/
def letterA : ZString := ⟨[ascii 'a'], by decide⟩

/-- The pattern `*?`. -/
def starQuestion : ZString := ⟨[ascii '*', ascii '?'], by decide⟩

/-- `*?` against one character: the pattern is read behind its terminator. -/
theorem strwcmp_overread :
    strwcmp letterA starQuestion = .error .overread ∧
      ¬ WcmpRight false letterA.chars starQuestion.chars (strwcmp letterA starQuestion) := by
  have hcall : strwcmp letterA starQuestion = .error .overread := rfl
  refine ⟨hcall, ?_⟩
  rintro ⟨v, hval, -⟩
  cases hval

/-- **A pattern without `*?`** is matched right by all four functions. -/
theorem wildcard_right_of_separate (str pattern : ZString) (maxstr maxpattern : Nat)
    (h : ¬ [ascii '*', ascii '?'] <:+: pattern.chars) :
    WcmpRight false str.chars pattern.chars (strwcmp str pattern) ∧
    WcmpRight true str.chars pattern.chars (striwcmp str pattern) ∧
    WcmpRight false (str.chars.take maxstr) (pattern.chars.take maxpattern)
      (strnwcmp str maxstr pattern maxpattern) ∧
    WcmpRight true (str.chars.take maxstr) (pattern.chars.take maxpattern)
      (strinwcmp str maxstr pattern maxpattern) := by
  have hcut : ¬ [ascii '*', ascii '?'] <:+: pattern.chars.take maxpattern :=
    fun hin => h (hin.trans ( take_prefix _ _).isInfix)
  refine ⟨?_, ?_, ?_, ?_⟩
  all_goals exact (wcmp_right_iff ..).mpr (wildOk_of_separate ‹_›)

/-- The pattern `*a`. -/
def starA : ZString := ⟨[ascii '*', ascii 'a'], by decide⟩

theorem wildcard_right_of_separate_letter :
    WcmpRight false letterA.chars starA.chars (strwcmp letterA starA) :=
  (wildcard_right_of_separate letterA starA 0 0 (by decide)).1

end KosKernel.Libc.Wildcard
