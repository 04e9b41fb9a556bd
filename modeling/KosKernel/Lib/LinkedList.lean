import Mathlib.Data.List.Nodup
import Mathlib.Logic.Function.Basic

/-!
# KosKernel.Lib.LinkedList

**Doubly linked lists in a pointer-indexed memory.** The memory is split by
field (one map `next`, one map `prev`), so a write to one field never disturbs
the other, and a write at `p` disturbs only `p`.

`IsSeg` is the one shape predicate: a segment is the list of nodes it visits,
with every back link accounted for. A whole list is a segment from its head to
`nil` whose first back link is `nil`. Splicing code only ever does two things,
and each has one lemma:

* redirect the link that arrives at a node — the head pointer when there is no
  predecessor, the predecessor's `next` otherwise (`linkHead`/`linkNext`,
  `IsSeg.relink_end`);
* redirect the back link of the node that follows, if there is one
  (`linkPrev`, `IsSeg.relink_begin`).
-/

namespace KosKernel.LinkedList

open Function List

variable {P : Type}

/-- Following `next` from `p` visits exactly `xs` and then arrives at `e`; the
back link of the first node is `b`, every other back link names the node visited
just before. -/
def IsSeg (nil : P) (next prev : P → P) : P → P → List P → P → Prop
  | _, p, [], e => p = e
  | b, p, x :: xs, e =>
    p = x ∧ x ≠ nil ∧ prev x = b ∧ IsSeg nil next prev x (next x) xs e

section Shape

variable {nil : P} {next prev next' prev' : P → P} {b b' p e : P} {xs ys : List P}

@[simp] theorem isSeg_nil : IsSeg nil next prev b p [] e ↔ p = e := Iff.rfl

variable {x : P}

@[simp] theorem isSeg_cons :
    IsSeg nil next prev b p (x :: xs) e ↔
      p = x ∧ x ≠ nil ∧ prev x = b ∧ IsSeg nil next prev x (next x) xs e := Iff.rfl

/-- A segment splits at every point of its node list. -/
theorem isSeg_append :
    IsSeg nil next prev b p (xs ++ ys) e ↔
      ∃ m, IsSeg nil next prev b p xs m ∧
        IsSeg nil next prev (xs.getLastD b) m ys e := by
  induction xs generalizing b p with
  | nil => simp
  | cons x xs ih =>
    simp only [cons_append, isSeg_cons, ih, getLastD_cons]
    constructor
    · rintro ⟨hp, hx, hb, m, h1, h2⟩
      exact ⟨m, ⟨hp, hx, hb, h1⟩, h2⟩
    · rintro ⟨m, ⟨hp, hx, hb, h1⟩, h2⟩
      exact ⟨hp, hx, hb, m, h1, h2⟩

/-- Only the links of the visited nodes matter. -/
theorem IsSeg.congr (h : IsSeg nil next prev b p xs e)
    (hn : ∀ x ∈ xs, next' x = next x) (hp : ∀ x ∈ xs, prev' x = prev x) :
    IsSeg nil next' prev' b p xs e := by
  induction xs generalizing b p with
  | nil => exact h
  | cons x xs ih =>
    obtain ⟨rfl, hx, hb, htl⟩ := h
    refine ⟨rfl, hx, (hp p (by simp)).trans hb, ?_⟩
    rw [hn p (by simp)]
    exact ih htl (fun y hy => hn y (by simp [hy])) (fun y hy => hp y (by simp [hy]))

theorem IsSeg.ne_nil (h : IsSeg nil next prev b p xs e) : ∀ x ∈ xs, x ≠ nil := by
  induction xs generalizing b p with
  | nil => simp
  | cons x xs ih =>
    obtain ⟨rfl, hx, -, htl⟩ := h
    exact forall_mem_cons.mpr ⟨hx, ih htl⟩

/-- A segment that reaches `nil` starts there exactly when it is empty. -/
theorem IsSeg.head_eq_nil_iff (h : IsSeg nil next prev b p xs nil) :
    p = nil ↔ xs = [] := by
  cases xs with
  | nil => simpa using h
  | cons x xs =>
    obtain ⟨rfl, hx, -, -⟩ := h
    simp [hx]

theorem IsSeg.ne_head (h : IsSeg nil next prev b p xs nil) (hx : x ∉ xs) (hx0 : x ≠ nil) :
    x ≠ p := by
  rintro rfl
  cases xs with
  | nil => exact hx0 h
  | cons y ys => exact hx (by simp [h.1])

theorem getLastD_mem {b : P} {xs : List P} (h : xs ≠ []) : xs.getLastD b ∈ xs := by
  obtain ⟨x, xs, rfl⟩ := exists_cons_of_ne_nil h
  rw [getLastD_cons]
  exact getLastD_mem_cons

theorem getLastD_ne {b : P} {xs : List P} (hx : x ∉ xs) (hb : x ≠ b) : x ≠ xs.getLastD b :=
  fun hEq => not_mem_cons_of_ne_of_not_mem hb hx (hEq ▸ getLastD_mem_cons)

/-- The last node of a segment leads out of it. -/
theorem IsSeg.next_last (h : IsSeg nil next prev b p xs e) (hne : xs ≠ []) :
    next (xs.getLastD b) = e := by
  induction xs generalizing b p with
  | nil => exact absurd rfl hne
  | cons x xs ih =>
    obtain ⟨rfl, -, -, htl⟩ := h
    rw [getLastD_cons]
    by_cases hxs : xs = []
    · subst hxs; exact htl
    · exact ih htl hxs

theorem IsSeg.getLastD_ne_nil (h : IsSeg nil next prev b p xs e) (hne : xs ≠ []) :
    xs.getLastD nil ≠ nil := h.ne_nil _ (getLastD_mem hne)

/-- The links around a node of a list lead to nodes of that list, or nowhere. -/
theorem IsSeg.link_mem (h : IsSeg nil next prev nil p xs nil) (hx : x ∈ xs) :
    (next x = nil ∨ next x ∈ xs) ∧ (prev x = nil ∨ prev x ∈ xs) := by
  obtain ⟨pre, post, rfl⟩ := append_of_mem hx
  obtain ⟨m, hpre, rfl, -, hb, hpost⟩ := isSeg_append.mp h
  constructor
  · cases post with
    | nil => exact .inl hpost
    | cons z zs => exact .inr (by simp [hpost.1])
  · by_cases hnil : pre = []
    · exact .inl (by rw [hb, hnil]; rfl)
    · exact .inr (by rw [hb]; exact mem_append_left _ (getLastD_mem hnil))

/-- What a walk along `next` arrives at is a node of the list that starts there, and
the list's own back link of it names the last node the walk visited. -/
theorem IsSeg.passes (h : IsSeg nil next prev b p ys nil) (h' : IsSeg nil next prev' b' p xs e)
    (he : e ≠ nil) : e ∈ ys ∧ prev e = xs.getLastD b := by
  induction xs generalizing b b' p ys with
  | nil =>
    cases ys with
    | nil => exact absurd ((isSeg_nil.mp h').symm.trans (isSeg_nil.mp h)) he
    | cons y ys =>
      obtain ⟨rfl, -, hb, -⟩ := h
      rw [← isSeg_nil.mp h']
      exact ⟨by simp, hb⟩
  | cons x xs ih =>
    obtain ⟨rfl, hx, -, htl'⟩ := h'
    cases ys with
    | nil => exact absurd (isSeg_nil.mp h) hx
    | cons y ys =>
      obtain ⟨rfl, -, -, htl⟩ := h
      obtain ⟨hmem, hprev⟩ := ih htl htl'
      rw [getLastD_cons]
      exact ⟨mem_cons_of_mem _ hmem, hprev⟩

end Shape

/-! ### Walking -/

section Walk

variable [DecidableEq P]

/-- The nodes that a loop along `next` visits until it arrives at `nil`, if that is
within `fuel` steps. -/
def walk (nil : P) (next : P → P) : Nat → P → Option (List P)
  | 0, _ => none
  | fuel + 1, p => if p = nil then some [] else (walk nil next fuel (next p)).map (p :: ·)

variable {nil : P} {next prev : P → P} {b p : P} {xs : List P}

/-- A loop along a list visits its nodes. -/
theorem IsSeg.walk_eq (h : IsSeg nil next prev b p xs nil) {fuel : Nat} (hf : xs.length < fuel) :
    walk nil next fuel p = some xs := by
  induction xs generalizing b p fuel with
  | nil =>
    obtain _ | fuel := fuel
    · simp at hf
    exact if_pos h
  | cons x xs ih =>
    obtain _ | fuel := fuel
    · simp at hf
    obtain ⟨rfl, hx, -, htl⟩ := h
    rw [walk, if_neg hx, ih htl (by simpa using hf)]
    rfl

end Walk

/-! ### Relinking -/

section Relink

variable [DecidableEq P]

/-- `if (b != nil) b->next = y;` on the memory. -/
def linkNext (nil : P) (next : P → P) (b y : P) : P → P :=
  if b = nil then next else update next b y

/-- `if (b == nil) head = y;` on the head pointer. -/
def linkHead (nil head b y : P) : P := if b = nil then y else head

/-- `if (q != nil) q->prev = y;` on the memory. -/
def linkPrev (nil : P) (prev : P → P) (q y : P) : P → P :=
  if q = nil then prev else update prev q y

variable {nil : P} {next prev : P → P} {b p e : P} {xs : List P}

variable {x y : P}

theorem linkNext_of_ne {b : P} (h : x ≠ b) : linkNext nil next b y x = next x := by
  unfold linkNext
  split
  · rfl
  · exact update_of_ne h _ _

variable {q : P}

theorem linkPrev_of_ne (h : x ≠ q) : linkPrev nil prev q y x = prev x := linkNext_of_ne h

variable {a v : P}

theorem linkNext_update_of_ne {b : P} (h : x ≠ a) :
    linkNext nil (update next a v) b y x = linkNext nil next b y x := by
  unfold linkNext
  split
  · exact update_of_ne h _ _
  · simp only [update_apply, if_neg h]

theorem linkPrev_update_of_ne (h : x ≠ a) :
    linkPrev nil (update prev a v) q y x = linkPrev nil prev q y x :=
  linkNext_update_of_ne h

theorem linkPrev_update_comm (h : a ≠ q) :
    linkPrev nil (update prev a v) q y = update (linkPrev nil prev q y) a v := by
  unfold linkPrev
  split
  · rfl
  · exact (update_comm h.symm y v prev).symm

/-- Writing the last node's `next` moves the end of a non-empty segment. -/
theorem IsSeg.update_last_next (h : IsSeg nil next prev b p xs e) (hne : xs ≠ [])
    (hnd : xs.Nodup) (y : P) :
    IsSeg nil (update next (xs.getLastD b) y) prev b p xs y := by
  induction xs generalizing b p with
  | nil => exact absurd rfl hne
  | cons x xs ih =>
    obtain ⟨rfl, hx, hb, htl⟩ := h
    rw [getLastD_cons]
    refine ⟨rfl, hx, hb, ?_⟩
    by_cases hxs : xs = []
    · subst hxs
      exact update_self p y next
    have hlast : xs.getLastD p ∈ xs := getLastD_mem hxs
    have hpx : p ≠ xs.getLastD p := by
      rintro hEq
      exact (nodup_cons.mp hnd).1 (hEq ▸ hlast)
    rw [update_of_ne hpx]
    exact ih htl hxs (nodup_cons.mp hnd).2

/-- The link arriving at the end of a list prefix is redirected: through the
head pointer when the prefix is empty, through its last node otherwise. -/
theorem IsSeg.relink_end (h : IsSeg nil next prev nil p xs e) (hnd : xs.Nodup) (y : P) :
    IsSeg nil (linkNext nil next (xs.getLastD nil) y) prev nil
      (linkHead nil p (xs.getLastD nil) y) xs y := by
  by_cases hxs : xs = []
  · subst hxs
    simp [linkHead]
  have hlast := h.getLastD_ne_nil hxs
  rw [linkNext, linkHead, if_neg hlast, if_neg hlast]
  exact h.update_last_next hxs hnd y

/-- The back link of the first node, if there is one, is redirected. -/
theorem IsSeg.relink_begin (h : IsSeg nil next prev b p xs nil) (hnd : xs.Nodup) (y : P) :
    IsSeg nil next (linkPrev nil prev p y) y p xs nil := by
  cases xs with
  | nil => exact h
  | cons x xs =>
    obtain ⟨rfl, hx, -, htl⟩ := h
    have hnp : p ∉ xs := (nodup_cons.mp hnd).1
    refine ⟨rfl, hx, by simp [linkPrev, hx], ?_⟩
    exact htl.congr (fun _ _ => rfl)
      (fun z hz => linkPrev_of_ne (fun hEq => hnp (hEq ▸ hz)))

theorem IsSeg.linkHead_self (h : IsSeg nil next prev nil p xs e) :
    linkHead nil p (xs.getLastD nil) e = p := by
  by_cases hxs : xs = []
  · subst hxs
    simpa [linkHead] using (isSeg_nil.mp h).symm
  · exact if_neg (h.getLastD_ne_nil hxs)

theorem IsSeg.linkNext_self (h : IsSeg nil next prev nil p xs e) :
    linkNext nil next (xs.getLastD nil) e = next := by
  by_cases hxs : xs = []
  · subst hxs
    exact if_pos rfl
  rw [linkNext, if_neg (h.getLastD_ne_nil hxs),
    ← h.next_last hxs]
  exact update_eq_self _ _

theorem IsSeg.linkPrev_self (h : IsSeg nil next prev b p xs nil) :
    linkPrev nil prev p b = prev := by
  cases xs with
  | nil => exact if_pos h
  | cons x xs =>
    obtain ⟨rfl, hx, hb, -⟩ := h
    rw [linkPrev, if_neg hx, ← hb]
    exact update_eq_self _ _

/-- **The splice rule.** The nodes between a prefix and a suffix of a list are
replaced by `mid`: the arriving link and the back link behind it are redirected,
every other link of the prefix and the suffix stays. All list surgery below is
an instance. -/
theorem IsSeg.splice {next' prev' : P → P} {head head' m p' : P} {pre post : List P} (mid : List P)
    (hpre : IsSeg nil next prev nil head pre m) (hpost : IsSeg nil next prev b q post nil)
    (hndpre : pre.Nodup) (hndpost : post.Nodup)
    (hmid : IsSeg nil next' prev' (pre.getLastD nil) p' mid q)
    (hhead : head' = linkHead nil head (pre.getLastD nil) p')
    (hnpre : ∀ x ∈ pre, next' x = linkNext nil next (pre.getLastD nil) p' x)
    (hppre : ∀ x ∈ pre, prev' x = prev x) (hnpost : ∀ x ∈ post, next' x = next x)
    (hppost : ∀ x ∈ post,
      prev' x = linkPrev nil prev q (mid.getLastD (pre.getLastD nil)) x) :
    IsSeg nil next' prev' nil head' (pre ++ (mid ++ post)) nil := by
  rw [isSeg_append]
  refine ⟨p', ?_, isSeg_append.mpr ⟨q, hmid, ?_⟩⟩
  · rw [hhead]
    exact (hpre.relink_end hndpre p').congr hnpre hppre
  · exact (hpost.relink_begin hndpost _).congr hnpost hppost

theorem IsSeg.push (h : IsSeg nil next prev nil p xs nil) (hnd : xs.Nodup) (hx : x ∉ xs)
    (hx0 : x ≠ nil) :
    IsSeg nil (update next x p) (linkPrev nil (update prev x nil) p x) nil x
      (x :: xs) nil := by
  refine ⟨rfl, hx0, ?_, ?_⟩
  · rw [linkPrev_of_ne (h.ne_head hx hx0), update_self]
  · rw [update_self]
    have htl := h.relink_begin hnd x
    exact htl.congr (fun y hy => update_of_ne (ne_of_mem_of_not_mem hy hx) _ _)
      (fun y hy => linkPrev_update_of_ne (ne_of_mem_of_not_mem hy hx))

theorem IsSeg.unlink (h : IsSeg nil next prev nil p xs nil) (hnd : xs.Nodup) (hx : x ∈ xs) :
    IsSeg nil (linkNext nil next (prev x) (next x)) (linkPrev nil prev (next x) (prev x)) nil
      (linkHead nil p (prev x) (next x)) (xs.erase x) nil := by
  obtain ⟨pre, post, rfl⟩ := append_of_mem hx
  obtain ⟨m, hpre, rfl, -, hb, hpost⟩ := isSeg_append.mp h
  obtain ⟨hndpre, hndx, hdis⟩ := nodup_append.mp hnd
  have hnot : m ∉ pre := fun hm => hdis m hm m (by simp) rfl
  rw [hb, erase_append_right _ hnot, erase_cons_head]
  refine IsSeg.splice [] hpre hpost hndpre (nodup_cons.mp hndx).2 rfl rfl
    (fun _ _ => rfl) (fun y hy => ?_) (fun y hy => ?_) (fun _ _ => rfl)
  · refine linkPrev_of_ne (hpost.ne_head (fun hmem => ?_) (hpre.ne_nil y hy))
    exact hdis y hy y (by simp [hmem]) rfl
  · refine linkNext_of_ne (getLastD_ne (fun hmem => ?_) (hpost.ne_nil y hy))
    exact hdis y hmem y (by simp [hy]) rfl

variable {ys : List P}

section

variable (h : IsSeg nil next prev nil p xs nil) (h' : IsSeg nil next prev nil q ys nil)

include h h'

/-- Taking a node out of one list leaves the others alone. -/
theorem IsSeg.frame_unlink (hdis : ∀ y ∈ ys, y ∉ xs) (hx : x ∈ xs) :
    IsSeg nil (linkNext nil next (prev x) (next x)) (linkPrev nil prev (next x) (prev x)) nil
      q ys nil := by
  obtain ⟨hnext, hprev⟩ := h.link_mem hx
  refine h'.congr (fun y hy => linkNext_of_ne ?_) (fun y hy => linkPrev_of_ne ?_)
  · rintro rfl
    exact hprev.elim (h'.ne_nil _ hy) (hdis _ hy)
  · rintro rfl
    exact hnext.elim (h'.ne_nil _ hy) (hdis _ hy)

theorem IsSeg.frame_push (hdis : ∀ y ∈ ys, y ∉ xs) (hx : x ∉ ys) :
    IsSeg nil (update next x p) (linkPrev nil (update prev x nil) p x) nil
      q ys nil := by
  refine h'.congr (fun y hy => update_of_ne (ne_of_mem_of_not_mem hy hx) _ _)
    (fun y hy => ?_)
  rw [linkPrev_of_ne (h.ne_head (hdis y hy) (h'.ne_nil y hy)),
    update_of_ne (ne_of_mem_of_not_mem hy hx)]

/-- A list is put before another one. -/
theorem IsSeg.concat (hnd : (xs ++ ys).Nodup) (hne : xs ≠ []) :
    IsSeg nil (update next (xs.getLastD nil) q) (linkPrev nil prev q (xs.getLastD nil))
      nil p (xs ++ ys) nil := by
  obtain ⟨hndx, hndy, hdis⟩ := nodup_append.mp hnd
  refine isSeg_append.mpr ⟨q, ?_, ?_⟩
  · refine (h.update_last_next hne hndx q).congr (fun _ _ => rfl) fun y hy => ?_
    exact linkPrev_of_ne (h'.ne_head (fun hmem => hdis y hy y hmem rfl) (h.ne_nil y hy))
  · exact (h'.relink_begin hndy _).congr
      (fun y hy => update_of_ne (hdis _ (getLastD_mem hne) y hy).symm _ _)
      (fun _ _ => rfl)

end

end Relink

end KosKernel.LinkedList
