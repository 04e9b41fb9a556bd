import KosKernel.Fs.PathWalk

/-!
# KosKernel.Fs.PathCompose

**Walking a path in two parts** (`kdirent_walkall` in `src/kernel/fs/fs.c`).

`kdirent_walklast` walks all components but the last one with `kdirent_walkenv`; the last one
is left to `kdirent_walk`, which knows no special directories, unless it is the only one.
A path and the same path in two parts therefore treat the component before the cut in
different ways. They agree if it is an ordinary name.
-/

namespace KosKernel.Fs

open List

/-! ### Relative paths -/

/-- A component of a path. -/
structure Component where
  chars : List Char
  nonempty : chars ≠ []
  part : ∀ c ∈ chars, partChar c = true

/-- One or more separators. -/
structure Gap where
  chars : List Char
  nonempty : chars ≠ []
  sep : ∀ c ∈ chars, isSep c = true

/-- Components with separators between them. -/
structure RelPath where
  first : Component
  rest : List (Gap × Component)

/-- The name of a component is read without the blanks around it. -/
def Component.name (c : Component) : List Char :=
  (c.chars.dropWhile isspace).rdropWhile isspace

namespace RelPath

/-- The text behind the first component. -/
def restText (rest : List (Gap × Component)) : List Char :=
  rest.flatMap fun gc => gc.1.chars ++ gc.2.chars

def text (p : RelPath) : List Char := p.first.chars ++ restText p.rest

def names (p : RelPath) : List (List Char) := p.first.name :: p.rest.map (·.2.name)

/-- The names before the last one. -/
def init (p : RelPath) : List (List Char) := p.names.dropLast

/-- The last name. -/
def last (p : RelPath) : List Char := p.names.getLast (cons_ne_nil _ _)

def append (p : RelPath) (gap : Gap) (q : RelPath) : RelPath :=
  ⟨p.first, p.rest ++ (gap, q.first) :: q.rest⟩

theorem init_concat_last (p : RelPath) : p.init ++ [p.last] = p.names :=
  dropLast_append_getLast _

section

variable (p : RelPath) (gap : Gap) (q : RelPath)

include p gap q

theorem text_append : (p.append gap q).text = p.text ++ (gap.chars ++ q.text) := by
  simp [text, append, restText]

theorem names_append : (p.append gap q).names = p.names ++ q.names := by
  simp [names, append]

theorem init_append : (p.append gap q).init = p.names ++ q.init := by
  have hne : q.names ≠ [] := cons_ne_nil _ _
  rw [init, names_append, dropLast_append_of_ne_nil hne, init]

theorem last_append : (p.append gap q).last = q.last := by
  have h := (p.append gap q).init_concat_last
  rw [names_append, init_append, ← q.init_concat_last, ← append_assoc] at h
  exact singleton_inj.mp (append_cancel_left h)

end

end RelPath

/-! ### Reading a path -/

open RelPath (restText)

theorem isSep_facts {c : Char} (h : isSep c = true) :
    partChar c = false ∧ isspace c = false ∧ c ≠ '\x00' := by
  rw [isSep, Bool.or_eq_true, decide_eq_true_eq, decide_eq_true_eq] at h
  rcases h with rfl | rfl <;> decide

/-- Behind a component a separator or the end follows. -/
theorem restText_head {rest : List (Gap × Component)} {c : Char} {cs : List Char}
    (h : restText rest = c :: cs) : isSep c = true := by
  cases rest with
  | nil => cases h
  | cons gc more =>
    obtain ⟨gap, comp⟩ := gc
    obtain ⟨x, xs, hx⟩ := exists_cons_of_ne_nil gap.nonempty
    simp only [restText, flatMap_cons, hx, cons_append] at h
    cases h
    exact gap.sep c (hx ▸ mem_cons_self)

/-- **A component is read** up to the separator behind it. -/
theorem readPart_component (comp : Component) (rest : List (Gap × Component)) :
    readPart (comp.chars ++ restText rest) = (comp.name, restText rest) := by
  have hdrop : (comp.chars ++ restText rest).dropWhile isspace =
      comp.chars.dropWhile isspace ++ restText rest := by
    rw [dropWhile_append]
    split
    · rename_i hblank
      rw [List.isEmpty_iff.mp hblank, nil_append]
      cases hr : restText rest with
      | nil => rfl
      | cons c cs =>
        simp [(isSep_facts (restText_head hr)).2.1]
    · rfl
  have hpart : ∀ c ∈ comp.chars.dropWhile isspace, partChar c = true := fun c hc =>
    comp.part c ((dropWhile_suffix isspace).subset hc)
  have hstop : ∀ c cs, restText rest = c :: cs → ¬partChar c = true := fun c cs hr => by
    simp [(isSep_facts (restText_head hr)).1]
  rw [readPart, hdrop, takeWhile_append_of_pos hpart, dropWhile_append_of_pos hpart]
  cases hr : restText rest with
  | nil => simp [Component.name]
  | cons c cs =>
    rw [takeWhile_cons_of_neg (hstop c cs hr), dropWhile_cons_of_neg (hstop c cs hr),
      append_nil, Component.name]

theorem Component.head_not_sep (comp : Component) {x : Char} {xs : List Char}
    (hx : comp.chars = x :: xs) : isSep x = false := by
  have h := comp.part x (hx ▸ mem_cons_self)
  rw [partChar, Bool.and_eq_true] at h
  simpa using h.2

theorem dropWhile_gap (gap : Gap) (comp : Component) (more : List Char) :
    (gap.chars ++ (comp.chars ++ more)).dropWhile isSep = comp.chars ++ more := by
  obtain ⟨x, xs, hx⟩ := exists_cons_of_ne_nil comp.nonempty
  rw [dropWhile_append_of_pos gap.sep, hx, cons_append,
    dropWhile_cons_of_neg (by simp [comp.head_not_sep hx])]

theorem atEnd_restText {rest : List (Gap × Component)} :
    atEnd (restText rest) = rest.isEmpty := by
  cases rest with
  | nil => rfl
  | cons gc more =>
    cases hr : restText (gc :: more) with
    | nil =>
      simp only [restText, flatMap_cons, append_eq_nil_iff] at hr
      exact absurd hr.1.1 gc.1.nonempty
    | cons c cs =>
      rw [atEnd, isEmpty_cons, decide_eq_false_iff_not]
      exact (isSep_facts (restText_head hr)).2.2

/-! ### Walking names -/

variable {ι α β γ : Type} {fs : Inodes ι} {s : Dirents ι} {env : Env}

theorem Walk.andThen_assoc (r : Walk ι α) (f : α → Dirents ι → Walk ι β)
    (g : β → Dirents ι → Walk ι γ) :
    (r.andThen f).andThen g = r.andThen fun a s => (f a s).andThen g := by
  obtain ⟨_ | a, s⟩ := r <;> rfl

/-- Names are walked one after another. -/
def walkNames (walkenv : Walkenv ι) (env : Env) :
    List (List Char) → Nat → Dirents ι → Walk ι Nat
  | [], d, s => (.ok d, s)
  | name :: names, d, s =>
    (walkenv { env with cwd := d } name s).andThen fun d s => walkNames walkenv env names d s

/-- The last name of a path with several components. -/
def walkLastName (fs : Inodes ι) (name : List Char) (d : Nat) (s : Dirents ι) : Walk ι Nat :=
  if name.isEmpty then (.ok d, s) else kdirentWalk fs s d name

theorem walkNames_append (walkenv : Walkenv ι) (xs ys : List (List Char)) (d : Nat)
    (s : Dirents ι) :
    walkNames walkenv env (xs ++ ys) d s =
      (walkNames walkenv env xs d s).andThen fun d s => walkNames walkenv env ys d s := by
  induction xs generalizing d s with
  | nil => rfl
  | cons x xs ih => simp only [cons_append, walkNames, ih, Walk.andThen_assoc]

/-- The loop walks all names but the last one. -/
theorem walkRest_names (walkenv : Walkenv ι) {fuel : Nat} (rest : List (Gap × Component))
    (gap : Gap) (comp : Component) (hfuel : rest.length < fuel) (d : Nat) (s : Dirents ι) :
    walkRest walkenv env fuel d (restText (rest ++ [(gap, comp)])) s =
      (walkNames walkenv env (rest.map (·.2.name)) d s).andThen fun d s =>
        (.ok (comp.name, d), s) := by
  induction rest generalizing fuel d s with
  | nil =>
    obtain ⟨fuel, rfl⟩ := Nat.exists_eq_succ_of_ne_zero (Nat.ne_of_gt hfuel)
    have hread := readPart_component comp []
    simp only [restText, flatMap_nil, append_nil] at hread
    have hskip := dropWhile_gap gap comp []
    rw [append_nil] at hskip
    simp [walkRest, restText, hskip, hread, atEnd, walkNames, Walk.andThen]
  | cons gc rest ih =>
    obtain ⟨fuel, rfl⟩ := Nat.exists_eq_succ_of_ne_zero (Nat.ne_of_gt (Nat.zero_lt_of_lt hfuel))
    have htext : restText (gc :: rest ++ [(gap, comp)]) =
        gc.1.chars ++ (gc.2.chars ++ restText (rest ++ [(gap, comp)])) := by
      simp [restText]
    have hmore : ¬atEnd (restText (rest ++ [(gap, comp)])) = true := by
      simp [atEnd_restText]
    rw [htext, walkRest, dropWhile_gap, readPart_component]
    rw [if_neg hmore, map_cons, walkNames, Walk.andThen_assoc]
    congr 1
    funext d s
    exact ih (Nat.lt_of_succ_lt_succ hfuel) d s

theorem length_restText (rest : List (Gap × Component)) :
    rest.length ≤ (restText rest).length := by
  induction rest with
  | nil => exact Nat.zero_le _
  | cons gc rest ih =>
    have hpos := length_pos_of_ne_nil gc.2.nonempty
    have htext : restText (gc :: rest) =
        gc.1.chars ++ gc.2.chars ++ restText rest := rfl
    rw [htext, length_append, length_append, length_cons]
    omega

theorem walklast_text (p : RelPath) (walkenv : Walkenv ι) (env : Env) (s : Dirents ι) :
    walklast walkenv env p.text s =
      if p.rest.isEmpty then
        if isDots p.first.name then
          (walkDots env p.first.name s).andThen fun newroot s => (.ok ([], newroot), s)
        else (.ok (p.first.name, env.cwd), s)
      else (walkenv env p.first.name s).andThen fun usedroot s =>
        walkRest walkenv env p.text.length usedroot (restText p.rest) s := by
  obtain ⟨x, xs, hx⟩ := exists_cons_of_ne_nil p.first.nonempty
  have htext : p.text = x :: (xs ++ restText p.rest) := by
    rw [RelPath.text, hx, cons_append]
  have hread : readPart p.text = (p.first.name, restText p.rest) :=
    readPart_component p.first p.rest
  have hlast : walklast walkenv env p.text s = walkRelative walkenv env p.text s := by
    rw [htext, walklast, p.first.head_not_sep hx]
    rfl
  have hempty : p.text.isEmpty = false := by rw [htext, isEmpty_cons]
  simp only [hlast, walkRelative, hempty, hread, atEnd_restText, Bool.false_eq_true, if_false]

theorem Walk.andThen_ok (r : Walk ι α) : (r.andThen fun a s => (.ok a, s)) = r := by
  obtain ⟨_ | a, s⟩ := r <;> rfl

/-- **A relative path is walked by its names**: all but the last one as components, and the
last one as a child, unless it is a special directory and alone. -/
theorem walkall_text (p : RelPath) (walkenv : Walkenv ι) (env : Env) (s : Dirents ι) :
    walkall fs walkenv env p.text s =
      if p.init = [] ∧ isDots p.last = true then walkDots env p.last s
      else (walkNames walkenv env p.init env.cwd s).andThen fun d s =>
        walkLastName fs p.last d s := by
  rw [walkall, walklast_text]
  obtain ⟨first, rest⟩ := p
  rcases eq_nil_or_concat' rest with rfl | ⟨more, ⟨gap, comp⟩, rfl⟩
  · have hinit : RelPath.init ⟨first, []⟩ = [] := rfl
    have hlast : RelPath.last ⟨first, []⟩ = first.name := rfl
    simp only [hinit, hlast, isEmpty_nil, if_true, true_and]
    split
    · rw [Walk.andThen_assoc]
      exact Walk.andThen_ok _
    · rfl
  have hnames : RelPath.init ⟨first, more ++ [(gap, comp)]⟩ ++
      [RelPath.last ⟨first, more ++ [(gap, comp)]⟩] =
        (first.name :: more.map (·.2.name)) ++ [comp.name] := by
    rw [RelPath.init_concat_last]
    simp [RelPath.names]
  obtain ⟨hinit, hlast⟩ := append_inj' hnames rfl
  rw [singleton_inj] at hlast
  have hfuel : more.length < (RelPath.text ⟨first, more ++ [(gap, comp)]⟩).length := by
    have hrest := length_restText (more ++ [(gap, comp)])
    rw [length_append, length_singleton] at hrest
    have htext : RelPath.text ⟨first, more ++ [(gap, comp)]⟩ =
        first.chars ++ restText (more ++ [(gap, comp)]) := rfl
    rw [htext, length_append]
    omega
  rw [hinit, hlast, if_neg (by simp), if_neg (fun h => cons_ne_nil _ _ h.1), walkNames,
    Walk.andThen_assoc, Walk.andThen_assoc]
  congr 1
  funext d s
  rw [walkRest_names walkenv more gap comp hfuel, Walk.andThen_assoc]
  rfl

/-! ### Two walks for one -/

/-- A walk does not succeed. -/
def Fails (r : Walk ι α) : Prop := ∀ a, r.1 ≠ .ok a

/-- Walking a path leads where walking its two parts one after the other leads. -/
def Composes (fs : Inodes ι) (env : Env) (s : Dirents ι) (p : RelPath) (sep : Char)
    (q : RelPath) : Prop :=
  ∀ e, (kdirentWalkall fs env (p.text ++ sep :: q.text) s).1 = .ok e ↔
    ∃ d s₁, kdirentWalkall fs env p.text s = (.ok d, s₁) ∧
      (kdirentWalkall fs { env with cwd := d } q.text s₁).1 = .ok e

/-- The two parts treat their last names as the whole path does: that of the first part is a
name, and special directories are neither the last of several names there nor all of the
second part. -/
def Alike (p q : RelPath) : Prop :=
  p.last ≠ [] ∧ (p.init = [] ∨ isDots p.last = false) ∧ (q.init ≠ [] ∨ isDots q.last = false)

/-- Neither the path nor its two parts can be walked. -/
def Neither (fs : Inodes ι) (env : Env) (s : Dirents ι) (p : RelPath) (sep : Char)
    (q : RelPath) : Prop :=
  Fails (kdirentWalkall fs env (p.text ++ sep :: q.text) s) ∧
    Fails ((kdirentWalkall fs env p.text s).andThen fun d s₁ =>
      kdirentWalkall fs { env with cwd := d } q.text s₁)

/-- A single separator. -/
def Gap.single {sep : Char} (h : isSep sep = true) : Gap where
  chars := [sep]
  nonempty := cons_ne_nil _ _
  sep _ hc := mem_singleton.mp hc ▸ h

theorem walkNames_env (walkenv : Walkenv ι) (names : List (List Char)) (d d' : Nat)
    (s : Dirents ι) :
    walkNames walkenv { env with cwd := d' } names d s = walkNames walkenv env names d s := by
  induction names generalizing d s with
  | nil => rfl
  | cons name names ih => simp only [walkNames, ih]

theorem Walk.andThen_fst_eq_ok {r : Walk ι α} {next : α → Dirents ι → Walk ι β} {b : β} :
    (r.andThen next).1 = .ok b ↔ ∃ a s, r = (.ok a, s) ∧ (next a s).1 = .ok b := by
  obtain ⟨_ | a, s⟩ := r
  · exact ⟨fun h => (by cases h), fun ⟨_, _, h, _⟩ => (by cases h)⟩
  constructor
  · exact fun h => ⟨a, s, rfl, h⟩
  · rintro ⟨_, _, heq, h⟩
    cases heq
    exact h

theorem walkall_append {p q : RelPath} {sep : Char} (hsep : isSep sep = true) :
    kdirentWalkall fs env (p.text ++ sep :: q.text) s =
      (walkNames (walkenv fs (linkMax - env.lnk)) env p.init env.cwd s).andThen fun d s =>
        (walkenv fs (linkMax - env.lnk) { env with cwd := d } p.last s).andThen fun d s =>
          (walkNames (walkenv fs (linkMax - env.lnk)) env q.init d s).andThen fun d s =>
            walkLastName fs q.last d s := by
  have htext : p.text ++ sep :: q.text = (p.append (.single hsep) q).text := by
    rw [RelPath.text_append]
    rfl
  have hmulti : (p.append (.single hsep) q).init ≠ [] := by
    rw [RelPath.init_append]
    exact cons_ne_nil _ _
  rw [kdirentWalkall, htext, walkall_text, if_neg fun h => hmulti h.1, RelPath.init_append,
    RelPath.last_append, ← p.init_concat_last, walkNames_append, walkNames_append]
  simp only [walkNames, Walk.andThen_assoc, Walk.andThen_ok]

section NoLinks

variable (hlinks : ∀ i, fs.isLnk i = false)
include hlinks

/-- Without links a component is a special directory or a child. -/
theorem walkenv_eq (links : Nat) (env : Env) (name : List Char) (s : Dirents ι) :
    walkenv fs links env name s =
      if isDots name then walkDots env name s else kdirentWalk fs s env.cwd name := by
  refine walkenv_of_not_atLink ?_
  rintro ⟨_, inode, _, hlink⟩
  rw [hlinks] at hlink
  cases hlink

/-- **Alike parts** do the same steps as the whole path. -/
theorem walkall_alike {p q : RelPath} {sep : Char} (hsep : isSep sep = true)
    (halike : Alike p q) :
    kdirentWalkall fs env (p.text ++ sep :: q.text) s =
      (kdirentWalkall fs env p.text s).andThen fun d s =>
        kdirentWalkall fs { env with cwd := d } q.text s := by
  obtain ⟨hname, hp, hq⟩ := halike
  have hq' : ¬(q.init = [] ∧ isDots q.last = true) := by
    rintro ⟨hinit, hdots⟩
    rcases hq with h | h
    · exact h hinit
    · rw [h] at hdots
      cases hdots
  rw [walkall_append hsep]
  simp only [kdirentWalkall, walkall_text, walkNames_env, if_neg hq']
  by_cases hdots : isDots p.last = true
  · -- the only name of the first part
    have hinit : p.init = [] := hp.resolve_right (by simp [hdots])
    rw [if_pos ⟨hinit, hdots⟩, hinit]
    simp only [walkNames, walkenv_eq hlinks, hdots, if_true]
    rfl
  · rw [if_neg fun h => hdots h.2, Walk.andThen_assoc]
    simp only [walkenv_eq hlinks, hdots, walkLastName, List.isEmpty_iff, hname, if_false,
      Bool.false_eq_true]

end NoLinks

/-! ### Names that are not found -/

/-- The names that only `kdirent_walkenv` or a trailing separator give a meaning. -/
def Special (name : List Char) : Prop := name = [] ∨ isDots name = true

/-- No entry has a special name, on disk or in memory. -/
structure Plain (fs : Inodes ι) (s : Dirents ι) : Prop where
  tree : Tree s
  walk : ∀ i name, Special name → ∀ node, fs.walk i name ≠ .ok node
  named : ∀ (c : Nat) (x : Dirent ι), s.ents[c]? = some x → x.parent ≠ none → ¬Special x.name

theorem Change.plain {s' : Dirents ι} (h : Change fs s s') (hplain : Plain fs s) :
    Plain fs s' := by
  refine ⟨h.tree hplain.tree, hplain.walk, fun c x hc hparent => ?_⟩
  cases h with
  | asked => exact hplain.named c x hc hparent
  | enter d name hwalk =>
    rw [getElem?_newinherited] at hc
    split at hc
    · cases hc
      exact fun hspecial => hplain.walk _ name hspecial _ hwalk
    · exact hplain.named c x hc hparent
  | cached d child y _ _ _ =>
    rw [getElem?_addCached, Option.map_eq_some_iff] at hc
    obtain ⟨x', hc, rfl⟩ := hc
    have hold := hplain.named c x' hc
    split at hparent
    · rw [if_pos ‹_›]
      exact hold hparent
    · rw [if_neg ‹_›]
      exact hold hparent

theorem Grows.plain {s' : Dirents ι} (h : Grows fs s s') (hplain : Plain fs s) :
    Plain fs s' := by
  induction h with
  | refl => exact hplain
  | tail _ hlast ih => exact hlast.plain ih

theorem kdirentWalk_special (hplain : Plain fs s) {name : List Char} (hname : Special name)
    (self : Nat) : Fails (kdirentWalk fs s self name) := by
  intro a hok
  unfold kdirentWalk at hok
  split at hok
  · rename_i hlookup
    obtain ⟨hparent, x, hx, rfl⟩ := lookup_spec hplain.tree hlookup
    rw [Dirents.parent, hx] at hparent
    refine hplain.named _ x hx ?_ hname
    rw [show x.parent = some self from hparent]
    exact Option.some_ne_none _
  split at hok
  · cases hok
  unfold walkInode at hok
  split at hok
  · cases hok
  · rename_i hwalk
    exact hplain.walk _ name hname _ hwalk

theorem walkLastName_dots (hplain : Plain fs s) {name : List Char} (hdots : isDots name = true)
    (d : Nat) : Fails (walkLastName fs name d s) := by
  have hname : ¬name.isEmpty = true := fun hnil => by
    rw [List.isEmpty_iff.mp hnil] at hdots
    cases hdots
  rw [walkLastName, if_neg hname]
  exact kdirentWalk_special hplain (.inr hdots) d

/-- What cannot be walked at the end cannot be walked at all. -/
theorem Fails.andThen {Q : Dirents ι → α → Prop} {r : Walk ι α}
    {next : α → Dirents ι → Walk ι β} (h : Leads fs s Q r)
    (hnext : ∀ a s', Grows fs s s' → Fails (next a s')) : Fails (r.andThen next) := by
  intro b hok
  obtain ⟨a, s', rfl, hb⟩ := Walk.andThen_fst_eq_ok.mp hok
  exact hnext a s' h.grows b hb

theorem Fails.andThen_left {r : Walk ι α} (h : Fails r) (next : α → Dirents ι → Walk ι β) :
    Fails (r.andThen next) := by
  intro b hok
  obtain ⟨a, s', rfl, _⟩ := Walk.andThen_fst_eq_ok.mp hok
  exact h a rfl

section NoLinks

variable (hlinks : ∀ i, fs.isLnk i = false)
include hlinks

theorem walkenv_leads (htree : Tree s) (links : Nat) (env : Env) (name : List Char) :
    Leads fs s (fun _ _ => True) (walkenv fs links env name s) := by
  rw [walkenv_eq hlinks]
  split
  · unfold walkDots
    split
    · exact .ok trivial
    split
    · exact .error
    · exact .ok trivial
  · exact (kdirentWalk_leads htree env.cwd name).imp fun _ _ _ _ => trivial

theorem walkNames_leads (htree : Tree s) (links : Nat) (names : List (List Char)) (d : Nat) :
    Leads fs s (fun _ _ => True) (walkNames (walkenv fs links) env names d s) := by
  induction names generalizing d s with
  | nil => exact .ok trivial
  | cons name names ih =>
    refine (walkenv_leads hlinks htree links _ name).andThen ?_
    intro d' s' hgrow _
    exact ih (hgrow.tree htree) d'

/-- A path whose first part has no name at its end, or whose last name is a special directory
behind it, cannot be walked. -/
theorem walkall_append_fails (hplain : Plain fs s) {p q : RelPath} {sep : Char}
    (hsep : isSep sep = true) (h : p.last = [] ∨ isDots q.last = true) :
    Fails (kdirentWalkall fs env (p.text ++ sep :: q.text) s) := by
  rw [walkall_append hsep]
  refine Fails.andThen (walkNames_leads hlinks hplain.tree _ p.init env.cwd) ?_
  intro d s1 hgrow1
  have hplain1 := hgrow1.plain hplain
  rcases h with hblank | hdots
  · refine Fails.andThen_left ?_ _
    rw [walkenv_eq hlinks, hblank, if_neg (by decide)]
    exact kdirentWalk_special hplain1 (.inl rfl) d
  refine Fails.andThen (walkenv_leads hlinks hplain1.tree _ _ p.last) ?_
  intro d s2 hgrow2
  have hplain2 := hgrow2.plain hplain1
  refine Fails.andThen (walkNames_leads hlinks hplain2.tree _ q.init d) ?_
  intro d s3 hgrow3
  exact walkLastName_dots (hgrow3.plain hplain2) hdots d

/-- A first part that ends with a special directory behind other names cannot be walked. -/
theorem walkall_first_fails (hplain : Plain fs s) {p : RelPath} (hinit : p.init ≠ [])
    (hdots : isDots p.last = true) : Fails (kdirentWalkall fs env p.text s) := by
  rw [kdirentWalkall, walkall_text, if_neg fun h => hinit h.1]
  refine Fails.andThen (walkNames_leads hlinks hplain.tree _ p.init env.cwd) ?_
  intro d s1 hgrow
  exact walkLastName_dots (hgrow.plain hplain) hdots d

end NoLinks

/-- **Paths compose** if their parts are alike. Where no entry has a special name, other parts
compose only if there is nothing to walk to. -/
theorem kdirent_walkall_composes (fs : Inodes ι) (env : Env) (s : Dirents ι) (p q : RelPath)
    (sep : Char) (hlinks : ∀ i, fs.isLnk i = false) (hsep : isSep sep = true) :
    (Alike p q ∨ Neither fs env s p sep q → Composes fs env s p sep q) ∧
      (Plain fs s → Composes fs env s p sep q → Alike p q ∨ Neither fs env s p sep q) := by
  have hiff : Composes fs env s p sep q ↔ ∀ e,
      (kdirentWalkall fs env (p.text ++ sep :: q.text) s).1 = .ok e ↔
        ((kdirentWalkall fs env p.text s).andThen fun d s₁ =>
          kdirentWalkall fs { env with cwd := d } q.text s₁).1 = .ok e :=
    forall_congr' fun e => by rw [Walk.andThen_fst_eq_ok]
  rw [hiff]
  constructor
  · rintro (halike | ⟨hwhole, hparts⟩) e
    · rw [walkall_alike hlinks hsep halike]
    · exact iff_of_false (hwhole e) (hparts e)
  · intro hplain hcomp
    by_cases halike : Alike p q
    · exact .inl halike
    refine .inr ?_
    -- one of the two sides fails, and with it the other one
    by_cases hfirst : p.init ≠ [] ∧ isDots p.last = true
    · have hp : Fails (kdirentWalkall fs env p.text s) :=
        walkall_first_fails hlinks hplain hfirst.1 hfirst.2
      have hparts := hp.andThen_left fun d s₁ =>
        kdirentWalkall fs { env with cwd := d } q.text s₁
      exact ⟨fun e hok => hparts e ((hcomp e).mp hok), hparts⟩
    have hspecial : p.last = [] ∨ isDots q.last = true := by
      by_contra hnot
      rw [not_or, Bool.not_eq_true] at hnot
      refine halike ⟨hnot.1, ?_, .inr hnot.2⟩
      rwa [not_and_or, not_not, Bool.not_eq_true] at hfirst
    have hwhole : Fails (kdirentWalkall fs env (p.text ++ sep :: q.text) s) :=
      walkall_append_fails hlinks hplain hsep hspecial
    exact ⟨hwhole, fun e hok => hwhole e ((hcomp e).mpr hok)⟩

/-- A directory with a directory `a`, in which there is a file `b`. -/
def nested : Inodes Nat where
  isLnk _ := false
  readlink _ := .error (.inode 0)
  walk i name :=
    if i = 0 ∧ name = ['a'] then .ok 1 else if i = 1 ∧ name = ['b'] then .ok 2
    else .error (.inode 0)

/-- The root of a file system, before anything was walked to. -/
def onlyRoot : Dirents Nat where
  ents := [⟨none, [], some 0, []⟩]
  grants _ := true
  asked := 0

/-- A path of one component. -/
def RelPath.single (chars : List Char) (nonempty : chars ≠ [])
    (part : ∀ c ∈ chars, partChar c = true) : RelPath :=
  ⟨⟨chars, nonempty, part⟩, []⟩

/-- The file `a/b` is found in one walk or in two. -/
theorem kdirent_walkall_composes_file :
    Composes nested ⟨0, 0, false, 0⟩ onlyRoot (.single ['a'] (by decide) (all_eq_true.1 rfl)) '/'
        (.single ['b'] (by decide) (all_eq_true.1 rfl)) ∧
      (kdirentWalkall nested ⟨0, 0, false, 0⟩ ['a', '/', 'b'] onlyRoot).1 = .ok 2 :=
  ⟨(kdirent_walkall_composes nested ⟨0, 0, false, 0⟩ onlyRoot _ _ '/' (fun _ => rfl) rfl).1
    (.inl ⟨by decide, .inl rfl, .inr rfl⟩), rfl⟩

/-- The path `a/..` is not found, although `..` leads back from `a`. -/
theorem kdirent_walkall_splits :
    ¬Composes nested ⟨0, 0, false, 0⟩ onlyRoot (.single ['a'] (by decide) (all_eq_true.1 rfl)) '/'
        (.single ['.', '.'] (by decide) (all_eq_true.1 rfl)) := by
  intro hcomp
  have hparts := (hcomp 0).mpr ⟨1, _, rfl, rfl⟩
  have hwhole : (kdirentWalkall nested ⟨0, 0, false, 0⟩ ['a', '/', '.', '.'] onlyRoot).1 =
      .error (.inode 0) := rfl
  cases hwhole.symm.trans hparts

end KosKernel.Fs
