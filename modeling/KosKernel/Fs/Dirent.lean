import Mathlib.Data.List.Basic
import Mathlib.Logic.Relation

/-!
# KosKernel.Fs.Dirent

**Directory entries** (`struct kdirent` in `include/kos/kernel/fs/fs.h`, and `kdirent_walk` in
`src/kernel/fs/fs-dirent-walk.inl`).

An entry has a parent, a name, an inode, and a cache of children that were looked up before.
A walk to a child first looks into the cache, and then asks the inode and makes a new entry.
Entries are numbered in the order in which they are made. The file system behind the inodes is
a parameter; every request for memory may be refused. Reference counts are left out: an
entry stays as long as it is in use.
-/

namespace KosKernel.Fs

open List

/-- `kerrno_t` -/
inductive Errno where
  /-- `KE_DESTROYED` -/
  | destroyed
  /-- `KE_LOOP` -/
  | loop
  /-- `KE_NOMEM` -/
  | nomem
  /-- What a file system returns. -/
  | inode (code : Nat)
  /-- A NULL parent is followed. -/
  | fault
  deriving DecidableEq, Repr

/-- The operations of inodes that a walk uses. -/
structure Inodes (ι : Type) where
  /-- `S_ISLNK` -/
  isLnk : ι → Bool
  /-- `kinode_readlink` -/
  readlink : ι → Except Errno (List Char)
  /-- `kinode_walk` -/
  walk : ι → List Char → Except Errno ι

/-- `struct kdirent` -/
structure Dirent (ι : Type) where
  parent : Option Nat
  name : List Char
  inode : Option ι
  cache : List Nat
  deriving DecidableEq, Repr

/-- All directory entries, and which requests for memory are granted. -/
structure Dirents (ι : Type) where
  ents : List (Dirent ι)
  grants : Nat → Bool
  asked : Nat

/-- A walk returns a result or an error, and leaves more entries behind. -/
abbrev Walk (ι α : Type) : Type := Except Errno α × Dirents ι

variable {ι α β : Type}

/-- What follows a walk that succeeds. -/
def Walk.andThen (r : Walk ι α) (next : α → Dirents ι → Walk ι β) : Walk ι β :=
  match r with
  | (.ok a, s) => next a s
  | (.error e, s) => (.error e, s)

namespace Dirents

/-- What follows a request for memory that is granted. -/
def malloc (s : Dirents ι) (next : Dirents ι → Walk ι α) : Walk ι α :=
  let s' := { s with asked := s.asked + 1 }
  if s.grants s.asked then next s' else (.error .nomem, s')

/-- `d_parent` -/
def parent (s : Dirents ι) (d : Nat) : Option Nat := s.ents[d]?.bind (·.parent)

/-- `kdirent_getnode` -/
def getnode (s : Dirents ι) (d : Nat) : Option ι := s.ents[d]?.bind (·.inode)

/-- `kdirentcache_lookup` -/
def lookup (s : Dirents ι) (self : Nat) (name : List Char) : Option Nat :=
  match s.ents[self]? with
  | none => none
  | some ent => ent.cache.find? fun c => (s.ents[c]?.map (·.name)) = some name

/-- `__kdirent_newinherited`; the new entry gets the next number. -/
def newinherited (s : Dirents ι) (parent : Nat) (name : List Char) (inode : ι) : Dirents ι :=
  { s with ents := s.ents ++ [⟨some parent, name, some inode, []⟩] }

/-- A child is added to the cache of an entry. -/
def addCached (s : Dirents ι) (self child : Nat) : Dirents ι :=
  match s.ents[self]? with
  | none => s
  | some ent => { s with ents := s.ents.set self { ent with cache := ent.cache ++ [child] } }

/-- `kdirentcache_insert`, with the existing child if there is one. A failure is ignored. -/
def cacheInsert (s : Dirents ι) (self child : Nat) (name : List Char) :
    Option Nat × Dirents ι :=
  match s.lookup self name with
  | some elem => (some elem, s)
  | none =>
    let s' := { s with asked := s.asked + 1 }
    (none, if s.grants s.asked then s'.addCached self child else s')

end Dirents

/-- The end of `kdirent_walk`: the inode is asked for the child, which gets an entry. -/
def walkInode (fs : Inodes ι) (s : Dirents ι) (self : Nat) (inode : ι) (name : List Char) :
    Walk ι Nat :=
  match fs.walk inode name with
  | .error e => (.error e, s)
  | .ok usedResnode =>
    -- the copy of the name, and the entry itself
    s.malloc fun s => s.malloc fun s =>
      let resent := s.ents.length
      match (s.newinherited self name usedResnode).cacheInsert self resent name with
      | (some newresult, s) => (.ok newresult, s)
      | (none, s) => (.ok resent, s)

def kdirentWalk (fs : Inodes ι) (s : Dirents ι) (self : Nat) (name : List Char) : Walk ι Nat :=
  match s.lookup self name with
  | some resent => (.ok resent, s)
  | none =>
    match s.getnode self with
    | none => (.error .destroyed, s)
    | some inode => walkInode fs s self inode name

/-! ### What a walk changes -/

/-- What the entries go through during a walk: a request for memory, a new entry for a child
that the inode has, and a child that enters the cache of its parent. -/
inductive Change (fs : Inodes ι) : Dirents ι → Dirents ι → Prop where
  | asked (s : Dirents ι) : Change fs s { s with asked := s.asked + 1 }
  | enter (s : Dirents ι) (d : Nat) (name : List Char) {i node : ι}
      (hwalk : fs.walk i name = .ok node) : Change fs s (s.newinherited d name node)
  | cached (s : Dirents ι) (d c : Nat) (x : Dirent ι) {i node : ι} (hc : s.ents[c]? = some x)
      (hparent : x.parent = some d) (hwalk : fs.walk i x.name = .ok node) :
      Change fs s (s.addCached d c)

/-- The changes of a whole walk. -/
abbrev Grows (fs : Inodes ι) : Dirents ι → Dirents ι → Prop := Relation.ReflTransGen (Change fs)

/-- The children in a cache are those of the entry. -/
def Tree (s : Dirents ι) : Prop :=
  ∀ d ent c, s.ents[d]? = some ent → c ∈ ent.cache → s.parent c = some d

variable {fs : Inodes ι} {s s' : Dirents ι}

theorem getElem?_newinherited {d c : Nat} {name : List Char} {node : ι} :
    (s.newinherited d name node).ents[c]? =
      if c = s.ents.length then some ⟨some d, name, some node, []⟩ else s.ents[c]? := by
  rw [Dirents.newinherited]
  rcases Nat.lt_trichotomy c s.ents.length with hlt | rfl | hgt
  · rw [if_neg (by omega), getElem?_append_left hlt]
  · rw [if_pos rfl, getElem?_concat_length]
  · rw [if_neg (by omega), getElem?_eq_none (by simp; omega),
      getElem?_eq_none (by omega)]

theorem getElem?_addCached {d c x : Nat} :
    (s.addCached d c).ents[x]? = s.ents[x]?.map fun ent =>
      if x = d then { ent with cache := ent.cache ++ [c] } else ent := by
  unfold Dirents.addCached
  cases hd : s.ents[d]? with
  | none =>
    by_cases hx : x = d
    · rw [hx, hd]
      rfl
    · simp [hx]
  | some ent =>
    have hlt : d < s.ents.length := (List.getElem?_eq_some_iff.mp hd).1
    by_cases hx : x = d
    · simp [hx, hd, getElem?_set_self hlt]
    · simp [hx, getElem?_set_ne (Ne.symm hx)]

@[simp] theorem parent_addCached {d c x : Nat} : (s.addCached d c).parent x = s.parent x := by
  rw [Dirents.parent, getElem?_addCached, Dirents.parent]
  cases s.ents[x]? with
  | none => rfl
  | some ent =>
    split <;> rfl

/-- **Entries keep their parent.** -/
theorem Change.parent_eq (h : Change fs s s') {d p : Nat} (hp : s.parent d = some p) :
    s'.parent d = some p := by
  cases h with
  | asked => exact hp
  | enter _ name _ =>
    rw [Dirents.parent, getElem?_newinherited, if_neg, ← Dirents.parent]
    · exact hp
    · rintro rfl
      rw [Dirents.parent, getElem?_eq_none (Nat.le_refl _)] at hp
      cases hp
  | cached d' c _ _ _ _ => rw [parent_addCached, hp]

/-- **Caches hold children** after every change. -/
theorem Change.tree (h : Change fs s s') (htree : Tree s) : Tree s' := by
  intro d ent c hd hc
  have hchange := h
  cases h with
  | asked => exact htree d ent c hd hc
  | enter _ _ _ =>
    rw [getElem?_newinherited] at hd
    split at hd
    · -- the new entry has an empty cache
      cases hd
      cases hc
    · exact hchange.parent_eq (htree d ent c hd hc)
  | cached d' c' x hc' hparent _ =>
    rw [getElem?_addCached, Option.map_eq_some_iff] at hd
    obtain ⟨ent', hd, rfl⟩ := hd
    rw [parent_addCached]
    split at hc
    · rename_i heq
      rcases mem_append.mp hc with hold | hnew
      · exact htree d ent' c hd hold
      · rw [mem_singleton.mp hnew, Dirents.parent, hc', heq]
        exact hparent
    · exact htree d ent' c hd hc

theorem Grows.parent_eq (h : Grows fs s s') {d p : Nat} (hp : s.parent d = some p) :
    s'.parent d = some p := by
  induction h with
  | refl => exact hp
  | tail _ hlast ih => exact hlast.parent_eq ih

theorem Grows.tree (h : Grows fs s s') (htree : Tree s) : Tree s' := by
  induction h with
  | refl => exact htree
  | tail _ hlast ih => exact hlast.tree ih

/-! ### Walks and their results -/

/-- A walk goes through changes of the entries, and its result has a property. -/
structure Leads (fs : Inodes ι) (s : Dirents ι) (Q : Dirents ι → α → Prop) (r : Walk ι α) :
    Prop where
  grows : Grows fs s r.2
  result : ∀ a, r.1 = .ok a → Q r.2 a

namespace Leads

variable {Q : Dirents ι → α → Prop} {R : Dirents ι → β → Prop}

theorem error {e : Errno} : Leads fs s Q (.error e, s) := ⟨.refl, fun _ h => (by cases h)⟩

theorem ok {a : α} (h : Q s a) : Leads fs s Q (.ok a, s) := ⟨.refl, fun _ heq => by
  cases heq
  exact h⟩

theorem after {r : Walk ι α} (hgrow : Grows fs s s') (h : Leads fs s' Q r) : Leads fs s Q r :=
  ⟨hgrow.trans h.grows, h.result⟩

theorem malloc {next : Dirents ι → Walk ι α}
    (h : Leads fs { s with asked := s.asked + 1 } Q (next { s with asked := s.asked + 1 })) :
    Leads fs s Q (s.malloc next) := by
  have hasked : Grows fs s { s with asked := s.asked + 1 } := .single (.asked s)
  unfold Dirents.malloc
  split
  · exact h.after hasked
  · exact error.after hasked

/-- **Walks in sequence.** -/
theorem andThen {r : Walk ι α} {next : α → Dirents ι → Walk ι β} (h : Leads fs s Q r)
    (hnext : ∀ a s', Grows fs s s' → Q s' a → Leads fs s' R (next a s')) :
    Leads fs s R (r.andThen next) := by
  obtain ⟨res, s'⟩ := r
  cases res with
  | error e => exact error.after h.grows
  | ok a => exact (hnext a s' h.grows (h.result a rfl)).after h.grows

theorem imp {r : Walk ι α} {Q' : Dirents ι → α → Prop} (h : Leads fs s Q r)
    (himp : ∀ s' a, Grows fs s s' → Q s' a → Q' s' a) : Leads fs s Q' r :=
  ⟨h.grows, fun a ha => himp r.2 a h.grows (h.result a ha)⟩

end Leads

/-- What is found in a cache has the name and the parent that were asked for. -/
theorem lookup_spec (htree : Tree s) {self c : Nat} {name : List Char}
    (h : s.lookup self name = some c) :
    s.parent c = some self ∧ ∃ x, s.ents[c]? = some x ∧ x.name = name := by
  unfold Dirents.lookup at h
  split at h
  · cases h
  rename_i ent hself
  refine ⟨htree self ent c hself (mem_of_find?_eq_some h), ?_⟩
  have hname := find?_some h
  rw [decide_eq_true_eq, Option.map_eq_some_iff] at hname
  exact hname

theorem cacheInsert_leads (htree : Tree s) {self child : Nat} {x : Dirent ι} {i node : ι}
    (hent : s.ents[child]? = some x) (hparent : x.parent = some self)
    (hwalk : fs.walk i x.name = .ok node) :
    Leads fs s (fun s' c => s'.parent c = some self)
      (match s.cacheInsert self child x.name with
      | (some newresult, s') => (.ok newresult, s')
      | (none, s') => (.ok child, s')) := by
  have hchild : s.parent child = some self := by
    rw [Dirents.parent, hent]
    exact hparent
  unfold Dirents.cacheInsert
  cases hlookup : s.lookup self x.name with
  | some elem => exact .ok (lookup_spec htree hlookup).1
  | none =>
    refine .after (.single (.asked s)) ?_
    dsimp only
    split
    · refine .after (.single (.cached _ self child x hent hparent hwalk)) (.ok ?_)
      rw [parent_addCached]
      exact hchild
    · exact .ok hchild

/-- **`kdirent_walk` leads to a child.** -/
theorem kdirentWalk_leads (htree : Tree s) (self : Nat) (name : List Char) :
    Leads fs s (fun s' c => s'.parent c = some self) (kdirentWalk fs s self name) := by
  unfold kdirentWalk
  split
  · rename_i resent hlookup
    exact .ok (lookup_spec htree hlookup).1
  split
  · exact .error
  unfold walkInode
  split
  · exact .error
  rename_i node hwalk
  refine .malloc (.malloc ?_)
  have henter : Change fs { s with asked := s.asked + 1 + 1 } _ := .enter _ self name hwalk
  refine .after (.single henter) ?_
  refine cacheInsert_leads (henter.tree htree) (x := ⟨some self, name, some node, []⟩) ?_ rfl hwalk
  rw [getElem?_newinherited, if_pos rfl]

end KosKernel.Fs
