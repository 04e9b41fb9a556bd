import KosKernel.Fs.Dirent
import Mathlib.Data.List.DropRight

/-!
# KosKernel.Fs.PathWalk

**Walking a path** (`kdirent_walkenv` in `src/kernel/fs/fs-dirent-walk.inl`, `kdirent_walklast`
and `kdirent_walkall` in `src/kernel/fs/fs.c`), and why a walk does not leave its root.

The three functions call one another where a symbolic link is followed, with a counter of the
links that grows up to `LINK_MAX`. The path functions take the walk of one component as an
argument, and `walkenv` closes the recursion over the number of links that may still be
followed.
-/

namespace KosKernel.Fs

/-! ### Path names -/

/-- `KFS_ISSEP` -/
def isSep (c : Char) : Bool := c = '/' || c = '\\'

def isspace (c : Char) : Bool := (9 ≤ c.toNat && c.toNat ≤ 13) || c = ' '

/-- A character of a component. -/
def partChar (c : Char) : Bool := c ≠ '\x00' && !isSep c

/-- The path ends here. -/
def atEnd : List Char → Bool
  | [] => true
  | c :: _ => c = '\x00'

/-- Reads `part`: blanks before and behind a component do not belong to its name. -/
def readPart (iter : List Char) : List Char × List Char :=
  let begin := iter.dropWhile isspace
  ((begin.takeWhile partChar).rdropWhile isspace, begin.dropWhile partChar)

/-- The names of the special directories. -/
def isDots (name : List Char) : Bool := name = ['.'] || name = ['.', '.']

/-! ### Walking -/

variable {ι : Type}

/-- `struct kfspathenv`, without the user. -/
structure Env where
  cwd : Nat
  root : Nat
  /-- `O_NOFOLLOW` -/
  nofollow : Bool
  /-- `env_lnk` -/
  lnk : Nat

/-- Special directory `.` or `..` -/
def walkDots (env : Env) (name : List Char) (s : Dirents ι) : Walk ι Nat :=
  if name.length = 1 ∨ env.root = env.cwd then (.ok env.cwd, s)
  else
    match s.parent env.cwd with
    | none => (.error .fault, s)
    | some parent => (.ok parent, s)

/-- How `kdirent_walkenv` is called. -/
abbrev Walkenv (ι : Type) : Type := Env → List Char → Dirents ι → Walk ι Nat

/-- The loop of `kdirent_walklast`, with a round for each separator that is left. -/
def walkRest (walkenv : Walkenv ι) (env : Env) :
    Nat → Nat → List Char → Dirents ι → Walk ι (List Char × Nat)
  | 0, _, _, s => (.error .fault, s)
  | fuel + 1, usedroot, iter, s =>
    let part := readPart (iter.dropWhile isSep)
    if atEnd part.2 then (.ok (part.1, usedroot), s)
    else (walkenv { env with cwd := usedroot } part.1 s).andThen fun newusedroot s =>
      walkRest walkenv env fuel newusedroot part.2 s

/-- `kdirent_walklast` of a path that does not start with a separator. -/
def walkRelative (walkenv : Walkenv ι) (env : Env) (path : List Char) (s : Dirents ι) :
    Walk ι (List Char × Nat) :=
  if path.isEmpty then (.ok ([], env.cwd), s)
  else
    let part := readPart path
    if atEnd part.2 then
      -- Single-part pathname.
      if isDots part.1 then (walkDots env part.1 s).andThen fun newroot s => (.ok ([], newroot), s)
      else (.ok (part.1, env.cwd), s)
    else (walkenv env part.1 s).andThen fun usedroot s =>
      walkRest walkenv env path.length usedroot part.2 s

/-- `kdirent_walklast`; a leading separator restarts at the root. -/
def walklast (walkenv : Walkenv ι) (env : Env) (path : List Char) (s : Dirents ι) :
    Walk ι (List Char × Nat) :=
  match path with
  | [] => walkRelative walkenv env path s
  | c :: _ =>
    if isSep c then
      walkRelative walkenv { env with cwd := env.root } (path.dropWhile isSep) s
    else walkRelative walkenv env path s

/-- `kdirent_walkall` -/
def walkall (fs : Inodes ι) (walkenv : Walkenv ι) (env : Env) (path : List Char)
    (s : Dirents ι) : Walk ι Nat :=
  (walklast walkenv env path s).andThen fun last s =>
    if last.1.isEmpty then (.ok last.2, s) else kdirentWalk fs s last.2 last.1

/-- `kdirent_walkenv`, with the number of links that may still be followed. -/
def walkenv (fs : Inodes ι) : Nat → Walkenv ι
  | links, env, name, s =>
    if isDots name then walkDots env name s
    else
      match s.lookup env.cwd name with
      | some resent => (.ok resent, s)
      | none =>
        match s.getnode env.cwd with
        | none => (.error .destroyed, s)
        | some inode =>
          if fs.isLnk inode && !env.nofollow then
            match links with
            | 0 => (.error .loop, s)
            | links + 1 =>
              match fs.readlink inode with
              | .error e => (.error e, s)
              | .ok target =>
                let targetEnv := { env with lnk := env.lnk + 1 }
                (walkall fs (walkenv fs links) targetEnv target s).andThen
                  fun targetEnt s =>
                    walkenv fs links { targetEnv with cwd := targetEnt } name s
          else walkInode fs s env.cwd inode name

/-- `LINK_MAX` -/
def linkMax : Nat := 64

def kdirentWalklast (fs : Inodes ι) (env : Env) : List Char → Dirents ι →
    Walk ι (List Char × Nat) :=
  walklast (walkenv fs (linkMax - env.lnk)) env

def kdirentWalkall (fs : Inodes ι) (env : Env) : List Char → Dirents ι → Walk ι Nat :=
  walkall fs (walkenv fs (linkMax - env.lnk)) env

/-! ### Confinement -/

/-- An entry is the root, or a descendant of it. -/
inductive Below (s : Dirents ι) (root : Nat) : Nat → Prop where
  | root : Below s root root
  | child {d p : Nat} (hparent : s.parent d = some p) (h : Below s root p) : Below s root d

variable {fs : Inodes ι} {s s' : Dirents ι} {root d : Nat}

theorem Below.grows (h : Below s root d) (hgrow : Grows fs s s') : Below s' root d := by
  induction h with
  | root => exact .root
  | child hparent _ ih => exact .child (hgrow.parent_eq hparent) ih

theorem Below.parent (h : Below s root d) (hne : root ≠ d) :
    ∃ p, s.parent d = some p ∧ Below s root p := by
  cases h with
  | root => exact absurd rfl hne
  | child hparent h => exact ⟨_, hparent, h⟩

/-- The walk of a component does not leave the root. -/
def Confined (fs : Inodes ι) (walkenv : Walkenv ι) : Prop :=
  ∀ env name s, Tree s → Below s env.root env.cwd →
    Leads fs s (fun s' d => Below s' env.root d) (walkenv env name s)

/-- The parent of the root is the root. -/
theorem walkDots_leads {env : Env} (hcwd : Below s env.root env.cwd) (name : List Char) :
    Leads fs s (fun s' d => Below s' env.root d) (walkDots env name s) := by
  unfold walkDots
  split
  · exact .ok hcwd
  rename_i hnot
  obtain ⟨p, hparent, hp⟩ := hcwd.parent fun heq => hnot (.inr heq)
  rw [hparent]
  exact .ok hp

theorem kdirentWalk_below {self : Nat} (htree : Tree s) (hself : Below s root self)
    (name : List Char) :
    Leads fs s (fun s' d => Below s' root d) (kdirentWalk fs s self name) :=
  (kdirentWalk_leads htree self name).imp fun _ _ hgrow hparent =>
    .child hparent (hself.grows hgrow)

section Path

variable {walkenv : Walkenv ι} (hwalk : Confined fs walkenv)
include hwalk

theorem walkRest_leads {env : Env} {fuel usedroot : Nat} {iter : List Char} (htree : Tree s)
    (hused : Below s env.root usedroot) :
    Leads fs s (fun s' last => Below s' env.root last.2)
      (walkRest walkenv env fuel usedroot iter s) := by
  induction fuel generalizing usedroot iter s with
  | zero => exact .error
  | succ fuel ih =>
    rw [walkRest]
    split
    · exact .ok hused
    refine (hwalk { env with cwd := usedroot } _ s htree hused).andThen ?_
    intro newusedroot s' hgrow hnew
    exact ih (hgrow.tree htree) hnew

section

variable (env : Env) (htree : Tree s) (hcwd : Below s env.root env.cwd) (path : List Char)

include env htree hcwd path

theorem walkRelative_leads :
    Leads fs s (fun s' last => Below s' env.root last.2)
      (walkRelative walkenv env path s) := by
  unfold walkRelative
  dsimp only
  split
  · exact .ok hcwd
  split
  · split
    · refine (walkDots_leads hcwd _).andThen ?_
      intro newroot s' _ hnew
      exact .ok hnew
    · exact .ok hcwd
  · refine (hwalk env _ s htree hcwd).andThen ?_
    intro usedroot s' hgrow hused
    exact walkRest_leads hwalk (hgrow.tree htree) hused

theorem walklast_leads :
    Leads fs s (fun s' last => Below s' env.root last.2) (walklast walkenv env path s) := by
  unfold walklast
  split
  · exact walkRelative_leads hwalk env htree hcwd _
  split
  · exact walkRelative_leads hwalk { env with cwd := env.root } htree .root _
  · exact walkRelative_leads hwalk env htree hcwd _

theorem walkall_leads :
    Leads fs s (fun s' d => Below s' env.root d) (walkall fs walkenv env path s) := by
  refine (walklast_leads hwalk env htree hcwd path).andThen ?_
  intro last s' hgrow hlast
  split
  · exact .ok hlast
  · exact kdirentWalk_below (hgrow.tree htree) hlast _

end

end Path

/-- The working directory is a symbolic link that the walk has to follow. -/
def AtLink (fs : Inodes ι) (env : Env) (name : List Char) (s : Dirents ι) : Prop :=
  s.lookup env.cwd name = none ∧
    ∃ inode, s.getnode env.cwd = some inode ∧ (fs.isLnk inode && !env.nofollow) = true

/-- Without a link, `kdirent_walkenv` is `kdirent_walk` but for the special directories. -/
theorem walkenv_of_not_atLink {links : Nat} {env : Env} {name : List Char}
    (hnot : ¬AtLink fs env name s) :
    walkenv fs links env name s =
      if isDots name then walkDots env name s else kdirentWalk fs s env.cwd name := by
  rw [walkenv, kdirentWalk]
  split
  · rfl
  cases hlookup : s.lookup env.cwd name with
  | some resent => rfl
  | none =>
    cases hnode : s.getnode env.cwd with
    | none => rfl
    | some inode => exact if_neg fun hlink => hnot ⟨hlookup, inode, hnode, hlink⟩

/-- A link is followed from its own entry, and the component is walked from its target. -/
theorem walkenv_of_atLink (links : Nat) {env : Env} {name : List Char}
    (hdots : isDots name = false) (hlink : AtLink fs env name s) :
    (walkenv fs links env name s).2 = s ∧ (∃ e, (walkenv fs links env name s).1 = .error e) ∨
      ∃ k target, links = k + 1 ∧ walkenv fs links env name s =
        (walkall fs (walkenv fs k) { env with lnk := env.lnk + 1 } target s).andThen
          fun targetEnt s' =>
            walkenv fs k { env with lnk := env.lnk + 1, cwd := targetEnt } name s' := by
  obtain ⟨hlookup, inode, hnode, hlnk⟩ := hlink
  cases links with
  | zero =>
    left
    simp [walkenv, hdots, hlookup, hnode, hlnk]
  | succ k =>
    rw [walkenv]
    simp only [hdots, hlookup, hnode, hlnk, Bool.false_eq_true, if_false, if_true]
    cases hread : fs.readlink inode with
    | error e => exact .inl ⟨rfl, e, rfl⟩
    | ok target => exact .inr ⟨k, target, rfl, rfl⟩

/-- **A component does not lead out of the root**, with any number of links on the way. -/
theorem walkenv_confined (fs : Inodes ι) (links : Nat) : Confined fs (walkenv fs links) := by
  induction links using Nat.strong_induction_on with
  | _ links ih =>
    intro env name s htree hcwd
    by_cases hdots : isDots name = true
    · rw [walkenv, if_pos hdots]
      exact walkDots_leads hcwd name
    by_cases hlink : AtLink fs env name s
    · obtain ⟨hstate, e, herr⟩ | ⟨k, target, rfl, heq⟩ :=
        walkenv_of_atLink links (Bool.eq_false_iff.mpr hdots) hlink
      · rw [show walkenv fs links env name s = (.error e, s) from Prod.ext herr hstate]
        exact .error
      -- the target is inside the root, and so is what is found from there
      have hk := ih k (Nat.lt_succ_self k)
      rw [heq]
      refine (walkall_leads hk { env with lnk := env.lnk + 1 } htree hcwd target).andThen ?_
      intro targetEnt s' hgrow htarget
      exact hk { env with lnk := env.lnk + 1, cwd := targetEnt } name s' (hgrow.tree htree)
        htarget
    · rw [walkenv_of_not_atLink hlink, if_neg hdots]
      exact kdirentWalk_below htree hcwd name

/-- **A walk stays inside its root.** Whatever the file system holds, the entry that
`kdirent_walklast` or `kdirent_walkall` returns is the root or a descendant of it. -/
theorem kdirent_walk_confined (fs : Inodes ι) (s s' : Dirents ι) (env : Env)
    (path : List Char) (htree : Tree s) (hcwd : Below s env.root env.cwd) :
    (∀ last d, kdirentWalklast fs env path s = (.ok (last, d), s') → Below s' env.root d) ∧
      ∀ d, kdirentWalkall fs env path s = (.ok d, s') → Below s' env.root d := by
  have hwalk := walkenv_confined fs (linkMax - env.lnk)
  constructor
  · intro last d hlast
    have h := (walklast_leads hwalk env htree hcwd path).result (last, d)
    rw [← kdirentWalklast, hlast] at h
    exact h rfl
  · intro d hall
    have h := (walkall_leads hwalk env htree hcwd path).result d
    rw [← kdirentWalkall, hall] at h
    exact h rfl

/-- A directory with a file `x` and a link `l` to its parent. -/
def jailInodes : Inodes Nat where
  isLnk i := i = 2
  readlink _ := .ok ['/', '.', '.']
  walk i name :=
    if i = 1 ∧ name = ['l'] then .ok 2 else if i = 1 ∧ name = ['x'] then .ok 3
    else .error (.inode 0)

/-- The directory is in the cache of its parent. -/
def jail : Dirents Nat where
  ents := [⟨none, [], some 0, [1]⟩, ⟨some 0, ['j'], some 1, []⟩]
  grants _ := true
  asked := 0

/-- With the directory as root, the link leads to the directory itself. -/
theorem kdirent_walk_confined_jail :
    ∃ s', kdirentWalkall jailInodes ⟨1, 1, false, 0⟩ ['l', '/', 'x', '/'] jail = (.ok 3, s') ∧
      Below s' 1 3 := by
  have htree : Tree jail := by
    intro d ent c hd hc
    rcases d with _ | _ | d
    · cases hd
      rw [List.mem_singleton.mp hc]
      rfl
    · cases hd
      cases hc
    · cases hd
  have hrun : (kdirentWalkall jailInodes ⟨1, 1, false, 0⟩ ['l', '/', 'x', '/'] jail).1 = .ok 3 :=
    rfl
  exact ⟨_, Prod.ext hrun rfl, (kdirent_walk_confined jailInodes jail _ ⟨1, 1, false, 0⟩
    ['l', '/', 'x', '/'] htree .root).2 3 (Prod.ext hrun rfl)⟩

end KosKernel.Fs
