import KosKernel.Shm.FutexKeys
import Mathlib.Data.List.TakeWhile

/-!
# KosKernel.Shm.FutexRuns

**Histories of futex lookups and releases.** Any number of address spaces share the regions of a
memory; their branch trees stay as they are while futexes are looked up and released.

A history keeps the references that are outstanding, each with the address it was got for. What it
preserves (`Inv`) is that every futex hangs in the list of one part, that the lists ascend in the
ids, that no lock is held, that a futex is there as long as there are references to it, and that
every reference names the futex with the key of its address. Two references then name the same
futex exactly if their addresses have the same key, and that is one case too many: a key does not
say which page of the part the word lies in (`Confused`).

A counter that is full lets a lookup make a second futex with the same id (`Full`), so the
histories here have no such lookup.
-/

namespace KosKernel.Shm

open Function WindowTree PageFrame BackList Futexes List

variable {α A : Type} {m : Mem α} {spaces : A → Tree Branch}

/-- A reference to a futex, and the address it was got for. -/
structure Ref (A : Type) where
  space : A
  addr : Nat
  futex : Nat

/-- The number of references to a futex. -/
def refCount (refs : List (Ref A)) (f : Nat) : Nat := refs.countP fun x => x.futex = f

/-- The counter of the futex that the address has, or is confused with, is full. -/
def Full (m : Mem α) (spaces : A → Tree Branch) (refs : List (Ref A)) (a : A) (addr : Nat) : Prop :=
  ∃ x ∈ refs, refCount refs x.futex = refcntMax ∧
    (SameWord (spaces x.space) x.addr (spaces a) addr ∨
      Confused m (spaces x.space) x.addr (spaces a) addr)

/-- The references after a lookup. -/
def got (refs : List (Ref A)) (a : A) (addr : Nat) : Option Nat → List (Ref A)
  | none => refs
  | some f => ⟨a, addr, f⟩ :: refs

/-- The state and the outstanding references after some lookups and releases. -/
inductive FutexRun (m : Mem α) (spaces : A → Tree Branch) : Futexes → List (Ref A) → Prop
  | start : FutexRun m spaces .start []
  | lookup {s s' : Futexes} {refs : List (Ref A)} {a : A} {addr : Nat} {allocMissing nomem : Bool}
      {err : FutexErrno} {found : Option Nat} (h : FutexRun m spaces s refs)
      (hfull : allocMissing = true → nomem = false → ¬Full m spaces refs a addr)
      (hcall : kshmGetfutexUnlocked m (spaces a) s addr allocMissing nomem =
        .ok (err, found, s')) : FutexRun m spaces s' (got refs a addr found)
  | release {s s' : Futexes} {refs refs' : List (Ref A)} {x : Ref A} (h : FutexRun m spaces s refs)
      (hperm : refs.Perm (x :: refs')) (hcall : kshmfutexDecref s x.futex = .ok s') :
      FutexRun m spaces s' refs'

/-- What holds between two calls, with the futexes of every part. -/
structure FutexInv (m : Mem α) (spaces : A → Tree Branch) (s : Futexes) (refs : List (Ref A))
    (lists : Nat × Nat → List Nat) : Prop where
  chain : ∀ part, Chain s.links s.fPself (.head part) (lists part)
  sorted : ∀ part, (lists part).Pairwise fun f g => s.fId f < s.fId g
  heads : ∀ part, s.Unlocked (.head part)
  nexts : ∀ part, ∀ f ∈ lists part, s.Unlocked (.next f)
  live : ∀ part, ∀ f ∈ lists part, s.heap.live f = true
  once : ∀ part part' f, f ∈ lists part → f ∈ lists part' → part = part'
  refcnt : ∀ part, ∀ f ∈ lists part, s.fRefcnt f = refCount refs f ∧ 0 < refCount refs f
  placed : ∀ x ∈ refs, ∃ part, futexKey m (spaces x.space) x.addr =
    .ok (some (part, s.fId x.futex)) ∧ x.futex ∈ lists part

variable {s s' : Futexes} {refs refs' : List (Ref A)} {lists : Nat × Nat → List Nat}
  {part : Nat × Nat} {a : A} {addr f id : Nat}

/-! ### References -/

theorem refCount_cons (x : Ref A) (refs : List (Ref A)) (f : Nat) :
    refCount (x :: refs) f = refCount refs f + if x.futex = f then 1 else 0 := by
  rw [refCount, countP_cons]
  simp [refCount]

theorem refCount_perm (h : refs.Perm refs') (f : Nat) : refCount refs f = refCount refs' f :=
  h.countP_eq _

theorem exists_of_refCount_pos (h : 0 < refCount refs f) : ∃ x ∈ refs, x.futex = f := by
  obtain ⟨x, hx, hf⟩ := countP_pos_iff.1 h
  exact ⟨x, hx, of_decide_eq_true hf⟩

theorem refCount_pos {x : Ref A} (hx : x ∈ refs) : 0 < refCount refs x.futex :=
  countP_pos_iff.2 ⟨x, hx, decide_eq_true rfl⟩

/-- The pointer behind the first futexes of a list is one of the list's pointers. -/
theorem endLoc_mem_locs {xs ys : List Nat} (hsplit : lists part = xs ++ ys) :
    endLoc (.head part) xs ∈ (.head part : FutexLoc) :: (lists part).map .next := by
  have hmem := endLoc_mem (.head part : FutexLoc) xs
  rw [hsplit, map_append]
  simp only [mem_cons, mem_append] at hmem ⊢
  tauto

namespace FutexInv

variable (h : FutexInv m spaces s refs lists)
include h

theorem nodup (part : Nat × Nat) : (lists part).Nodup :=
  (h.sorted part).imp fun hlt heq => Nat.ne_of_lt hlt (congrArg s.fId heq)

theorem nodup_locs (part : Nat × Nat) :
    ((.head part : FutexLoc) :: (lists part).map .next).Nodup := by
  refine nodup_cons.2 ⟨by simp, ?_⟩
  exact (h.nodup part).map fun f g heq => by cases heq; rfl

theorem unlocked (part : Nat × Nat) :
    ∀ k ∈ (.head part : FutexLoc) :: (lists part).map .next, s.Unlocked k := by
  intro k hk
  rcases mem_cons.1 hk with rfl | hk
  · exact h.heads part
  · obtain ⟨f, hf, rfl⟩ := mem_map.1 hk
    exact h.nexts part f hf

theorem length_lt_fuel (part : Nat × Nat) : (lists part).length < s.fuel := by
  have hsub : lists part ⊆ List.range s.heap.next := fun f hf =>
    mem_range.2 (s.heap.lt_next f (h.live part f hf))
  have hle := (subperm_of_subset (h.nodup part) hsub).length_le
  rw [length_range] at hle
  exact Nat.lt_succ_of_le hle

theorem eq_of_id {g : Nat} (hf : f ∈ lists part) (hg : g ∈ lists part)
    (hid : s.fId f = s.fId g) : f = g := by
  have hnd : ((lists part).map s.fId).Nodup :=
    pairwise_map.2 ((h.sorted part).imp fun hlt => Nat.ne_of_lt hlt)
  exact inj_on_of_nodup_map hnd hf hg hid

/-- The pointers of different lists differ. -/
theorem locs_disjoint {part' : Nat × Nat} (hne : part' ≠ part) {k : FutexLoc}
    (hk : k ∈ (.head part' : FutexLoc) :: (lists part').map .next) :
    k ∉ (.head part : FutexLoc) :: (lists part).map .next := by
  intro hk'
  rcases mem_cons.1 hk with rfl | hk
  · rcases mem_cons.1 hk' with heq | hk'
    · cases heq
      exact hne rfl
    · simp at hk'
  · obtain ⟨f, hf, rfl⟩ := mem_map.1 hk
    have hf' : f ∈ lists part := by simpa using hk'
    exact hne (h.once part' part f hf hf')

/-! ### Lookup -/

/-- **The search** in the list of a part, with whatever is done about a missing futex. -/
theorem search (missing : Futexes → FutexLoc → Except FutexFault (Option Nat × Futexes))
    (part : Nat × Nat) (id : Nat) :
    (∀ f ∈ lists part, s.fId f = id → refCount refs f ≠ refcntMax →
      (do let s ← kshmfutexPtrBeginread s (.head part)
          searchLoop missing s.fuel s (.head part) id) =
        .ok (some f, { s with fRefcnt := update s.fRefcnt f (s.fRefcnt f + 1) })) ∧
    ((∀ f ∈ lists part, s.fId f = id → refCount refs f = refcntMax) →
      (do let s ← kshmfutexPtrBeginread s (.head part)
          searchLoop missing s.fuel s (.head part) id) =
        missing (s.readLocked (endLoc (.head part) (before s id (lists part))))
          (endLoc (.head part) (before s id (lists part)))) := by
  have hspec := searchLoop_spec missing id (h.chain part)
    (h.nodup_locs part) (h.unlocked part) (h.live part) (h.sorted part) (h.length_lt_fuel part)
  rw [beginread_of_unlocked (h.heads part)]
  refine ⟨fun f hf hid hfull => hspec.1 f hf hid _ ?_, fun hfull => hspec.2 fun f hf hid => ?_⟩
  · obtain ⟨hcnt, hpos⟩ := h.refcnt part f hf
    rw [kshmfutexTryincref, if_neg (by omega), if_neg (hcnt ▸ hfull)]
  · obtain ⟨hcnt, hpos⟩ := h.refcnt part f hf
    rw [kshmfutexTryincref, hcnt, if_neg (Nat.ne_of_gt hpos), if_pos (hfull f hf hid)]

theorem incref (hkey : futexKey m (spaces a) addr = .ok (some (part, s.fId f)))
    (hf : f ∈ lists part) :
    FutexInv m spaces { s with fRefcnt := update s.fRefcnt f (s.fRefcnt f + 1) }
      (⟨a, addr, f⟩ :: refs) lists :=
  { h with
    refcnt part' g hg := by
      obtain ⟨hcnt, hpos⟩ := h.refcnt part' g hg
      rw [refCount_cons]
      by_cases heq : g = f
      · subst heq
        simp [hcnt]
      · simp [update_of_ne heq, Ne.symm heq, hcnt, hpos]
    placed := forall_mem_cons.2 ⟨⟨part, hkey, hf⟩, h.placed⟩ }

theorem ne_next (hf : f ∈ lists part) : f ≠ s.heap.next :=
  Nat.ne_of_lt (s.heap.lt_next f (h.live part f hf))

theorem relist {ns : List Nat}
    (hptr : ∀ q ≠ part, ∀ k ∈ (.head q : FutexLoc) :: (lists q).map .next, s'.ptr k = s.ptr k)
    (hpself : ∀ q ≠ part, ∀ g ∈ lists q, s'.fPself g = s.fPself g)
    (hid : ∀ q ≠ part, ∀ g ∈ lists q, s'.fId g = s.fId g)
    (hlive : ∀ q ≠ part, ∀ g ∈ lists q, s'.heap.live g = true)
    (hother : ∀ q ≠ part, ∀ g ∈ lists q, g ∉ ns)
    (hchain : Chain s'.links s'.fPself (.head part) ns)
    (hsorted : ns.Pairwise fun f g => s'.fId f < s'.fId g)
    (hun : ∀ k ∈ (.head part : FutexLoc) :: ns.map .next, s'.Unlocked k)
    (hlive' : ∀ g ∈ ns, s'.heap.live g = true)
    (hrefcnt : ∀ q, ∀ g ∈ update lists part ns q,
      s'.fRefcnt g = refCount refs' g ∧ 0 < refCount refs' g)
    (hplaced : ∀ x ∈ refs', ∃ q, futexKey m (spaces x.space) x.addr =
      .ok (some (q, s'.fId x.futex)) ∧ x.futex ∈ update lists part ns q) :
    FutexInv m spaces s' refs' (update lists part ns) := by
  have hsame : ∀ q ≠ part, ∀ k ∈ (.head q : FutexLoc) :: (lists q).map .next,
      s'.Unlocked k := by
    intro q hq k hk
    rw [unlocked_iff, hptr q hq k hk]
    exact unlocked_iff.1 (h.unlocked q k hk)
  constructor
  case chain =>
    refine (forall_update_iff _ fun q => Chain s'.links s'.fPself (.head q)).2
      ⟨hchain, fun q hq => ?_⟩
    exact (h.chain q).congr (fun k hk => congrArg FutexPtr.futex (hptr q hq k hk)) (hpself q hq)
  case sorted =>
    refine (forall_update_iff _ fun _ => Pairwise fun f g => s'.fId f < s'.fId g).2
      ⟨hsorted, fun q hq => ?_⟩
    refine (h.sorted q).imp_of_mem fun hf hg hlt => ?_
    rwa [hid q hq _ hf, hid q hq _ hg]
  case heads =>
    intro q
    by_cases hq : q = part
    · subst hq
      exact hun _ (by simp)
    · exact hsame q hq _ (by simp)
  case nexts =>
    refine (forall_update_iff _ fun _ ns => ∀ f ∈ ns, s'.Unlocked (.next f)).2 ⟨?_, ?_⟩
    · exact fun g hg => hun _ (by simp [hg])
    · exact fun q hq g hg => hsame q hq _ (by simp [hg])
  case live =>
    exact (forall_update_iff _ fun _ ns => ∀ f ∈ ns, s'.heap.live f = true).2 ⟨hlive', hlive⟩
  case once =>
    intro q q' g hg hg'
    by_cases hq : q = part <;> by_cases hq' : q' = part
    · rw [hq, hq']
    · rw [hq, update_self] at hg
      rw [update_of_ne hq'] at hg'
      exact absurd hg (hother q' hq' g hg')
    · rw [update_of_ne hq] at hg
      rw [hq', update_self] at hg'
      exact absurd hg' (hother q hq g hg)
    · rw [update_of_ne hq] at hg
      rw [update_of_ne hq'] at hg'
      exact h.once q q' g hg hg'
  case refcnt => exact hrefcnt
  case placed => exact hplaced

/-- A new futex is put in between those with smaller ids and those with greater ones. -/
theorem insert_between {xs ys : List Nat}
    (hkey : futexKey m (spaces a) addr = .ok (some (part, id)))
    (hsplit : lists part = xs ++ ys) (hlt : ∀ f ∈ xs, s.fId f < id) (hgt : ∀ f ∈ ys, id < s.fId f)
    (hlink : Linked s s' (endLoc (.head part) xs) ys.head? id) :
    FutexInv m spaces s' (⟨a, addr, s.heap.next⟩ :: refs)
      (update lists part (xs ++ s.heap.next :: ys)) := by
  have hend := endLoc_mem_locs hsplit
  have hmem : ∀ f, f ∈ xs ++ s.heap.next :: ys ↔ f = s.heap.next ∨ f ∈ lists part := by
    intro f
    rw [hsplit]
    simp only [mem_append, mem_cons]
    tauto
  have hfId : ∀ q, ∀ f ∈ lists q, s'.fId f = s.fId f := fun q f hf => by
    rw [hlink.fId, update_of_ne (h.ne_next hf)]
  have hnew : s'.fId s.heap.next = id := by rw [hlink.fId, update_self]
  have hxs : ∀ f ∈ xs, f ∈ lists part := fun f hf => by simp [hsplit, hf]
  have hys : ∀ f ∈ ys, f ∈ lists part := fun f hf => by simp [hsplit, hf]
  have hsorted := h.sorted part
  rw [hsplit, pairwise_append] at hsorted
  refine h.relist ?_ ?_ (fun q _ => hfId q) ?_ ?_ ?_ ?_ ?_ ?_ ?_ ?_
  · intro q hq k hk
    refine hlink.ptr k (fun heq => h.locs_disjoint hq hk (heq ▸ hend)) fun heq => ?_
    subst heq
    have hmem : s.heap.next ∈ lists q := by simpa using hk
    exact h.ne_next hmem rfl
  · intro q hq g hg
    exact hlink.pself g (h.ne_next hg) fun hhd =>
      hq (h.once q part g hg (hys g (mem_of_mem_head? hhd)))
  · intro q _ g hg
    rw [hlink.heap]
    exact Blocks.alloc_live (h.live q g hg)
  · intro q hq g hg hg'
    rcases (hmem g).1 hg' with heq | hg'
    · exact h.ne_next hg heq
    · exact hq (h.once q part g hg hg')
  · have hchain := h.chain part
    have hnd := h.nodup_locs part
    rw [hsplit] at hchain hnd
    refine hchain.insert hnd ?_ (by simp) ?_ ?_ ?_ hlink.pself_new hlink.pself_next hlink.pself
    · intro hnext
      rw [← hsplit] at hnext
      exact h.ne_next hnext rfl
    · exact congrArg FutexPtr.futex hlink.ptr_end
    · exact congrArg FutexPtr.futex hlink.ptr_new
    · exact fun k hk hk' => congrArg FutexPtr.futex (hlink.ptr k hk hk')
  · refine pairwise_append.2 ⟨?_, pairwise_cons.2 ⟨?_, ?_⟩, ?_⟩
    · refine hsorted.1.imp_of_mem fun hf hg hlt => ?_
      rwa [hfId _ _ (hxs _ hf), hfId _ _ (hxs _ hg)]
    · intro g hg
      rw [hnew, hfId _ _ (hys g hg)]
      exact hgt g hg
    · refine hsorted.2.1.imp_of_mem fun hf hg hlt => ?_
      rwa [hfId _ _ (hys _ hf), hfId _ _ (hys _ hg)]
    · intro f hf g hg
      rcases mem_cons.1 hg with rfl | hg
      · rw [hnew, hfId _ _ (hxs f hf)]
        exact hlt f hf
      · rw [hfId _ _ (hxs f hf), hfId _ _ (hys g hg)]
        exact hsorted.2.2 f hf g hg
  · intro k hk
    by_cases hke : k = endLoc (.head part) xs
    · rw [hke, unlocked_iff, hlink.ptr_end]
      exact ⟨rfl, rfl⟩
    by_cases hkn : k = .next s.heap.next
    · rw [hkn, unlocked_iff, hlink.ptr_new]
      exact ⟨rfl, rfl⟩
    rw [unlocked_iff, hlink.ptr k hke hkn]
    refine unlocked_iff.1 (h.unlocked part k ?_)
    rcases mem_cons.1 hk with rfl | hk
    · simp
    obtain ⟨f, hf, rfl⟩ := mem_map.1 hk
    rcases (hmem f).1 hf with rfl | hf
    · exact absurd rfl hkn
    · simp [hf]
  · intro g hg
    rw [hlink.heap]
    rcases (hmem g).1 hg with rfl | hg
    · exact Blocks.alloc_live_self _
    · exact Blocks.alloc_live (h.live part g hg)
  · have hzero : refCount refs s.heap.next = 0 := by
      by_contra hne
      obtain ⟨x, hx, hxn⟩ := exists_of_refCount_pos (Nat.pos_of_ne_zero hne)
      obtain ⟨q, -, hq⟩ := h.placed x hx
      exact h.ne_next hq hxn
    intro q g hg
    have hg : g = s.heap.next ∨ g ∈ lists q := by
      by_cases hq : q = part
      · subst hq
        rw [update_self] at hg
        exact (hmem g).1 hg
      · rw [update_of_ne hq] at hg
        exact .inr hg
    rw [refCount_cons, hlink.fRefcnt]
    rcases hg with rfl | hg
    · simp [hzero]
    · have hne := h.ne_next hg
      simp [update_of_ne hne, hne.symm, h.refcnt q g hg]
  · refine forall_mem_cons.2 ⟨⟨part, by rw [hkey, hnew], ?_⟩, fun x hx => ?_⟩
    · rw [update_self]
      exact (hmem _).2 (.inl rfl)
    obtain ⟨q, hq, hmemq⟩ := h.placed x hx
    refine ⟨q, by rw [hq, hfId q _ hmemq], ?_⟩
    by_cases hqp : q = part
    · subst hqp
      rw [update_self]
      exact (hmem _).2 (.inr hmemq)
    · rwa [update_of_ne hqp]

/-- **A lookup with allocation** of a futex that is not there. -/
theorem insert (hkey : futexKey m (spaces a) addr = .ok (some (part, id)))
    (hid : ∀ f ∈ lists part, s.fId f ≠ id) :
    ∃ s' lists', kshmfutexPtrGetfutexNewmissing s (.head part) id false =
        .ok (some s.heap.next, s') ∧
      FutexInv m spaces s' (⟨a, addr, s.heap.next⟩ :: refs) lists' := by
  obtain ⟨xs, hxs⟩ : ∃ xs, xs = before s id (lists part) := ⟨_, rfl⟩
  obtain ⟨ys, hys⟩ : ∃ ys, ys = (lists part).dropWhile fun f => s.fId f < id := ⟨_, rfl⟩
  have hsplit : lists part = xs ++ ys := by
    rw [hys, hxs, before, takeWhile_append_dropWhile]
  have hlt : ∀ f ∈ xs, s.fId f < id := fun f hf => by
    rw [hxs, before] at hf
    simpa using mem_takeWhile_imp hf
  have hsorted := h.sorted part
  rw [hsplit, pairwise_append] at hsorted
  -- the first futex behind the pointer has a greater id, and the rest ascends
  have hgt : ∀ f ∈ ys, id < s.fId f := by
    cases hcase : ys with
    | nil => simp
    | cons y zs =>
      have hy : id < s.fId y := by
        have hstop : ¬s.fId y < id := by
          have := head?_dropWhile_not (fun f => decide (s.fId f < id)) (lists part)
          rw [← hys, hcase] at this
          simpa using this
        have := hid y (by rw [hsplit, hcase]; simp)
        omega
      intro f hf
      rcases mem_cons.1 hf with rfl | hf
      · exact hy
      · have := (pairwise_cons.1 (hcase ▸ hsorted.2.1)).1 f hf
        omega
  have hchain := h.chain part
  have hnd := h.nodup_locs part
  rw [hsplit] at hchain hnd
  have hhead : s.links (endLoc (.head part) xs) = ys.head? := (chain_append.1 hchain).2.head?
  have hend := endLoc_mem_locs hsplit
  obtain ⟨s', hval, hlink⟩ := insertFutexIntoIter_spec id (s := s)
    (l := endLoc (.head part) xs)
    (by
      intro heq
      have hmem : s.heap.next ∈ lists part := by simpa [heq] using hend
      exact h.ne_next hmem rfl)
    (by
      intro y hy
      rw [hhead] at hy
      have hmem : y ∈ lists part := by
        rw [hsplit]
        exact mem_append_right _ (mem_of_mem_head? hy)
      refine ⟨h.live part y hmem, h.nexts part y hmem, fun heq => ?_⟩
      rw [map_append, ← cons_append, nodup_append] at hnd
      exact hnd.2.2 _ (endLoc_mem _ _) _
        (mem_map_of_mem (mem_of_mem_head? hy)) heq.symm)
  rw [hhead] at hlink
  refine ⟨s', _, ?_, h.insert_between hkey hsplit hlt hgt hlink⟩
  have hsearch := (h.search (fun s iter => insertFutexIntoIter s iter id false) part id).2
    fun f hf heq => absurd heq (hid f hf)
  rw [← hxs] at hsearch
  exact hsearch.trans hval

/-! ### Release -/

theorem decref {x : Ref A} (hperm : refs.Perm (x :: refs')) (hpos : 0 < refCount refs' x.futex) :
    FutexInv m spaces
      { s with fRefcnt := update s.fRefcnt x.futex (s.fRefcnt x.futex - 1) } refs'
      lists :=
  { h with
    refcnt part g hg := by
      obtain ⟨hcnt, hg⟩ := h.refcnt part g hg
      rw [refCount_perm hperm, refCount_cons] at hcnt hg
      by_cases heq : g = x.futex
      · subst heq
        simp only [update_self, hcnt, if_true]
        exact ⟨rfl, hpos⟩
      rw [if_neg (Ne.symm heq)] at hcnt hg
      simp only [update_of_ne heq]
      exact ⟨hcnt, hg⟩
    placed y hy := h.placed y (hperm.mem_iff.2 (mem_cons_of_mem _ hy)) }

/-- **The last reference is released**: the futex is taken out of its list and freed. -/
theorem remove {x : Ref A} {xs ys : List Nat} (hperm : refs.Perm (x :: refs'))
    (hzero : refCount refs' x.futex = 0) (hsplit : lists part = xs ++ x.futex :: ys)
    (hself : s.fPself x.futex = endLoc (.head part) xs)
    (hunlink : Unlinked { s with fRefcnt := update s.fRefcnt x.futex 0 } s' x.futex
      ys.head?) :
    FutexInv m spaces s' refs' (update lists part (xs ++ ys)) := by
  obtain ⟨f, hf⟩ : ∃ f, f = x.futex := ⟨_, rfl⟩
  rw [← hf] at hzero hsplit hself hunlink
  have hend := endLoc_mem_locs hsplit
  have hmem : f ∈ lists part := by simp [hsplit]
  have hnd := h.nodup part
  rw [hsplit] at hnd
  have hsub : ∀ g, g ∈ xs ++ ys ↔ g ∈ lists part ∧ g ≠ f := by
    intro g
    have hnot : f ∉ xs ++ ys := (nodup_middle.1 hnd |> nodup_cons.1).1
    rw [hsplit]
    simp only [mem_append, mem_cons] at hnot ⊢
    constructor
    · intro hg
      exact ⟨by tauto, fun heq => hnot (heq ▸ hg)⟩
    · tauto
  have hdiff : ∀ q ≠ part, ∀ g ∈ lists q, g ≠ f := fun q hq g hg heq =>
    hq (h.once q part g hg (heq ▸ hmem))
  have hpself : ∀ g, g ∉ ys.head? → s'.fPself g = s.fPself g := hunlink.pself
  have hptr : ∀ k, k ≠ endLoc (.head part) xs → k ≠ .next f → s'.ptr k = s.ptr k := by
    rw [← hself]
    exact hunlink.ptr
  have hids : s'.fId = s.fId := hunlink.fId
  have hcounts : ∀ q g, g ∈ lists q → g ≠ f →
      s'.fRefcnt g = refCount refs' g ∧ 0 < refCount refs' g := by
    intro q g hg hne
    have hcnt := h.refcnt q g hg
    rw [refCount_perm hperm, refCount_cons, if_neg (fun heq => hne (hf ▸ heq.symm))] at hcnt
    rw [hunlink.fRefcnt]
    simpa [update_of_ne hne] using hcnt
  refine h.relist ?_ ?_ (fun q _ g _ => by rw [hids]) ?_ ?_ ?_ ?_ ?_ ?_ ?_ ?_
  · intro q hq k hk
    refine hptr k (fun heq => h.locs_disjoint hq hk (heq ▸ hend)) fun heq => ?_
    refine h.locs_disjoint hq hk ?_
    simp [heq, hmem]
  · intro q hq g hg
    refine hpself g fun hhd => hq (h.once q part g hg ?_)
    rw [hsplit]
    exact mem_append_right _ (mem_cons_of_mem _ (mem_of_mem_head? hhd))
  · intro q hq g hg
    rw [hunlink.live, update_of_ne (hdiff q hq g hg)]
    exact h.live q g hg
  · intro q hq g hg hg'
    exact hq (h.once q part g hg ((hsub g).1 hg').1)
  · have hchain := h.chain part
    have hnd := h.nodup_locs part
    rw [hsplit] at hchain hnd
    refine hchain.remove hnd ?_ ?_ ?_ fun g _ hg => hpself g hg
    · rw [← hself]
      exact congrArg FutexPtr.futex hunlink.ptr_end
    · exact fun k hk hk' => congrArg FutexPtr.futex (hptr k hk hk')
    · rw [← hself]
      exact hunlink.pself_next
  · rw [hids]
    have hsorted := h.sorted part
    rw [hsplit] at hsorted
    exact hsorted.sublist (List.Sublist.append_left (sublist_cons_self _ _) _)
  · intro k hk
    by_cases hke : k = endLoc (.head part) xs
    · rw [hke, ← hself, unlocked_iff]
      rw [show s'.ptr (s.fPself f) = .unlocked ys.head? from hunlink.ptr_end]
      exact ⟨rfl, rfl⟩
    rcases mem_cons.1 hk with rfl | hk
    · rw [unlocked_iff, hptr _ hke (by simp)]
      exact unlocked_iff.1 (h.heads part)
    obtain ⟨g, hg, rfl⟩ := mem_map.1 hk
    obtain ⟨hg, hne⟩ := (hsub g).1 hg
    rw [unlocked_iff, hptr _ hke (fun heq => hne (by cases heq; rfl))]
    exact unlocked_iff.1 (h.nexts part g hg)
  · intro g hg
    obtain ⟨hg, hne⟩ := (hsub g).1 hg
    rw [hunlink.live, update_of_ne hne]
    exact h.live part g hg
  · intro q g hg
    by_cases hq : q = part
    · subst hq
      rw [update_self] at hg
      exact hcounts q g ((hsub g).1 hg).1 ((hsub g).1 hg).2
    · rw [update_of_ne hq] at hg
      exact hcounts q g hg (hdiff q hq g hg)
  · intro y hy
    obtain ⟨q, hkey, hmemq⟩ := h.placed y (hperm.mem_iff.2 (mem_cons_of_mem _ hy))
    refine ⟨q, by rw [hkey, hids], ?_⟩
    have hne : y.futex ≠ f := fun heq => Nat.ne_of_gt (refCount_pos hy) (heq ▸ hzero)
    by_cases hq : q = part
    · subst hq
      rw [update_self]
      exact (hsub _).2 ⟨hmemq, hne⟩
    · rwa [update_of_ne hq]

theorem destroy {xs ys : List Nat} (hsplit : lists part = xs ++ f :: ys) :
    s.fPself f = endLoc (.head part) xs ∧
      ∃ s', kshmfutexDestroy { s with fRefcnt := update s.fRefcnt f 0 } f = .ok s' ∧
        Unlinked { s with fRefcnt := update s.fRefcnt f 0 } s' f ys.head? := by
  have hmem : f ∈ lists part := by simp [hsplit]
  have hchain := h.chain part
  have hnd := h.nodup_locs part
  have hnodup := h.nodup part
  rw [hsplit] at hchain hnd hnodup
  rw [map_append, ← cons_append, nodup_append] at hnd
  obtain ⟨-, hptr, hself, hrest⟩ := chain_append.1 hchain
  refine ⟨hself, ?_⟩
  have hlinks : Futexes.links { s with fRefcnt := update s.fRefcnt f 0 } (.next f) =
      ys.head? := hrest.head?
  rw [← hlinks]
  refine kshmfutexDestroy_spec (h.live part f hmem) (update_self ..)
    (h.nexts part f hmem) ?_ ?_ ?_
  · have hun := h.unlocked part _ (endLoc_mem_locs hsplit)
    rw [← hself] at hun
    exact hun
  · intro heq
    exact hnd.2.2 _ (endLoc_mem _ _) (.next f) (by simp) (hself.symm.trans heq)
  · intro y hy
    rw [hlinks] at hy
    have hy : y ∈ ys := mem_of_mem_head? hy
    refine ⟨h.nexts part y (by simp [hsplit, hy]), fun heq => ?_, ?_⟩
    · refine hnd.2.2 _ (endLoc_mem _ _) (.next y) ?_ (hself.symm.trans heq.symm)
      exact mem_map_of_mem (mem_cons_of_mem _ hy)
    · rintro rfl
      exact (nodup_cons.1 (nodup_append.1 hnodup).2.1).1 hy

/-- **Specification of `kshmfutex_decref`** with a reference that is outstanding. -/
theorem release {x : Ref A} (hperm : refs.Perm (x :: refs')) :
    ∃ s' lists', kshmfutexDecref s x.futex = .ok s' ∧ FutexInv m spaces s' refs' lists' := by
  obtain ⟨part, -, hmem⟩ := h.placed x (hperm.mem_iff.2 (by simp))
  obtain ⟨hcnt, hpos⟩ := h.refcnt part _ hmem
  have hcount : refCount refs x.futex = refCount refs' x.futex + 1 := by
    rw [refCount_perm hperm, refCount_cons, if_pos rfl]
  rw [kshmfutexDecref, kassert_of_live (h.live part _ hmem)]
  simp only [bind, Except.bind, update_self]
  rw [if_neg (by omega)]
  by_cases hzero : refCount refs' x.futex = 0
  · have hone : s.fRefcnt x.futex - 1 = 0 := by omega
    obtain ⟨xs, ys, hsplit⟩ := append_of_mem hmem
    obtain ⟨hself, s', hval, hunlink⟩ := h.destroy hsplit
    rw [if_pos hone, hone]
    exact ⟨s', _, hval, h.remove hperm hzero hsplit hself hunlink⟩
  · rw [if_neg (by omega)]
    exact ⟨_, lists, rfl, h.decref hperm (Nat.pos_of_ne_zero hzero)⟩

end FutexInv

/-! ### Histories -/

theorem futexInv_start : FutexInv m spaces .start [] fun _ => [] := by
  constructor <;> simp [Futexes.start, BackList.Chain, links, FutexPtr.unlocked, Unlocked]

section Histories

variable (hspaces : ∀ a, ∃ others, TreeHolds m others 0 addrLevelInit (spaces a))
include hspaces

section

variable (h : FutexInv m spaces s refs lists)

include h

/-- A reference was got for a mapped address. -/
theorem FutexInv.mapped {x : Ref A} (hx : x ∈ refs) :
    ∃ rid page, MapsTo (spaces x.space) x.addr rid page := by
  obtain ⟨others, htree⟩ := hspaces x.space
  obtain ⟨part, hkey, -⟩ := h.placed x hx
  rcases htree.futexKey_cases x.addr with hnone | ⟨rid, page, -, hmaps, -⟩
  · rw [hnone] at hkey
    cases hkey
  · exact ⟨rid, page, hmaps⟩

/-- If the futex of an address is there and its counter is full, this is known from the
references. -/
theorem FutexInv.full {rid page : Nat} (hmaps : MapsTo (spaces a) addr rid page)
    (hkey : futexKey m (spaces a) addr = .ok (some (part, s.fId f))) (hf : f ∈ lists part)
    (hfull : refCount refs f = refcntMax) : Full m spaces refs a addr := by
  obtain ⟨x, hx, rfl⟩ := exists_of_refCount_pos (h.refcnt part f hf).2
  obtain ⟨part', hkey', hmem⟩ := h.placed x hx
  obtain rfl := h.once _ _ _ hf hmem
  obtain ⟨rid', page', hmaps'⟩ := h.mapped hspaces hx
  obtain ⟨others, htree⟩ := hspaces x.space
  obtain ⟨others', htree'⟩ := hspaces a
  exact ⟨x, hx, hfull, (htree.futexKey_eq_iff htree' hmaps' hmaps).1 (hkey'.trans hkey.symm)⟩

/-- **Specification of `kshm_getfutex_unlocked`** between two calls of a history. -/
theorem FutexInv.lookup {allocMissing nomem : Bool}
    (hfull : allocMissing = true → nomem = false → ¬Full m spaces refs a addr) :
    ∃ err found s' lists', kshmGetfutexUnlocked m (spaces a) s addr allocMissing nomem =
        .ok (err, found, s') ∧ FutexInv m spaces s' (got refs a addr found) lists' ∧
      ((∃ rid page, MapsTo (spaces a) addr rid page) → allocMissing = true → nomem = false →
        err = .keOk ∧ ∃ f, found = some f) := by
  obtain ⟨others, htree⟩ := hspaces a
  rcases htree.futexKey_cases addr with hnone | ⟨rid, page, ⟨part, id⟩, hmaps, hkey⟩
  · refine ⟨.keFault, none, s, lists, ?_, h, ?_⟩
    · rw [kshmGetfutexUnlocked, hnone]
      rfl
    · rintro ⟨rid, page, hmaps⟩
      obtain ⟨r, i, -, -, hkey⟩ := htree.futexKey_spec hmaps
      rw [hnone] at hkey
      cases hkey
  simp only [kshmGetfutexUnlocked, hkey, bind, Except.bind]
  by_cases hex : ∃ f ∈ lists part, s.fId f = id ∧ refCount refs f ≠ refcntMax
  · -- the futex is there
    obtain ⟨f, hf, rfl, hcnt⟩ := hex
    have hget : kshmfutexPtrGetfutex s (.head part) (s.fId f) = _ :=
      (h.search _ part _).1 f hf rfl hcnt
    have hnew : kshmfutexPtrGetfutexNewmissing s (.head part) (s.fId f) nomem = _ :=
      (h.search _ part _).1 f hf rfl hcnt
    rw [hget, hnew]
    refine ⟨.keOk, some f, _, lists, ?_, h.incref hkey hf, fun _ _ _ => ⟨rfl, f, rfl⟩⟩
    exact ite_self _
  have hallfull : ∀ f ∈ lists part, s.fId f = id → refCount refs f = refcntMax :=
    fun f hf hid => by_contra fun hcnt => hex ⟨f, hf, hid, hcnt⟩
  have hun : s.Unlocked (endLoc (.head part) (before s id (lists part))) :=
    h.unlocked part _ (endLoc_mem_locs takeWhile_append_dropWhile.symm)
  cases allocMissing with
  | false =>
    have hval : kshmfutexPtrGetfutex s (.head part) id = .ok (none, s) :=
      ((h.search _ part id).2 hallfull).trans (endreadReturn_readLocked hun none)
    rw [if_neg Bool.false_ne_true, hval]
    exact ⟨.keNoent, none, s, lists, rfl, h, fun _ hcontra => by cases hcontra⟩
  | true =>
    cases nomem with
    | true =>
      have hval : kshmfutexPtrGetfutexNewmissing s (.head part) id true = .ok (none, s) :=
        ((h.search _ part id).2 hallfull).trans (endreadReturn_readLocked hun none)
      rw [hval]
      exact ⟨.keNomem, none, s, lists, rfl, h, fun _ _ hcontra => by cases hcontra⟩
    | false =>
      obtain ⟨s', lists', hval, hinv⟩ := h.insert hkey fun f hf hid =>
        hfull rfl rfl (h.full hspaces hmaps (by rw [hkey, hid]) hf (hallfull f hf hid))
      rw [hval]
      exact ⟨.keOk, some s.heap.next, s', lists', rfl, hinv, fun _ _ _ => ⟨rfl, _, rfl⟩⟩

omit h in
theorem FutexRun.inv (h : FutexRun m spaces s refs) : ∃ lists, FutexInv m spaces s refs lists := by
  induction h with
  | start => exact ⟨_, futexInv_start⟩
  | lookup _ hfull hcall ih =>
    obtain ⟨lists, hinv⟩ := ih
    obtain ⟨err, found, s', lists', hval, hinv', -⟩ := hinv.lookup hspaces hfull
    rw [hcall] at hval
    cases hval
    exact ⟨lists', hinv'⟩
  | release _ hperm hcall ih =>
    obtain ⟨lists, hinv⟩ := ih
    obtain ⟨s', lists', hval, hinv'⟩ := hinv.release hperm
    rw [hcall] at hval
    cases hval
    exact ⟨lists', hinv'⟩

omit hspaces in
/-- Two references name the same futex exactly if their addresses have the same key. -/
theorem FutexInv.eq_iff {x y : Ref A} (hx : x ∈ refs) (hy : y ∈ refs) : x.futex = y.futex ↔
      futexKey m (spaces x.space) x.addr = futexKey m (spaces y.space) y.addr := by
  obtain ⟨part, hkey, hmem⟩ := h.placed x hx
  obtain ⟨part', hkey', hmem'⟩ := h.placed y hy
  rw [hkey, hkey']
  constructor
  · intro heq
    rw [heq] at hmem ⊢
    rw [h.once _ _ _ hmem hmem']
  · intro heq
    simp only [Except.ok.injEq, Option.some.injEq, Prod.mk.injEq] at heq
    obtain ⟨rfl, hid⟩ := heq
    exact h.eq_of_id hmem hmem' hid

end

theorem FutexRun.lookup_mapped (h : FutexRun m spaces s refs) {rid page : Nat}
    (hmaps : MapsTo (spaces a) addr rid page) (hfew : refs.length < refcntMax) :
    ∃ f s', FutexRun m spaces s' (⟨a, addr, f⟩ :: refs) := by
  obtain ⟨lists, hinv⟩ := h.inv hspaces
  have hfull : ¬Full m spaces refs a addr := by
    rintro ⟨x, -, hcnt, -⟩
    have hle : refCount refs x.futex ≤ refs.length := countP_le_length
    omega
  obtain ⟨err, found, s', -, hval, -, hok⟩ :=
    hinv.lookup hspaces (fun (_ : true = true) (_ : false = false) => hfull)
  obtain ⟨rfl, f, rfl⟩ := hok ⟨rid, page, hmaps⟩ rfl rfl
  exact ⟨f, s', h.lookup (fun _ _ => hfull) hval⟩

end Histories

/-- What a history has to leave: every call returns, and a lookup with allocation of a mapped
address finds or makes a futex; the lists ascend in the ids, and every futex knows the pointer that
refers to it; references name the same futex if and only if they were got for the same word, unless
the words are confused. -/
structure FutexContract (m : Mem α) (spaces : A → Tree Branch) (s : Futexes)
    (refs : List (Ref A)) : Prop where
  returns : ∀ a addr allocMissing nomem,
    (allocMissing = true → nomem = false → ¬Full m spaces refs a addr) →
    ∃ result, kshmGetfutexUnlocked m (spaces a) s addr allocMissing nomem = .ok result
  allocates : ∀ a addr rid page, MapsTo (spaces a) addr rid page → ¬Full m spaces refs a addr →
    ∃ f s', kshmGetfutexUnlocked m (spaces a) s addr true false = .ok (.keOk, some f, s')
  releases : ∀ x ∈ refs, ∃ s', kshmfutexDecref s x.futex = .ok s'
  lists : ∃ lists : Nat × Nat → List Nat, ∀ part,
    Chain s.links s.fPself (.head part) (lists part) ∧
      (lists part).Pairwise fun f g => s.fId f < s.fId g
  identity : ∀ x ∈ refs, ∀ y ∈ refs,
    ((x.futex = y.futex ↔ SameWord (spaces x.space) x.addr (spaces y.space) y.addr) ↔
      ¬Confused m (spaces x.space) x.addr (spaces y.space) y.addr)

/-- **Futex identity**: in every history without a lookup that meets a full counter, two
addresses, of the same or of different address spaces, get the same futex if and only if they
denote the same word, exactly unless they denote the same word of two pages of one part. -/
theorem kshm_futex_run (hspaces : ∀ a, ∃ others, TreeHolds m others 0 addrLevelInit (spaces a))
    (h : FutexRun m spaces s refs) : FutexContract m spaces s refs := by
  obtain ⟨lists, hinv⟩ := h.inv hspaces
  constructor
  case returns =>
    intro a addr allocMissing nomem hfull
    obtain ⟨err, found, s', -, hval, -⟩ := hinv.lookup hspaces hfull
    exact ⟨_, hval⟩
  case allocates =>
    intro a addr rid page hmaps hfull
    obtain ⟨err, found, s', -, hval, -, hok⟩ :=
      hinv.lookup hspaces (fun (_ : true = true) (_ : false = false) => hfull)
    obtain ⟨rfl, f, rfl⟩ := hok ⟨rid, page, hmaps⟩ rfl rfl
    exact ⟨f, s', hval⟩
  case releases =>
    intro x hx
    obtain ⟨pre, post, rfl⟩ := append_of_mem hx
    obtain ⟨s', -, hval, -⟩ := hinv.release (x := x) perm_middle
    exact ⟨s', hval⟩
  case lists => exact ⟨lists, fun part => ⟨hinv.chain part, hinv.sorted part⟩⟩
  case identity =>
    intro x hx y hy
    obtain ⟨others, htree⟩ := hspaces x.space
    obtain ⟨others', htree'⟩ := hspaces y.space
    obtain ⟨rid, page, hmaps⟩ := hinv.mapped hspaces hx
    obtain ⟨rid', page', hmaps'⟩ := hinv.mapped hspaces hy
    rw [hinv.eq_iff hx hy, htree.futexKey_eq_iff htree' hmaps hmaps']
    constructor
    · intro hiff hconf
      exact htree.not_confused_of_sameWord htree' (hiff.1 (.inr hconf)) hconf
    · intro hconf
      exact or_iff_left hconf

/-- The address space of a process that has 32 pages of memory, in one part. -/
def linearSpace : Unit → Tree Branch := fun _ => .node (mapBranch 0 (64 * pageSize) 0 32) .nil .nil

theorem linearSpace_mapsTo {addr page : Nat}
    (hmaps : MapsPage (mapBranch 0 (64 * pageSize) 0 32) addr 0 page) :
    MapsTo (linearSpace ()) addr 0 page :=
  ⟨_, mem_singleton.2 rfl, hmaps⟩

theorem linearSpace_holds : ∃ (m : Mem Unit) (r : Region), m.regions 0 = some r ∧
    r.scPartv = [⟨256, 0, 32⟩] ∧
    ∀ a, ∃ others, TreeHolds m others 0 addrLevelInit (linearSpace a) := by
  obtain ⟨m, r, -, hr, -, hparts, -, htree⟩ := treeOk_linear 32 256
    (64 * pageSize) ramFlags (fun _ => ()) (by decide) (by decide) (by decide)
  exact ⟨m, r, hr, hparts, fun _ => ⟨[], htree.toTreeHolds⟩⟩

/-- Two words of a page are looked up. -/
theorem kshm_futex_run_two : ∃ (m : Mem Unit) (s : Futexes) (f g : Nat),
    FutexRun m linearSpace s [⟨(), 64 * pageSize + 4, g⟩, ⟨(), 64 * pageSize, f⟩] ∧
    FutexContract m linearSpace s [⟨(), 64 * pageSize + 4, g⟩, ⟨(), 64 * pageSize, f⟩] := by
  obtain ⟨m, r, -, -, hspaces⟩ := linearSpace_holds
  have hmaps : MapsTo (linearSpace ()) (64 * pageSize) 0 0 :=
    linearSpace_mapsTo (by unfold MapsPage; decide)
  have hmaps' : MapsTo (linearSpace ()) (64 * pageSize + 4) 0 0 :=
    linearSpace_mapsTo (by unfold MapsPage; decide)
  obtain ⟨f, s, hrun⟩ := (FutexRun.start (m := m)).lookup_mapped hspaces hmaps (by decide)
  obtain ⟨g, s', hrun⟩ := hrun.lookup_mapped hspaces hmaps' (by simp [refcntMax])
  exact ⟨m, s', f, g, hrun, kshm_futex_run hspaces hrun⟩

/-- The first words of two pages of one part get the same futex. -/
theorem kshm_futex_confused : ∃ (m : Mem Unit) (s : Futexes) (f : Nat),
    (∀ a, ∃ others, TreeHolds m others 0 addrLevelInit (linearSpace a)) ∧
    FutexRun m linearSpace s [⟨(), 65 * pageSize, f⟩, ⟨(), 64 * pageSize, f⟩] ∧
    MapsTo (linearSpace ()) (64 * pageSize) 0 0 ∧ MapsTo (linearSpace ()) (65 * pageSize) 0 1 ∧
    ¬SameWord (linearSpace ()) (65 * pageSize) (linearSpace ()) (64 * pageSize) := by
  obtain ⟨m, r, hr, hparts, hspaces⟩ := linearSpace_holds
  have hmaps : MapsTo (linearSpace ()) (64 * pageSize) 0 0 :=
    linearSpace_mapsTo (by unfold MapsPage; decide)
  have hmaps' : MapsTo (linearSpace ()) (65 * pageSize) 0 1 :=
    linearSpace_mapsTo (by unfold MapsPage; decide)
  have hin : ∀ page < 32, InPart r 0 page := fun page hpage =>
    ⟨⟨256, 0, 32⟩, by rw [hparts]; rfl, Nat.zero_le _, by omega⟩
  have hconf : Confused m (linearSpace ()) (65 * pageSize) (linearSpace ()) (64 * pageSize) :=
    ⟨0, r, 0, 1, 0, hr, hmaps', hmaps, by decide, hin 1 (by decide), hin 0 (by decide), by decide⟩
  obtain ⟨f, s, hrun⟩ := (FutexRun.start (m := m)).lookup_mapped hspaces hmaps (by decide)
  obtain ⟨g, s', hrun⟩ := hrun.lookup_mapped hspaces hmaps' (by simp [refcntMax])
  obtain ⟨lists, hinv⟩ := hrun.inv hspaces
  obtain ⟨others, htree⟩ := hspaces ()
  obtain rfl : g = f := by
    have heq := hinv.eq_iff (x := ⟨(), 65 * pageSize, g⟩) (y := ⟨(), 64 * pageSize, f⟩) (by simp)
      (by simp)
    exact heq.2 ((htree.futexKey_eq_iff htree hmaps' hmaps).2 (.inr hconf))
  exact ⟨m, s', g, hspaces, hrun, hmaps, hmaps',
    fun hsame => htree.not_confused_of_sameWord htree hsame hconf⟩

end KosKernel.Shm
