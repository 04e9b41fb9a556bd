import KosKernel.Shm.Futex

/-!
# KosKernel.Shm.FutexLists

What the functions of the **futex lists** do between two calls of a history, when no lock is held.

A search moves one read lock along the list and gives it back, so all it changes is a reference
counter (`searchLoop_spec`). Putting a futex in and destroying one change the list as `Linked` and
`Unlinked` say: two pointers, two back links, and nothing else of a list.
-/

namespace KosKernel.Shm

open Function BackList List

variable {s s' : Futexes} {l k : FutexLoc} {f id : Nat} {ns xs ys : List Nat}

namespace Futexes

/-- The addresses in the futex pointers. -/
def links (s : Futexes) (l : FutexLoc) : Option Nat := (s.ptr l).futex

/-- Nobody holds the lock of the pointer. -/
def Unlocked (s : Futexes) (l : FutexLoc) : Prop := s.ptr l = .unlocked (s.links l)

/-- The pointer has one reader. -/
def readLocked (s : Futexes) (l : FutexLoc) : Futexes :=
  s.setPtr l { s.ptr l with rcnt := 1 }

theorem Unlocked.rcnt (h : s.Unlocked l) : (s.ptr l).rcnt = 0 := by rw [h]; rfl

theorem Unlocked.wmode (h : s.Unlocked l) : (s.ptr l).wmode = false := by rw [h]; rfl

theorem unlocked_iff : s.Unlocked l ↔ (s.ptr l).rcnt = 0 ∧ (s.ptr l).wmode = false := by
  refine ⟨fun h => ⟨h.rcnt, h.wmode⟩, fun h => ?_⟩
  rw [Unlocked, links, FutexPtr.unlocked, ← h.1, ← h.2]

@[simp] theorem setPtr_self (s : Futexes) (l : FutexLoc) (p : FutexPtr) :
    (s.setPtr l p).ptr l = p := update_self ..

theorem setPtr_of_ne (s : Futexes) {k l : FutexLoc} (p : FutexPtr) (h : k ≠ l) :
    (s.setPtr l p).ptr k = s.ptr k := update_of_ne h ..

@[simp] theorem setPtr_fPself (s : Futexes) (l : FutexLoc) (p : FutexPtr) :
    (s.setPtr l p).fPself = s.fPself := rfl

@[simp] theorem setPtr_heap (s : Futexes) (l : FutexLoc) (p : FutexPtr) :
    (s.setPtr l p).heap = s.heap := rfl

@[simp] theorem readLocked_links (s : Futexes) (l k : FutexLoc) :
    ((s.readLocked l).ptr k).futex = s.links k := by
  by_cases hk : k = l
  · rw [hk, readLocked, setPtr_self, links]
  · rw [readLocked, setPtr_of_ne s _ hk, links]

theorem kassert_of_live (h : s.heap.live f = true) : s.kassert f = .ok () := if_pos h

end Futexes

open Futexes

/-! ### Locks -/

theorem beginread_of_unlocked (h : s.Unlocked l) :
    kshmfutexPtrBeginread s l = .ok (s.readLocked l) := by
  rw [kshmfutexPtrBeginread, h.rcnt, h.wmode, readLocked]
  rfl

/-- Giving the only read lock back restores the pointer. -/
theorem endread_readLocked (h : s.Unlocked l) : kshmfutexPtrEndread (s.readLocked l) l = .ok s := by
  have hptr : (s.readLocked l).ptr l = { s.ptr l with rcnt := 1 } := setPtr_self ..
  have hback : { s.ptr l with rcnt := 1 - 1 } = s.ptr l := by
    rw [Nat.sub_self, ← h.rcnt]
  rw [kshmfutexPtrEndread, hptr, if_neg (by simp)]
  simp only [readLocked, setPtr, update_idem, hback, update_eq_self]

theorem endreadReturn_readLocked (h : s.Unlocked l) (result : Option Nat) :
    endreadReturn (s.readLocked l) l result = .ok (result, s) := by
  rw [endreadReturn, endread_readLocked h]
  rfl

/-- One step of the walk: the lock moves on to the next pointer. -/
theorem beginread_endread (h : s.Unlocked l) (hk : s.Unlocked k) (hne : k ≠ l) :
    (do let s ← kshmfutexPtrBeginread (s.readLocked l) k
        kshmfutexPtrEndread s l) = .ok (s.readLocked k) := by
  have hfirst : (s.readLocked l).Unlocked k := by
    rw [unlocked_iff, readLocked, setPtr_of_ne s _ hne]
    exact unlocked_iff.1 hk
  have hswap : (s.readLocked l).readLocked k = (s.readLocked k).readLocked l := by
    simp only [readLocked, setPtr, update_of_ne hne, update_of_ne hne.symm]
    rw [update_comm hne.symm]
  have hsecond : (s.readLocked k).Unlocked l := by
    rw [unlocked_iff, readLocked, setPtr_of_ne s _ hne.symm]
    exact unlocked_iff.1 h
  rw [beginread_of_unlocked hfirst, hswap]
  exact endread_readLocked hsecond

theorem beginwrite_of_unlocked (h : s.Unlocked l) :
    kshmfutexPtrBeginwrite s l = .ok (s.setPtr l { s.ptr l with wmode := true }) := by
  rw [kshmfutexPtrBeginwrite, if_neg (by simp [h.rcnt, h.wmode])]

theorem upgrade_readLocked :
    kshmfutexPtrUpgrade (s.readLocked l) l =
      .ok (s.setPtr l { s.ptr l with rcnt := 0, wmode := true }) := by
  have hptr : (s.readLocked l).ptr l = { s.ptr l with rcnt := 1 } := setPtr_self ..
  rw [kshmfutexPtrUpgrade, hptr, if_neg (by simp), if_neg (by simp)]
  simp only [readLocked, setPtr, update_idem]

/-! ### References -/

theorem tryincref_readLocked (s : Futexes) (l : FutexLoc) (f : Nat) :
    kshmfutexTryincref (s.readLocked l) f =
      (kshmfutexTryincref s f).map fun s' => s'.readLocked l := by
  have hcnt : (s.readLocked l).fRefcnt = s.fRefcnt := rfl
  unfold kshmfutexTryincref
  rw [hcnt]
  by_cases hzero : s.fRefcnt f = 0
  · simp [hzero]
  by_cases hfull : s.fRefcnt f = refcntMax
  · simp [hfull]
  · rw [if_neg hzero, if_neg hfull, if_neg hzero, if_neg hfull]
    rfl

theorem tryincref_ptr (h : kshmfutexTryincref s f = some s') : s'.ptr = s.ptr := by
  unfold kshmfutexTryincref at h
  split_ifs at h
  cases h
  rfl

/-! ### Search -/

/-- Where a futex with an id is, or would be. -/
def before (s : Futexes) (id : Nat) (ns : List Nat) : List Nat :=
  ns.takeWhile fun f => s.fId f < id

/-- **Specification of the search**, with the pointer in front of the list read-locked: it finds
the futex with the id, or stops, with a read lock, at the pointer where that futex would be. -/
theorem searchLoop_spec
    (missing : Futexes → FutexLoc → Except FutexFault (Option Nat × Futexes)) (id : Nat)
    {fuel : Nat} (hchain : Chain s.links s.fPself l ns) (hnd : (l :: ns.map .next).Nodup)
    (hun : ∀ k ∈ l :: ns.map .next, s.Unlocked k) (hlive : ∀ f ∈ ns, s.heap.live f = true)
    (hsorted : ns.Pairwise fun f g => s.fId f < s.fId g) (hfuel : ns.length < fuel) :
    (∀ f ∈ ns, s.fId f = id → ∀ s', kshmfutexTryincref s f = some s' →
      searchLoop missing fuel (s.readLocked l) l id = .ok (some f, s')) ∧
    ((∀ f ∈ ns, s.fId f = id → kshmfutexTryincref s f = none) →
      searchLoop missing fuel (s.readLocked l) l id =
        missing (s.readLocked (endLoc l (before s id ns))) (endLoc l (before s id ns))) := by
  induction ns generalizing l fuel with
  | nil =>
    obtain ⟨fuel, rfl⟩ := Nat.exists_eq_add_one.2 hfuel
    refine ⟨by simp, fun _ => ?_⟩
    rw [searchLoop, readLocked_links, hchain.head?]
    rfl
  | cons f ns ih =>
    obtain ⟨fuel, rfl⟩ := Nat.exists_eq_add_one.2 (Nat.zero_lt_of_lt hfuel)
    have hstep : searchLoop missing (fuel + 1) (s.readLocked l) l id =
        if id ≤ s.fId f then
          if s.fId f ≠ id then missing (s.readLocked l) l
          else ((kshmfutexTryincref s f).map fun s' => s'.readLocked l).elim
            (missing (s.readLocked l) l) fun s' => endreadReturn s' l (some f)
        else searchLoop missing fuel (s.readLocked (.next f)) (.next f) id := by
      have hadv := beginread_endread (hun l (by simp)) (hun (.next f) (by simp))
        (fun heq => (nodup_cons.1 hnd).1 (by simp [← heq]))
      have hf : (s.readLocked l).kassert f = .ok () := kassert_of_live (hlive f (by simp))
      rw [searchLoop, readLocked_links, hchain.head?, ← tryincref_readLocked]
      simp only [head?_cons, hf, bind, Except.bind] at hadv ⊢
      refine if_congr Iff.rfl (if_congr Iff.rfl rfl ?_) ?_
      · cases kshmfutexTryincref (s.readLocked l) f <;> rfl
      cases hb : kshmfutexPtrBeginread (s.readLocked l) (.next f) with
      | error e => rw [hb] at hadv; cases hadv
      | ok s1 =>
        rw [hb] at hadv
        simp only at hadv ⊢
        rw [hadv]
    have hge : ∀ g ∈ ns, s.fId f < s.fId g := (pairwise_cons.1 hsorted).1
    have ih := ih (l := .next f) hchain.2.2 (nodup_cons.1 hnd).2
      (fun k hk => hun k (mem_cons_of_mem _ hk)) (fun g hg => hlive g (by simp [hg]))
      (pairwise_cons.1 hsorted).2 (by simpa using hfuel)
    rw [hstep]
    by_cases hle : id ≤ s.fId f
    · -- the walk stops at the first futex
      have hbefore : before s id (f :: ns) = [] := by
        rw [before, takeWhile_cons_of_neg (by simpa using hle)]
      rw [if_pos hle, hbefore]
      constructor
      · intro g hg hid s' hinc
        rcases mem_cons.1 hg with rfl | hg
        · rw [if_neg (not_not.2 hid), hinc]
          refine endreadReturn_readLocked ?_ _
          rw [unlocked_iff, tryincref_ptr hinc]
          exact unlocked_iff.1 (hun l (by simp))
        · exact absurd (hge g hg) (by omega)
      · intro hnone
        by_cases hid : s.fId f = id
        · rw [if_neg (not_not.2 hid), hnone f (by simp) hid]
          rfl
        · rw [if_pos hid]
          rfl
    · have hbefore : before s id (f :: ns) = f :: before s id ns := by
        rw [before, takeWhile_cons_of_pos (by simpa using hle)]
        rfl
      rw [if_neg hle, hbefore]
      constructor
      · intro g hg hid s' hinc
        rcases mem_cons.1 hg with rfl | hg
        · omega
        · exact ih.1 g hg hid s' hinc
      · exact fun hnone => ih.2 fun g hg => hnone g (by simp [hg])

/-! ### Linking -/

/-- A new futex with the id was put in at the pointer `e`, in front of `next`. -/
structure Linked (s s' : Futexes) (e : FutexLoc) (next : Option Nat) (id : Nat) : Prop where
  heap : s'.heap = s.heap.alloc
  fRefcnt : s'.fRefcnt = update s.fRefcnt s.heap.next 1
  fId : s'.fId = update s.fId s.heap.next id
  ptr_end : s'.ptr e = .unlocked (some s.heap.next)
  ptr_new : s'.ptr (.next s.heap.next) = .unlocked next
  ptr : ∀ k, k ≠ e → k ≠ .next s.heap.next → s'.ptr k = s.ptr k
  pself_new : s'.fPself s.heap.next = e
  pself_next : ∀ y ∈ next, s'.fPself y = .next s.heap.next
  pself : ∀ x, x ≠ s.heap.next → x ∉ next → s'.fPself x = s.fPself x

/-- The futex was taken out at the pointer that refers to it, where `next` is now, and freed. -/
structure Unlinked (s s' : Futexes) (f : Nat) (next : Option Nat) : Prop where
  heap_next : s'.heap.next = s.heap.next
  live : s'.heap.live = update s.heap.live f false
  fRefcnt : s'.fRefcnt = s.fRefcnt
  fId : s'.fId = s.fId
  ptr_end : s'.ptr (s.fPself f) = .unlocked next
  ptr : ∀ k, k ≠ s.fPself f → k ≠ .next f → s'.ptr k = s.ptr k
  pself_next : ∀ y ∈ next, s'.fPself y = s.fPself f
  pself : ∀ x, x ∉ next → s'.fPself x = s.fPself x

/-- A change made under the write lock of a pointer that it does not touch. -/
theorem beginwrite_endwrite (change : Futexes → Futexes) (h : s.Unlocked l)
    (hptr : ∀ p, (change (s.setPtr l p)).ptr l = p)
    (hcomm : ∀ p q, (change (s.setPtr l p)).setPtr l q = change (s.setPtr l q)) :
    ∃ s1, kshmfutexPtrBeginwrite s l = .ok s1 ∧ s1.fPself = s.fPself ∧
      kshmfutexPtrEndwrite (change s1) l = .ok (change s) := by
  have hback : { s.ptr l with wmode := false } = s.ptr l := by rw [← h.wmode]
  have hsame : s.setPtr l (s.ptr l) = s := by rw [setPtr, update_eq_self]
  refine ⟨_, beginwrite_of_unlocked h, rfl, ?_⟩
  rw [kshmfutexPtrEndwrite, hptr, if_neg (by simp), hcomm]
  simp only [hback, hsame]

/-- **Specification of `insert_futex_into_iter`** with memory for the futex. -/
theorem insertFutexIntoIter_spec (id : Nat) (hnew : l ≠ .next s.heap.next)
    (hnext : ∀ y ∈ s.links l, s.heap.live y = true ∧ s.Unlocked (.next y) ∧ .next y ≠ l) :
    ∃ s', insertFutexIntoIter (s.readLocked l) l id false = .ok (some s.heap.next, s') ∧
      Linked s s' l (s.links l) id := by
  have hup : kshmfutexPtrUpgrade { s.readLocked l with heap := s.heap.alloc } l =
      .ok { s.setPtr l { s.ptr l with rcnt := 0, wmode := true } with heap := s.heap.alloc } :=
    upgrade_readLocked (s := { s with heap := s.heap.alloc })
  have hfutex : (s.ptr l).futex = s.links l := rfl
  rw [insertFutexIntoIter, if_neg Bool.false_ne_true]
  simp only [readLocked, setPtr_heap] at hup ⊢
  rw [hup]
  simp only [bind, Except.bind, setPtr_self, FutexPtr.unlocked, hfutex]
  cases hlink : s.links l with
  | none =>
    refine ⟨_, rfl, ⟨rfl, rfl, rfl, setPtr_self .., ?_, ?_, ?_, by simp, ?_⟩⟩
    · rw [setPtr_of_ne _ _ hnew.symm]
      exact setPtr_self ..
    · intro k hk hk'
      rw [setPtr_of_ne _ _ hk, setPtr_of_ne _ _ hk']
      exact setPtr_of_ne s _ hk
    · exact update_self ..
    · exact fun x hx _ => update_of_ne hx ..
  | some y =>
    obtain ⟨hlive, hun, hy⟩ := hnext y hlink
    have hyn : y ≠ s.heap.next := fun heq => by
      rw [heq, s.heap.not_live_next] at hlive
      exact Bool.false_ne_true hlive
    have hyn' : (Loc.next y : FutexLoc) ≠ .next s.heap.next := fun heq => hyn (by cases heq; rfl)
    have hassert : ∀ s1 : Futexes, s1.heap = s.heap.alloc → s1.kassert y = .ok () :=
      fun s1 hs1 => kassert_of_live (by rw [hs1]; exact Blocks.alloc_live hlive)
    simp only
    rw [hassert _ rfl]
    -- the state in which the successor is locked
    generalize hs1 : setPtr _ (.next s.heap.next) _ = s1
    have hold : ∀ k, k ≠ l → k ≠ .next s.heap.next → s1.ptr k = s.ptr k := by
      intro k hk hk'
      rw [← hs1, setPtr_of_ne _ _ hk']
      exact setPtr_of_ne s _ hk
    have hun1 : s1.Unlocked (.next y) := by
      rw [unlocked_iff, hold _ hy hyn']
      exact unlocked_iff.1 hun
    obtain ⟨s2, hbegin, hpself, hend⟩ := beginwrite_endwrite
      (fun s1 => { s1 with fPself := update s1.fPself y (.next s.heap.next) }) hun1
      (fun p => setPtr_self ..) (fun p q => by simp [setPtr])
    rw [hbegin]
    simp only at hend ⊢
    rw [hend]
    subst hs1
    refine ⟨_, rfl, ⟨rfl, rfl, rfl, setPtr_self .., ?_, ?_, ?_, ?_, ?_⟩⟩
    · exact (setPtr_of_ne _ _ hnew.symm).trans (setPtr_self ..)
    · exact fun k hk hk' => (setPtr_of_ne _ _ hk).trans (hold k hk hk')
    · exact (update_of_ne hyn.symm ..).trans (update_self ..)
    · rintro z hz
      obtain rfl : y = z := by simpa using hz
      exact update_self ..
    · intro x hx hxy
      have hxy' : x ≠ y := fun heq => hxy (by simp [heq])
      exact (update_of_ne hxy' ..).trans (update_of_ne hx ..)

/-- **Specification of `kshmfutex_destroy`**. -/
theorem kshmfutexDestroy_spec (hlive : s.heap.live f = true) (hcnt : s.fRefcnt f = 0)
    (hun : s.Unlocked (.next f)) (hself : s.Unlocked (s.fPself f)) (hne : s.fPself f ≠ .next f)
    (hnext : ∀ y ∈ s.links (.next f), s.Unlocked (.next y) ∧ .next y ≠ s.fPself f ∧ y ≠ f) :
    ∃ s', kshmfutexDestroy s f = .ok s' ∧ Unlinked s s' f (s.links (.next f)) := by
  obtain ⟨heap, hfree, hheap, hlive'⟩ := Blocks.free_of_live hlive
  have hfutex : (s.ptr (.next f)).futex = s.links (.next f) := rfl
  have hun1 : (s.setPtr (.next f) { s.ptr (.next f) with wmode := true }).Unlocked
      (s.fPself f) := by
    rw [unlocked_iff, setPtr_of_ne _ _ hne]
    exact unlocked_iff.1 hself
  rw [kshmfutexDestroy, kassert_of_live hlive]
  simp only [bind, Except.bind]
  rw [if_neg (not_not.2 hcnt), beginwrite_of_unlocked hun]
  simp only [setPtr_fPself]
  rw [beginwrite_of_unlocked hun1]
  simp only [setPtr_of_ne _ _ hne.symm, setPtr_self, hfutex, setPtr_fPself]
  cases hlink : s.links (.next f) with
  | none =>
    simp only [free, setPtr_heap, hfree]
    refine ⟨_, rfl, ⟨hheap, hlive', rfl, rfl, setPtr_self .., ?_, by simp, fun _ _ => rfl⟩⟩
    intro k hk hk'
    refine (setPtr_of_ne _ _ hk).trans ?_
    rw [setPtr_of_ne _ _ hk, setPtr_of_ne _ _ hk']
  | some y =>
    obtain ⟨huny, hy, hyf⟩ := hnext y hlink
    have hyf' : (Loc.next y : FutexLoc) ≠ .next f := fun heq => hyf (by cases heq; rfl)
    simp only
    -- the state in which the successor is locked
    generalize hs1 : setPtr _ (s.fPself f) _ = s1
    have hold : ∀ k, k ≠ s.fPself f → k ≠ .next f → s1.ptr k = s.ptr k := by
      intro k hk hk'
      rw [← hs1, setPtr_of_ne _ _ hk, setPtr_of_ne _ _ hk']
    have hun1 : s1.Unlocked (.next y) := by
      rw [unlocked_iff, hold _ hy hyf']
      exact unlocked_iff.1 huny
    have hs₁self : s1.fPself = s.fPself := by rw [← hs1]; rfl
    obtain ⟨s2, hbegin, hpself, hend⟩ := beginwrite_endwrite
      (fun s1 => setPtr { s1 with fPself := update s1.fPself y (s.fPself f) }
        (s.fPself f) (.unlocked (some y))) hun1
      (fun p => (setPtr_of_ne _ _ hy).trans (setPtr_self ..))
      (fun p q => by simp [setPtr, update_comm hy])
    rw [hbegin]
    simp only [hpself, hs₁self, update_of_ne hyf.symm] at hend ⊢
    rw [hend]
    subst hs1
    simp only [free, setPtr_heap, hfree]
    refine ⟨_, rfl, ⟨hheap, hlive', rfl, rfl, setPtr_self .., ?_, ?_, ?_⟩⟩
    · exact fun k hk hk' => (setPtr_of_ne _ _ hk).trans (hold k hk hk')
    · rintro z hz
      obtain rfl : y = z := by simpa using hz
      exact update_self ..
    · intro x hxy
      have hxy' : x ≠ y := fun heq => hxy (by simp [heq])
      exact update_of_ne hxy' ..

end KosKernel.Shm
