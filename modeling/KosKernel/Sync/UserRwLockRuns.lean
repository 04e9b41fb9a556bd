import KosKernel.Sync.UserRwLock
import Mathlib.Data.Nat.Bitwise

/-!
# KosKernel.Sync.UserRwLockRuns

**Exclusion, unbroken upgrades and wake-ups of the read/write lock of user space**, over every
interleaving of its users.

`WordInv` ties the futex word to what the threads hold; each way the source changes the word has
one lemma. `ThreadOk` is what a thread may rely on at its program point. `Awake` is about blocked
threads: a thread blocks only while it would not get the lock, and whoever ends that is going to
send.
-/

namespace KosKernel.UserRwLock

open Function Holders

variable {T : Type}

/-! ### The threads -/

/-- The two ways to upgrade. -/
def Call.Upgrades (c : Call) : Prop := c = .upgrade ∨ c = .tryupgrade

/-- What a thread may rely on at a program point. -/
def Place (call : Call) (reads : Nat) (writes : Bool) : Pc → Prop
  | .idle => True
  | .readLoad | .readRecv | .readBlocked => ¬ call.Upgrades
  | .readCas oldval => ¬ call.Upgrades ∧ oldval.toNat < 2 ^ 31 - 1
  | .writeLoad | .writeRecv | .writeBlocked => call ≠ .tryupgrade
  | .writeCas oldval => call ≠ .tryupgrade ∧ oldval = 0
  | .endreadLoad | .endreadFetch | .endreadCas _ => ¬ call.Upgrades ∧ 0 < reads
  | .endwriteFetch | .downgradeCas => ¬ call.Upgrades ∧ writes = true
  | .upgradeLoad => 0 < reads
  | .upgradeCas oldval => 0 < reads ∧ (call = .tryupgrade → oldval = 1)
  | .send => ¬ call.Upgrades

/-- What holds of a thread. -/
structure ThreadOk (s : State T) (t : T) : Prop where
  place : Place (s.call t) (s.holders.reads t) (s.holders.writes t) (s.pc t)
  running : s.pc t ≠ .idle → s.result t = none
  /-- Nobody writes while a thread reads. -/
  undisturbed : 0 < s.holders.reads t → s.disturbed t = false
  upgraded : (s.call t).Upgrades → s.result t = some .keOk →
    s.holders.writes t = true ∧ s.disturbed t = false

/-- Between `s` and `s'` only the thread `t` did something: what others hold and rely on is as it
was. -/
structure OnlyBy (t : T) (s s' : State T) : Prop where
  pc : ∀ u, u ≠ t → s'.pc u = s.pc u
  call : ∀ u, u ≠ t → s'.call u = s.call u
  result : ∀ u, u ≠ t → s'.result u = s.result u
  reads : ∀ u, u ≠ t → s'.holders.reads u = s.holders.reads u
  writes : ∀ u, u ≠ t → s'.holders.writes u = s.holders.writes u
  disturbed : ∀ u, u ≠ t → 0 < s.holders.reads u ∨ s.holders.writes u = true →
    s'.disturbed u = s.disturbed u

section

variable {s s' s'' : State T} {t : T}

theorem onlyBy_refl : OnlyBy t s s :=
  ⟨fun _ _ => rfl, fun _ _ => rfl, fun _ _ => rfl, fun _ _ => rfl, fun _ _ => rfl,
    fun _ _ _ => rfl⟩

variable [DecidableEq T]

theorem OnlyBy.goto (h : OnlyBy t s s') (p : Pc) : OnlyBy t s (s'.goto t p) :=
  { h with
    pc u hu := (update_of_ne hu _ _).trans (h.pc u hu) }

theorem OnlyBy.ret (h : OnlyBy t s s') (e : Errno) : OnlyBy t s (s'.ret t e) :=
  { h with
    pc u hu := (update_of_ne hu _ _).trans (h.pc u hu)
    result u hu := (update_of_ne hu _ _).trans (h.result u hu) }

theorem OnlyBy.grantRead (h : OnlyBy t s s') (v : BitVec 32) : OnlyBy t s (s'.grantRead t v) :=
  { h with
    reads u hu := (update_of_ne hu _ _).trans (h.reads u hu)
    disturbed u hu hheld := by
      rw [← h.disturbed u hu hheld]
      simp only [State.grantRead]
      split_ifs
      · exact update_of_ne hu _ _
      · rfl }

theorem OnlyBy.dropRead (h : OnlyBy t s s') (v : BitVec 32) : OnlyBy t s (s'.dropRead t v) :=
  { h with
    reads u hu := (update_of_ne hu _ _).trans (h.reads u hu) }

theorem OnlyBy.dropWrite (h : OnlyBy t s s') (v : BitVec 32) : OnlyBy t s (s'.dropWrite t v) :=
  { h with
    writes u hu := (update_of_ne hu _ _).trans (h.writes u hu) }

/-- The step of a thread keeps what holds of all others. -/
theorem threads_of_onlyBy (h : ∀ u, ThreadOk s u) (honly : OnlyBy t s s') (ht : ThreadOk s' t)
    (u : T) : ThreadOk s' u := by
  by_cases hu : u = t
  · rwa [hu]
  obtain ⟨hplace, hrunning, hundisturbed, hupgraded⟩ := h u
  constructor
  · rw [honly.call u hu, honly.reads u hu, honly.writes u hu, honly.pc u hu]
    exact hplace
  · rw [honly.pc u hu, honly.result u hu]
    exact hrunning
  · intro hr
    rw [honly.reads u hu] at hr
    rw [honly.disturbed u hu (.inl hr)]
    exact hundisturbed hr
  · rw [honly.call u hu, honly.result u hu, honly.writes u hu]
    intro hcall hresult
    obtain ⟨hw, hd⟩ := hupgraded hcall hresult
    exact ⟨hw, by rw [honly.disturbed u hu (.inr hw), hd]⟩

end

/-! ### Blocked threads -/

/-- Whoever is blocked would not get the lock, or a thread is about to send. -/
def Awake (s : State T) : Prop :=
  (∃ u, s.pc u = .send) ∨
    (∀ u, s.pc u = .readBlocked → 2 ^ 31 ≤ s.rwFutex.toNat) ∧
    ∀ u, s.pc u = .writeBlocked → s.rwFutex ≠ 0

/-- The word keeps blocked threads from the lock, if it did so before. -/
structure Keeps (s s' : State T) : Prop where
  written : 2 ^ 31 ≤ s.rwFutex.toNat → 2 ^ 31 ≤ s'.rwFutex.toNat
  used : s.rwFutex ≠ 0 → s'.rwFutex ≠ 0

variable {s : State T} {t : T}

theorem awake_of_onlyBy {s' : State T} (h : Awake s) (hpc : s.pc t ≠ .send) (honly : OnlyBy t s s')
    (hnew : s'.pc t = .send ∨ Keeps s s' ∧
      (s'.pc t = .readBlocked → 2 ^ 31 ≤ s'.rwFutex.toNat) ∧
      (s'.pc t = .writeBlocked → s'.rwFutex ≠ 0)) : Awake s' := by
  rcases hnew with hsend | ⟨hkeeps, hread, hwrite⟩
  · exact .inl ⟨t, hsend⟩
  rcases h with ⟨u, hu⟩ | ⟨hreaders, hwriters⟩
  · -- the thread that is about to send is another one
    have hne : u ≠ t := by
      rintro rfl
      exact hpc hu
    exact .inl ⟨u, by rw [honly.pc u hne, hu]⟩
  refine .inr ⟨fun u hu => ?_, fun u hu => ?_⟩
  · by_cases hut : u = t
    · exact hread (hut ▸ hu)
    · rw [honly.pc u hut] at hu
      exact hkeeps.written (hreaders u hu)
  · by_cases hut : u = t
    · exact hwrite (hut ▸ hu)
    · rw [honly.pc u hut] at hu
      exact hkeeps.used (hwriters u hu)

/-! ### The word -/

variable [Fintype T]

/-- The word says what the threads hold. -/
structure WordInv (s : State T) : Prop where
  exclusive : s.holders.Exclusive
  written : ∀ t, s.holders.writes t = true → s.rwFutex = writemode
  counted : (∀ t, s.holders.writes t = false) → s.rwFutex.toNat = s.holders.total
  few : s.holders.total < 2 ^ 31

theorem and_writemode_eq_zero_iff (x : BitVec 32) : x &&& writemode = 0 ↔ x.toNat < 2 ^ 31 := by
  rw [← BitVec.toNat_inj, BitVec.toNat_and,
    show writemode.toNat = 2 ^ 31 from rfl, Nat.and_two_pow,
    show (0 : BitVec 32).toNat = 0 from rfl]
  rw [Nat.testBit_eq_decide_div_mod_eq]
  by_cases h : x.toNat / 2 ^ 31 % 2 = 1
  · simp only [h, decide_true, Bool.toNat_true]
    omega
  · simp only [h, decide_false, Bool.toNat_false]
    omega

theorem toNat_and_readcount (x : BitVec 32) : (x &&& readcount).toNat = x.toNat % 2 ^ 31 := by
  rw [BitVec.toNat_and, show readcount.toNat = 2 ^ 31 - 1 from rfl, Nat.and_two_pow_sub_one_eq_mod]

/-- A word that lets another reader in. -/
theorem trybeginread_eq_ok_iff (x : BitVec 32) : trybeginread x = .keOk ↔ x.toNat < 2 ^ 31 - 1 := by
  have hread : x &&& readcount = readcount ↔ x.toNat % 2 ^ 31 = 2 ^ 31 - 1 := by
    rw [← BitVec.toNat_inj, toNat_and_readcount]
    exact Iff.rfl
  have hwrite := and_writemode_eq_zero_iff x
  unfold trybeginread
  split_ifs with h1 h2
  · have : ¬ x.toNat < 2 ^ 31 := fun h => h1 (hwrite.2 h)
    simp only [false_iff]
    omega
  · have := hread.1 h2
    simp only [false_iff]
    omega
  have hlt := hwrite.1 (not_not.1 h1)
  have hne : ¬ x.toNat % 2 ^ 31 = 2 ^ 31 - 1 := fun h => h2 (hread.2 h)
  simp only [true_iff]
  omega

theorem WordInv.read_mode (h : WordInv s) (hr : 0 < s.holders.reads t) :
    s.rwFutex.toNat = s.holders.total := h.counted (h.exclusive.not_writer hr)

theorem WordInv.no_writer (h : WordInv s) (hw : s.rwFutex.toNat < 2 ^ 31) (t : T) :
    s.holders.writes t = false := by
  by_contra ht
  rw [h.written t (by simpa using ht)] at hw
  exact absurd hw (by decide)

/-- Nobody writes, and the word counts the readers. -/
theorem wordInv_of_readers (hno : ∀ t, s.holders.writes t = false)
    (hcount : s.rwFutex.toNat = s.holders.total) (hfew : s.holders.total < 2 ^ 31) : WordInv s :=
  ⟨exclusive_of_no_writer hno, fun t ht => by simp [hno t] at ht, fun _ => hcount, hfew⟩

variable [DecidableEq T]

theorem WordInv.grantRead (h : WordInv s) {oldval : BitVec 32} (hword : s.rwFutex = oldval)
    (hold : oldval.toNat < 2 ^ 31 - 1) (t : T) : WordInv (s.grantRead t (oldval + 1)) := by
  subst hword
  have hno := h.no_writer (by omega)
  have hcount := h.counted hno
  have htotal : (s.grantRead t (s.rwFutex + 1)).holders.total = s.holders.total + 1 :=
    total_addReader t
  refine wordInv_of_readers hno ?_ ?_
  · rw [htotal]
    show (s.rwFutex + 1).toNat = _
    bv_omega
  · rw [htotal]
    omega

theorem WordInv.dropRead (h : WordInv s) {oldval : BitVec 32} (hword : s.rwFutex = oldval)
    (hr : 0 < s.holders.reads t) : WordInv (s.dropRead t (oldval - 1)) := by
  subst hword
  have hcount := h.read_mode hr
  have hfew := h.few
  have htotal : (s.dropRead t (s.rwFutex - 1)).holders.total + 1 = s.holders.total :=
    total_delReader hr
  refine wordInv_of_readers (h.exclusive.not_writer hr) ?_ (by omega)
  show (s.rwFutex - 1).toNat = _
  bv_omega

/-- The write lock is taken by a thread that is the only user. -/
theorem wordInv_grantWrite (hno : ∀ u, s.holders.writes u = false) (htotal : s.holders.total = 0)
    (t : T) : WordInv (s.grantWrite t writemode) where
  exclusive := exclusive_setWriter hno htotal t
  written _ _ := rfl
  counted hnone := by
    have := hnone t
    simp [State.grantWrite, Holders.setWriter] at this
  few := by
    show s.holders.total < 2 ^ 31
    omega

theorem WordInv.dropWrite (h : WordInv s) (hw : s.holders.writes t = true) :
    WordInv (s.dropWrite t 0) := by
  have htotal := h.exclusive.alone t hw
  refine wordInv_of_readers (h.exclusive.delWriter_writes hw) ?_ ?_
  · show 0 = s.holders.total
    omega
  · show s.holders.total < 2 ^ 31
    omega

/-- A thread that takes the write lock disturbs nobody who holds a lock: there is none. -/
theorem OnlyBy.grantWrite {s' : State T} (h : OnlyBy t s s') (hno : ∀ u, s.holders.writes u = false)
    (htotal : s'.holders.total = 0) (v : BitVec 32) : OnlyBy t s (s'.grantWrite t v) :=
  { h with
    writes u hu := (update_of_ne hu _ _).trans (h.writes u hu)
    disturbed u hu hheld := by
      exfalso
      rcases hheld with hr | hw
      · have := s'.holders.reads_le_total u
        rw [h.reads u hu] at this
        omega
      · simp [hno u] at hw }

/-! ### Steps -/

/-- The invariant of a lock and its users. -/
structure Inv (s : State T) : Prop where
  word : WordInv s
  thread : ∀ t, ThreadOk s t
  awake : Awake s

section

variable {s s' : State T} {t : T}

/-- What a step may do to the word and to what its thread holds. -/
structure Changes (t : T) (s s' : State T) : Prop where
  word : WordInv s'
  only : OnlyBy t s s'
  call : s'.call = s.call
  result : s'.result = s.result
  undisturbed : 0 < s'.holders.reads t → s'.disturbed t = false

omit [DecidableEq T] in
theorem Inv.unchanged (h : Inv s) (t : T) : Changes t s s :=
  ⟨h.word, onlyBy_refl, rfl, rfl, (h.thread t).undisturbed⟩

omit [DecidableEq T] in
theorem Inv.place (h : Inv s) {p : Pc} (hpc : s.pc t = p) :
    Place (s.call t) (s.holders.reads t) (s.holders.writes t) p := hpc ▸ (h.thread t).place

omit [Fintype T] [DecidableEq T] in
theorem keeps_refl (s : State T) : Keeps s s := ⟨id, id⟩

/-- A thread in a call that is not about to send. -/
def Pc.Trying : Pc → Prop
  | .idle | .send => False
  | _ => True

/-- A thread that is not blocked. -/
def Pc.Running : Pc → Prop
  | .readBlocked | .writeBlocked => False
  | _ => True

variable {p q : Pc}

section

variable (h : Inv s) (hpc : s.pc t = q) (hq : q.Trying)

include h hpc hq

omit h [Fintype T] [DecidableEq T] in
theorem Pc.Trying.ne : s.pc t ≠ .send ∧ s.pc t ≠ .idle := by
  rw [hpc]
  constructor <;>
  · rintro rfl
    exact hq

theorem Inv.goto (hchange : Changes t s s')
    (hplace : Place (s.call t) (s'.holders.reads t) (s'.holders.writes t) p)
    (hnew : p = .send ∨ Keeps s s' ∧ (p = .readBlocked → 2 ^ 31 ≤ s'.rwFutex.toNat) ∧
      (p = .writeBlocked → s'.rwFutex ≠ 0)) :
    Inv (s'.goto t p) := by
  obtain ⟨hsend, hidle⟩ := Pc.Trying.ne hpc hq
  have hpc : (s'.goto t p).pc t = p := by simp [State.goto]
  have hresult : s'.result t = none := by rw [hchange.result]; exact (h.thread t).running hidle
  have honly := hchange.only.goto p
  refine ⟨{ hchange.word with },
    threads_of_onlyBy h.thread honly ?_, awake_of_onlyBy h.awake hsend honly ?_⟩
  · constructor
    · rw [hpc]
      have hcall : (s'.goto t p).call t = s.call t := congrFun hchange.call t
      rw [hcall]
      exact hplace
    · exact fun _ => hresult
    · exact hchange.undisturbed
    · intro _ hok
      exact absurd (hresult.symm.trans hok) (by simp)
  · rw [hpc]
    exact hnew.imp_right fun ⟨hkeeps, hblocked⟩ => ⟨{ hkeeps with }, hblocked⟩

theorem Inv.ret {e : Errno} (hchange : Changes t s s') (hkeeps : Keeps s s')
    (he : e = .keOk → (s.call t).Upgrades → s'.holders.writes t = true ∧ s'.disturbed t = false) :
    Inv (s'.ret t e) := by
  have hsend := (Pc.Trying.ne hpc hq).1
  have hpc : (s'.ret t e).pc t = .idle := by simp [State.ret]
  have hresult : (s'.ret t e).result t = some e := by simp [State.ret]
  have honly := hchange.only.ret e
  refine ⟨{ hchange.word with },
    threads_of_onlyBy h.thread honly ?_, awake_of_onlyBy h.awake hsend honly
      (.inr ⟨{ hkeeps with }, ?_⟩)⟩
  · constructor
    · rw [hpc]
      trivial
    · exact fun hne => absurd hpc hne
    · exact hchange.undisturbed
    · intro hcall hok
      rw [hresult] at hok
      exact he (Option.some.inj hok) (hchange.call ▸ hcall)
  · rw [hpc]
    exact ⟨(fun h => by cases h), (fun h => by cases h)⟩

theorem Inv.goto_same (hplace : Place (s.call t) (s.holders.reads t) (s.holders.writes t) p)
    (hrun : p.Running) : Inv (s.goto t p) :=
  h.goto hpc hq (h.unchanged t) hplace
    (.inr ⟨keeps_refl s, fun hp => by simp [hp, Pc.Running] at hrun,
      fun hp => by simp [hp, Pc.Running] at hrun⟩)

theorem Inv.ret_same {e : Errno} (he : e = .keOk → ¬ (s.call t).Upgrades) : Inv (s.ret t e) :=
  h.ret hpc hq (h.unchanged t) (keeps_refl s) fun hok hup => absurd hup (he hok)

end

variable {oldval : BitVec 32}

section

variable (h : Inv s)

include h

theorem Inv.grantRead (hword : s.rwFutex = oldval) (hold : oldval.toNat < 2 ^ 31 - 1) (t : T) :
    Changes t s (s.grantRead t (oldval + 1)) where
  word := h.word.grantRead hword hold t
  only := onlyBy_refl.grantRead _
  call := rfl
  result := rfl
  undisturbed _ := by
    simp only [State.grantRead]
    split_ifs with hfirst
    · simp
    · exact (h.thread t).undisturbed (Nat.pos_of_ne_zero hfirst)

theorem Inv.dropRead (hword : s.rwFutex = oldval) (hr : 0 < s.holders.reads t) :
    Changes t s (s.dropRead t (oldval - 1)) where
  word := h.word.dropRead hword hr
  only := onlyBy_refl.dropRead _
  call := rfl
  result := rfl
  undisturbed _ := (h.thread t).undisturbed hr

/-- A thread that leaves other readers behind keeps blocked threads from the lock. -/
theorem Inv.dropRead_keeps (hr : 0 < s.holders.reads t) (hnot : oldval - 1 ≠ 0) :
    Keeps s (s.dropRead t (oldval - 1)) where
  written hlarge := by
    have := h.word.read_mode hr
    have := h.word.few
    omega
  used _ := hnot

theorem Inv.grantWrite (hword : s.rwFutex = 0) (t : T) :
    Changes t s (s.grantWrite t writemode) := by
  have hzero : s.rwFutex.toNat = 0 := by rw [hword]; rfl
  have hno := h.word.no_writer (by omega)
  have htotal : s.holders.total = 0 := by rw [← h.word.counted hno, hzero]
  refine ⟨wordInv_grantWrite hno htotal t, onlyBy_refl.grantWrite hno htotal _, rfl, rfl, ?_⟩
  intro hr
  have : s.holders.reads t ≤ s.holders.total := s.holders.reads_le_total t
  have hr' : 0 < s.holders.reads t := hr
  omega

theorem Inv.upgrade (hword : s.rwFutex = 1) (hr : 0 < s.holders.reads t) :
    Changes t s ((s.dropRead t 0).grantWrite t writemode) := by
  have hno := h.word.exclusive.not_writer hr
  have htotal : (s.dropRead t 0).holders.total = 0 := by
    have hsum : (s.dropRead t 0).holders.total + 1 = s.holders.total := total_delReader hr
    have hone := h.word.read_mode hr
    rw [hword, show (1 : BitVec 32).toNat = 1 from rfl] at hone
    omega
  refine ⟨wordInv_grantWrite (s := s.dropRead t 0) hno htotal t,
    (onlyBy_refl.dropRead 0).grantWrite hno htotal _,
    rfl, rfl, fun _ => ?_⟩
  simp only [State.grantWrite, State.dropRead, if_true]
  exact (h.thread t).undisturbed hr

theorem Inv.dropWrite (hw : s.holders.writes t = true) : Changes t s (s.dropWrite t 0) where
  word := h.word.dropWrite hw
  only := onlyBy_refl.dropWrite _
  call := rfl
  result := rfl
  undisturbed := (h.thread t).undisturbed

theorem Inv.downgrade (hw : s.holders.writes t = true) :
    Changes t s ((s.dropWrite t 0).grantRead t 1) where
  word := (h.word.dropWrite hw).grantRead rfl (show (0 : BitVec 32).toNat < 2 ^ 31 - 1 by decide) t
  only := (onlyBy_refl.dropWrite 0).grantRead 1
  call := rfl
  result := rfl
  undisturbed _ := by
    have hzero : s.holders.reads t = 0 := by
      have := h.word.exclusive.alone t hw
      have : s.holders.reads t ≤ s.holders.total := s.holders.reads_le_total t
      omega
    simp [State.grantRead, State.dropWrite, Holders.delWriter, hzero]

/-! ### The program points -/

variable {v : BitVec 32}

omit h in
theorem succ_ne_zero (h : v.toNat < 2 ^ 31 - 1) : v + 1 ≠ 0 := by bv_omega

omit h in
theorem pred_ne_zero (h : v ≠ 1) : v - 1 ≠ 0 := by bv_omega

omit h in
omit [Fintype T] [DecidableEq T] in
/-- The write flag keeps every blocked thread from the lock. -/
theorem keeps_writemode (hword : s'.rwFutex = writemode) : Keeps s s' :=
  ⟨fun _ => by rw [hword]; decide, fun _ => by rw [hword]; decide⟩

section

variable (hexec : exec s t = some s')

include hexec

theorem readLoad_inv (hpc : s.pc t = .readLoad) : Inv s' := by
  have hup : ¬ (s.call t).Upgrades := h.place hpc
  simp only [exec, hpc] at hexec
  cases htry : trybeginread s.rwFutex with
  | keOk =>
    simp only [htry, Option.some.injEq] at hexec
    subst hexec
    exact h.goto_same hpc trivial ⟨hup, (trybeginread_eq_ok_iff _).1 htry⟩ trivial
  | keWouldblock =>
    simp only [htry] at hexec
    split_ifs at hexec <;> cases hexec
    · exact h.goto_same hpc trivial hup trivial
    · exact h.ret_same hpc trivial fun _ => hup
  | _ =>
    simp only [htry, Option.some.injEq] at hexec
    subst hexec
    exact h.ret_same hpc trivial fun _ => hup

theorem readCas_inv (hpc : s.pc t = .readCas v) : Inv s' := by
  obtain ⟨hup, hold⟩ := h.place hpc
  simp only [exec, hpc] at hexec
  split_ifs at hexec with hword <;> cases hexec
  · refine h.ret hpc trivial (h.grantRead hword hold t)
      ⟨fun hlarge => ?_, fun _ => succ_ne_zero hold⟩ fun _ hcall => absurd hcall hup
    rw [hword] at hlarge
    omega
  · exact h.goto_same hpc trivial hup trivial

theorem readRecv_inv (hpc : s.pc t = .readRecv) : Inv s' := by
  have hup : ¬ (s.call t).Upgrades := h.place hpc
  simp only [exec, hpc] at hexec
  split_ifs at hexec with hmode <;> cases hexec
  · refine h.goto hpc trivial (h.unchanged t) hup
      (.inr ⟨keeps_refl s, fun _ => ?_, by simp⟩)
    have := (and_writemode_eq_zero_iff s.rwFutex).not.1 hmode
    omega
  · exact h.goto_same hpc trivial hup trivial

theorem writeLoad_inv (hpc : s.pc t = .writeLoad) : Inv s' := by
  have hcall : s.call t ≠ .tryupgrade := h.place hpc
  by_cases hword : s.rwFutex = 0
  · simp only [exec, hpc, trybeginwrite, if_neg (not_not.2 hword), Option.some.injEq] at hexec
    subst hexec
    exact h.goto_same hpc trivial ⟨hcall, hword⟩ trivial
  simp only [exec, hpc, trybeginwrite, if_pos hword] at hexec
  split_ifs at hexec with htry <;> cases hexec
  · exact h.ret_same hpc trivial (by simp)
  · exact h.goto_same hpc trivial hcall trivial

theorem writeCas_inv (hpc : s.pc t = .writeCas v) : Inv s' := by
  obtain ⟨hcall, rfl⟩ := h.place hpc
  simp only [exec, hpc] at hexec
  split_ifs at hexec with hword hupgrade <;> cases hexec
  · exact h.ret hpc trivial (h.grantWrite hword t) (keeps_writemode rfl) (by simp)
  · refine h.ret hpc trivial (h.grantWrite hword t) (keeps_writemode rfl) fun _ hup => ?_
    exact absurd hup (by simp [Call.Upgrades, hupgrade, hcall])
  · exact h.goto_same hpc trivial hcall trivial

theorem writeRecv_inv (hpc : s.pc t = .writeRecv) : Inv s' := by
  have hcall : s.call t ≠ .tryupgrade := h.place hpc
  simp only [exec, hpc] at hexec
  split_ifs at hexec with hword <;> cases hexec
  · exact h.goto hpc trivial (h.unchanged t) hcall (.inr ⟨keeps_refl s, by simp, fun _ => hword⟩)
  · exact h.goto_same hpc trivial hcall trivial

omit hexec in
/-- A read lock is given back: the last reader is going to send. -/
theorem endread_inv (hword : s.rwFutex = oldval) (hpc : s.pc t = q) (hq : q.Trying)
    (hr : 0 < s.holders.reads t) (hup : ¬ (s.call t).Upgrades) :
    (oldval - 1 ≠ 0 → Inv ((s.dropRead t (oldval - 1)).ret t .ksUnchanged)) ∧
      Inv ((s.dropRead t (oldval - 1)).goto t .send) :=
  ⟨fun hnot => h.ret hpc hq (h.dropRead hword hr) (h.dropRead_keeps hr hnot) (by simp),
    h.goto hpc hq (h.dropRead hword hr) hup (.inl rfl)⟩

theorem upgradeCas_inv (hpc : s.pc t = .upgradeCas v) : Inv s' := by
  obtain ⟨hr, htry⟩ := h.place hpc
  simp only [exec, hpc] at hexec
  by_cases hword : s.rwFutex = v
  · rw [if_pos hword] at hexec
    by_cases hone : v = 1
    · simp only [if_pos hone, if_true, Option.some.injEq] at hexec
      subst hexec
      refine h.ret hpc trivial (h.upgrade (hword.trans hone) hr)
        (keeps_writemode rfl) fun _ _ => ⟨?_, ?_⟩
      · simp [State.grantWrite, Holders.setWriter]
      · simp only [State.grantWrite, State.dropRead, if_true]
        exact (h.thread t).undisturbed hr
    -- the word is a number of readers, so that one less is not the write flag
    have hnot : v - 1 ≠ writemode := by
      intro heq
      have hinv := (h.dropRead hword hr).word
      have hcount := hinv.counted (h.word.exclusive.not_writer hr)
      have hfew := hinv.few
      have hlarge : (s.dropRead t (v - 1)).rwFutex.toNat = 2 ^ 31 := by
        show (v - 1).toNat = 2 ^ 31
        rw [heq]
        rfl
      omega
    simp only [if_neg hone, if_neg hnot, Option.some.injEq] at hexec
    subst hexec
    exact h.goto hpc trivial (h.dropRead hword hr)
      (fun hcall => hone (htry hcall))
      (.inr ⟨h.dropRead_keeps hr (pred_ne_zero hone), by simp, by simp⟩)
  · rw [if_neg hword] at hexec
    cases hexec
    exact h.goto_same hpc trivial hr trivial

end

omit h in
/-- A thread that is woken goes back to where it tries again. -/
theorem Place.woken {call : Call} {reads : Nat} {writes : Bool} (h : Place call reads writes p) :
    Place call reads writes p.woken := by
  cases p <;> exact h

/-- **Sending leaves nobody blocked.** -/
theorem send_inv (hpc : s.pc t = .send) (e : Errno) :
    Inv (({ s with pc := fun u => (s.pc u).woken } : State T).ret t e) := by
  have hup : ¬ (s.call t).Upgrades := h.place hpc
  refine ⟨⟨h.word.exclusive, h.word.written, h.word.counted, h.word.few⟩, fun u => ?_,
    .inr ⟨fun u hu => ?_, fun u hu => ?_⟩⟩
  · obtain ⟨hplace, hrunning, hundisturbed, hupgraded⟩ := h.thread u
    by_cases hut : u = t
    · subst hut
      exact ⟨by simp [State.ret, Place], by simp [State.ret], hundisturbed,
        fun hcall => absurd hcall hup⟩
    have hpc' : (({ s with pc := fun u => (s.pc u).woken } : State T).ret t e).pc u =
        (s.pc u).woken := by simp [State.ret, hut]
    have hresult : (({ s with pc := fun u => (s.pc u).woken } : State T).ret t e).result u =
        s.result u := by simp [State.ret, hut]
    refine ⟨by rw [hpc']; exact hplace.woken, ?_, hundisturbed, by rw [hresult]; exact hupgraded⟩
    rw [hpc', hresult]
    intro hne
    apply hrunning
    intro hidle
    exact hne (by rw [hidle]; rfl)
  all_goals
    by_cases hut : u = t
    · simp [State.ret, hut] at hu
    · simp only [State.ret, update_of_ne hut] at hu
      cases hp : s.pc u <;> simp [hp, Pc.woken] at hu

theorem exec_inv (hexec : exec s t = some s') : Inv s' := by
  cases hpc : s.pc t with
  | idle => simp [exec, hpc] at hexec
  | readBlocked => simp [exec, hpc] at hexec
  | writeBlocked => simp [exec, hpc] at hexec
  | readLoad => exact readLoad_inv h hexec hpc
  | readCas v => exact readCas_inv h hexec hpc
  | readRecv => exact readRecv_inv h hexec hpc
  | writeLoad => exact writeLoad_inv h hexec hpc
  | writeCas v => exact writeCas_inv h hexec hpc
  | writeRecv => exact writeRecv_inv h hexec hpc
  | upgradeCas v => exact upgradeCas_inv h hexec hpc
  | endreadLoad =>
    have hplace := h.place hpc
    simp only [exec, hpc, Option.some.injEq] at hexec
    subst hexec
    exact h.goto_same hpc trivial hplace trivial
  | endreadCas v =>
    obtain ⟨hup, hr⟩ := h.place hpc
    simp only [exec, hpc] at hexec
    split_ifs at hexec with hword hlast <;> cases hexec
    · exact (endread_inv h hword hpc trivial hr hup).1 (pred_ne_zero hlast)
    · exact (endread_inv h hword hpc trivial hr hup).2
    · exact h.goto_same hpc trivial ⟨hup, hr⟩ trivial
  | endreadFetch =>
    obtain ⟨hup, hr⟩ := h.place hpc
    simp only [exec, hpc] at hexec
    split_ifs at hexec with hlast <;> cases hexec
    · exact (endread_inv h rfl hpc trivial hr hup).1 hlast
    · exact (endread_inv h rfl hpc trivial hr hup).2
  | endwriteFetch =>
    obtain ⟨hup, hw⟩ := h.place hpc
    simp only [exec, hpc, h.word.written t hw, Option.some.injEq] at hexec
    subst hexec
    exact h.goto hpc trivial (h.dropWrite hw) hup (.inl rfl)
  | downgradeCas =>
    obtain ⟨hup, hw⟩ := h.place hpc
    simp only [exec, hpc, h.word.written t hw, if_true, Option.some.injEq] at hexec
    subst hexec
    exact h.goto hpc trivial (h.downgrade hw) hup (.inl rfl)
  | upgradeLoad =>
    simp only [exec, hpc] at hexec
    split_ifs at hexec with htry <;> cases hexec
    · exact h.ret_same hpc trivial (by simp)
    refine h.goto_same hpc trivial ⟨h.place hpc, fun hcall => ?_⟩ trivial
    by_contra hne
    exact htry ⟨hcall, hne⟩
  | send =>
    simp only [exec, hpc, Option.some.injEq] at hexec
    subst hexec
    exact send_inv h hpc _

omit h in
omit [Fintype T] in
theorem onlyBy_call (t : T) (p : Pc) (c : Call) : OnlyBy t s { s with
    pc := update s.pc t p
    call := update s.call t c
    result := update s.result t none } where
  pc _ hu := update_of_ne hu _ _
  call _ hu := update_of_ne hu _ _
  result _ hu := update_of_ne hu _ _
  reads _ _ := rfl
  writes _ _ := rfl
  disturbed _ _ _ := rfl

/-- **Every step keeps the invariant.** -/
theorem step_inv {debug : Bool} (hstep : Step debug s t s') : Inv s' := by
  cases hstep with
  | call c hidle hallow =>
    refine ⟨⟨h.word.exclusive, h.word.written, h.word.counted, h.word.few⟩, ?_, ?_⟩
    · refine threads_of_onlyBy h.thread (onlyBy_call t _ c) ⟨?_, fun _ => by simp,
        (h.thread t).undisturbed, by simp⟩
      cases c <;> cases debug <;> simp_all [Call.first, Call.Allowed, Call.Upgrades, Place]
    · refine awake_of_onlyBy h.awake (by simp [hidle]) (onlyBy_call t _ c)
        (.inr ⟨⟨id, id⟩, ?_, ?_⟩) <;>
      · simp only [update_self]
        cases c <;> cases debug <;> simp [Call.first]
  | exec hexec => exact exec_inv h hexec
  | fail e he hwait =>
    have hok : e = .keOk → ¬ (s.call t).Upgrades := by
      rintro rfl
      simp at he
    rcases hwait with hpc | hpc | hpc | hpc <;> exact h.ret_same hpc trivial hok

end

/-! ### Runs -/

theorem Run.inv {debug : Bool} (h : Run debug s) : Inv s := by
  induction h with
  | start =>
    refine ⟨wordInv_of_readers (fun _ => rfl) total_nobody.symm ?_, fun t => ?_,
      .inr ⟨fun _ => (fun h => by cases h), fun _ => (fun h => by cases h)⟩⟩
    · show (Holders.nobody : Holders T).total < 2 ^ 31
      rw [total_nobody]
      decide
    · exact ⟨trivial, fun _ => rfl, fun _ => rfl, fun _ hok => by cases hok⟩
  | step _ hstep ih => exact step_inv ih hstep

end

/-- What the lock promises in a state. -/
structure Contract (s : State T) : Prop where
  /-- One writer at most, and no reader next to it. -/
  exclusion : s.holders.Exclusive
  /-- The word is the write flag alone exactly if one thread holds the write lock. -/
  writer : s.rwFutex = writemode ↔ ∃! t, s.holders.writes t = true
  /-- Otherwise it is the number of read locks held. -/
  readers : (¬ ∃! t, s.holders.writes t = true) → s.rwFutex.toNat = s.holders.total
  /-- An upgrade that returned `KE_OK` was not disturbed by a writer. -/
  upgraded : ∀ t, (s.call t).Upgrades → s.result t = some .keOk → s.disturbed t = false
  /-- A blocked thread would not get the lock by trying, or a thread is about to send. -/
  readBlocked : ∀ t, s.pc t = .readBlocked → trybeginread s.rwFutex = .keOk →
    ∃ u, s.pc u = .send
  writeBlocked : ∀ t, s.pc t = .writeBlocked → trybeginwrite s.rwFutex = .keOk →
    ∃ u, s.pc u = .send

/-- **The read/write lock of user space keeps its contract in every state of every run.** -/
theorem user_krwlock_run {debug : Bool} {s : State T} (h : Run debug s) : Contract s := by
  obtain ⟨hword, hthread, hawake⟩ := h.inv
  have hone : (∃ t, s.holders.writes t = true) → ∃! t, s.holders.writes t = true :=
    fun ⟨t, ht⟩ => ⟨t, ht, fun u hu => hword.exclusive.unique u t hu ht⟩
  have hcount : (¬ ∃! t, s.holders.writes t = true) → s.rwFutex.toNat = s.holders.total := by
    intro hnone
    refine hword.counted fun t => ?_
    by_contra ht
    exact hnone (hone ⟨t, by simpa using ht⟩)
  refine ⟨hword.exclusive, ⟨fun hw => ?_, fun ⟨t, ht, _⟩ => hword.written t ht⟩, hcount,
    fun t hcall hok => ((hthread t).upgraded hcall hok).2, ?_, ?_⟩
  · by_contra hnone
    have := hcount hnone
    have := hword.few
    rw [hw, show writemode.toNat = 2 ^ 31 from rfl] at *
    omega
  · intro t hpc htry
    rcases hawake with hsend | ⟨hreaders, -⟩
    · exact hsend
    have := hreaders t hpc
    have := (trybeginread_eq_ok_iff _).1 htry
    omega
  · intro t hpc htry
    rcases hawake with hsend | ⟨-, hwriters⟩
    · exact hsend
    · simp only [trybeginwrite] at htry
      exact absurd (by simpa using htry) (hwriters t hpc)

/-- The theorem where one thread writes and another is blocked. -/
theorem user_krwlock_run_blocked :
    ∃ s : State Bool, s.holders.writes false = true ∧ s.pc true = .readBlocked ∧
      s.rwFutex = writemode ∧ Contract s := by
  have hwrite : Run false (T := Bool) _ := .step (t := false) (.step (t := false)
    (.step (t := false) .start (.call .beginwrite rfl trivial)) (.exec rfl)) (.exec rfl)
  have hread : Run false (T := Bool) _ := .step (t := true) (.step (t := true)
    (.step (t := true) hwrite (.call .beginread rfl trivial)) (.exec rfl)) (.exec rfl)
  exact ⟨_, rfl, rfl, rfl, user_krwlock_run hread⟩

end KosKernel.UserRwLock
