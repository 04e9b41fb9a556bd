import KosKernel.Pty.Basic

/-!
# KosKernel.Pty.Canon

**What the slave reads from a terminal in canonical mode.**

`Discipline` is the editing of lines, one byte at a time. `kpty_mwrite_canon_unlocked` agrees
with it as long as no call has a byte behind a line feed or a control character behind ordinary
text (`Orderly`): behind a line feed `canon_start` is not moved, so that the completed line is
buffered once more, and a control character takes effect before the text in front of it reaches
the line buffer. Whole runs then depend on the bytes typed only, not on how they were split.
-/

namespace KosKernel.Pty

open List

/-! ### The line discipline -/

/-- The current line, and the bytes of all completed ones. -/
structure Discipline where
  line : List Byte
  ready : List Byte
deriving DecidableEq

/-- One byte is typed. -/
def Discipline.type (ios : Termios) (d : Discipline) (ch : Byte) : Discipline :=
  if ch = lf then ⟨[], d.ready ++ d.line ++ [lf]⟩
  else if ch = ios.vkill then ⟨[], d.ready⟩
  else if ch = ios.verase then ⟨d.line.dropLast, d.ready⟩
  else if ch = ios.veof then ⟨[], d.ready ++ d.line⟩
  else ⟨d.line ++ [ch], d.ready⟩

/-- The bytes that edit or complete the line, the line feed apart. -/
def Termios.Control (ios : Termios) (ch : Byte) : Prop :=
  ch ≠ lf ∧ (ch = ios.vkill ∨ ch = ios.verase ∨ ch = ios.veof)

/-- The bytes that extend the line. -/
def Termios.Ordinary (ios : Termios) (ch : Byte) : Prop :=
  ch ≠ lf ∧ ch ≠ ios.vkill ∧ ch ≠ ios.verase ∧ ch ≠ ios.veof

instance (ios : Termios) (ch : Byte) : Decidable (ios.Control ch) :=
  inferInstanceAs (Decidable (_ ∧ _))

instance (ios : Termios) (ch : Byte) : Decidable (ios.Ordinary ch) :=
  inferInstanceAs (Decidable (_ ∧ _))

/-- Ordinary text is appended to the line. -/
theorem type_ordinary {ios : Termios} {text : List Byte} (h : ∀ ch ∈ text, ios.Ordinary ch)
    (d : Discipline) : text.foldl (Discipline.type ios) d = ⟨d.line ++ text, d.ready⟩ := by
  induction text generalizing d with
  | nil => simp
  | cons ch text ih =>
    obtain ⟨hlf, hkill, herase, heof⟩ := h ch mem_cons_self
    rw [foldl_cons, ih fun c hc => h c (mem_cons_of_mem _ hc)]
    simp [Discipline.type, hlf, hkill, herase, heof]

/-! ### The calls -/

/-- A terminal that is in the state of a line discipline. -/
structure Shows (pty : Kpty) (d : Discipline) : Prop where
  line : pty.tyCanon.rbData = d.line
  ready : pty.tyM2s = d.ready
  alive : pty.tyCanon.rbDead = false
  fits : pty.tyCanon.rbData.length ≤ pty.tyCanon.rbSize

/-- **Room in the line buffer**, for `n` more bytes. -/
def Roomy (self : Krawbuf) (n : Nat) : Prop := self.rbData.length + n + 63 ≤ self.rbMaxsize

/-- With room, the line buffer takes all bytes. -/
theorem krawbufWrite_spec {self : Krawbuf} (buf : List Byte) (halive : self.rbDead = false)
    (hfits : self.rbData.length ≤ self.rbSize) (hroom : Roomy self buf.length) :
    ∃ size, self.rbData.length + buf.length ≤ size ∧ krawbufWrite false self buf =
      (.keOk, buf.length, { self with rbData := self.rbData ++ buf, rbSize := size }) := by
  unfold Roomy at hroom
  by_cases havail : self.rbSize - self.rbData.length < buf.length
  · refine ⟨min ((self.rbData.length + buf.length + 63) / 64 * 64) self.rbMaxsize, by omega, ?_⟩
    have hcopy : min (min ((self.rbData.length + buf.length + 63) / 64 * 64) self.rbMaxsize -
        self.rbData.length) buf.length = buf.length := by omega
    have hperm : ¬ (self.rbMaxsize < (self.rbData.length + buf.length + 63) / 64 * 64 ∧
        self.rbMaxsize = self.rbSize) := by omega
    simp only [krawbufWrite, if_pos havail, halive, Bool.false_eq_true, if_false, if_neg hperm,
      krawbufCopy, hcopy, take_length]
  · refine ⟨self.rbSize, by omega, ?_⟩
    have hcopy : min (self.rbSize - self.rbData.length) buf.length = buf.length := by omega
    simp only [krawbufWrite, if_neg havail, krawbufCopy, hcopy, take_length]

/-- What stays as it is in a call. -/
structure SameSetup (pty pty' : Kpty) : Prop where
  ios : pty'.tyIos = pty.tyIos
  maxsize : pty'.tyCanon.rbMaxsize = pty.tyCanon.rbMaxsize

theorem SameSetup.trans {a b c : Kpty} (h : SameSetup a b) (h' : SameSetup b c) : SameSetup a c :=
  ⟨h'.ios.trans h.ios, h'.maxsize.trans h.maxsize⟩

/-- **A control character acts on the line buffer as it should on the line.** -/
theorem kptyMSpecialCanon_control {self : Kpty} {d : Discipline} {ch : Byte} (errorIsErr : Bool)
    (hshows : Shows self d) (hcontrol : self.tyIos.Control ch)
    (hintr : ch ≠ self.tyIos.vintr ∧ ch ≠ self.tyIos.vquit)
    (hset : self.tyIos.echo → ch = self.tyIos.vkill → d.line = [] → errorIsErr = false) :
    ∃ self', kptyMSpecialCanon errorIsErr self ch = (.keOk, self') ∧ SameSetup self self' ∧
      Shows self' (d.type self.tyIos ch) := by
  obtain ⟨hline, hready, halive, hfits⟩ := hshows
  obtain ⟨hlf, hkind⟩ := hcontrol
  unfold kptyMSpecialCanon Discipline.type
  rw [if_neg hlf]
  by_cases hkill : ch = self.tyIos.vkill
  · rw [if_pos hkill, if_pos hkill]
    dsimp only
    split_ifs with hecho hempty herr
    · rw [hset hecho hkill (hline ▸ length_eq_zero_iff.1 hempty)] at herr
      cases herr
    all_goals exact ⟨_, rfl, ⟨rfl, rfl⟩, ⟨rfl, hready, halive, Nat.zero_le _⟩⟩
  · rw [if_neg hkill, if_neg hkill]
    by_cases herase : ch = self.tyIos.verase
    · rw [if_pos herase, if_pos herase]
      have hshort : self.tyCanon.rbData.dropLast.length ≤ self.tyCanon.rbSize := by
        rw [length_dropLast]
        omega
      refine ⟨_, rfl, ?_, ?_⟩
      · split_ifs <;> exact ⟨rfl, rfl⟩
      · split_ifs <;> exact ⟨congrArg _ hline, hready, halive, hshort⟩
    have heof : ch = self.tyIos.veof := by simpa [hkill, herase] using hkind
    rw [if_neg herase, if_neg herase, if_neg (by simp [hintr.1, hintr.2]), if_pos heof,
      if_pos heof]
    by_cases hempty : self.tyCanon.rbData ≠ []
    · rw [if_pos hempty]
      exact ⟨_, rfl, ⟨rfl, rfl⟩, ⟨rfl, by rw [hready, hline], halive, Nat.zero_le _⟩⟩
    rw [if_neg hempty]
    have hnil : d.line = [] := by rw [← hline]; simpa using hempty
    exact ⟨_, rfl, ⟨rfl, rfl⟩, ⟨rfl, by rw [hready, hnil]; simp, halive, Nat.zero_le _⟩⟩

/-- **What `flush_canon` does**: with room, the pending text goes to the line buffer. -/
theorem flushCanon_spec {self : Kpty} {d : Discipline} (buf : List Byte) (at' : Cursor)
    (text : List Byte) (hshows : Shows self d)
    (htext : (buf.drop at'.canonStart).take (at'.iter - at'.canonStart) = text)
    (hroom : d.line.length + text.length + 63 ≤ self.tyCanon.rbMaxsize) :
    ∃ self', SameSetup self self' ∧ Shows self' ⟨d.line ++ text, d.ready⟩ ∧
      flushCanon false buf self at' = flushNext buf self' at' := by
  obtain ⟨hline, hready, halive, hfits⟩ := hshows
  obtain ⟨size, hsize, hwrite⟩ := krawbufWrite_spec text halive hfits (by
    unfold Roomy
    rwa [hline])
  obtain ⟨self1, hself1⟩ : ∃ self1 : Kpty, self1 = { self with tyCanon := { self.tyCanon with
      rbData := self.tyCanon.rbData ++ text, rbSize := size } } := ⟨_, rfl⟩
  have hsame : SameSetup self self1 := by subst hself1; exact ⟨rfl, rfl⟩
  have hbuffered : Shows self1 ⟨d.line ++ text, d.ready⟩ := by
    subst hself1
    exact ⟨by rw [hline], hready, halive, by simpa using hsize⟩
  refine ⟨echoText self1 text, ?_, ?_, ?_⟩
  · unfold echoText
    split_ifs <;> exact hsame.trans ⟨rfl, rfl⟩
  · unfold echoText
    split_ifs
    · exact { hbuffered with }
    · exact hbuffered
  · simp only [flushCanon, htext, hwrite, Errno.isErr, Bool.false_eq_true, if_false, hself1]

/-! ### A call -/

/-- The end of a buffer: nothing, or a line feed. -/
def IsEnding (ending : List Byte) : Prop := ending = [] ∨ ending = [lf]

/-- **The ordinary text at the end of a buffer**, of which `done` has been passed already. -/
theorem canonLoop_text {stack : Stack} {pre done todo ending : List Byte} {new : Nat} {self : Kpty}
    {d : Discipline} (fuel : Nat) (hshows : Shows self d)
    (hordinary : ∀ ch ∈ done ++ todo, self.tyIos.Ordinary ch)
    (hintr : ∀ ch ∈ todo, ch ≠ self.tyIos.vintr ∧ ch ≠ self.tyIos.vquit)
    (hending : IsEnding ending)
    (hnew : ending = [] → new ≠ (pre ++ (done ++ todo ++ ending)).length)
    (hroom : d.line.length + (done ++ todo ++ ending).length + 63 ≤ self.tyCanon.rbMaxsize)
    (hfuel : todo.length < fuel) :
    ∃ self', canonLoop false stack (pre ++ (done ++ todo ++ ending)) fuel self
        ⟨pre.length + done.length, pre.length, new⟩ = some (.keOk, self') ∧
      SameSetup self self' ∧
      Shows self' ((done ++ todo ++ ending).foldl (Discipline.type self.tyIos) d) := by
  induction todo generalizing done fuel with
  | nil =>
    obtain _ | fuel := fuel
    · omega
    rw [append_nil] at *
    rw [foldl_append, type_ordinary hordinary]
    rcases hending with rfl | rfl
    · have hend : (pre ++ (done ++ []))[pre.length + done.length]? = none := by simp
      obtain ⟨self', hsame, hshows', hflush⟩ := flushCanon_spec (pre ++ (done ++ []))
        ⟨pre.length + done.length, pre.length, new⟩ done hshows (by simp) (by simpa using hroom)
      refine ⟨self', ?_, hsame, hshows'⟩
      rw [canonLoop, canonRound, hend, hflush, flushNext, if_neg, if_pos (.inl (by simp))]
      simpa using hnew rfl
    have hlf : (pre ++ (done ++ [lf]))[pre.length + done.length]? = some lf := by simp
    obtain ⟨self', hsame, hshows', hflush⟩ := flushCanon_spec (pre ++ (done ++ [lf]))
      ⟨pre.length + done.length + 1, pre.length, pre.length + done.length + 1⟩
      (done ++ [lf]) hshows (by simp [Nat.add_assoc, take_of_length_le])
      (by simpa using hroom)
    refine ⟨writeCanon self', ?_, hsame.trans ⟨rfl, rfl⟩, rfl, ?_, hshows'.alive, Nat.zero_le _⟩
    · rw [canonLoop, canonRound, hlf]
      simp only [if_true, hflush, flushNext]
      rw [if_pos (by simp [Nat.add_assoc])]
    · simp [Discipline.type, writeCanon, hshows'.ready, hshows'.line]
  | cons ch todo ih =>
    obtain _ | fuel := fuel
    · omega
    have hmove : done ++ ch :: todo ++ ending = done ++ [ch] ++ todo ++ ending := by simp
    obtain ⟨hlf, hkill, herase, heof⟩ := hordinary ch (by simp)
    have hnot := hintr ch mem_cons_self
    have hround : canonRound false stack (pre ++ (done ++ ch :: todo ++ ending)) self
        ⟨pre.length + done.length, pre.length, new⟩ =
        .go self ⟨pre.length + (done ++ [ch]).length, pre.length, new⟩ := by
      have hget : (pre ++ (done ++ ch :: todo ++ ending))[pre.length + done.length]? = some ch := by
        simp
      rw [canonRound, hget]
      simp [kptyMSpecialCanon, hlf, hkill, herase, heof, hnot, Nat.add_assoc]
    rw [canonLoop, hround, hmove]
    exact ih fuel (by simpa using hordinary) (fun c hc => hintr c (mem_cons_of_mem _ hc))
      (by rwa [← hmove]) (by rwa [← hmove]) (by simpa using hfuel)

theorem type_control_length {ios : Termios} {ch : Byte} (h : ios.Control ch) (d : Discipline) :
    (d.type ios ch).line.length ≤ d.line.length := by
  obtain ⟨hlf, hkind⟩ := h
  unfold Discipline.type
  rw [if_neg hlf]
  split_ifs with hkill herase heof
  · exact Nat.zero_le _
  · simp
  · exact Nat.zero_le _
  · simp [hkill, herase, heof] at hkind

/-- **A buffer that begins with control characters**, from any of them on. -/
theorem canonLoop_controls {stack : Stack} {pre controls text ending : List Byte} {new : Nat}
    {self : Kpty} {d : Discipline} (fuel : Nat) (hshows : Shows self d)
    (hcontrol : ∀ ch ∈ controls, self.tyIos.Control ch)
    (hordinary : ∀ ch ∈ text, self.tyIos.Ordinary ch)
    (hintr : ∀ ch ∈ controls ++ text, ch ≠ self.tyIos.vintr ∧ ch ≠ self.tyIos.vquit)
    (hending : IsEnding ending)
    (hnew : controls = [] → ending = [] → new ≠ (pre ++ (controls ++ (text ++ ending))).length)
    (hset : self.tyIos.echo → ∀ i, controls[i]? = some self.tyIos.vkill →
      ((controls.take i).foldl (Discipline.type self.tyIos) d).line = [] →
      stack.error (pre.length + i) = false)
    (hroom : d.line.length + (controls ++ (text ++ ending)).length + 63 ≤ self.tyCanon.rbMaxsize)
    (hfuel : (controls ++ (text ++ ending)).length < fuel) :
    ∃ self', canonLoop false stack (pre ++ (controls ++ (text ++ ending))) fuel self
        ⟨pre.length, pre.length, new⟩ = some (.keOk, self') ∧
      SameSetup self self' ∧
      Shows self' ((controls ++ (text ++ ending)).foldl (Discipline.type self.tyIos) d) := by
  induction controls generalizing pre new self d fuel with
  | nil =>
    have h := @canonLoop_text stack pre [] text ending new self d fuel hshows
      (by simpa using hordinary) (by simpa using hintr) hending (by simpa using hnew rfl)
      (by simpa using hroom) (by simp only [nil_append, length_append] at hfuel; omega)
    simpa using h
  | cons ch controls ih =>
    obtain _ | fuel := fuel
    · omega
    have hch := hcontrol ch mem_cons_self
    obtain ⟨self1, hspecial, hsame1, hshows1⟩ := kptyMSpecialCanon_control
      (stack.error pre.length) hshows hch (hintr ch (by simp))
      (fun hecho hkill hline => hset hecho 0 (by simp [hkill]) (by simpa using hline))
    have hshorter := type_control_length hch d
    simp only [cons_append, length_cons] at hroom hfuel
    -- there is no text to be flushed
    obtain ⟨self2, hsame2, hshows2, hflush⟩ := flushCanon_spec
      (pre ++ (ch :: controls ++ (text ++ ending))) ⟨pre.length, pre.length, pre.length + 1⟩ []
      hshows1 (by simp) (by rw [hsame1.maxsize, length_nil]; omega)
    rw [append_nil] at hshows2
    have hsame := hsame1.trans hsame2
    have hround : canonRound false stack (pre ++ (ch :: controls ++ (text ++ ending))) self
        ⟨pre.length, pre.length, new⟩ =
        if controls ++ (text ++ ending) = [] then .stop .keOk self2
        else .go self2 ⟨pre.length + 1, pre.length + 1, pre.length + 1⟩ := by
      have hget : (pre ++ (ch :: controls ++ (text ++ ending)))[pre.length]? = some ch := by simp
      rw [canonRound, hget]
      simp only [if_neg hch.1, hspecial, Errno.isErr, Bool.false_eq_true, if_false, hflush,
        flushNext, reduceCtorEq]
      rw [if_neg (by omega)]
      refine if_congr ?_ rfl rfl
      rw [← length_eq_zero_iff]
      simp only [length_append, length_cons]
      omega
    by_cases hlast : controls ++ (text ++ ending) = []
    · rw [if_pos hlast] at hround
      refine ⟨self2, by rw [canonLoop, hround], hsame, ?_⟩
      rw [cons_append, hlast]
      exact hshows2
    rw [if_neg hlast] at hround
    rw [canonLoop, hround]
    have hmove : pre ++ (ch :: controls ++ (text ++ ending)) =
        pre ++ [ch] ++ (controls ++ (text ++ ending)) := by simp
    have hios := hsame.ios
    have h := @ih (pre ++ [ch]) (pre.length + 1) self2 (d.type self.tyIos ch) fuel hshows2
      (by rw [hios]; exact fun c hc => hcontrol c (mem_cons_of_mem _ hc))
      (by rwa [hios])
      (by rw [hios]; exact fun c hc => hintr c (mem_cons_of_mem _ hc))
      (fun _ hend => by
        intro heq
        apply hlast
        rw [← length_eq_zero_iff]
        simp only [length_append, length_singleton] at heq ⊢
        omega)
      (by
        rw [hios]
        intro hecho i hget hline
        have := hset hecho (i + 1) (by simpa using hget) (by simpa using hline)
        simpa [Nat.add_assoc, Nat.add_comm 1] using this)
      (by rw [hsame.maxsize]; omega) (by omega)
    obtain ⟨self', hloop, hsame', hshows'⟩ := h
    refine ⟨self', ?_, hsame.trans hsame', ?_⟩
    · rw [hmove]
      simpa using hloop
    · rw [hios] at hshows'
      exact hshows'

/-! ### Runs -/

/-- A call of `kpty_mwrite`. -/
structure Call where
  buf : List Byte
  nomem : Bool
  stack : Stack

/-- **The calls that edit as they should**, on a line buffer of `maxsize` bytes and from a line
that `d` tells: control characters first, then ordinary text, and a line feed at the very end if
there is one. Of the uninitialised variables, `new_canon_start` matters if there is neither a
control character nor a line feed, and `error` if a kill character is typed at an empty line. -/
structure Orderly (ios : Termios) (maxsize : Nat) (d : Discipline) (call : Call) : Prop where
  shape : ∃ controls text ending, call.buf = controls ++ (text ++ ending) ∧
    (∀ ch ∈ controls, ios.Control ch) ∧ (∀ ch ∈ text, ios.Ordinary ch) ∧ IsEnding ending ∧
    (controls = [] → ending = [] → call.stack.newCanonStart ≠ call.buf.length)
  kill : ios.echo → ∀ i, call.buf[i]? = some ios.vkill →
    ((call.buf.take i).foldl (Discipline.type ios) d).line = [] → call.stack.error i = false
  memory : call.nomem = false
  room : d.line.length + call.buf.length + 63 ≤ maxsize

/-- **One orderly call** edits the line as its bytes do one after the other. -/
theorem kptyMwriteCanon_orderly {self : Kpty} {d : Discipline} {call : Call}
    (hshows : Shows self d) (h : Orderly self.tyIos self.tyCanon.rbMaxsize d call)
    (hintr : ∀ ch ∈ call.buf, ch ≠ self.tyIos.vintr ∧ ch ≠ self.tyIos.vquit) :
    ∃ self', kptyMwriteCanon call.nomem call.stack self call.buf = some (.keOk, self') ∧
      SameSetup self self' ∧
      Shows self' (call.buf.foldl (Discipline.type self.tyIos) d) := by
  obtain ⟨controls, text, ending, hbuf, hcontrol, hordinary, hending, hnew⟩ := h.shape
  have hroom := h.room
  have hkill := h.kill
  rw [hbuf] at hintr hnew hroom hkill
  rw [kptyMwriteCanon, h.memory, hbuf]
  refine @canonLoop_controls call.stack [] controls text ending _ self d _ hshows hcontrol
    hordinary (fun ch hch => hintr ch ?_) hending hnew ?_ hroom (Nat.lt_succ_self _)
  · rw [← append_assoc]
    exact mem_append_left _ hch
  · intro hecho i hget hline
    have hlt : i < controls.length := (List.getElem?_eq_some_iff.1 hget).1
    have := hkill hecho i (by rw [getElem?_append_left hlt, hget])
      (by rwa [take_append_of_le_length (Nat.le_of_lt hlt)])
    simpa using this

/-- `kpty_init` with a line buffer of `maxsize` bytes, for a terminal in canonical mode. -/
def kptyInit (ios : Termios) (maxsize : Nat) : Kpty where
  tyS2m := []
  tyM2s := []
  tyCanon := krawbufInitEx maxsize
  tyIos := ios
  tyFproc := false
  interrupts := 0
  terminations := 0

/-- Calls one after the other, as long as they succeed. -/
def kptyMwrites (self : Kpty) : List Call → Option Kpty
  | [] => some self
  | call :: calls =>
    match kptyMwriteCanon call.nomem call.stack self call.buf with
    | some (.keOk, self') => kptyMwrites self' calls
    | _ => none

/-- All calls are orderly, each from the line that is there when it comes. -/
def AllOrderly (ios : Termios) (maxsize : Nat) (d : Discipline) : List Call → Prop
  | [] => True
  | call :: calls => Orderly ios maxsize d call ∧
      AllOrderly ios maxsize (call.buf.foldl (Discipline.type ios) d) calls

theorem kptyMwrites_orderly {ios : Termios} {maxsize : Nat} {calls : List Call} {self : Kpty}
    {d : Discipline} (hshows : Shows self d) (hios : self.tyIos = ios)
    (hmax : self.tyCanon.rbMaxsize = maxsize) (h : AllOrderly ios maxsize d calls)
    (hintr : ∀ ch ∈ calls.flatMap Call.buf, ch ≠ ios.vintr ∧ ch ≠ ios.vquit) :
    ∃ self', kptyMwrites self calls = some self' ∧
      Shows self' ((calls.flatMap Call.buf).foldl (Discipline.type ios) d) := by
  induction calls generalizing self d with
  | nil => exact ⟨self, rfl, hshows⟩
  | cons call calls ih =>
    subst hios hmax
    rw [flatMap_cons] at hintr ⊢
    obtain ⟨self1, hcall, hsame, hshows1⟩ := kptyMwriteCanon_orderly hshows h.1
      fun ch hch => hintr ch (mem_append_left _ hch)
    obtain ⟨self', hrest, hshows'⟩ := ih hshows1 hsame.ios hsame.maxsize h.2
      fun ch hch => hintr ch (mem_append_right _ hch)
    refine ⟨self', ?_, ?_⟩
    · rw [kptyMwrites, hcall]
      exact hrest
    · rw [foldl_append]
      exact hshows'

/-- **The slave reads the completed lines of what was typed**, however it was split into orderly
calls. -/
theorem kpty_mwrite_lines {ios : Termios} {maxsize : Nat} {calls : List Call}
    (h : AllOrderly ios maxsize ⟨[], []⟩ calls)
    (hintr : ∀ ch ∈ calls.flatMap Call.buf, ch ≠ ios.vintr ∧ ch ≠ ios.vquit) :
    ∃ self', kptyMwrites (kptyInit ios maxsize) calls = some self' ∧
      self'.tyM2s = ((calls.flatMap Call.buf).foldl (Discipline.type ios) ⟨[], []⟩).ready := by
  obtain ⟨self', hrun, hshows⟩ := kptyMwrites_orderly
    (show Shows (kptyInit ios maxsize) ⟨[], []⟩ from ⟨rfl, rfl, rfl, Nat.zero_le _⟩) rfl rfl h hintr
  exact ⟨self', hrun, hshows.ready⟩

/-- The characters that `kpty_init` sets, with echo. -/
def defaultIos : Termios where
  echo := true
  onlcr := false
  vkill := 21
  verase := 8
  vintr := 3
  vquit := 28
  veof := 4

/-- A call with memory, and with uninitialised variables that do no harm. -/
def plainCall (buf : List Byte) : Call := ⟨buf, false, ⟨buf.length + 1, fun _ => false⟩⟩

/-- The theorem at `ax`, an erase character, and a line feed in three calls. -/
theorem kpty_mwrite_lines_erase :
    ∃ self', kptyMwrites (kptyInit defaultIos 4096)
        [plainCall [97, 120], plainCall [8, 98], plainCall [10]] = some self' ∧
      self'.tyM2s = [97, 98, 10] := by
  have hnew : ∀ buf : List Byte, (plainCall buf).stack.newCanonStart ≠ (plainCall buf).buf.length :=
    fun buf => Nat.succ_ne_self buf.length
  exact kpty_mwrite_lines
    ⟨⟨⟨[], [97, 120], [], rfl, by decide, by decide, .inl rfl, fun _ _ => hnew _⟩,
        fun _ _ _ _ => rfl, rfl, by decide⟩,
      ⟨⟨[8], [98], [], rfl, by decide, by decide, .inl rfl, fun _ _ => hnew _⟩,
        fun _ _ _ _ => rfl, rfl, by decide⟩,
      ⟨⟨[], [], [10], rfl, by decide, by decide, .inr rfl, fun _ _ => hnew _⟩,
        fun _ _ _ _ => rfl, rfl, by decide⟩, trivial⟩
    (by decide)

/-- **A second line in one call makes the slave read the first one twice**, and an erase
character behind the text that it should erase is lost. -/
theorem kpty_mwrite_repeats_line :
    (kptyMwrites (kptyInit defaultIos 4096) [plainCall [97, 10, 98, 10]]).map Kpty.tyM2s =
        some [97, 10, 97, 10, 98, 10] ∧
      ([97, 10, 98, 10].foldl (Discipline.type defaultIos) ⟨[], []⟩).ready = [97, 10, 98, 10] ∧
      (kptyMwrites (kptyInit defaultIos 4096) [plainCall [97, 98, 8, 10]]).map Kpty.tyM2s =
        some [97, 98, 10] ∧
      ([97, 98, 8, 10].foldl (Discipline.type defaultIos) ⟨[], []⟩).ready = [97, 10] := by
  decide

end KosKernel.Pty
