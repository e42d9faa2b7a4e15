import Aesd.Server.Visit

/-!
# Timestamps between the lines

The build without the device: `OUTPUT_FILE` is a regular file, and every ten seconds a
`timer_thread` adds a timestamp to it.  Calls may fail here in any way.

A client's thread closes its append stream before it gives the mutex back, so what it writes is in
the file by then.  A `timer_thread` does it the other way round: it gives the mutex back and closes
the stream afterwards, and what the stream still has in its buffer is written without the mutex.
`TimerFlushed` says of an event that this is not about to happen, and `Guarded.run` says what holds
of every run of such events: only the owner of the mutex adds to the file, so the bytes of a client
are together, and nothing is added while a client reads.
-/

set_option autoImplicit false

namespace Aesd

variable {ι τ : Type}

/-- The threads of the build without the device. -/
abbrev FileWorld (ι τ : Type) : Type := World (regularFile (ι ⊕ τ))

/-- The events of the build without the device. -/
abbrev FileLabel (ι τ : Type) : Type := Label (regularFile (ι ⊕ τ))

/-- The bytes of the file, each with the thread that added it. -/
def World.content (w : FileWorld ι τ) : List ((ι ⊕ τ) × Byte) := w.file

/-- If a `timer_thread` gives the mutex back, its stream has nothing left to write. -/
def TimerFlushed (w : FileWorld ι τ) : FileLabel ι τ → Bool
  | .timerRet j .ok => decide ((w.timer j).thread.pc = .unlock → (w.timer j).out = [])
  | _ => true

/-- The bytes of a thread, as they stand in the file. -/
def bytesOf (who : ι ⊕ τ) (bs : List Byte) : List ((ι ⊕ τ) × Byte) := bs.map (Prod.mk who)

/-! ## What a call of a client does -/

/-- The thread is writing its line. -/
def Pc.writing : Pc → Bool
  | .fwrite | .fcloseAppend => true
  | _ => false

/-- The thread has written its line and holds the mutex. -/
def Pc.appended : Pc → Bool
  | .fopenRead | .ioctl | .getline | .send | .freeGetline | .unlock => true
  | _ => false

namespace SockThread

variable {build : Build} {t t' : SockThread} {o : Outcome}

/-- The ways of a client thread, whether its calls succeed or not. -/
inductive Moves (t : SockThread) (o : Outcome) (t' : SockThread) : Prop
  /-- It is still before the lock, or never takes it. -/
  | before (h : t.pc.waiting = true) (h' : t'.pc.waiting = true ∨ t'.pc.leaving = true)
  /-- It takes the mutex. -/
  | lock (h : t.pc = .lock) (ho : o = .ok) (h' : t'.pc = .fwrite ∨ t'.pc = .fopenRead)
      (hline : t'.line = t.line)
  /-- `fwrite` returns. -/
  | fwrite (h : t.pc = .fwrite) (h' : t'.pc = .fcloseAppend) (hline : t'.line = t.line)
  /-- The append stream is closed. -/
  | fcloseAppend (h : t.pc = .fcloseAppend) (h' : t'.pc = .fopenRead) (hline : t'.line = t.line)
  /-- It reads and sends the file. -/
  | inside (h : t.pc.appended = true) (h' : t'.pc.appended = true) (hline : t'.line = t.line)
  /-- It leaves. -/
  | leave (h : t.pc = .unlock ∨ t.pc.leaving = true) (h' : t'.pc.leaving = true)
      (hline : t'.line = t.line)

theorem moves_of_step (h : t.step build o = some t') : t.Moves o t' := by
  cases hpc : t.pc <;> cases o <;> simp only [step, hpc, reduceCtorEq, Option.some.injEq] at h
  case recv.bytes bs =>
    obtain ⟨-, rfl⟩ := Option.ite_some_none_eq_some.mp h
    obtain ⟨-, (h' | h' | h') | ⟨h', -⟩ | ⟨h', -⟩⟩ := control_received build t hpc bs <;>
      exact .before (by rw [hpc]; rfl) (.inl (by rw [h']; rfl))
  case realloc.ok =>
    obtain ⟨-, rfl⟩ := Option.ite_some_none_eq_some.mp h
    exact .before (by rw [hpc]; rfl) (.inl rfl)
  case lock.ok =>
    subst h
    refine .lock hpc rfl ?_ rfl
    dsimp only
    split
    · exact .inr rfl
    · exact .inl rfl
  case fwrite.count n =>
    obtain ⟨-, rfl⟩ := Option.ite_some_none_eq_some.mp h
    exact .fwrite hpc rfl rfl
  case fwrite.short n e =>
    obtain ⟨-, rfl⟩ := Option.ite_some_none_eq_some.mp h
    exact .fwrite hpc rfl rfl
  case fcloseAppend.ok | fcloseAppend.fail =>
    subst h
    exact .fcloseAppend hpc rfl rfl
  case fopenRead.ok =>
    subst h
    refine .inside (by rw [hpc]; rfl) ?_ rfl
    dsimp only
    split <;> rfl
  case getline.bytes bs =>
    split at h <;> cases h <;> exact .inside (by rw [hpc]; rfl) rfl rfl
  case send.count n =>
    obtain ⟨-, rfl⟩ := Option.ite_some_none_eq_some.mp h
    refine .inside (by rw [hpc]; rfl) ?_ rfl
    rcases control_sendLoop t (t.bytesLeft - n) (t.advance n) with h' | h' <;> rw [h'] <;> rfl
  case send.fail e =>
    subst h
    refine .inside (by rw [hpc]; rfl) ?_ rfl
    rcases control_sendLoop t (sizeT (t.bytesLeft + 1)) (sizeT (t.sendOffset - 1)) with h' | h' <;>
      rw [h'] <;> rfl
  all_goals subst h
  case printf.ok | printf.fail =>
    rcases control_lineRead build t t.line with ⟨h', -⟩ | ⟨h', -⟩ <;>
      exact .before (by rw [hpc]; rfl) (.inl (by simp only [h']; rfl))
  case unlock.ok | unlock.fail => exact .leave (.inl hpc) rfl rfl
  case fclose.ok | fclose.fail | free.ok | close.ok | close.fail | finish.ok =>
    exact .leave (.inr (by rw [hpc]; rfl)) rfl rfl
  case malloc.ok | realloc.fail | fopenAppend.ok | recv.fail =>
    exact .before (by rw [hpc]; rfl) (.inl rfl)
  case malloc.fail | freeBuf.ok | fopenAppend.fail | lock.fail =>
    exact .before (by rw [hpc]; rfl) (.inr rfl)
  all_goals exact .inside (by rw [hpc]; rfl) rfl rfl

end SockThread

/-! ## A client -/

namespace Pc

variable {pc : Pc}

theorem critical_of_writing (h : pc.writing = true) : pc.critical = true := by
  cases pc <;> first | rfl | cases h

theorem critical_of_appended (h : pc.appended = true) : pc.critical = true := by
  cases pc <;> first | rfl | cases h

theorem not_writing_of_appended (h : pc.appended = true) : pc.writing = false := by
  cases pc <;> first | rfl | cases h

theorem not_critical_of_waiting (h : pc.waiting = true) : pc.critical = false := by
  cases pc <;> first | rfl | cases h

theorem not_critical_of_leaving (h : pc.leaving = true) : pc.critical = false := by
  cases pc <;> first | rfl | cases h

theorem not_waiting_of_critical (h : pc.critical = true) : pc.waiting = false := by
  cases pc <;> first | rfl | cases h

theorem not_waiting_of_leaving (h : pc.leaving = true) : pc.waiting = false := by
  cases pc <;> first | rfl | cases h

theorem not_writing_of_leaving (h : pc.leaving = true) : pc.writing = false := by
  cases pc <;> first | rfl | cases h

theorem not_writing_of_waiting (h : pc.waiting = true) : pc.writing = false := by
  cases pc <;> first | rfl | cases h

end Pc

/-- What a client has written is the beginning of its line. -/
structure Client.Part (c : Client) : Prop where
  /-- Nothing before it has the mutex. -/
  waiting : c.thread.pc.waiting = true → c.written = []
  /-- While it writes, the buffer has what follows. -/
  writing : c.thread.pc.writing = true → c.written ++ c.out <+: c.thread.line
  /-- At any time a part of the line. -/
  inside : c.written <+: c.thread.line

namespace Client

variable {build : Build} {c c' : Client} {o : Outcome}

theorem part_init (stream : List Byte) (errno : ℤ) : (Client.init stream errno).Part :=
  ⟨fun _ ↦ rfl, fun h ↦ (by cases h), List.nil_prefix⟩

/-- The call returns to the thread, and nothing is written. -/
theorem step_of_ret (h : c.ret build o = some c') :
    c.thread.step build o = some c'.thread ∧ c'.written = c.written := by
  rw [ret] at h
  split at h
  · exact absurd h (by simp)
  · rename_i t hstep
    rw [hstep]
    repeat' split at h
    all_goals first | (cases h; exact ⟨rfl, rfl⟩) | cases h

/-- A call neither takes the mutex nor begins to write, unless it is the lock. -/
theorem stages_of_moves {t t' : SockThread} (h : t.Moves o t') (hlock : ¬(t.pc = .lock ∧ o = .ok)) :
    (t'.pc.critical = true → t.pc.critical = true) ∧
      (t'.pc.writing = true → t.pc.writing = true) := by
  cases h with
  | before h h' =>
    rcases h' with h' | h'
    · simp [Pc.not_critical_of_waiting h', Pc.not_writing_of_waiting h']
    · simp [Pc.not_critical_of_leaving h', Pc.not_writing_of_leaving h']
  | lock h ho => exact absurd ⟨h, ho⟩ hlock
  | fwrite h => simp [h, Pc.critical, Pc.writing]
  | fcloseAppend h => simp [h, Pc.critical, Pc.writing]
  | inside h h' => simp [Pc.critical_of_appended h, Pc.not_writing_of_appended h']
  | leave h h' => simp [Pc.not_critical_of_leaving h', Pc.not_writing_of_leaving h']

/-- A short `fwrite` leaves less in the buffer, any other leaves all. -/
theorem out_prefix_of_ret (hpc : c.thread.pc = .fwrite) (h : c.ret build o = some c') :
    c'.out <+: c.out := by
  cases o <;> simp only [ret, SockThread.step, hpc, reduceCtorEq] at h
  case count n =>
    split at h
    · exact absurd h (by simp)
    · obtain rfl := Option.some.inj h
      exact List.prefix_refl _
  case short n e =>
    split at h
    · exact absurd h (by simp)
    · obtain ⟨-, rfl⟩ := Option.ite_some_none_eq_some.mp h
      exact List.take_prefix ..

theorem Part.of_stays (h : c.Part) (hwait : c'.thread.pc.waiting = false)
    (hwrite : c'.thread.pc.writing = false) (hline : c'.thread.line = c.thread.line)
    (hwritten : c'.written = c.written) : c'.Part := by
  refine ⟨?_, ?_, ?_⟩
  · intro hw
    rw [hwait] at hw
    exact absurd hw (by simp)
  · intro hw
    rw [hwrite] at hw
    exact absurd hw (by simp)
  · rw [hline, hwritten]
    exact h.inside

theorem Part.moves (h : c.Part) (hm : c.thread.Moves o c'.thread)
    (hlock : ¬(c.thread.pc = .lock ∧ o = .ok)) (hfwrite : c.thread.pc = .fwrite → c'.out <+: c.out)
    (hwritten : c'.written = c.written) : c'.Part := by
  cases hm with
  | lock hl ho => exact absurd ⟨hl, ho⟩ hlock
  | before hw hw' =>
    have hnil : c'.written = [] := hwritten.trans (h.waiting hw)
    refine ⟨fun _ ↦ hnil, ?_, hnil ▸ List.nil_prefix⟩
    intro hwrite
    rcases hw' with hw' | hw'
    · rw [Pc.not_writing_of_waiting hw'] at hwrite
      exact absurd hwrite (by simp)
    · rw [Pc.not_writing_of_leaving hw'] at hwrite
      exact absurd hwrite (by simp)
  | fcloseAppend hpc hpc' hline =>
    exact h.of_stays (by rw [hpc']; rfl) (by rw [hpc']; rfl) hline hwritten
  | inside hpc hpc' hline =>
    exact h.of_stays (Pc.not_waiting_of_critical (Pc.critical_of_appended hpc'))
      (Pc.not_writing_of_appended hpc') hline hwritten
  | leave hpc hpc' hline =>
    exact h.of_stays (Pc.not_waiting_of_leaving hpc') (Pc.not_writing_of_leaving hpc') hline
      hwritten
  | fwrite hpc hpc' hline =>
    have hpre := h.writing (by rw [hpc]; rfl)
    refine ⟨?_, ?_, ?_⟩
    · intro hw
      rw [hpc'] at hw
      cases hw
    · intro _
      rw [hwritten, hline]
      exact ((List.prefix_append_right_inj _).mpr (hfwrite hpc)).trans hpre
    · rw [hwritten, hline]
      exact h.inside

theorem Part.ret (h : c.Part) (hret : c.ret build o = some c')
    (hlock : ¬(c.thread.pc = .lock ∧ o = .ok)) : c'.Part := by
  obtain ⟨hstep, hwritten⟩ := step_of_ret hret
  exact h.moves (SockThread.moves_of_step hstep) hlock (fun hpc ↦ out_prefix_of_ret hpc hret)
    hwritten

theorem Part.locked (h : c.Part) (hpc : c.thread.pc = .lock) : c.locked.Part := by
  have hnil : c.locked.written = [] := h.waiting (by rw [hpc]; rfl)
  refine ⟨fun _ ↦ hnil, ?_, hnil ▸ List.nil_prefix⟩
  intro hw
  rw [hnil, List.nil_append]
  rw [Client.locked] at hw ⊢
  dsimp only at hw ⊢
  split at hw
  · cases hw
  · rename_i hctrl
    rw [if_neg hctrl, if_pos rfl]

theorem ret_lock (hpc : c.thread.pc = .lock) (h : c.ret build .ok = some c') : c' = c.locked := by
  simp only [ret, SockThread.step, hpc, Option.some.injEq] at h
  exact h.symm

end Client

/-! ## A timer -/

/-- The thread holds the mutex. -/
def TimerPc.critical : TimerPc → Bool
  | .strftime | .fwrite | .unlock => true
  | _ => false

/-- The thread holds the mutex, or should: it has something to write. -/
def Timer.Busy (c : Timer) : Prop := c.thread.pc.critical = true ∨ c.out ≠ []

namespace Timer

variable {c c' : Timer} {o : Outcome}

/-- Only the lock makes a thread busy. -/
theorem busy_of_ret (h : c.ret o = some c') (hlock : ¬(c.thread.pc = .lock ∧ o = .ok))
    (hb : c'.Busy) : c.Busy := by
  cases hpc : c.thread.pc <;> try exact .inl (by rw [hpc]; rfl)
  all_goals cases o <;> simp only [ret, TimerThread.step, hpc, reduceCtorEq] at h
  case lock.ok => exact absurd ⟨hpc, rfl⟩ hlock
  case fclose.ok =>
    obtain ⟨-, rfl⟩ := Option.ite_some_none_eq_some.mp h
    exact .inr (hb.resolve_left Bool.false_ne_true)
  case fclose.fail =>
    obtain rfl := Option.some.inj h
    exact absurd rfl (hb.resolve_left Bool.false_ne_true)
  all_goals
    obtain rfl := Option.some.inj h
    exact .inr (hb.resolve_left Bool.false_ne_true)

end Timer

/-! ## The invariant -/

/-- The bytes of a client are together in the file. -/
structure Together (file : List ((ι ⊕ τ) × Byte)) (i : ι) (c : Client)
    (before after : List ((ι ⊕ τ) × Byte)) : Prop where
  /-- They are what the client has written. -/
  file_eq : file = before ++ bytesOf (.inl i) c.written ++ after
  /-- There are no others of it before. -/
  before_ne : ∀ x ∈ before, x.1 ≠ .inl i
  /-- Nor after. -/
  after_ne : ∀ x ∈ after, x.1 ≠ .inl i

/-- **The mutex guards the file.** -/
structure Guarded (w : FileWorld ι τ) : Prop where
  /-- A client past the lock holds the mutex. -/
  clients : ∀ i, (w.client i).thread.pc.critical = true → w.owner = some (.inl i)
  /-- So does a timer, as long as it has something to write. -/
  timers : ∀ j, (w.timer j).Busy → w.owner = some (.inr j)
  /-- What a client has written is a part of its line. -/
  parts : ∀ i, (w.client i).Part
  /-- It is together, and at the end of the file while the client writes. -/
  blocks : ∀ i, ∃ before after, Together w.content i (w.client i) before after ∧
    ((w.client i).thread.pc.writing = true → after = [])

theorem bytesOf_append (who : ι ⊕ τ) (a b : List Byte) :
    bytesOf who (a ++ b) = bytesOf who a ++ bytesOf who b := List.map_append

theorem fst_of_mem_bytesOf {who : ι ⊕ τ} {bs : List Byte} {x : (ι ⊕ τ) × Byte}
    (h : x ∈ bytesOf who bs) : x.1 = who := by
  obtain ⟨b, -, rfl⟩ := List.mem_map.mp h
  rfl

theorem guarded_init {file : List ((ι ⊕ τ) × Byte)} (hfile : ∀ x ∈ file, ∀ i, x.1 ≠ .inl i)
    (stream : ι → List Byte) (errno : ι → ℤ) :
    Guarded (World.init (regularFile (ι ⊕ τ)) file stream errno) where
  clients i h := by cases h
  timers j h := by
    rcases h with h | h
    · cases h
    · exact absurd rfl h
  parts i := Client.part_init (stream i) (errno i)
  blocks i := by
    refine ⟨file, [], ⟨?_, fun x hx ↦ hfile x hx i, fun x hx ↦ by cases hx⟩, fun _ ↦ rfl⟩
    show file = file ++ [] ++ []
    simp

section Step

variable {w w' : FileWorld ι τ} {l : FileLabel ι τ}

/-- Bytes of another thread may follow. -/
theorem Together.append {file : List ((ι ⊕ τ) × Byte)} {i : ι} {c : Client}
    {before after : List ((ι ⊕ τ) × Byte)} (h : Together file i c before after) {who : ι ⊕ τ}
    (hne : who ≠ .inl i) (bs : List Byte) :
    Together (file ++ bytesOf who bs) i c before (after ++ bytesOf who bs) := by
  refine ⟨?_, h.before_ne, ?_⟩
  · conv_lhs => rw [h.file_eq]
    rw [List.append_assoc, List.append_assoc]
  · intro x hx
    rcases List.mem_append.mp hx with hx | hx
    · exact h.after_ne x hx
    · rw [fst_of_mem_bytesOf hx]
      exact hne

/-- Own bytes can be added at the end. -/
theorem Together.extend {file : List ((ι ⊕ τ) × Byte)} {i : ι} {c : Client}
    {before : List ((ι ⊕ τ) × Byte)} (h : Together file i c before []) {c' : Client}
    {bs : List Byte}
    (hw : c'.written = c.written ++ bs) :
    Together (file ++ bytesOf (.inl i) bs) i c' before [] := by
  refine ⟨?_, h.before_ne, h.after_ne⟩
  conv_lhs => rw [h.file_eq]
  rw [hw, bytesOf_append]
  simp

/-- A client changes that does not take the mutex, nor writes to the file. -/
theorem Guarded.setClient [DecidableEq ι] (h : Guarded w) (i : ι) {c : Client}
    (hcrit : c.thread.pc.critical = true → (w.client i).thread.pc.critical = true)
    (hwrite : c.thread.pc.writing = true → (w.client i).thread.pc.writing = true)
    (hwritten : c.written = (w.client i).written) (hpart : c.Part) : Guarded (w.setClient i c) where
  clients := (Function.forall_update_iff w.client fun j c ↦
    c.thread.pc.critical = true → w.owner = some (.inl j)).mpr
      ⟨fun hc ↦ h.clients i (hcrit hc), fun j _ ↦ h.clients j⟩
  timers := h.timers
  parts := (Function.forall_update_iff w.client fun _ c ↦ c.Part).mpr ⟨hpart, fun j _ ↦ h.parts j⟩
  blocks := (Function.forall_update_iff w.client fun j c ↦
    ∃ before after, Together w.content j c before after ∧
      (c.thread.pc.writing = true → after = [])).mpr <| by
    refine ⟨?_, fun j _ ↦ h.blocks j⟩
    obtain ⟨before, after, hto, hend⟩ := h.blocks i
    refine ⟨before, after, ⟨?_, hto.before_ne, hto.after_ne⟩, fun hw ↦ hend (hwrite hw)⟩
    rw [hwritten]
    exact hto.file_eq

theorem Guarded.setTimer [DecidableEq τ] (h : Guarded w) (j : τ) {c : Timer}
    (hbusy : c.Busy → (w.timer j).Busy) : Guarded (w.setTimer j c) where
  clients := h.clients
  timers := (Function.forall_update_iff w.timer fun k c ↦ c.Busy → w.owner = some (.inr k)).mpr
    ⟨fun hb ↦ h.timers j (hbusy hb), fun k _ ↦ h.timers k⟩
  parts := h.parts
  blocks := h.blocks

/-! ## The mutex changes hands -/

/-- Nobody is past the lock when the mutex is free. -/
theorem Guarded.idle (h : Guarded w) (hfree : w.owner = none) :
    (∀ i, (w.client i).thread.pc.critical = false) ∧ ∀ j, ¬(w.timer j).Busy := by
  refine ⟨fun i ↦ Bool.eq_false_iff.mpr ?_, ?_⟩
  · intro hc
    rw [h.clients i hc] at hfree
    exact absurd hfree (by simp)
  · intro j hb
    rw [h.timers j hb] at hfree
    exact absurd hfree (by simp)

/-- When it has been given back by whoever is no longer past the lock, nobody is. -/
theorem Guarded.alone (h : Guarded w) {who : ι ⊕ τ} (hheld : w.owner = some who) :
    (∀ i, Sum.inl i ≠ who → (w.client i).thread.pc.critical = false) ∧
      ∀ j, Sum.inr j ≠ who → ¬(w.timer j).Busy := by
  refine ⟨fun i hne ↦ Bool.eq_false_iff.mpr fun hc ↦ hne ?_, fun j hne hb ↦ hne ?_⟩
  · exact Option.some.inj ((h.clients i hc).symm.trans hheld)
  · exact Option.some.inj ((h.timers j hb).symm.trans hheld)

theorem Guarded.not_writing (h : Guarded w) {who : ι ⊕ τ} (hheld : w.owner = some who) {i : ι}
    (hne : Sum.inl i ≠ who) : (w.client i).thread.pc.writing = false := by
  refine Bool.eq_false_iff.mpr ?_
  intro hw
  have hnot := (h.alone hheld).1 i hne
  rw [Pc.critical_of_writing hw] at hnot
  exact absurd hnot (by simp)

theorem Guarded.lock [DecidableEq ι] (h : Guarded w) {i : ι}
    (hpc : (w.client i).thread.pc = .lock) (hfree : w.owner = none) :
    Guarded ({ (w.setClient i (w.client i).locked) with
      owner := some (.inl i), order := w.order ++ [i] } : FileWorld ι τ) where
  clients := (Function.forall_update_iff w.client fun j c ↦
    c.thread.pc.critical = true → some (.inl i) = some (Sum.inl j)).mpr
      ⟨fun _ ↦ rfl, fun j _ hc ↦ absurd hc (by simp [(h.idle hfree).1 j])⟩
  timers j hb := absurd hb ((h.idle hfree).2 j)
  parts := (Function.forall_update_iff w.client fun _ c ↦ c.Part).mpr
    ⟨(h.parts i).locked hpc, fun j _ ↦ h.parts j⟩
  blocks := (Function.forall_update_iff w.client fun j c ↦
    ∃ before after, Together w.content j c before after ∧
      (c.thread.pc.writing = true → after = [])).mpr <| by
    refine ⟨?_, fun j _ ↦ h.blocks j⟩
    -- nothing has been written, so all of the file is before it
    have hnil : (w.client i).written = [] := (h.parts i).waiting (by rw [hpc]; rfl)
    obtain ⟨before, after, hto, -⟩ := h.blocks i
    have hfile := hto.file_eq
    rw [hnil] at hfile
    refine ⟨w.content, [], ⟨?_, ?_, fun x hx ↦ by cases hx⟩, fun _ ↦ rfl⟩
    · rw [show (w.client i).locked.written = [] from hnil]
      show w.content = w.content ++ [] ++ []
      simp
    · intro x hx
      rw [hfile] at hx
      simp only [bytesOf, List.map_nil, List.append_nil, List.mem_append] at hx
      rcases hx with hx | hx
      · exact hto.before_ne x hx
      · exact hto.after_ne x hx

theorem Guarded.unlock [DecidableEq ι] (h : Guarded w) {i : ι} {c : Client}
    (hpc : (w.client i).thread.pc = .unlock) (hheld : w.owner = some (.inl i))
    (hret : (w.client i).ret .file .ok = some c) :
    Guarded ({ (w.setClient i c) with owner := none } : FileWorld ι τ) := by
  have hc : c.thread.pc = .fclose := by
    obtain ⟨hstep, -⟩ := Client.step_of_ret hret
    simp only [SockThread.step, hpc, Option.some.injEq] at hstep
    rw [← hstep]
  have hset := h.setClient i (c := c) (fun hcrit ↦ by rw [hc] at hcrit; cases hcrit)
    (fun hwrite ↦ by rw [hc] at hwrite; cases hwrite) (Client.step_of_ret hret).2
    ((h.parts i).ret hret fun hl ↦ by rw [hpc] at hl; cases hl.1)
  refine ⟨?_, fun j hb ↦ absurd hb ((h.alone hheld).2 j (by simp)), hset.parts, hset.blocks⟩
  exact (Function.forall_update_iff w.client fun j c ↦
    c.thread.pc.critical = true → none = some (Sum.inl j)).mpr
      ⟨fun hcrit ↦ absurd hcrit (by simp [hc, Pc.critical]), fun j hne hcrit ↦
        absurd hcrit (by simp [(h.alone hheld).1 j (by simpa using hne)])⟩

theorem Guarded.timerLock [DecidableEq τ] (h : Guarded w) {j : τ} (c : Timer)
    (hfree : w.owner = none) :
    Guarded ({ (w.setTimer j c) with owner := some (.inr j) } : FileWorld ι τ) where
  clients i hc := absurd hc (by
    show ¬(w.client i).thread.pc.critical = true
    simp [(h.idle hfree).1 i])
  timers := (Function.forall_update_iff w.timer fun k c ↦
    c.Busy → some (.inr j) = some (Sum.inr k)).mpr
      ⟨fun _ ↦ rfl, fun k _ hb ↦ absurd hb ((h.idle hfree).2 k)⟩
  parts := h.parts
  blocks := h.blocks

theorem Guarded.timerUnlock [DecidableEq τ] (h : Guarded w) {j : τ} {c : Timer}
    (hheld : w.owner = some (.inr j)) (hidle : ¬c.Busy) :
    Guarded ({ (w.setTimer j c) with owner := none } : FileWorld ι τ) where
  clients i hc := absurd hc (by
    show ¬(w.client i).thread.pc.critical = true
    simp [(h.alone hheld).1 i])
  timers := (Function.forall_update_iff w.timer fun k c ↦ c.Busy → none = some (Sum.inr k)).mpr
    ⟨fun hb ↦ absurd hb hidle, fun k hne hb ↦ absurd hb ((h.alone hheld).2 k (by simpa using hne))⟩
  parts := h.parts
  blocks := h.blocks

/-! ## Writing -/

theorem Guarded.flush [DecidableEq ι] (h : Guarded w) {i : ι} {n : ℕ}
    (hwrite : (w.client i).thread.pc.writing = true) :
    Guarded ({ (w.setClient i { w.client i with
        out := (w.client i).out.drop n
        written := (w.client i).written ++ (w.client i).out.take n }) with
      file := w.content ++ bytesOf (.inl i) ((w.client i).out.take n) } : FileWorld ι τ) where
  clients := (Function.forall_update_iff w.client fun j c ↦
    c.thread.pc.critical = true → w.owner = some (.inl j)).mpr
      ⟨h.clients i, fun j _ ↦ h.clients j⟩
  timers := h.timers
  parts := (Function.forall_update_iff w.client fun _ c ↦ c.Part).mpr <| by
    have hpre := (h.parts i).writing hwrite
    refine ⟨⟨?_, ?_, ?_⟩, fun j _ ↦ h.parts j⟩
    · intro hw
      have hnot := Pc.not_waiting_of_critical (Pc.critical_of_writing hwrite)
      rw [show (w.client i).thread.pc.waiting = true from hw] at hnot
      exact absurd hnot (by simp)
    · intro _
      show (w.client i).written ++ (w.client i).out.take n ++ (w.client i).out.drop n <+: _
      rw [List.append_assoc, List.take_append_drop]
      exact hpre
    · exact ((List.prefix_append_right_inj _).mpr (List.take_prefix ..)).trans hpre
  blocks := (Function.forall_update_iff w.client fun j c ↦
    ∃ before after,
      Together (w.content ++ bytesOf (.inl i) ((w.client i).out.take n)) j c before after ∧
      (c.thread.pc.writing = true → after = [])).mpr <| by
    have hown := h.clients i (Pc.critical_of_writing hwrite)
    refine ⟨?_, ?_⟩
    · obtain ⟨before, after, hto, hend⟩ := h.blocks i
      rw [hend hwrite] at hto
      exact ⟨before, [], hto.extend rfl, fun _ ↦ rfl⟩
    · intro j hne
      obtain ⟨before, after, hto, -⟩ := h.blocks j
      refine ⟨before, _, hto.append (by simpa using Ne.symm hne) _, ?_⟩
      intro hw
      rw [h.not_writing hown (by simpa using hne)] at hw
      exact absurd hw (by simp)

theorem Guarded.timerFlush [DecidableEq τ] (h : Guarded w) {j : τ} {n : ℕ}
    (hout : (w.timer j).out ≠ []) :
    Guarded ({ (w.setTimer j { w.timer j with
        out := (w.timer j).out.drop n
        written := (w.timer j).written ++ (w.timer j).out.take n }) with
      file := w.content ++ bytesOf (.inr j) ((w.timer j).out.take n) } : FileWorld ι τ) := by
  have hown := h.timers j (.inr hout)
  refine ⟨h.clients, ?_, h.parts, ?_⟩
  · exact (Function.forall_update_iff w.timer fun k c ↦ c.Busy → w.owner = some (.inr k)).mpr
      ⟨fun _ ↦ hown, fun k _ ↦ h.timers k⟩
  · intro i
    obtain ⟨before, after, hto, -⟩ := h.blocks i
    refine ⟨before, _, hto.append (by simp) _, fun hw : (w.client i).thread.pc.writing = true ↦ ?_⟩
    rw [h.not_writing hown (by simp)] at hw
    exact absurd hw (by simp)

/-! ## Every run -/

variable [DecidableEq ι] [DecidableEq τ]

/-- **One event.** -/
theorem Guarded.step (h : Guarded w) (hl : TimerFlushed w l = true) (hs : w.Step l w') :
    Guarded w' := by
  cases hs with
  | ret i o c hret hlock hunlock =>
    obtain ⟨hstep, hwritten⟩ := Client.step_of_ret hret
    obtain ⟨hcrit, hwrite⟩ := Client.stages_of_moves (SockThread.moves_of_step hstep) hlock
    exact h.setClient i hcrit hwrite hwritten ((h.parts i).ret hret hlock)
  | lock i c hpc hret hfree =>
    rw [Client.ret_lock hpc hret]
    exact h.lock hpc hfree
  | unlock i c hpc hret hheld => exact h.unlock hpc hheld hret
  | flush i n env file hpc hpos hle hwrite =>
    obtain rfl := Option.some.inj hwrite
    exact h.flush (by rcases hpc with hpc | hpc <;> rw [hpc] <;> rfl)
  | fill i count env data fPos hpc hpos heof hread =>
    exact h.setClient i id id rfl ⟨(h.parts i).waiting, (h.parts i).writing, (h.parts i).inside⟩
  | seek i env t fPos o hpc hctrl ho hstep =>
    have hmoves := SockThread.moves_of_step hstep
    have hlock : ¬((w.client i).thread.pc = .lock ∧ o = .ok) := by
      rw [hpc]
      exact fun hl ↦ by cases hl.1
    obtain ⟨hcrit, hwrite⟩ := Client.stages_of_moves hmoves hlock
    exact h.setClient i hcrit hwrite rfl ((h.parts i).moves hmoves hlock
      (fun hpc' ↦ by simp [hpc] at hpc') rfl)
  | timerRet j o c hret hlock hunlock => exact h.setTimer j (Timer.busy_of_ret hret hlock)
  | timerLock j c hpc hret hfree => exact h.timerLock c hfree
  | timerUnlock j c hpc hret hheld =>
    refine h.timerUnlock hheld ?_
    rw [TimerFlushed, decide_eq_true_eq] at hl
    simp only [Timer.ret, TimerThread.step, hpc, Option.some.injEq] at hret
    subst hret
    rintro (hb | hb)
    · cases hb
    · exact hb (hl hpc)
  | timerFlush j n env file hpc hpos hle hwrite =>
    obtain rfl := Option.some.inj hwrite
    refine h.timerFlush ?_
    intro hnil
    rw [hnil, List.length_nil] at hle
    omega

theorem Guarded.run (h : Guarded w) {ls : List (FileLabel ι τ)}
    (hrun : ls.foldlM (Run.restrict World.step TimerFlushed) w = some w') : Guarded w' := by
  refine Run.foldlM_invariant (I := Guarded) ?_ hrun h
  intro w l w' h hs
  obtain ⟨hl, hs⟩ := Run.restrict_eq_some.mp hs
  exact h.step hl (World.step_cases hs)

/-- Only the owner of the mutex adds to the file. -/
theorem Guarded.owner_of_content_ne (h : Guarded w) (hs : w.step l = some w')
    (hne : w'.content ≠ w.content) : ∃ who bs, w.owner = some who ∧ w'.owner = some who ∧
      w'.content = w.content ++ bytesOf who bs := by
  cases World.step_cases hs with
  | ret | lock | unlock | fill | seek | timerRet | timerLock | timerUnlock => exact absurd rfl hne
  | flush i n env file hpc hpos hle hwrite =>
    obtain rfl := Option.some.inj hwrite
    have hown := h.clients i (by rcases hpc with hpc | hpc <;> rw [hpc] <;> rfl)
    exact ⟨.inl i, _, hown, hown, rfl⟩
  | timerFlush j n env file hpc hpos hle hwrite =>
    obtain rfl := Option.some.inj hwrite
    have hown := h.timers j (.inr fun hnil ↦ by
      rw [hnil, List.length_nil] at hle
      omega)
    exact ⟨.inr j, _, hown, hown, rfl⟩

/-- While a client reads the file, it does not change. -/
theorem Guarded.content_eq (h : Guarded w) {i : ι} (hi : (w.client i).thread.pc.appended = true)
    (hs : w.step l = some w') : w'.content = w.content := by
  by_contra hne
  have hheld := h.clients i (Pc.critical_of_appended hi)
  cases World.step_cases hs with
  | ret | lock | unlock | fill | seek | timerRet | timerLock | timerUnlock => exact hne rfl
  | flush j n env file hpc hpos hle hwrite =>
    have hw : (w.client j).thread.pc.writing = true := by
      rcases hpc with hpc | hpc <;> rw [hpc] <;> rfl
    have hown := h.clients j (Pc.critical_of_writing hw)
    rw [hheld, Option.some_inj, Sum.inl.injEq] at hown
    rw [← hown, Pc.not_writing_of_appended hi] at hw
    exact absurd hw (by simp)
  | timerFlush j n env file hpc hpos hle hwrite =>
    have hown := h.timers j (.inr fun hnil ↦ by
      rw [hnil, List.length_nil] at hle
      omega)
    rw [hheld] at hown
    exact absurd hown (by simp)

end Step

/-! ## Whole lines, when nothing fails -/

/-- What a client has written and has in its buffer is its line. -/
structure Client.Whole (c : Client) : Prop where
  /-- There are no control lines in this build. -/
  plain : c.thread.seekTo = none
  /-- Nothing is written before the client has the mutex. -/
  waiting : c.thread.pc.waiting = true → c.written = []
  /-- While it writes, the rest is in the buffer. -/
  writing : c.thread.pc.writing = true → c.written ++ c.out = c.thread.line
  /-- Then all is written. -/
  appended : c.thread.pc.appended = true → c.written = c.thread.line

theorem SockThread.seekTo_received {t : SockThread} (h : t.seekTo = none) (bs : List Byte) :
    (t.received .file bs).seekTo = none := by
  rcases received_cases .file t bs with ⟨line, heq⟩ | ⟨line, heq⟩ | heq | heq <;> rw [heq]
  · rfl
  · exact h
  · exact h
  · exact h

theorem Client.Whole.proceeds {c c' : Client} (h : c.Whole) (hp : c.Proceeds .file c') :
    c'.Whole := by
  have hseek : c'.thread.seekTo = none := by
    cases hp with
    | recv bs rest hpc hin hend hlen => exact SockThread.seekTo_received h.plain bs
    | printf hpc => rfl
    | _ => exact h.plain
  refine ⟨hseek, fun hw ↦ hp.written_eq.trans (h.waiting (hp.waiting_of hw)), ?_,
    ?_⟩
  · intro hw
    cases hp with
    | fwrite hpc => exact h.writing (by rw [hpc]; rfl)
    | recv bs rest hpc hin hend hlen =>
      obtain ⟨-, (h' | h' | h') | ⟨h', -⟩ | ⟨h', -⟩⟩ :=
        SockThread.control_received .file c.thread hpc bs <;> simp [h', Pc.writing] at hw
    | printf hpc =>
      rcases SockThread.control_lineRead .file c.thread c.thread.line with ⟨h', -⟩ | ⟨h', -⟩ <;>
        simp [h', Pc.writing] at hw
    | send n hpc hpos hle =>
      rcases SockThread.control_sendLoop c.thread (c.thread.bytesLeft - n) (c.thread.advance n)
        with h' | h' <;> simp [h', Pc.writing] at hw
    | fopenRead hpc => simp [h.plain, Pc.writing] at hw
    | _ => cases hw
  · intro ha
    cases hp with
    | fcloseAppend hpc hout =>
      have hline := h.writing (by rw [hpc]; rfl)
      rwa [hout, List.append_nil] at hline
    | recv bs rest hpc hin hend hlen =>
      obtain ⟨-, (h' | h' | h') | ⟨h', -⟩ | ⟨h', -⟩⟩ :=
        SockThread.control_received .file c.thread hpc bs <;> simp [h', Pc.appended] at ha
    | printf hpc =>
      rcases SockThread.control_lineRead .file c.thread c.thread.line with ⟨h', -⟩ | ⟨h', -⟩ <;>
        simp [h', Pc.appended] at ha
    | fopenRead hpc => exact h.appended (by rw [hpc]; rfl)
    | getlineEnd hpc => exact h.appended (by rw [hpc]; rfl)
    | getline bs hpc => exact h.appended (by rw [hpc]; rfl)
    | send n hpc => exact h.appended (by rw [hpc]; rfl)
    | freeGetline e hpc => exact h.appended (by rw [hpc]; rfl)
    | _ => cases ha

theorem Client.Whole.locked {c : Client} (h : c.Whole) (hpc : c.thread.pc = .lock) :
    c.locked.Whole := by
  have hwritten : c.locked.written = [] := h.waiting (by rw [hpc]; rfl)
  have hpc' : c.locked.thread.pc = .fwrite := by simp [Client.locked, h.plain]
  have hout : c.locked.out = c.locked.thread.line := by simp [Client.locked, h.plain]
  refine ⟨h.plain, fun _ ↦ hwritten, ?_, ?_⟩
  · intro _
    rw [hwritten, List.nil_append, hout]
  · intro ha
    rw [hpc'] at ha
    cases ha

section Run

variable [DecidableEq ι] [DecidableEq τ] {w w' : FileWorld ι τ} {l : FileLabel ι τ}

theorem whole_step (h : ∀ i, (w.client i).Whole) (hgood : AllSucceed w l = true)
    (hs : w.Step l w') (i : ι) : (w'.client i).Whole := by
  have hset : ∀ {j c}, c.Whole → ∀ i, (Function.update w.client j c i).Whole := fun {j c} hc ↦
    (Function.forall_update_iff w.client fun _ c ↦ c.Whole).mpr ⟨hc, fun k _ ↦ h k⟩
  cases hs with
  | timerRet | timerLock | timerUnlock | timerFlush => exact h i
  | ret j o c hret hlock hunlock =>
    exact hset ((h j).proceeds (proceeds_of_ret hgood hret hlock hunlock)) i
  | lock j c hpc hret hfree =>
    rw [Client.ret_lock hpc hret]
    exact hset ((h j).locked hpc) i
  | unlock j c hpc hret hheld =>
    simp only [Client.ret, SockThread.step, hpc, Option.some.injEq] at hret
    subst hret
    refine hset ?_ i
    exact ⟨(h j).plain, fun hw ↦ (by cases hw), fun hw ↦ (by cases hw), fun ha ↦ (by cases ha)⟩
  | flush j n env file hpc hpos hle hwrite =>
    have hw : (w.client j).thread.pc.writing = true := by
      rcases hpc with hpc | hpc <;> rw [hpc] <;> rfl
    refine hset ?_ i
    refine ⟨(h j).plain, ?_, ?_, ?_⟩
    · intro hwait
      rw [Pc.not_waiting_of_critical (Pc.critical_of_writing hw)] at hwait
      exact absurd hwait (by simp)
    · intro _
      show (w.client j).written ++ (w.client j).out.take n ++ (w.client j).out.drop n = _
      rw [List.append_assoc, List.take_append_drop]
      exact (h j).writing hw
    · intro ha
      rw [Pc.not_writing_of_appended ha] at hw
      exact absurd hw (by simp)
  | fill j count env data fPos hpc hpos heof hread =>
    refine hset ?_ i
    exact ⟨(h j).plain, (h j).waiting, (h j).writing, (h j).appended⟩
  | seek j env t fPos o hpc hctrl ho hstep =>
    rw [(h j).plain] at hctrl
    exact absurd hctrl (by simp)

theorem whole_run {file : List ((ι ⊕ τ) × Byte)} {stream : ι → List Byte} {errno : ι → ℤ}
    {ls : List (FileLabel ι τ)}
    (hrun : ls.foldlM (Run.restrict World.step AllSucceed)
      (World.init (regularFile (ι ⊕ τ)) file stream errno) = some w) (i : ι) :
    (w.client i).Whole := by
  refine Run.foldlM_invariant (I := fun w : FileWorld ι τ ↦ ∀ i, (w.client i).Whole)
    ?_ hrun (fun i ↦ ⟨rfl, fun _ ↦ rfl, fun hw ↦ (by cases hw), fun ha ↦
      (by cases ha)⟩) i
  intro w l w' h hs
  obtain ⟨hl, hs⟩ := Run.restrict_eq_some.mp hs
  exact whole_step h hl (World.step_cases hs)

/-- **Every interleaving of clients and timers** in which no `timer_thread` gives the mutex back
while its stream still has something to write; otherwise calls may fail in any way.  What the file
holds at the start is not the clients'.

* Whatever is added to the file next is added by the thread that holds the mutex.
* The bytes a client has written are together in the file, with those of nobody else between them,
  and are the beginning of its line; all of the line, if nothing has failed and the thread has
  closed its append stream.
* From there to the end of `send_file`, and until the mutex is given back, nothing is added. -/
theorem mutex_guards_file (file : List ((ι ⊕ τ) × Byte)) (hfile : ∀ x ∈ file, ∀ i, x.1 ≠ .inl i)
    (stream : ι → List Byte) (errno : ι → ℤ) (ls : List (FileLabel ι τ)) (w : FileWorld ι τ)
    (hrun : ls.foldlM (Run.restrict World.step TimerFlushed)
      (World.init (regularFile (ι ⊕ τ)) file stream errno) = some w) :
    (∀ l w', w.step l = some w' → w'.content ≠ w.content → ∃ who bs, w.owner = some who ∧
      w'.owner = some who ∧ w'.content = w.content ++ bytesOf who bs) ∧
    (∀ i, ∃ before after, w.content = before ++ bytesOf (.inl i) (w.client i).written ++ after ∧
      (∀ x ∈ before ++ after, x.1 ≠ .inl i) ∧ (w.client i).written <+: (w.client i).thread.line) ∧
    (ls.foldlM (Run.restrict World.step AllSucceed)
      (World.init (regularFile (ι ⊕ τ)) file stream errno) = some w →
      ∀ i, (w.client i).thread.pc.appended = true →
        (w.client i).written = (w.client i).thread.line) ∧
    ∀ i, (w.client i).thread.pc.appended = true →
      ∀ l w', w.step l = some w' → w'.content = w.content := by
  have h : Guarded w := (guarded_init hfile stream errno).run hrun
  refine ⟨fun l w' ↦ h.owner_of_content_ne, ?_, fun hall i ↦ (whole_run hall i).appended,
    fun i hi l w' ↦ h.content_eq hi⟩
  intro i
  obtain ⟨before, after, hto, -⟩ := h.blocks i
  refine ⟨before, after, hto.file_eq, ?_, (h.parts i).inside⟩
  intro x hx
  rcases List.mem_append.mp hx with hx | hx
  · exact hto.before_ne x hx
  · exact hto.after_ne x hx

end Run

/-! ## One client and one timer -/

/-- The timer has given the mutex back, and its timestamp `"t\n"` is written while the client is
writing `"a\n"`. -/
def timerInside : List (FileLabel Unit Unit) :=
  [.timerRet () .ok, .timerRet () .ok, .timerRet () (.bytes [116, 120]), .timerRet () (.count 2),
    .timerRet () .ok, .ret () .ok, .ret () (.bytes [97, 10]), .ret () .ok, .ret () .ok,
    .ret () .ok, .flush () 1 (), .timerFlush () 2 (), .ret () (.count 2), .flush () 1 ()]

/-- The timestamp is inside the line. -/
theorem timestamp_inside_line :
    ∃ w, timerInside.foldlM World.step
        (World.init (regularFile (Unit ⊕ Unit)) [] (fun _ ↦ [97, 10]) fun _ ↦ 0) = some w ∧
      w.content = [(.inl (), 97), (.inr (), 116), (.inr (), 10), (.inl (), 10)] ∧
      (w.client ()).written = [97, 10] ∧ w.owner = some (.inl ()) ∧
      ¬∃ before after, w.content = before ++ bytesOf (.inl ()) (w.client ()).written ++ after := by
  have hrun : (timerInside.foldlM World.step
      (World.init (regularFile (Unit ⊕ Unit)) [] (fun _ ↦ [97, 10]) fun _ ↦ 0)).map
      (fun w ↦ (w.content, (w.client ()).written, w.owner)) =
      some ([(.inl (), 97), (.inr (), 116), (.inr (), 10), (.inl (), 10)], [97, 10],
        some (.inl ())) := by decide +kernel
  obtain ⟨w, hw, hfacts⟩ := Option.map_eq_some_iff.mp hrun
  obtain ⟨hcontent, hfacts⟩ := Prod.mk.inj hfacts
  obtain ⟨hwritten, howner⟩ := Prod.mk.inj hfacts
  refine ⟨w, hw, hcontent, hwritten, howner, ?_⟩
  rintro ⟨before, after, heq⟩
  have hin : bytesOf (.inl ()) [97, 10] <:+:
      ([(.inl (), 97), (.inr (), 116), (.inr (), 10), (.inl (), 10)] :
        List ((Unit ⊕ Unit) × Byte)) :=
    ⟨before, after, by rw [← hcontent, ← hwritten]; exact heq.symm⟩
  revert hin
  decide +kernel

/-- Here the timestamp is written first. -/
def timerFirst : List (FileLabel Unit Unit) :=
  [.timerRet () .ok, .timerRet () .ok, .timerRet () (.bytes [116, 120]), .timerFlush () 2 (),
    .timerRet () (.count 2), .timerRet () .ok, .ret () .ok, .ret () (.bytes [97, 10]), .ret () .ok,
    .ret () .ok, .ret () .ok, .flush () 1 (), .ret () (.count 2), .flush () 1 (), .ret () .ok]

theorem mutex_guards_file_timer_first :
    ∃ w, timerFirst.foldlM (Run.restrict World.step TimerFlushed)
        (World.init (regularFile (Unit ⊕ Unit)) [] (fun _ ↦ [97, 10]) fun _ ↦ 0) = some w ∧
      (w.client ()).written = [97, 10] ∧
      ∃ before after, w.content = before ++ bytesOf (.inl ()) [97, 10] ++ after ∧
        ∀ x ∈ before ++ after, x.1 ≠ .inl () := by
  have hrun : (timerFirst.foldlM (Run.restrict World.step TimerFlushed)
      (World.init (regularFile (Unit ⊕ Unit)) [] (fun _ ↦ [97, 10]) fun _ ↦ 0)).map
      (fun w ↦ (w.client ()).written) = some [97, 10] := by decide +kernel
  obtain ⟨w, hw, hwritten⟩ := Option.map_eq_some_iff.mp hrun
  obtain ⟨-, hblock, -⟩ := mutex_guards_file [] (fun x hx ↦ by cases hx) (fun _ ↦ [97, 10])
    (fun _ ↦ 0) timerFirst w hw
  obtain ⟨before, after, heq, hne, -⟩ := hblock ()
  exact ⟨w, hw, hwritten, before, after, by rw [heq, hwritten], hne⟩

end Aesd
