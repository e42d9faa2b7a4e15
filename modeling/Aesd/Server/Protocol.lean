import Aesd.Server.SockThread

/-!
# The resources of a client thread

A client thread opens streams, takes the mutex, owns a line buffer and a socket, and has to give
everything back before it sets `finished`, on every path through its five labels.  `Ledger` watches
the calls and keeps the account; its `ok` is the resource protocol.

The labels are shared by ordinary lines and control lines, which have opened different things when
they jump there.  At `err_mutex_lock` the code calls `fclose(file)`, but `file` is `NULL` after the
second `fopen` has failed, and it is still `NULL` when the mutex could not be taken for a control
line.  And a mutex that cannot be unlocked stays locked.  `protocol_iff` says that these are the
only ways in which a complete execution breaks the protocol.

The proof follows the account along the execution: `Account` gives the state of the ledger at each
call, and `balanced_step` is one step of it.
-/

set_option autoImplicit false

namespace Aesd

/-- What a client thread holds, and whether it has kept to the protocol. -/
structure Ledger where
  /-- The append stream is open. -/
  appendOpen : Bool
  /-- The read stream is open. -/
  readOpen : Bool
  /-- The line buffer is allocated. -/
  lineHeld : Bool
  /-- The mutex is held. -/
  mutexHeld : Bool
  /-- The client socket is open. -/
  sockOpen : Bool
  /-- `finished` has been set. -/
  finished : Bool
  /-- Nothing was given back that was not held, and everything was when `finished` was set. -/
  ok : Bool
  deriving DecidableEq, Repr

namespace Ledger

/-- A thread starts with the client socket. -/
def init : Ledger := ⟨false, false, false, false, true, false, true⟩

/-- Nothing is held any more. -/
def settled (l : Ledger) : Bool :=
  !l.appendOpen && !l.readOpen && !l.lineHeld && !l.sockOpen && !l.mutexHeld

/-- The account after a call. -/
def step (l : Ledger) : SockThread.Event → Ledger
  | (.malloc _, .ok) => { l with lineHeld := true }
  | (.free, _) => { l with lineHeld := false, ok := l.lineHeld && l.ok }
  | (.fopen .append, .ok) => { l with appendOpen := true, ok := !l.appendOpen && l.ok }
  | (.fopen .read, .ok) => { l with readOpen := true, ok := !l.readOpen && l.ok }
  | (.fclose (some .append), _) => { l with appendOpen := false, ok := l.appendOpen && l.ok }
  | (.fclose (some .read), _) => { l with readOpen := false, ok := l.readOpen && l.ok }
  | (.fclose none, _) => { l with ok := false }
  | (.mutexLock, .ok) => { l with mutexHeld := true, ok := !l.mutexHeld && l.ok }
  | (.mutexUnlock, .ok) => { l with mutexHeld := false, ok := l.mutexHeld && l.ok }
  | (.mutexUnlock, _) => { l with ok := l.mutexHeld && l.ok }
  | (.close, _) => { l with sockOpen := false, ok := l.sockOpen && l.ok }
  | (.finish, _) => { l with finished := true, ok := l.settled && l.ok }
  | _ => l

/-- The account after a list of calls. -/
def run (tr : List SockThread.Event) : Ledger := tr.foldl step init

theorem run_concat (tr : List SockThread.Event) (e : SockThread.Event) :
    run (tr ++ [e]) = (run tr).step e := by
  rw [run, List.foldl_append]
  rfl

end Ledger

/-- The calls keep to the resource protocol. -/
def ObeysProtocol (tr : List SockThread.Event) : Prop :=
  (Ledger.run tr).ok = true ∧ (Ledger.run tr).finished = true

/-! ## What can go wrong -/

/-- A call fails. -/
def failsAt (c : Call) (tr : List SockThread.Event) : Bool :=
  tr.any fun e ↦ e.1 == c && match e.2 with
    | .fail _ => true
    | _ => false

/-- The bytes received from the client. -/
def receivedBytes (tr : List SockThread.Event) : List Byte :=
  tr.flatMap fun e ↦ match e with
    | (.recv _, .bytes bs) => bs
    | _ => []

/-- The line received is a control line. -/
def gotCtrlLine (build : Build) (tr : List SockThread.Event) : Bool :=
  (SockThread.ctrlCmd build (Delim.firstRecord isNewline (receivedBytes tr))).isSome

theorem failsAt_concat (c : Call) (tr : List SockThread.Event) (e : SockThread.Event) :
    failsAt c (tr ++ [e]) = (failsAt c tr || failsAt c [e]) := List.any_append

theorem receivedBytes_concat (tr : List SockThread.Event) (e : SockThread.Event) :
    receivedBytes (tr ++ [e]) = receivedBytes tr ++ receivedBytes [e] := List.flatMap_append ..

theorem receivedBytes_recv (tr : List SockThread.Event) (n : ℕ) (bs : List Byte) :
    receivedBytes (tr ++ [(.recv n, .bytes bs)]) = receivedBytes tr ++ bs := by
  rw [receivedBytes_concat]
  simp [receivedBytes]

/-! ## The account -/

/-- Where a thread can be, what `file` names, whether the line is a control line, and the ledger
that goes with it.  The last three say whether the second `fopen`, the lock and the unlock have
failed. -/
inductive Account : Pc → Option Mode → Bool → Ledger → Bool → Bool → Bool → Prop
  /-- Nothing has been called. -/
  | start (k : Bool) : Account .malloc none k .init false false false
  /-- The line is being read. -/
  | reading (pc : Pc) (k : Bool)
      (h : pc = .recv ∨ pc = .realloc ∨ pc = .printf ∨ pc = .freeBuf) :
    Account pc none k ⟨false, false, true, false, true, false, true⟩ false false false
  /-- An ordinary line has been read. -/
  | opening : Account .fopenAppend none false ⟨false, false, true, false, true, false, true⟩
      false false false
  /-- The append stream is open. -/
  | lockingLine : Account .lock (some .append) false ⟨true, false, true, false, true, false, true⟩
      false false false
  /-- A control line has been read, and nothing is open. -/
  | lockingCtrl : Account .lock none true ⟨false, false, true, false, true, false, true⟩
      false false false
  /-- The mutex is held and the append stream is open. -/
  | appending (pc : Pc) (h : pc = .fwrite ∨ pc = .fcloseAppend) :
    Account pc (some .append) false ⟨true, false, true, true, true, false, true⟩ false false false
  /-- The append stream is closed, the variable still names it. -/
  | reopening (file : Option Mode) (k : Bool) :
    Account .fopenRead file k ⟨false, false, true, true, true, false, true⟩ false false false
  /-- The read stream is open. -/
  | sending (pc : Pc) (k : Bool) (h : pc = .ioctl ∨ pc = .getline ∨ pc = .send ∨
      pc = .freeGetline ∨ pc = .unlock) :
    Account pc (some .read) k ⟨false, true, true, true, true, false, true⟩ false false false
  /-- The second `fopen` has failed, and `file` is `NULL`. -/
  | unlockingNull (k : Bool) :
    Account .unlock none k ⟨false, false, true, true, true, false, true⟩ true false false
  /-- The mutex has been unlocked, or not; the read stream is open. -/
  | closing (k noUnlock : Bool) :
    Account .fclose (some .read) k ⟨false, true, true, noUnlock, true, false, true⟩
      false false noUnlock
  /-- The same, with `file` being `NULL`. -/
  | closingNull (k noUnlock : Bool) :
    Account .fclose none k ⟨false, false, true, noUnlock, true, false, true⟩ true false noUnlock
  /-- The lock has failed; the append stream is open. -/
  | closingLine :
    Account .fclose (some .append) false ⟨true, false, true, false, true, false, true⟩
      false true false
  /-- The lock has failed for a control line, and `file` is `NULL`. -/
  | closingCtrl : Account .fclose none true ⟨false, false, true, false, true, false, true⟩
      false true false
  /-- The streams are done with. -/
  | freeing (file : Option Mode) (k noRead noLock noUnlock : Bool) :
    Account .free file k
      ⟨false, false, true, noUnlock, true, false, !(noRead || (noLock && k))⟩ noRead noLock noUnlock
  /-- The line buffer is gone. -/
  | hangingUp (file : Option Mode) (k noRead noLock noUnlock : Bool) :
    Account .close file k
      ⟨false, false, false, noUnlock, true, false, !(noRead || (noLock && k))⟩
      noRead noLock noUnlock
  /-- The socket is closed. -/
  | finishing (file : Option Mode) (k noRead noLock noUnlock : Bool) :
    Account .finish file k
      ⟨false, false, false, noUnlock, false, false, !(noRead || (noLock && k))⟩
      noRead noLock noUnlock
  /-- The thread has returned. -/
  | returned (file : Option Mode) (k noRead noLock noUnlock : Bool) :
    Account .done file k
      ⟨false, false, false, noUnlock, false, true, !noUnlock && !(noRead || (noLock && k))⟩
      noRead noLock noUnlock

/-- At the return. -/
theorem Account.of_done {file : Option Mode} {k : Bool} {l : Ledger} {nr nl nu : Bool}
    (h : Account .done file k l nr nl nu) :
    l.finished = true ∧ l.ok = (!nu && !(nr || (nl && k))) := by
  generalize hpc : Pc.done = pc at h
  cases h with
  | returned => exact ⟨rfl, rfl⟩
  | reading _ _ h => subst hpc; simp at h
  | appending _ h => subst hpc; simp at h
  | sending _ _ h => subst hpc; simp at h
  | _ => cases hpc

namespace SockThread

/-- The account of a thread whose calls so far are `tr`. -/
def Accounted (t : SockThread) (tr : List Event) : Prop :=
  Account t.pc t.file t.seekTo.isSome (Ledger.run tr) (failsAt (.fopen .read) tr)
    (failsAt .mutexLock tr) (failsAt .mutexUnlock tr)

/-- What a step of the control has to show. -/
abbrev Balanced (t : SockThread) (l : Ledger) (nr nl nu : Bool) (e : Event) : Prop :=
  Account t.pc t.file t.seekTo.isSome (l.step e) (failsAt (.fopen .read) [e] || nr)
    (failsAt .mutexLock [e] || nl) (failsAt .mutexUnlock [e] || nu)

theorem balanced_reading {build : Build} {t t' : SockThread} {c : Call} {o : Outcome}
    (hpc : t.pc = .recv ∨ t.pc = .realloc ∨ t.pc = .printf ∨ t.pc = .freeBuf)
    (hfile : t.file = none) (hcall : t.call = some c) (hstep : t.step build o = some t') :
    Balanced t' ⟨false, false, true, false, true, false, true⟩ false false false (c, o) := by
  rcases hpc with hpc | hpc | hpc | hpc <;> simp only [call, hpc, Option.some.injEq] at hcall <;>
    subst hcall
  · cases o <;> simp only [step, hpc, reduceCtorEq, Option.some.injEq,
      Option.ite_none_right_eq_some] at hstep
    · subst hstep
      rw [Balanced, hfile]
      exact .reading .freeBuf _ (by simp)
    · obtain ⟨-, rfl⟩ := hstep
      obtain ⟨hf, hgoes | ⟨hend, hk⟩ | ⟨hend, hk⟩⟩ := control_received build t hpc _
      · rw [Balanced, hf, hfile]
        exact .reading _ _ (by tauto)
      · rw [Balanced, hf, hfile, hend, hk]
        exact .opening
      · rw [Balanced, hf, hfile, hend, hk]
        exact .lockingCtrl
  · cases o <;> simp only [step, hpc, reduceCtorEq, Option.some.injEq,
      Option.ite_none_right_eq_some] at hstep
    · obtain ⟨-, rfl⟩ := hstep
      rw [Balanced, hfile]
      exact .reading .recv _ (.inl rfl)
    · subst hstep
      rw [Balanced, hfile]
      exact .reading .freeBuf _ (by simp)
  · -- whether it succeeds makes no difference here
    have hread : ∀ o, Balanced (t.lineRead build t.line)
        ⟨false, false, true, false, true, false, true⟩ false false false
        (.printf t.line.length, o) := by
      intro o
      have hfile' : (t.lineRead build t.line).file = none := hfile
      rcases control_lineRead build t t.line with ⟨hend, hk⟩ | ⟨hend, hk⟩ <;>
        rw [Balanced, hfile', hend, hk]
      · exact .opening
      · exact .lockingCtrl
    cases o <;> simp only [step, hpc, reduceCtorEq, Option.some.injEq] at hstep <;> subst hstep
    · exact hread _
    · exact hread _
  · cases o <;> simp only [step, hpc, reduceCtorEq, Option.some.injEq] at hstep
    subst hstep
    rw [Balanced, hfile]
    exact .hangingUp none _ false false false

theorem balanced_sending {build : Build} {t t' : SockThread} {c : Call} {o : Outcome}
    (hpc : t.pc = .ioctl ∨ t.pc = .getline ∨ t.pc = .send ∨ t.pc = .freeGetline ∨ t.pc = .unlock)
    (hfile : t.file = some .read) (hcall : t.call = some c) (hstep : t.step build o = some t') :
    Balanced t' ⟨false, true, true, true, true, false, true⟩ false false false (c, o) := by
  rcases hpc with hpc | hpc | hpc | hpc | hpc <;>
    simp only [call, hpc, Option.some.injEq, Option.map_eq_some_iff] at hcall
  · obtain ⟨a, -, rfl⟩ := hcall
    cases o <;> simp only [step, hpc, reduceCtorEq, Option.some.injEq] at hstep
    · subst hstep
      rw [Balanced, hfile]
      exact .sending .getline _ (by simp)
    · subst hstep
      rw [Balanced, hfile]
      exact .sending .unlock _ (by simp)
  · subst hcall
    cases o <;> simp only [step, hpc, reduceCtorEq, Option.some.injEq] at hstep
    · subst hstep
      rw [Balanced, hfile]
      exact .sending .freeGetline _ (by simp)
    · split at hstep <;> rw [Option.some_inj] at hstep <;> subst hstep <;> rw [Balanced, hfile]
      · exact .sending .freeGetline _ (by simp)
      · exact .sending .send _ (by simp)
  · subst hcall
    cases o <;> simp only [step, hpc, reduceCtorEq, Option.some.injEq,
      Option.ite_none_right_eq_some] at hstep
    · subst hstep
      rw [Balanced]
      have hctl := control_sendLoop t (sizeT (t.bytesLeft + 1)) (sizeT (t.sendOffset - 1))
      exact hfile ▸ .sending _ _ (by tauto)
    · rename_i n
      obtain ⟨-, rfl⟩ := hstep
      rw [Balanced]
      have hctl := control_sendLoop t (t.bytesLeft - n) (t.advance n)
      exact hfile ▸ .sending _ _ (by tauto)
  · subst hcall
    cases o <;> simp only [step, hpc, reduceCtorEq, Option.some.injEq] at hstep
    subst hstep
    rw [Balanced, hfile]
    exact .sending .unlock _ (by simp)
  · subst hcall
    cases o <;> simp only [step, hpc, reduceCtorEq, Option.some.injEq] at hstep
    · subst hstep
      rw [Balanced, hfile]
      exact .closing _ false
    · subst hstep
      rw [Balanced, firstError, hfile]
      exact .closing _ true

/-- **One step keeps the account.** -/
theorem balanced_step {build : Build} {t t' : SockThread} {l : Ledger} {nr nl nu : Bool} {c : Call}
    {o : Outcome} (h : Account t.pc t.file t.seekTo.isSome l nr nl nu) (hcall : t.call = some c)
    (hstep : t.step build o = some t') : Balanced t' l nr nl nu (c, o) := by
  generalize hpc : t.pc = pc at h
  generalize hfile : t.file = file at h
  generalize hk : t.seekTo.isSome = k at h
  cases h with
  | start k =>
    simp only [call, hpc, Option.some.injEq] at hcall
    subst hcall
    cases o <;> simp only [step, hpc, reduceCtorEq, Option.some.injEq] at hstep <;> subst hstep <;>
      rw [Balanced, hfile]
    · exact .reading .recv _ (.inl rfl)
    · exact .hangingUp none _ false false false
  | reading _ k hread => exact balanced_reading (hpc ▸ hread) hfile hcall hstep
  | opening =>
    simp only [call, hpc, Option.some.injEq] at hcall
    subst hcall
    cases o <;> simp only [step, hpc, reduceCtorEq, Option.some.injEq] at hstep <;> subst hstep <;>
      rw [Balanced, hk]
    · exact .lockingLine
    · exact .freeing none false false false false
  | lockingLine =>
    simp only [call, hpc, Option.some.injEq] at hcall
    subst hcall
    cases o <;> simp only [step, hpc, hk, reduceCtorEq, Option.some.injEq] at hstep <;>
      subst hstep <;> rw [Balanced, hk, hfile]
    · exact .appending .fwrite (.inl rfl)
    · exact .closingLine
  | lockingCtrl =>
    simp only [call, hpc, Option.some.injEq] at hcall
    subst hcall
    cases o <;> simp only [step, hpc, hk, reduceCtorEq, Option.some.injEq] at hstep <;>
      subst hstep <;> rw [Balanced, hk, hfile]
    · exact .reopening none true
    · exact .closingCtrl
  | appending _ happ =>
    subst hpc
    rcases happ with hpc | hpc
    · simp only [call, hpc, Option.some.injEq] at hcall
      subst hcall
      cases o <;> simp only [step, hpc, reduceCtorEq, Option.ite_none_right_eq_some,
        Option.some.injEq] at hstep <;> obtain ⟨-, rfl⟩ := hstep <;> rw [Balanced, hk, hfile]
      · exact .appending .fcloseAppend (.inr rfl)
      · exact .appending .fcloseAppend (.inr rfl)
    · simp only [call, hpc, hfile, Option.some.injEq] at hcall
      subst hcall
      cases o <;> simp only [step, hpc, reduceCtorEq, Option.some.injEq] at hstep <;>
        subst hstep <;> rw [Balanced]
      · exact .reopening _ _
      · exact .reopening _ _
  | reopening file k =>
    simp only [call, hpc, Option.some.injEq] at hcall
    subst hcall
    cases o <;> simp only [step, hpc, reduceCtorEq, Option.some.injEq] at hstep <;> subst hstep <;>
      rw [Balanced]
    · refine .sending _ _ ?_
      dsimp only
      split
      · exact .inl rfl
      · exact .inr (.inl rfl)
    · exact .unlockingNull _
  | sending _ k hsend => exact balanced_sending (hpc ▸ hsend) hfile hcall hstep
  | unlockingNull k =>
    simp only [call, hpc, Option.some.injEq] at hcall
    subst hcall
    cases o <;> simp only [step, hpc, reduceCtorEq, Option.some.injEq] at hstep <;> subst hstep
    · rw [Balanced, hfile]
      exact .closingNull _ false
    · rw [Balanced, firstError, hfile]
      exact .closingNull _ true
  | closing k nu =>
    simp only [call, hpc, hfile, Option.some.injEq] at hcall
    subst hcall
    cases o <;> simp only [step, hpc, reduceCtorEq, Option.some.injEq] at hstep <;> subst hstep <;>
      rw [Balanced]
    · exact .freeing t.file _ false false nu
    · exact .freeing t.file _ false false nu
  | closingNull k nu =>
    simp only [call, hpc, hfile, Option.some.injEq] at hcall
    subst hcall
    cases o <;> simp only [step, hpc, reduceCtorEq, Option.some.injEq] at hstep <;> subst hstep <;>
      rw [Balanced]
    · exact .freeing t.file _ true false nu
    · exact .freeing t.file _ true false nu
  | closingLine =>
    simp only [call, hpc, hfile, Option.some.injEq] at hcall
    subst hcall
    cases o <;> simp only [step, hpc, reduceCtorEq, Option.some.injEq] at hstep <;> subst hstep
    · rw [Balanced, hk]
      exact .freeing t.file false false true false
    · rw [Balanced, firstError_seekTo, hk]
      exact .freeing t.file false false true false
  | closingCtrl =>
    simp only [call, hpc, hfile, Option.some.injEq] at hcall
    subst hcall
    cases o <;> simp only [step, hpc, reduceCtorEq, Option.some.injEq] at hstep <;> subst hstep
    · rw [Balanced, hk]
      exact .freeing t.file true false true false
    · rw [Balanced, firstError_seekTo, hk]
      exact .freeing t.file true false true false
  | freeing file k nr nl nu =>
    simp only [call, hpc, Option.some.injEq] at hcall
    subst hcall
    cases o <;> simp only [step, hpc, reduceCtorEq, Option.some.injEq] at hstep
    subst hstep
    rw [Balanced, hk]
    exact .hangingUp t.file k nr nl nu
  | hangingUp file k nr nl nu =>
    simp only [call, hpc, Option.some.injEq] at hcall
    subst hcall
    cases o <;> simp only [step, hpc, reduceCtorEq, Option.some.injEq] at hstep <;> subst hstep <;>
      rw [Balanced, hk]
    · exact .finishing t.file k nr nl nu
    · exact .finishing t.file k nr nl nu
  | finishing file k nr nl nu =>
    simp only [call, hpc, Option.some.injEq] at hcall
    subst hcall
    cases o <;> simp only [step, hpc, reduceCtorEq, Option.some.injEq] at hstep
    subst hstep
    rw [Balanced, hk]
    exact .returned t.file k nr nl nu
  | returned file k nr nl nu =>
    simp only [call, hpc, reduceCtorEq] at hcall

theorem accounted_init (errno : ℤ) : (init errno).Accounted [] := .start _

theorem Accounted.step {build : Build} {t t' : SockThread} {tr : List Event} {c : Call}
    {o : Outcome} (h : t.Accounted tr) (hcall : t.call = some c)
    (hstep : t.step build o = some t') : t'.Accounted (tr ++ [(c, o)]) := by
  rw [Accounted, Ledger.run_concat, failsAt_concat, failsAt_concat, failsAt_concat,
    Bool.or_comm, Bool.or_comm (failsAt .mutexLock tr), Bool.or_comm (failsAt .mutexUnlock tr)]
  exact balanced_step h hcall hstep

/-! ## The line -/

/-- What is known of the line: while it is being read, the buffer holds what has arrived, without a
newline; then it is there; and when it comes to the lock, and ever after, the thread knows whether
it is a control line. -/
structure LineKnown (build : Build) (t : SockThread) (tr : List Event) : Prop where
  /-- What has arrived. -/
  reading : t.pc = .malloc ∨ t.pc = .recv ∨ t.pc = .realloc →
    receivedBytes tr = t.buf ∧ (∀ b ∈ t.buf, isNewline b = false) ∧ failsAt .mutexLock tr = false
  /-- The line. -/
  printing : t.pc = .printf →
    Delim.firstRecord isNewline (receivedBytes tr) = t.line ∧ failsAt .mutexLock tr = false
  /-- What the line is. -/
  read : t.pc = .fopenAppend ∨ t.pc = .lock ∨ failsAt .mutexLock tr = true →
    t.seekTo = ctrlCmd build (Delim.firstRecord isNewline (receivedBytes tr))

theorem lineKnown_init (build : Build) (errno : ℤ) : LineKnown build (init errno) [] where
  reading _ := ⟨rfl, by simp [init], rfl⟩
  printing h := by simp [init] at h
  read h := by simp [init, failsAt] at h

theorem lineKnown_lineRead {build : Build} {t : SockThread} {tr : List Event} {line : List Byte}
    (hline : Delim.firstRecord isNewline (receivedBytes tr) = line) :
    LineKnown build (t.lineRead build line) tr where
  reading h := by
    rw [lineRead] at h
    dsimp only at h
    split at h <;> simp at h
  printing h := by
    rw [lineRead] at h
    dsimp only at h
    split at h <;> simp at h
  read _ := by rw [hline]; rfl

/-- Bytes arrive. -/
theorem LineKnown.received {build : Build} {t : SockThread} {tr : List Event}
    (h : LineKnown build t tr) (hpc : t.pc = .recv) (n : ℕ) (bs : List Byte) :
    LineKnown build (t.received build bs) (tr ++ [(.recv n, .bytes bs)]) := by
  obtain ⟨hbuf, hnone, hlock⟩ := h.reading (.inr (.inl hpc))
  have hbytes : receivedBytes (tr ++ [(.recv n, .bytes bs)]) = t.buf ++ bs := by
    rw [receivedBytes_recv, hbuf]
  have hlock' : failsAt .mutexLock (tr ++ [(.recv n, .bytes bs)]) = false := by
    rw [failsAt_concat, hlock]
    rfl
  rw [SockThread.received]
  split
  · rename_i hnil
    refine lineKnown_lineRead ?_
    rw [hbytes, hnil, List.append_nil, Delim.firstRecord_of_none hnone]
  · split
    · refine ⟨by simp [lineEnded], fun _ ↦ ⟨?_, hlock'⟩, fun hr ↦ by simp [lineEnded, hlock'] at hr⟩
      rw [hbytes, Delim.firstRecord_append_of_none hnone]
      rfl
    · rename_i hno
      have hmore : ∀ b ∈ (t.keep bs).buf, isNewline b = false := by
        intro b hb
        rcases List.mem_append.mp hb with hb | hb
        · exact hnone b hb
        · exact Bool.eq_false_iff.mpr fun hb' ↦ hno (List.any_eq_true.mpr ⟨b, hb, hb'⟩)
      rw [doubleIfFull]
      split
      · exact ⟨fun _ ↦ ⟨hbytes, hmore, hlock'⟩, fun hp ↦ by simp at hp,
          fun hr ↦ by simp [hlock'] at hr⟩
      · exact ⟨fun _ ↦ ⟨hbytes, hmore, hlock'⟩, fun hp ↦ by simp [keep, hpc] at hp,
          fun hr ↦ by simp [keep, hpc, hlock'] at hr⟩

/-- Outside `recv` nothing arrives. -/
theorem step_of_ne_recv {build : Build} {t t' : SockThread} {c : Call} {o : Outcome}
    (hpc : t.pc ≠ .recv) (hcall : t.call = some c) (hstep : t.step build o = some t') :
    receivedBytes [(c, o)] = [] ∧ t'.buf = t.buf ∧
      (t'.pc = .recv ∨ t'.pc = .realloc → t.pc = .malloc ∨ t.pc = .realloc) ∧ t'.pc ≠ .malloc ∧
      t'.pc ≠ .printf ∧ (failsAt .mutexLock [(c, o)] = true → t.pc = .lock) := by
  cases branch_of_step hstep with
  | recv bs hp => exact absurd hp hpc
  | recvFail e hp => exact absurd hp hpc
  | printf hp | printfFail e hp =>
    simp only [call, hp, Option.some.injEq] at hcall
    subst hcall
    dsimp only [lineRead]
    split <;> simp [receivedBytes, failsAt]
  | send n hp | sendFail e hp =>
    simp only [call, hp, Option.some.injEq] at hcall
    subst hcall
    dsimp only [sendLoop]
    split <;> simp [receivedBytes, failsAt]
  | ioctl hp | ioctlFail e hp =>
    simp only [call, hp, Option.map_eq_some_iff] at hcall
    obtain ⟨a, -, rfl⟩ := hcall
    simp [receivedBytes, failsAt]
  | _ =>
    simp only [call, *, Option.some.injEq] at hcall
    subst hcall
    simp [*, receivedBytes, failsAt, firstError]

/-- And once the line is there, nothing new is learnt about it. -/
theorem seekTo_of_step {build : Build} {t t' : SockThread} {o : Outcome} (hpc : t.pc ≠ .recv)
    (hline : t.pc ≠ .printf) (hstep : t.step build o = some t') :
    t'.seekTo = t.seekTo ∧ (t'.pc = .fopenAppend ∨ t'.pc = .lock → t.pc = .fopenAppend) := by
  cases branch_of_step hstep with
  | recv bs hp => exact absurd hp hpc
  | recvFail e hp => exact absurd hp hpc
  | printf hp | printfFail e hp => exact absurd hp hline
  | send n hp | sendFail e hp =>
    dsimp only [sendLoop]
    split <;> simp
  | _ => simp [*, firstError]

/-- `printf` returns, and the line is looked at. -/
theorem LineKnown.printf {build : Build} {t t' : SockThread} {tr : List Event} {c : Call}
    {o : Outcome} (h : LineKnown build t tr) (hpc : t.pc = .printf) (hcall : t.call = some c)
    (hstep : t.step build o = some t') : LineKnown build t' (tr ++ [(c, o)]) := by
  obtain ⟨hline, -⟩ := h.printing hpc
  obtain ⟨hbytes, -⟩ := step_of_ne_recv (by rw [hpc]; decide) hcall hstep
  have hread : LineKnown build (t.lineRead build t.line) (tr ++ [(c, o)]) := by
    refine lineKnown_lineRead ?_
    rw [receivedBytes_concat, hbytes, List.append_nil, hline]
  cases o <;> simp only [SockThread.step, hpc, reduceCtorEq, Option.some.injEq] at hstep <;>
    subst hstep
  · exact hread
  · exact ⟨hread.reading, hread.printing, hread.read⟩

/-- **One step keeps what is known of the line.** -/
theorem LineKnown.step {build : Build} {t t' : SockThread} {tr : List Event} {c : Call}
    {o : Outcome} (h : LineKnown build t tr) (hcall : t.call = some c)
    (hstep : t.step build o = some t') : LineKnown build t' (tr ++ [(c, o)]) := by
  by_cases hpc : t.pc = .recv
  · simp only [call, hpc, Option.some.injEq] at hcall
    subst hcall
    cases o <;> simp only [SockThread.step, hpc, reduceCtorEq, Option.some.injEq,
      Option.ite_none_right_eq_some] at hstep
    · subst hstep
      obtain ⟨-, -, hlock⟩ := h.reading (.inr (.inl hpc))
      rename_i e
      have hlock' : failsAt .mutexLock (tr ++ [(.recv t.recvSize, .fail e)]) = false := by
        rw [failsAt_concat, hlock]
        rfl
      exact ⟨fun hr ↦ by simp at hr, fun hp ↦ by simp at hp, fun hr ↦ by simp [hlock'] at hr⟩
    · obtain ⟨-, rfl⟩ := hstep
      exact h.received hpc _ _
  by_cases hline : t.pc = .printf
  · exact h.printf hline hcall hstep
  obtain ⟨hbytes, hbuf, hback, hmalloc, hprint, hlock⟩ := step_of_ne_recv hpc hcall hstep
  obtain ⟨hseek, hon⟩ := seekTo_of_step hpc hline hstep
  have hbytes' : receivedBytes (tr ++ [(c, o)]) = receivedBytes tr := by
    rw [receivedBytes_concat, hbytes, List.append_nil]
  refine ⟨?_, fun hp ↦ absurd hp hprint, ?_⟩
  · intro hr
    have hpc' := hback (hr.resolve_left hmalloc)
    obtain ⟨hb, hnone, hl⟩ := h.reading (hpc'.imp_right .inr)
    refine ⟨by rw [hbytes', hb, hbuf], by rw [hbuf]; exact hnone, ?_⟩
    rw [failsAt_concat, hl, Bool.false_or]
    refine Bool.eq_false_iff.mpr ?_
    intro hfail
    rw [hlock hfail] at hpc'
    simp at hpc'
  · intro hr
    rw [hseek, hbytes']
    refine h.read ?_
    rw [failsAt_concat, Bool.or_eq_true] at hr
    rcases hr with hr | hr | hr | hr
    · exact .inl (hon (.inl hr))
    · exact .inl (hon (.inr hr))
    · exact .inr (.inr hr)
    · exact .inr (.inl (hlock hr))

/-- **Every execution** has its account, and knows its line. -/
theorem exec_accounted {build : Build} {errno : ℤ} {os : List Outcome} {t : SockThread}
    {tr : List Event} (h : exec build errno os = some (t, tr)) :
    t.Accounted tr ∧ LineKnown build t tr := by
  refine exec_invariant (I := fun t tr ↦ t.Accounted tr ∧ LineKnown build t tr) ?_
    ⟨accounted_init errno, lineKnown_init build errno⟩ h
  rintro t tr c o t' ⟨hacc, hline⟩ hcall hstep
  exact ⟨hacc.step hcall hstep, hline.step hcall hstep⟩

end SockThread

/-! ## When the protocol is kept -/

/-- **When a complete execution keeps to the resource protocol**: exactly when the second `fopen`
does not fail, the unlock does not fail, and the lock does not fail for a control line. -/
theorem protocol_iff (build : Build) (errno : ℤ) (os : List Outcome) (t : SockThread)
    (tr : List SockThread.Event) (hexec : SockThread.exec build errno os = some (t, tr))
    (hdone : t.pc = .done) :
    ObeysProtocol tr ↔
      failsAt (.fopen .read) tr = false ∧ failsAt .mutexUnlock tr = false ∧
        ¬(failsAt .mutexLock tr = true ∧ gotCtrlLine build tr = true) := by
  obtain ⟨hacc, hline⟩ := SockThread.exec_accounted hexec
  have hctrl : failsAt .mutexLock tr = true → gotCtrlLine build tr = t.seekTo.isSome :=
    fun hl ↦ by rw [gotCtrlLine, hline.read (.inr (.inr hl))]
  rw [SockThread.Accounted, hdone] at hacc
  obtain ⟨hfin, hok⟩ := hacc.of_done
  rw [ObeysProtocol, hfin, hok]
  cases hlock : failsAt .mutexLock tr with
  | false => cases failsAt (.fopen .read) tr <;> cases failsAt .mutexUnlock tr <;> simp
  | true =>
    rw [hctrl hlock]
    cases failsAt (.fopen .read) tr <;> cases failsAt .mutexUnlock tr <;>
      cases t.seekTo.isSome <;> simp

/-- The line `"a\n"`, and nothing fails. -/
theorem protocol_iff_plain :
    let os : List Outcome := [.ok, .bytes [97, 10], .ok, .ok, .ok, .count 2, .ok, .ok,
      .bytes [97, 10], .count 2, .bytes [], .ok, .ok, .ok, .ok, .ok, .ok]
    ∃ t tr, SockThread.exec .device 0 os = some (t, tr) ∧ t.pc = .done ∧ ObeysProtocol tr := by
  intro os
  have hrun : (SockThread.exec .device 0 os).map (fun s ↦ (s.1.pc, failsAt (.fopen .read) s.2,
      failsAt .mutexUnlock s.2, failsAt .mutexLock s.2)) = some (.done, false, false, false) := by
    decide +kernel
  obtain ⟨⟨t, tr⟩, hexec, hfacts⟩ := Option.map_eq_some_iff.mp hrun
  simp only [Prod.mk.injEq] at hfacts
  obtain ⟨hdone, hread, hunlock, hlock⟩ := hfacts
  exact ⟨t, tr, hexec, hdone, (protocol_iff _ _ _ _ _ hexec hdone).mpr
    ⟨hread, hunlock, by simp [hlock]⟩⟩

/-- The line `"a\n"`, and the file cannot be opened again for reading: the thread calls
`fclose(NULL)`. -/
theorem fclose_of_null :
    let os : List Outcome := [.ok, .bytes [97, 10], .ok, .ok, .ok, .count 2, .ok, .fail 24, .ok,
      .ok, .ok, .ok, .ok]
    ∃ t tr, SockThread.exec .device 0 os = some (t, tr) ∧ t.pc = .done ∧
      (.fclose none, .ok) ∈ tr ∧ ¬ObeysProtocol tr := by
  intro os
  have hrun : (SockThread.exec .device 0 os).map (fun s ↦ (s.1.pc,
      decide ((Call.fclose none, Outcome.ok) ∈ s.2), (Ledger.run s.2).ok)) =
        some (.done, true, false) := by decide +kernel
  obtain ⟨⟨t, tr⟩, hexec, hfacts⟩ := Option.map_eq_some_iff.mp hrun
  simp only [Prod.mk.injEq, decide_eq_true_eq] at hfacts
  obtain ⟨hdone, hnull, hbad⟩ := hfacts
  refine ⟨t, tr, hexec, hdone, hnull, ?_⟩
  intro hobeys
  exact absurd (hbad.symm.trans hobeys.1) (by decide)

end Aesd
