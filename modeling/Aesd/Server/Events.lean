import Aesd.Server.World

/-!
# What an event can do

`World.step` is taken apart once, here: `World.Step` is the list of cases and `World.step_cases`
says that it is complete.

The rest is about the device build and about events in which every call succeeds.  A client's call
returns and only that client changes (`Client.Proceeds`), or it is the lock or the unlock, or bytes
are exchanged with the file; that is `DeviceStep`, and `deviceStep_of_step`.

A device does not remember who wrote a byte.  So a run is recorded in a `Delim.Log` of tagged bytes,
in which every byte stands with the client that wrote it (`World.record`); that the device holds
these bytes is part of what is proved.
-/

set_option autoImplicit false

namespace Aesd

variable {ι τ : Type} [DecidableEq ι] [DecidableEq τ]

/-! ## Every event -/

section Step

variable {B : Backend (ι ⊕ τ)} {w w' : World B} {l : Label B}

/-- **What an event can do.** -/
inductive World.Step (w : World B) : Label B → World B → Prop
  /-- A call of a client returns that does not change the owner of the mutex. -/
  | ret (i : ι) (o : Outcome) (c : Client) (hret : (w.client i).ret B.build o = some c)
      (hlock : ¬((w.client i).thread.pc = .lock ∧ o = .ok))
      (hunlock : ¬((w.client i).thread.pc = .unlock ∧ o = .ok)) :
    Step w (.ret i o) (w.setClient i c)
  /-- A client takes the mutex. -/
  | lock (i : ι) (c : Client) (hpc : (w.client i).thread.pc = .lock)
      (hret : (w.client i).ret B.build .ok = some c) (hfree : w.owner = none) :
    Step w (.ret i .ok) { (w.setClient i c) with owner := some (.inl i), order := w.order ++ [i] }
  /-- A client gives the mutex back. -/
  | unlock (i : ι) (c : Client) (hpc : (w.client i).thread.pc = .unlock)
      (hret : (w.client i).ret B.build .ok = some c) (hheld : w.owner = some (.inl i)) :
    Step w (.ret i .ok) { (w.setClient i c) with owner := none }
  /-- Bytes of a client's line reach the file. -/
  | flush (i : ι) (n : ℕ) (env : B.WriteEnv) (file : B.State)
      (hpc : (w.client i).thread.pc = .fwrite ∨ (w.client i).thread.pc = .fcloseAppend)
      (hpos : 0 < n) (hle : n ≤ (w.client i).out.length)
      (hwrite : B.write w.file (.inl i) env ((w.client i).out.take n) = some file) :
    Step w (.flush i n env) { (w.setClient i { w.client i with
        out := (w.client i).out.drop n
        written := (w.client i).written ++ (w.client i).out.take n }) with file := file }
  /-- A client's read stream is filled. -/
  | fill (i : ι) (count : ℕ) (env : B.ReadEnv) (data : List Byte) (fPos : ℕ)
      (hpc : (w.client i).thread.pc = .getline) (hpos : 0 < count) (heof : (w.client i).eof = false)
      (hread : B.read w.file env (w.client i).fPos count = some (data, fPos)) :
    Step w (.fill i count env) (w.setClient i { w.client i with
      fPos := fPos, rbuf := (w.client i).rbuf ++ data, eof := data.isEmpty })
  /-- The ioctl of a client returns. -/
  | seek (i : ι) (env : B.SeekEnv) (t : SockThread) (fPos : ℕ) (o : Outcome)
      (hpc : (w.client i).thread.pc = .ioctl) (hctrl : (w.client i).thread.seekTo.isSome = true)
      (ho : o = .ok ∨ o = .fail EINVAL) (hstep : (w.client i).thread.step B.build o = some t) :
    Step w (.seek i env) (w.setClient i { w.client i with thread := t, fPos := fPos })
  /-- A call of a `timer_thread` returns that does not change the owner of the mutex. -/
  | timerRet (j : τ) (o : Outcome) (c : Timer) (hret : (w.timer j).ret o = some c)
      (hlock : ¬((w.timer j).thread.pc = .lock ∧ o = .ok))
      (hunlock : ¬((w.timer j).thread.pc = .unlock ∧ o = .ok)) :
    Step w (.timerRet j o) (w.setTimer j c)
  /-- A `timer_thread` takes the mutex. -/
  | timerLock (j : τ) (c : Timer) (hpc : (w.timer j).thread.pc = .lock)
      (hret : (w.timer j).ret .ok = some c) (hfree : w.owner = none) :
    Step w (.timerRet j .ok) { (w.setTimer j c) with owner := some (.inr j) }
  /-- A `timer_thread` gives the mutex back. -/
  | timerUnlock (j : τ) (c : Timer) (hpc : (w.timer j).thread.pc = .unlock)
      (hret : (w.timer j).ret .ok = some c) (hheld : w.owner = some (.inr j)) :
    Step w (.timerRet j .ok) { (w.setTimer j c) with owner := none }
  /-- Bytes of a timestamp reach the file. -/
  | timerFlush (j : τ) (n : ℕ) (env : B.WriteEnv) (file : B.State)
      (hpc : (w.timer j).thread.pc = .fwrite ∨ (w.timer j).thread.pc = .fclose)
      (hpos : 0 < n) (hle : n ≤ (w.timer j).out.length)
      (hwrite : B.write w.file (.inr j) env ((w.timer j).out.take n) = some file) :
    Step w (.timerFlush j n env) { (w.setTimer j { w.timer j with
        out := (w.timer j).out.drop n
        written := (w.timer j).written ++ (w.timer j).out.take n }) with file := file }

/-- **`World.step` does nothing else.** -/
theorem World.step_cases (h : w.step l = some w') : w.Step l w' := by
  cases l with
  | ret i o =>
    rw [World.step, World.clientRet] at h
    split at h
    · exact absurd h (by simp)
    · rename_i c hret
      split at h
      · rename_i hpc
        obtain ⟨hfree, rfl⟩ := Option.ite_some_none_eq_some.mp h
        exact .lock i c hpc hret hfree
      · rename_i hpc
        obtain ⟨hheld, rfl⟩ := Option.ite_some_none_eq_some.mp h
        exact .unlock i c hpc hret hheld
      · rename_i hlock hunlock
        obtain rfl := Option.some.inj h
        exact .ret i _ c hret (fun hl ↦ hlock hl.1 hl.2) fun hu ↦ hunlock hu.1 hu.2
  | flush i n env =>
    rw [World.step, World.clientFlush] at h
    obtain ⟨⟨hpc, hpos, hle⟩, h⟩ := Option.ite_none_right_eq_some.mp h
    split at h
    · exact absurd h (by simp)
    · rename_i file hwrite
      obtain rfl := Option.some.inj h
      exact .flush i n env file hpc hpos hle hwrite
  | fill i count env =>
    rw [World.step, World.clientFill] at h
    obtain ⟨⟨hpc, hpos, heof⟩, h⟩ := Option.ite_none_right_eq_some.mp h
    split at h
    · exact absurd h (by simp)
    · rename_i data fPos hread
      obtain rfl := Option.some.inj h
      exact .fill i count env data fPos hpc hpos heof hread
  | seek i env =>
    rw [World.step, World.clientSeek] at h
    split at h
    swap
    · exact absurd h (by simp)
    rename_i hpc harg
    dsimp only at h
    split at h
    · exact absurd h (by simp)
    · rename_i t hstep
      obtain rfl := Option.some.inj h
      refine .seek i env t _ _ hpc (by rw [harg]; rfl) ?_ hstep
      split
      · exact .inl rfl
      · exact .inr rfl
  | timerRet j o =>
    rw [World.step, World.timerRet] at h
    split at h
    · exact absurd h (by simp)
    · rename_i c hret
      split at h
      · rename_i hpc
        obtain ⟨hfree, rfl⟩ := Option.ite_some_none_eq_some.mp h
        exact .timerLock j c hpc hret hfree
      · rename_i hpc
        obtain ⟨hheld, rfl⟩ := Option.ite_some_none_eq_some.mp h
        exact .timerUnlock j c hpc hret hheld
      · rename_i hlock hunlock
        obtain rfl := Option.some.inj h
        exact .timerRet j _ c hret (fun hl ↦ hlock hl.1 hl.2) fun hu ↦ hunlock hu.1 hu.2
  | timerFlush j n env =>
    rw [World.step, World.timerFlush] at h
    obtain ⟨⟨hpc, hpos, hle⟩, h⟩ := Option.ite_none_right_eq_some.mp h
    split at h
    · exact absurd h (by simp)
    · rename_i file hwrite
      obtain rfl := Option.some.inj h
      exact .timerFlush j n env file hpc hpos hle hwrite

end Step

/-! ## Calls that succeed -/

/-- Every call succeeds, except that `reallocarray` refuses more than it can give and that the
driver may refuse to seek. -/
def AllSucceed {B : Backend (ι ⊕ τ)} (w : World B) : Label B → Bool
  | .ret i (.fail _) => decide ((w.client i).thread.pc = .realloc ∧
      2 ^ 63 ≤ sizeT (w.client i).thread.bufsize)
  | .ret _ (.short _ _) => false
  | .timerRet _ (.fail _) => false
  | .timerRet _ (.short _ _) => false
  | _ => true

/-- A call of a client thread returns with success; the lock, the unlock and the ioctl are not among
these calls. -/
inductive Client.Proceeds (build : Build) (c : Client) : Client → Prop
  /-- `malloc`. -/
  | malloc (hpc : c.thread.pc = .malloc) :
    Proceeds build c { c with thread := { c.thread with pc := .recv } }
  /-- `recv`. -/
  | recv (bs rest : List Byte) (hpc : c.thread.pc = .recv) (hin : c.input = bs ++ rest)
      (hend : bs = [] → c.input = []) (hlen : bs.length ≤ c.thread.recvSize) :
    Proceeds build c { c with thread := c.thread.received build bs, input := rest }
  /-- `reallocarray`. -/
  | realloc (hpc : c.thread.pc = .realloc) (hsize : sizeT c.thread.bufsize < 2 ^ 63) :
    Proceeds build c { c with thread := { c.thread with pc := .recv } }
  /-- `reallocarray` refuses. -/
  | giveUp (e : ℤ) (hpc : c.thread.pc = .realloc) (hsize : 2 ^ 63 ≤ sizeT c.thread.bufsize) :
    Proceeds build c { c with thread := { c.thread with errno := e, pc := .freeBuf } }
  /-- `free(buf)`. -/
  | freeBuf (hpc : c.thread.pc = .freeBuf) :
    Proceeds build c { c with
      thread := { c.thread with lastError := c.thread.errno, pc := .close } }
  /-- `printf`. -/
  | printf (hpc : c.thread.pc = .printf) :
    Proceeds build c { c with thread := c.thread.lineRead build c.thread.line }
  /-- `fopen(OUTPUT_FILE, "a")`. -/
  | fopenAppend (hpc : c.thread.pc = .fopenAppend) :
    Proceeds build c { c with thread := { c.thread with file := some .append, pc := .lock } }
  /-- `fwrite`. -/
  | fwrite (hpc : c.thread.pc = .fwrite) :
    Proceeds build c { c with thread := { c.thread with pc := .fcloseAppend } }
  /-- `fclose` of the append stream. -/
  | fcloseAppend (hpc : c.thread.pc = .fcloseAppend) (hout : c.out = []) :
    Proceeds build c { c with thread := { c.thread with pc := .fopenRead } }
  /-- `fopen(OUTPUT_FILE, "r")`. -/
  | fopenRead (hpc : c.thread.pc = .fopenRead) :
    Proceeds build c { c with
      thread := { c.thread with
        file := some .read, pc := if c.thread.seekTo.isSome then .ioctl else .getline }
      fPos := 0, rbuf := [], eof := false }
  /-- `getline`, at the end of the file. -/
  | getlineEnd (hpc : c.thread.pc = .getline) (hready : c.lineReady [] = true) :
    Proceeds build c { c with thread := { c.thread with pc := .freeGetline } }
  /-- `getline`, with a line. -/
  | getline (bs : List Byte) (hpc : c.thread.pc = .getline) (hne : bs ≠ [])
      (hready : c.lineReady bs = true) :
    Proceeds build c { c with
      thread := { c.thread with
        sendLine := bs, bytesLeft := bs.length, sendOffset := 0, pc := .send }
      rbuf := c.rbuf.drop bs.length }
  /-- `send`. -/
  | send (n : ℕ) (hpc : c.thread.pc = .send) (hpos : 1 ≤ n) (hle : n ≤ c.thread.bytesLeft) :
    Proceeds build c { c with
      thread := c.thread.sendLoop (c.thread.bytesLeft - n) (c.thread.advance n)
      got := c.got ++ (c.thread.sendLine.drop c.thread.sendOffset).take n }
  /-- `free(line)` in `send_file`. -/
  | freeGetline (e : ℤ) (hpc : c.thread.pc = .freeGetline) :
    Proceeds build c { c with thread := { c.thread with lastError := e, pc := .unlock } }
  /-- `fclose`. -/
  | fclose (hpc : c.thread.pc = .fclose) :
    Proceeds build c { c with thread := { c.thread with pc := .free } }
  /-- `free`. -/
  | free (hpc : c.thread.pc = .free) :
    Proceeds build c { c with thread := { c.thread with pc := .close } }
  /-- `close`. -/
  | close (hpc : c.thread.pc = .close) :
    Proceeds build c { c with thread := { c.thread with pc := .finish } }
  /-- `finished` is set. -/
  | finish (hpc : c.thread.pc = .finish) :
    Proceeds build c { c with thread := { c.thread with finished := true, pc := .done } }

/-- The lock is taken. -/
def Client.locked (c : Client) : Client :=
  let pc : Pc := if c.thread.seekTo.isSome then .fopenRead else .fwrite
  { c with thread := { c.thread with lastError := 0, pc := pc },
           out := if pc = .fwrite then c.thread.line else [] }

/-- **What a return does when it is no failure.** -/
theorem Client.ret_cases {build : Build} {c c' : Client} {o : Outcome}
    (hgood : ∀ e, o = .fail e → c.thread.pc = .realloc ∧ 2 ^ 63 ≤ sizeT c.thread.bufsize)
    (hshort : ∀ n e, o ≠ .short n e)
    (h : c.ret build o = some c') :
    c.Proceeds build c' ∨ (c.thread.pc = .lock ∧ o = .ok ∧ c' = c.locked) ∨
      (c.thread.pc = .unlock ∧ o = .ok ∧
        c' = { c with thread := { c.thread with pc := .fclose } }) := by
  rw [Client.ret] at h
  cases o with
  | short n e => exact absurd rfl (hshort n e)
  | fail e =>
    obtain ⟨hpc, hsize⟩ := hgood e rfl
    simp only [SockThread.step, hpc, Option.some.injEq] at h
    subst h
    exact .inl (.giveUp e hpc hsize)
  | bytes bs =>
    left
    cases hpc : c.thread.pc <;> simp only [SockThread.step, hpc, reduceCtorEq] at h
    case recv =>
      split at h
      · exact absurd h (by simp)
      · rename_i t hstep
        obtain ⟨hlen, rfl⟩ := Option.ite_some_none_eq_some.mp hstep
        obtain ⟨⟨hpre, hend⟩, rfl⟩ := Option.ite_some_none_eq_some.mp h
        obtain ⟨rest, hrest⟩ := List.isPrefixOf_iff_prefix.mp hpre
        rw [← hrest, List.drop_left]
        exact .recv bs rest hpc hrest.symm (hrest.symm ▸ hend) hlen
    case getline =>
      by_cases hnil : bs = []
      · subst hnil
        rw [if_pos rfl] at h
        obtain ⟨hready, rfl⟩ := Option.ite_some_none_eq_some.mp h
        exact .getlineEnd hpc hready
      · rw [if_neg hnil] at h
        obtain ⟨hready, rfl⟩ := Option.ite_some_none_eq_some.mp h
        exact .getline bs hpc hnil hready
  | count n =>
    left
    cases hpc : c.thread.pc <;> simp only [SockThread.step, hpc, reduceCtorEq] at h
    case fwrite =>
      split at h
      · exact absurd h (by simp)
      · rename_i t hstep
        obtain ⟨-, rfl⟩ := Option.ite_some_none_eq_some.mp hstep
        obtain rfl := Option.some.inj h
        exact .fwrite hpc
    case send =>
      split at h
      · exact absurd h (by simp)
      · rename_i t hstep
        obtain ⟨⟨hpos, hle⟩, rfl⟩ := Option.ite_some_none_eq_some.mp hstep
        obtain rfl := Option.some.inj h
        exact .send n hpc hpos hle
  | ok =>
    cases hpc : c.thread.pc <;>
      simp only [SockThread.step, hpc, reduceCtorEq, Option.some.injEq] at h
    case malloc => exact .inl (h ▸ .malloc hpc)
    case realloc =>
      split at h
      · exact absurd h (by simp)
      · rename_i t hstep
        obtain ⟨hsize, rfl⟩ := Option.ite_some_none_eq_some.mp hstep
        obtain rfl := Option.some.inj h
        exact .inl (.realloc hpc hsize)
    case freeBuf => exact .inl (h ▸ .freeBuf hpc)
    case printf => exact .inl (h ▸ .printf hpc)
    case fopenAppend => exact .inl (h ▸ .fopenAppend hpc)
    case lock => exact .inr (.inl ⟨rfl, rfl, h.symm⟩)
    case fcloseAppend =>
      obtain ⟨hout, rfl⟩ := Option.ite_some_none_eq_some.mp h
      exact .inl (.fcloseAppend hpc hout)
    case fopenRead => exact .inl (h ▸ .fopenRead hpc)
    case freeGetline => exact .inl (h ▸ .freeGetline _ hpc)
    case unlock => exact .inr (.inr ⟨rfl, rfl, h.symm⟩)
    case fclose => exact .inl (h ▸ .fclose hpc)
    case free => exact .inl (h ▸ .free hpc)
    case close => exact .inl (h ▸ .close hpc)
    case finish => exact .inl (h ▸ .finish hpc)

omit [DecidableEq ι] [DecidableEq τ] in
/-- A return that `AllSucceed` allows, and that neither takes the mutex nor gives it back. -/
theorem proceeds_of_ret {B : Backend (ι ⊕ τ)} {w : World B} {i : ι} {o : Outcome} {c : Client}
    (hgood : AllSucceed w (.ret i o) = true) (hret : (w.client i).ret B.build o = some c)
    (hlock : ¬((w.client i).thread.pc = .lock ∧ o = .ok))
    (hunlock : ¬((w.client i).thread.pc = .unlock ∧ o = .ok)) :
    (w.client i).Proceeds B.build c := by
  have hfail : ∀ e, o = .fail e → (w.client i).thread.pc = .realloc ∧
      2 ^ 63 ≤ sizeT (w.client i).thread.bufsize := by
    rintro e rfl
    rwa [AllSucceed, decide_eq_true_eq] at hgood
  have hshort : ∀ n e, o ≠ .short n e := by
    rintro n e rfl
    rw [AllSucceed] at hgood
    exact absurd hgood (by simp)
  rcases Client.ret_cases hfail hshort hret with hc | ⟨hpc, rfl, -⟩ | ⟨hpc, rfl, -⟩
  · exact hc
  · exact absurd ⟨hpc, rfl⟩ hlock
  · exact absurd ⟨hpc, rfl⟩ hunlock

/-! ## The device build -/

/-- The threads of the device build: there is no timer. -/
abbrev DeviceWorld (seek : FixedSizeLlseek) (ι : Type) : Type := World (charDevice seek (ι ⊕ Empty))

/-- The events of the device build. -/
abbrev DeviceLabel (seek : FixedSizeLlseek) (ι : Type) : Type := Label (charDevice seek (ι ⊕ Empty))

section Device

variable {seek : FixedSizeLlseek} {w w' : DeviceWorld seek ι}

/-- The device of a world. -/
def World.dev (w : DeviceWorld seek ι) : AesdDev := w.file

/-- A byte with the client it comes from. -/
abbrev Tagged (ι : Type) : Type := ι × Byte

/-- Is the byte a newline? -/
def endsLine (b : Tagged ι) : Bool := isNewline b.2

/-- The bytes of a client. -/
def tag (i : ι) (bs : List Byte) : List (Tagged ι) := bs.map (Prod.mk i)

/-- The record of the bytes that clients have written. -/
def World.record (w : DeviceWorld seek ι) (log : Delim.Log (Tagged ι)) :
    DeviceLabel seek ι → Delim.Log (Tagged ι)
  | .flush i n _ => log.add endsLine (tag i ((w.client i).out.take n))
  | _ => log

/-- One event in which nothing fails, with the record of what has been written. -/
def World.succeed :
    DeviceWorld seek ι × Delim.Log (Tagged ι) → DeviceLabel seek ι →
      Option (DeviceWorld seek ι × Delim.Log (Tagged ι)) :=
  Run.recording (Run.restrict World.step AllSucceed) World.record

/-- A client takes the mutex. -/
def World.lock (w : DeviceWorld seek ι) (i : ι) : DeviceWorld seek ι :=
  { (w.setClient i (w.client i).locked) with owner := some (.inl i), order := w.order ++ [i] }

/-- A client gives the mutex back. -/
def World.unlock (w : DeviceWorld seek ι) (i : ι) : DeviceWorld seek ι :=
  { (w.setClient i { w.client i with thread := { (w.client i).thread with pc := .fclose } }) with
    owner := none }

/-- Bytes of a client's line reach the device. -/
def World.flush (w : DeviceWorld seek ι) (i : ι) (n : ℕ) (env : WriteEnv) : DeviceWorld seek ι :=
  { (w.setClient i { w.client i with
      out := (w.client i).out.drop n
      written := (w.client i).written ++ (w.client i).out.take n }) with
    file := (w.dev.aesdWrite env 0 ((w.client i).out.take n)).1 }

/-- A client's read stream is filled. -/
def World.fill (w : DeviceWorld seek ι) (i : ι) (count : ℕ) (env : ReadEnv) :
    DeviceWorld seek ι :=
  w.setClient i { w.client i with
    fPos := (w.dev.aesdRead env (w.client i).fPos count).2.1
    rbuf := (w.client i).rbuf ++ (w.dev.aesdRead env (w.client i).fPos count).1
    eof := (w.dev.aesdRead env (w.client i).fPos count).1.isEmpty }

/-- **One event in which nothing fails.** -/
inductive DeviceStep (w : DeviceWorld seek ι) (log : Delim.Log (Tagged ι)) :
    DeviceWorld seek ι → Delim.Log (Tagged ι) → Prop
  /-- A call of a client returns. -/
  | proceed (i : ι) (c : Client) (h : (w.client i).Proceeds .device c) :
    DeviceStep w log (w.setClient i c) log
  /-- A client takes the mutex. -/
  | lock (i : ι) (hpc : (w.client i).thread.pc = .lock) (hfree : w.owner = none) :
    DeviceStep w log (w.lock i) log
  /-- A client gives the mutex back. -/
  | unlock (i : ι) (hpc : (w.client i).thread.pc = .unlock) (hheld : w.owner = some (.inl i)) :
    DeviceStep w log (w.unlock i) log
  /-- Bytes of a client's line reach the device. -/
  | flush (i : ι) (n : ℕ) (env : WriteEnv)
      (hpc : (w.client i).thread.pc = .fwrite ∨ (w.client i).thread.pc = .fcloseAppend)
      (hpos : 0 < n) (hle : n ≤ (w.client i).out.length)
      (henv : WriteCall.Succeeds ⟨0, (w.client i).out.take n, env⟩) :
    DeviceStep w log (w.flush i n env) (log.add endsLine (tag i ((w.client i).out.take n)))
  /-- A client's read stream is filled. -/
  | fill (i : ι) (count : ℕ) (env : ReadEnv) (hpc : (w.client i).thread.pc = .getline)
      (hpos : 0 < count) (heof : (w.client i).eof = false) (hint : env.interrupted = false)
      (hmiss : env.missing = 0) :
    DeviceStep w log (w.fill i count env) log
  /-- The ioctl returns, with success or not. -/
  | seek (i : ι) (t : SockThread) (fPos : ℕ) (hpc : (w.client i).thread.pc = .ioctl)
      (hctrl : (w.client i).thread.seekTo.isSome = true)
      (ht : t = { (w.client i).thread with pc := .getline } ∨
        t = { (w.client i).thread with errno := -1, lastError := -1, pc := .unlock }) :
    DeviceStep w log (w.setClient i { w.client i with thread := t, fPos := fPos }) log

/-- **`World.step` does nothing else.** -/
theorem deviceStep_of_step {l : DeviceLabel seek ι} (hgood : AllSucceed w l = true)
    (h : w.step l = some w') (log : Delim.Log (Tagged ι)) :
    DeviceStep w log w' (w.record log l) := by
  cases World.step_cases h with
  | timerRet j | timerLock j | timerUnlock j | timerFlush j => exact j.elim
  | ret i o c hret hlock hunlock =>
    exact .proceed i c (proceeds_of_ret hgood hret hlock hunlock)
  | lock i c hpc hret hfree =>
    simp only [Client.ret, SockThread.step, hpc, Option.some.injEq] at hret
    subst hret
    exact .lock i hpc hfree
  | unlock i c hpc hret hheld =>
    simp only [Client.ret, SockThread.step, hpc, Option.some.injEq] at hret
    subst hret
    exact .unlock i hpc hheld
  | flush i n env file hpc hpos hle hwrite =>
    obtain ⟨henv, rfl⟩ := Option.ite_some_none_eq_some.mp hwrite
    exact .flush i n env hpc hpos hle henv
  | fill i count env data fPos hpc hpos heof hread =>
    obtain ⟨⟨hint, hmiss⟩, hread⟩ := Option.ite_none_right_eq_some.mp hread
    obtain ⟨rfl, rfl⟩ := Prod.mk.inj (Option.some.inj hread)
    exact .fill i count env hpc hpos heof hint hmiss
  | seek i env t fPos o hpc hctrl ho hstep =>
    refine .seek i t fPos hpc hctrl ?_
    rcases ho with rfl | rfl <;> simp only [SockThread.step, hpc, Option.some.injEq] at hstep
    · exact .inl hstep.symm
    · exact .inr hstep.symm

theorem deviceStep_of_succeed {x x' : DeviceWorld seek ι × Delim.Log (Tagged ι)}
    {l : DeviceLabel seek ι} (h : World.succeed x l = some x') :
    DeviceStep x.1 x.2 x'.1 x'.2 := by
  obtain ⟨hstep, hrec⟩ := Run.recording_eq_some.mp h
  obtain ⟨hgood, hstep⟩ := Run.restrict_eq_some.mp hstep
  rw [hrec]
  exact deviceStep_of_step hgood hstep x.2

end Device

end Aesd
