import Aesd.Driver.Commands
import Aesd.Server.SockThread

/-!
# All the threads together

Any number of client threads, and in the build without the device any number of firings of
`timer_thread`, share one mutex and one `OUTPUT_FILE`.  A `World` is the state of all of them, a
`Label` is one atomic event, and `World.step` is its effect, so an interleaving is a list of labels.

The events are the returns of the calls the threads make and, between them, what the C library does
on the way.  A stream that is written to has a buffer, whose contents reach the file in pieces of
any size, while `fwrite` or `fclose` is running; `fclose` succeeds only when nothing is left.  A
stream that is read from is filled by reads of any size while `getline` is running, and `getline`
returns as soon as a line is there or the file has ended.

What a file is, is a `Backend`: the device of the driver, or a regular file.  A regular file is
modelled as the list of its bytes, each with the thread that added it.

`order` and the fields `written` and `got` of a client record what has happened and influence
nothing: who has taken the mutex, what a client's thread has written to the file, and what its
socket has been sent.
-/

set_option autoImplicit false

namespace Aesd

/-! ## The file -/

/-- What the threads find behind `OUTPUT_FILE`; `ω` are the threads. -/
structure Backend (ω : Type) where
  /-- The contents of the file. -/
  State : Type
  /-- What the kernel decides about a write. -/
  WriteEnv : Type
  /-- What the kernel decides about a read. -/
  ReadEnv : Type
  /-- What the kernel decides about the ioctl. -/
  SeekEnv : Type
  /-- The build it belongs to. -/
  build : Build
  /-- A write by a thread; nothing if it does not succeed. -/
  write : State → ω → WriteEnv → List Byte → Option State
  /-- A read at a position: the bytes and the new position; nothing if it does not succeed. -/
  read : State → ReadEnv → ℕ → ℕ → Option (List Byte × ℕ)
  /-- `AESDCHAR_IOCSEEKTO` at a position: does it succeed, and the new position. -/
  seekTo : State → SeekEnv → ℕ → AesdSeekto → Bool × ℕ

/-- The character device. -/
def charDevice (seek : FixedSizeLlseek) (ω : Type) : Backend ω where
  State := AesdDev
  WriteEnv := WriteEnv
  ReadEnv := ReadEnv
  SeekEnv := IoctlEnv
  build := .device
  write d _ env bs :=
    if WriteCall.Succeeds ⟨0, bs, env⟩ then some (d.aesdWrite env 0 bs).1 else none
  read d env pos count :=
    if env.interrupted = false ∧ env.missing = 0 then
      some ((d.aesdRead env pos count).1, (d.aesdRead env pos count).2.1)
    else none
  seekTo d env pos arg :=
    let (retval, pos) := aesdIoctl seek d env pos aesdcharIocseekto arg
    (decide (0 ≤ retval), pos)

/-- A regular file, opened for appending by those who write to it. -/
def regularFile (ω : Type) : Backend ω where
  State := List (ω × Byte)
  WriteEnv := Unit
  ReadEnv := Unit
  SeekEnv := Unit
  build := .file
  write f who _ bs := some (f ++ bs.map fun b ↦ (who, b))
  read f _ pos count :=
    let data := ((f.map Prod.snd).drop pos).take count
    some (data, pos + data.length)
  seekTo _ _ pos _ := (false, pos)

/-! ## The timer thread -/

/-- Where a `timer_thread` is: the call it makes next. -/
inductive TimerPc where
  /-- `fopen(OUTPUT_FILE, "a+")`. -/
  | fopen
  /-- `pthread_mutex_lock`. -/
  | lock
  /-- `strftime`. -/
  | strftime
  /-- `fwrite` in `append_to_file`. -/
  | fwrite
  /-- `pthread_mutex_unlock`. -/
  | unlock
  /-- `fclose`. -/
  | fclose
  /-- Returned. -/
  | done
  deriving DecidableEq, Repr

/-- The variables of a `timer_thread`. -/
structure TimerThread where
  /-- The call it makes next. -/
  pc : TimerPc
  /-- `rfc2822_time`. -/
  stamp : List Byte
  deriving DecidableEq

/-- `STRFTIME_BUF_SIZE`. -/
def strftimeBufSize : ℕ := 200

/-- The text appended: what `strftime` has written, with its last character replaced by a newline.
-/
def timestamp (bs : List Byte) : List Byte := cString (bs.set (bs.length - 1) newline)

namespace TimerThread

/-- A firing that has just begun. -/
def init : TimerThread := ⟨.fopen, []⟩

/-- What the thread does with the outcome of its call. -/
def step (t : TimerThread) (o : Outcome) : Option TimerThread :=
  match t.pc, o with
  | .fopen, .ok => some { t with pc := .lock }
  | .fopen, .fail _ => some { t with pc := .done }
  | .lock, .ok => some { t with pc := .strftime }
  | .lock, .fail _ => some { t with pc := .fclose }
  | .strftime, .bytes bs =>
    if bs = [] then some { t with pc := .unlock }
    else if bs.length < strftimeBufSize then some ⟨.fwrite, timestamp bs⟩ else none
  | .fwrite, .count n => if n = t.stamp.length then some { t with pc := .unlock } else none
  | .fwrite, .short n _ => if n < t.stamp.length then some { t with pc := .unlock } else none
  | .unlock, .ok => some { t with pc := .fclose }
  | .unlock, .fail _ => some { t with pc := .fclose }
  | .fclose, .ok => some { t with pc := .done }
  | .fclose, .fail _ => some { t with pc := .done }
  | _, _ => none

end TimerThread

/-! ## A client -/

/-- A client thread with its socket and its streams. -/
structure Client where
  /-- The thread. -/
  thread : SockThread
  /-- What the client has sent and the thread has not received. -/
  input : List Byte
  /-- The buffer of the append stream. -/
  out : List Byte
  /-- What has been written to the file. -/
  written : List Byte
  /-- The file position of the read stream. -/
  fPos : ℕ
  /-- The buffer of the read stream. -/
  rbuf : List Byte
  /-- The read stream has reached the end of the file. -/
  eof : Bool
  /-- What the client has been sent. -/
  got : List Byte

namespace Client

/-- A client that has sent a stream. -/
def init (stream : List Byte) (errno : ℤ) : Client :=
  ⟨.init errno, stream, [], [], 0, [], false, []⟩

/-- What `getline` can return: a line of the buffer, or the rest of it at the end of the file. -/
def lineReady (c : Client) (bs : List Byte) : Bool :=
  if c.rbuf.any isNewline then bs == Delim.firstRecord isNewline c.rbuf
  else c.eof && bs == c.rbuf

/-- The call of the thread returns; nothing if it cannot with this outcome. -/
def ret (c : Client) (build : Build) (o : Outcome) : Option Client :=
  match c.thread.step build o with
  | none => none
  | some t =>
    match c.thread.pc, o with
    | .recv, .bytes bs =>
      if bs.isPrefixOf c.input ∧ (bs = [] → c.input = []) then
        some { c with thread := t, input := c.input.drop bs.length }
      else none
    | .lock, .ok => some { c with thread := t, out := if t.pc = .fwrite then t.line else [] }
    | .fwrite, .short n _ =>
      if c.written.length ≤ n then
        some { c with thread := t, out := c.out.take (n - c.written.length) }
      else none
    | .fcloseAppend, .ok => if c.out = [] then some { c with thread := t } else none
    | .fcloseAppend, .fail _ => some { c with thread := t, out := [] }
    | .fopenRead, .ok => some { c with thread := t, fPos := 0, rbuf := [], eof := false }
    | .ioctl, _ => none
    | .getline, .bytes bs =>
      if c.lineReady bs then some { c with thread := t, rbuf := c.rbuf.drop bs.length } else none
    | .send, .count n =>
      let sent := (c.thread.sendLine.drop c.thread.sendOffset).take n
      some { c with thread := t, got := c.got ++ sent }
    | _, _ => some { c with thread := t }

end Client

/-- A firing of the timer with its stream. -/
structure Timer where
  /-- The thread. -/
  thread : TimerThread
  /-- The buffer of the stream. -/
  out : List Byte
  /-- What has been written to the file. -/
  written : List Byte

namespace Timer

/-- A firing that has just begun. -/
def init : Timer := ⟨.init, [], []⟩

/-- The call of the thread returns; nothing if it cannot with this outcome. -/
def ret (c : Timer) (o : Outcome) : Option Timer :=
  match c.thread.step o with
  | none => none
  | some t =>
    match c.thread.pc, o with
    | .strftime, .bytes _ => some { c with thread := t, out := t.stamp }
    | .fwrite, .short n _ =>
      if c.written.length ≤ n then
        some { c with thread := t, out := c.out.take (n - c.written.length) }
      else none
    | .fclose, .ok => if c.out = [] then some { c with thread := t } else none
    | .fclose, .fail _ => some { c with thread := t, out := [] }
    | _, _ => some { c with thread := t }

end Timer

/-! ## The world -/

variable {ι τ : Type}

/-- All the threads, the mutex and the file. -/
structure World (B : Backend (ι ⊕ τ)) where
  /-- The file. -/
  file : B.State
  /-- The clients. -/
  client : ι → Client
  /-- The firings of the timer. -/
  timer : τ → Timer
  /-- The thread that holds the mutex. -/
  owner : Option (ι ⊕ τ)
  /-- The clients that have taken the mutex, in order. -/
  order : List ι

/-- One atomic event. -/
inductive Label (B : Backend (ι ⊕ τ)) where
  /-- The call of a client thread returns. -/
  | ret (i : ι) (o : Outcome)
  /-- Bytes of a client's append stream reach the file. -/
  | flush (i : ι) (n : ℕ) (env : B.WriteEnv)
  /-- A client's read stream is filled. -/
  | fill (i : ι) (count : ℕ) (env : B.ReadEnv)
  /-- The ioctl of a client thread returns. -/
  | seek (i : ι) (env : B.SeekEnv)
  /-- The call of a `timer_thread` returns. -/
  | timerRet (j : τ) (o : Outcome)
  /-- Bytes of the stream of a `timer_thread` reach the file. -/
  | timerFlush (j : τ) (n : ℕ) (env : B.WriteEnv)

namespace World

variable {B : Backend (ι ⊕ τ)}

/-- Nobody has started yet. -/
def init (B : Backend (ι ⊕ τ)) (file : B.State) (stream : ι → List Byte) (errno : ι → ℤ) :
    World B :=
  ⟨file, fun i ↦ .init (stream i) (errno i), fun _ ↦ .init, none, []⟩

variable [DecidableEq ι] [DecidableEq τ]

/-- Replace a client. -/
def setClient (w : World B) (i : ι) (c : Client) : World B :=
  { w with client := Function.update w.client i c }

/-- Replace a firing of the timer. -/
def setTimer (w : World B) (j : τ) (c : Timer) : World B :=
  { w with timer := Function.update w.timer j c }

/-- A client's call returns. -/
def clientRet (w : World B) (i : ι) (o : Outcome) : Option (World B) :=
  match (w.client i).ret B.build o with
  | none => none
  | some c =>
    match (w.client i).thread.pc, o with
    | .lock, .ok =>
      if w.owner = none then
        some { (w.setClient i c) with owner := some (.inl i), order := w.order ++ [i] }
      else none
    | .unlock, .ok =>
      if w.owner = some (.inl i) then some { (w.setClient i c) with owner := none } else none
    | _, _ => some (w.setClient i c)

/-- A client's append stream is being written: `fwrite` or `fclose` is running. -/
def clientFlush (w : World B) (i : ι) (n : ℕ) (env : B.WriteEnv) : Option (World B) :=
  let c := w.client i
  if (c.thread.pc = .fwrite ∨ c.thread.pc = .fcloseAppend) ∧ 0 < n ∧ n ≤ c.out.length then
    match B.write w.file (.inl i) env (c.out.take n) with
    | none => none
    | some file =>
      let c := { c with out := c.out.drop n, written := c.written ++ c.out.take n }
      some { (w.setClient i c) with file := file }
  else none

/-- A client's read stream is filled while `getline` is running. -/
def clientFill (w : World B) (i : ι) (count : ℕ) (env : B.ReadEnv) : Option (World B) :=
  let c := w.client i
  if c.thread.pc = .getline ∧ 0 < count ∧ c.eof = false then
    match B.read w.file env c.fPos count with
    | none => none
    | some (data, fPos) =>
      some (w.setClient i { c with fPos := fPos, rbuf := c.rbuf ++ data, eof := data.isEmpty })
  else none

/-- A client's ioctl returns. -/
def clientSeek (w : World B) (i : ι) (env : B.SeekEnv) : Option (World B) :=
  let c := w.client i
  match c.thread.pc, c.thread.seekTo with
  | .ioctl, some arg =>
    let (ok, fPos) := B.seekTo w.file env c.fPos arg
    match c.thread.step B.build (if ok then .ok else .fail EINVAL) with
    | none => none
    | some t => some (w.setClient i { c with thread := t, fPos := fPos })
  | _, _ => none

/-- A call of a `timer_thread` returns. -/
def timerRet (w : World B) (j : τ) (o : Outcome) : Option (World B) :=
  match (w.timer j).ret o with
  | none => none
  | some c =>
    match (w.timer j).thread.pc, o with
    | .lock, .ok =>
      if w.owner = none then some { (w.setTimer j c) with owner := some (.inr j) } else none
    | .unlock, .ok =>
      if w.owner = some (.inr j) then some { (w.setTimer j c) with owner := none } else none
    | _, _ => some (w.setTimer j c)

/-- The stream of a `timer_thread` is being written: `fwrite` or `fclose` is running. -/
def timerFlush (w : World B) (j : τ) (n : ℕ) (env : B.WriteEnv) : Option (World B) :=
  let c := w.timer j
  if (c.thread.pc = .fwrite ∨ c.thread.pc = .fclose) ∧ 0 < n ∧ n ≤ c.out.length then
    match B.write w.file (.inr j) env (c.out.take n) with
    | none => none
    | some file =>
      let c := { c with out := c.out.drop n, written := c.written ++ c.out.take n }
      some { (w.setTimer j c) with file := file }
  else none

/-- One event. -/
def step (w : World B) : Label B → Option (World B)
  | .ret i o => w.clientRet i o
  | .flush i n env => w.clientFlush i n env
  | .fill i count env => w.clientFill i count env
  | .seek i env => w.clientSeek i env
  | .timerRet j o => w.timerRet j o
  | .timerFlush j n env => w.timerFlush j n env

end World

end Aesd
