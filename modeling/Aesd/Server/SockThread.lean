import Aesd.Server.CtrlLine
import Aesd.Lib.Delim
import Aesd.Lib.Run

/-!
# The client thread

`sock_thread_func` of `sock_thread.c`, with `readline_from_socket`, `send_file` and `append_to_file`
inlined, as a machine that makes one library or system call after another.  `SockThread.call` is the
call the thread makes next, and `SockThread.step` is what it does with the outcome; an outcome that
the call cannot have is refused.  So an execution is a list of outcomes, and a statement about every
pattern of outcomes quantifies over such lists.  `branch_of_step` says what a step can do, and
`exec_invariant` is the rule for what every step keeps.

Conventions.

* `int` and `size_t` variables wrap around.  A line fits into memory, so the two `size_t` variables
  of `send_file` can only do so once `send` has failed and they have been changed by `-1`.
* `buf` holds the bytes received so far, that is the first `offset` bytes of the buffer.
* `file` is the stream the variable of that name points to.  A stream is named by how it was opened;
  after `fclose` the variable still names the closed stream.
* A call that fails sets `errno`, and one that succeeds leaves it alone.  Whether `printf` has
  failed is not looked at, but its `errno` stays.  `perror` is not among the calls: it comes after a
  failure, and if it fails too there is another error number instead of the first.  `syslog` comes
  when `errno` is not looked at any more.
* `append_to_file` returns `true` even after a short `fwrite`: the statement `false;` in it has no
  effect.  So the jump to `err_append_to_file` is never taken.
* `reallocarray` fails on a request of more than `PTRDIFF_MAX` bytes.
-/

set_option autoImplicit false

namespace Aesd

/-- The two builds: with `USE_AESD_CHAR_DEVICE` and without. -/
inductive Build where
  /-- `OUTPUT_FILE` is the device. -/
  | device
  /-- `OUTPUT_FILE` is a regular file. -/
  | file
  deriving DecidableEq, Repr

/-- How a stream was opened. -/
inductive Mode where
  /-- `"a"`. -/
  | append
  /-- `"r"`. -/
  | read
  deriving DecidableEq, Repr

/-- `BUFLEN`. -/
def buflen : ℕ := 1024

/-- A call a client thread makes. -/
inductive Call where
  /-- `malloc` of the line buffer. -/
  | malloc (size : ℕ)
  /-- `recv` of at most so many bytes. -/
  | recv (size : ℕ)
  /-- `reallocarray` of the line buffer. -/
  | reallocarray (size : ℕ)
  /-- `free` of the line buffer. -/
  | free
  /-- `printf` of the size of the line. -/
  | printf (lineSize : ℕ)
  /-- `fopen` of `OUTPUT_FILE`. -/
  | fopen (mode : Mode)
  /-- `pthread_mutex_lock`. -/
  | mutexLock
  /-- `fwrite`. -/
  | fwrite (line : List Byte)
  /-- `fclose`, of a stream or of `NULL`. -/
  | fclose (stream : Option Mode)
  /-- `ioctl` with `AESDCHAR_IOCSEEKTO`. -/
  | ioctl (seekTo : AesdSeekto)
  /-- `getline`. -/
  | getline
  /-- `send` of so many bytes of the line, from an offset on. -/
  | send (offset size : ℕ)
  /-- `free` of the buffer of `getline`. -/
  | freeGetline
  /-- `pthread_mutex_unlock`. -/
  | mutexUnlock
  /-- `close` of the client socket. -/
  | close
  /-- `args->finished = true`. -/
  | finish
  deriving DecidableEq, Repr

/-- What a call comes back with. -/
inductive Outcome where
  /-- Success, with nothing to report. -/
  | ok
  /-- Failure, with an error number. -/
  | fail (errno : ℤ)
  /-- Bytes; none of them means the end of the stream. -/
  | bytes (bs : List Byte)
  /-- The number of bytes taken. -/
  | count (n : ℕ)
  /-- The number of bytes taken, fewer than asked, with an error number. -/
  | short (n : ℕ) (errno : ℤ)
  deriving DecidableEq, Repr

/-- Where a client thread is: the call it makes next. -/
inductive Pc where
  /-- `malloc` in `readline_from_socket`. -/
  | malloc
  /-- `recv` in `readline_from_socket`. -/
  | recv
  /-- `reallocarray` in `readline_from_socket`. -/
  | realloc
  /-- `free(buf)` after a failure in `readline_from_socket`. -/
  | freeBuf
  /-- `printf` in `readline_from_socket`. -/
  | printf
  /-- `fopen(OUTPUT_FILE, "a")`. -/
  | fopenAppend
  /-- `pthread_mutex_lock`. -/
  | lock
  /-- `fwrite` in `append_to_file`. -/
  | fwrite
  /-- `fclose` of the append stream. -/
  | fcloseAppend
  /-- `fopen(OUTPUT_FILE, "r")`. -/
  | fopenRead
  /-- `ioctl`. -/
  | ioctl
  /-- `getline` in `send_file`. -/
  | getline
  /-- `send` in `send_file`. -/
  | send
  /-- `free(line)` in `send_file`. -/
  | freeGetline
  /-- `pthread_mutex_unlock`. -/
  | unlock
  /-- `fclose` at `err_mutex_lock`. -/
  | fclose
  /-- `free` at `err_fopen_a`. -/
  | free
  /-- `close` at `err_readline_from_socket`. -/
  | close
  /-- Setting `finished`. -/
  | finish
  /-- Returned. -/
  | done
  deriving DecidableEq, Repr

/-- The variables of a client thread. -/
structure SockThread where
  /-- The call it makes next. -/
  pc : Pc
  /-- The bytes received. -/
  buf : List Byte
  /-- `bufsize` of `readline_from_socket`. -/
  bufsize : ℤ
  /-- `offset` of `readline_from_socket`. -/
  offset : ℤ
  /-- The first `line_size` bytes at `line`. -/
  line : List Byte
  /-- `seek_to`, if `is_ctrl_cmd`. -/
  seekTo : Option AesdSeekto
  /-- `file`. -/
  file : Option Mode
  /-- `args->last_error`. -/
  lastError : ℤ
  /-- `errno`. -/
  errno : ℤ
  /-- The line `getline` returned in `send_file`. -/
  sendLine : List Byte
  /-- `bytes_left` of `send_file`. -/
  bytesLeft : ℕ
  /-- `offset` of `send_file`. -/
  sendOffset : ℕ
  /-- `args->finished`. -/
  finished : Bool
  deriving DecidableEq

namespace SockThread

/-- A thread that has just been created, with the value `errno` starts with. -/
def init (errno : ℤ) : SockThread where
  pc := .malloc
  buf := []
  bufsize := buflen
  offset := 0
  line := []
  seekTo := none
  file := none
  lastError := 0
  errno := errno
  sendLine := []
  bytesLeft := 0
  sendOffset := 0
  finished := false

/-- The size passed to `recv`. -/
def recvSize (t : SockThread) : ℕ := sizeT (int32 (t.bufsize - t.offset))

/-- The next call. -/
def call (t : SockThread) : Option Call :=
  match t.pc with
  | .malloc => some (.malloc buflen)
  | .recv => some (.recv t.recvSize)
  | .realloc => some (.reallocarray (sizeT t.bufsize))
  | .freeBuf => some .free
  | .printf => some (.printf t.line.length)
  | .fopenAppend => some (.fopen .append)
  | .lock => some .mutexLock
  | .fwrite => some (.fwrite t.line)
  | .fcloseAppend => some (.fclose t.file)
  | .fopenRead => some (.fopen .read)
  | .ioctl => t.seekTo.map .ioctl
  | .getline => some .getline
  | .send => some (.send t.sendOffset t.bytesLeft)
  | .freeGetline => some .freeGetline
  | .unlock => some .mutexUnlock
  | .fclose => some (.fclose t.file)
  | .free => some .free
  | .close => some .close
  | .finish => some .finish
  | .done => none

/-- The control command in a line: only the device build looks for one. -/
def ctrlCmd (build : Build) (line : List Byte) : Option AesdSeekto :=
  match build with
  | .device => parseCtrlLine line
  | .file => none

/-- `readline_from_socket` has returned a line. -/
def lineRead (t : SockThread) (build : Build) (line : List Byte) : SockThread :=
  let seekTo := ctrlCmd build line
  { t with line := line, seekTo := seekTo, pc := if seekTo.isSome then .lock else .fopenAppend }

/-- Received bytes go behind those already there. -/
def keep (t : SockThread) (bs : List Byte) : SockThread :=
  { t with buf := t.buf ++ bs, offset := int32 (t.offset + bs.length) }

/-- A full buffer is to be doubled. -/
def doubleIfFull (t : SockThread) : SockThread :=
  if t.offset = t.bufsize then { t with bufsize := int32 (t.bufsize * 2), pc := .realloc } else t

/-- The line is complete, with its newline. -/
def lineEnded (t : SockThread) (line : List Byte) : SockThread :=
  { t with line := line, pc := .printf }

/-- `recv` has delivered bytes: the end of the stream, the end of the line, or more of it. -/
def received (t : SockThread) (build : Build) (bs : List Byte) : SockThread :=
  if bs = [] then t.lineRead build t.buf
  else if bs.any isNewline then t.lineEnded (t.buf ++ Delim.firstRecord isNewline bs)
  else (t.keep bs).doubleIfFull

/-- Record an error unless there is one already. -/
def firstError (t : SockThread) (e : ℤ) : SockThread :=
  { t with lastError := if t.lastError = 0 then e else t.lastError }

/-- `offset += bytes_sent`.  Up to the end of the line, which is in memory, nothing wraps around. -/
def advance (t : SockThread) (n : ℕ) : ℕ :=
  if t.sendOffset + n ≤ t.sendLine.length then t.sendOffset + n else sizeT (t.sendOffset + n)

/-- Back to the test of the inner loop of `send_file`. -/
def sendLoop (t : SockThread) (bytesLeft sendOffset : ℕ) : SockThread :=
  { t with bytesLeft := bytesLeft, sendOffset := sendOffset,
           pc := if bytesLeft > 0 then .send else .getline }

/-- What the thread does with the outcome of its call. -/
def step (build : Build) (t : SockThread) (o : Outcome) : Option SockThread :=
  match t.pc, o with
  | .malloc, .ok => some { t with pc := .recv }
  | .malloc, .fail e => some { t with errno := e, lastError := e, pc := .close }
  | .recv, .bytes bs => if bs.length ≤ t.recvSize then some (t.received build bs) else none
  | .recv, .fail e => some { t with errno := e, pc := .freeBuf }
  | .realloc, .ok => if sizeT t.bufsize < 2 ^ 63 then some { t with pc := .recv } else none
  | .realloc, .fail e => some { t with errno := e, pc := .freeBuf }
  | .freeBuf, .ok => some { t with lastError := t.errno, pc := .close }
  | .printf, .ok => some (t.lineRead build t.line)
  | .printf, .fail e => some { (t.lineRead build t.line) with errno := e }
  | .fopenAppend, .ok => some { t with file := some .append, pc := .lock }
  | .fopenAppend, .fail e =>
    some { t with file := none, errno := e, lastError := e, pc := .free }
  | .lock, .ok =>
    some { t with lastError := 0, pc := if t.seekTo.isSome then .fopenRead else .fwrite }
  | .lock, .fail e => some { t with lastError := e, errno := e, pc := .fclose }
  | .fwrite, .count n => if n = t.line.length then some { t with pc := .fcloseAppend } else none
  | .fwrite, .short n e =>
    if n < t.line.length then some { t with errno := e, pc := .fcloseAppend } else none
  | .fcloseAppend, .ok => some { t with pc := .fopenRead }
  | .fcloseAppend, .fail e => some { (t.firstError e) with errno := e, pc := .fopenRead }
  | .fopenRead, .ok =>
    some { t with file := some .read, pc := if t.seekTo.isSome then .ioctl else .getline }
  | .fopenRead, .fail e =>
    some { t with file := none, errno := e, lastError := e, pc := .unlock }
  | .ioctl, .ok => some { t with pc := .getline }
  | .ioctl, .fail _ => some { t with errno := -1, lastError := -1, pc := .unlock }
  | .getline, .bytes bs =>
    if bs = [] then some { t with pc := .freeGetline }
    else some { t with sendLine := bs, bytesLeft := bs.length, sendOffset := 0, pc := .send }
  | .getline, .fail e => some { t with errno := e, pc := .freeGetline }
  | .send, .count n =>
    if 1 ≤ n ∧ n ≤ t.bytesLeft then some (t.sendLoop (t.bytesLeft - n) (t.advance n)) else none
  | .send, .fail e =>
    some { (t.sendLoop (sizeT (t.bytesLeft + 1)) (sizeT (t.sendOffset - 1))) with errno := e }
  | .freeGetline, .ok =>
    some { t with lastError := if t.errno ≠ 0 then t.errno else t.lastError, pc := .unlock }
  | .unlock, .ok => some { t with pc := .fclose }
  | .unlock, .fail e => some { (t.firstError e) with errno := e, pc := .fclose }
  | .fclose, .ok => some { t with pc := .free }
  | .fclose, .fail e => some { (t.firstError e) with errno := e, pc := .free }
  | .free, .ok => some { t with pc := .close }
  | .close, .ok => some { t with pc := .finish }
  | .close, .fail e => some { t with errno := e, pc := .finish }
  | .finish, .ok => some { t with finished := true, pc := .done }
  | _, _ => none

/-! ## Where the control goes -/

@[simp] theorem firstError_seekTo (t : SockThread) (e : ℤ) :
    (t.firstError e).seekTo = t.seekTo := rfl

/-- Received bytes complete a line, or are kept, and then the buffer may have to be doubled. -/
theorem received_cases (build : Build) (t : SockThread) (bs : List Byte) :
    (∃ line, t.received build bs = t.lineRead build line) ∨
      (∃ line, t.received build bs = t.lineEnded line) ∨ t.received build bs = t.keep bs ∨
      t.received build bs =
        { t.keep bs with bufsize := int32 ((t.keep bs).bufsize * 2), pc := .realloc } := by
  rw [received]
  split
  · exact .inl ⟨_, rfl⟩
  · split
    · exact .inr (.inl ⟨_, rfl⟩)
    · rw [doubleIfFull]
      split
      · exact .inr (.inr (.inr rfl))
      · exact .inr (.inr (.inl rfl))

/-- A line is of one kind or the other. -/
theorem control_lineRead (build : Build) (t : SockThread) (line : List Byte) :
    ((t.lineRead build line).pc = .fopenAppend ∧ (t.lineRead build line).seekTo.isSome = false) ∨
      ((t.lineRead build line).pc = .lock ∧ (t.lineRead build line).seekTo.isSome = true) := by
  cases hk : (ctrlCmd build line).isSome with
  | true => exact .inr ⟨by simp [lineRead, hk], hk⟩
  | false => exact .inl ⟨by simp [lineRead, hk], hk⟩

/-- Reading goes on, or the line is complete, or the stream has ended with a line of one kind or the
other. -/
theorem control_received (build : Build) (t : SockThread) (hpc : t.pc = .recv) (bs : List Byte) :
    (t.received build bs).file = t.file ∧
      (((t.received build bs).pc = .recv ∨ (t.received build bs).pc = .realloc ∨
          (t.received build bs).pc = .printf) ∨
        ((t.received build bs).pc = .fopenAppend ∧ (t.received build bs).seekTo.isSome = false) ∨
        ((t.received build bs).pc = .lock ∧ (t.received build bs).seekTo.isSome = true)) := by
  rcases received_cases build t bs with ⟨line, heq⟩ | ⟨line, heq⟩ | heq | heq <;> rw [heq]
  · exact ⟨rfl, .inr (control_lineRead build t line)⟩
  · exact ⟨rfl, .inl (.inr (.inr rfl))⟩
  · exact ⟨rfl, .inl (.inl hpc)⟩
  · exact ⟨rfl, .inl (.inr (.inl rfl))⟩

theorem advance_eq {t : SockThread} {n : ℕ} (h : t.sendOffset + n ≤ t.sendLine.length) :
    t.advance n = t.sendOffset + n := if_pos h

theorem control_sendLoop (t : SockThread) (bytesLeft sendOffset : ℕ) :
    (t.sendLoop bytesLeft sendOffset).pc = .send ∨
      (t.sendLoop bytesLeft sendOffset).pc = .getline := by
  rw [sendLoop]
  dsimp only
  split
  · exact .inl rfl
  · exact .inr rfl

@[simp] theorem finished_lineRead (build : Build) (t : SockThread) (line : List Byte) :
    (t.lineRead build line).finished = t.finished := rfl

@[simp] theorem finished_sendLoop (t : SockThread) (bytesLeft sendOffset : ℕ) :
    (t.sendLoop bytesLeft sendOffset).finished = t.finished := rfl

theorem finished_received (build : Build) (t : SockThread) (bs : List Byte) :
    (t.received build bs).finished = t.finished := by
  rcases received_cases build t bs with ⟨line, heq⟩ | ⟨line, heq⟩ | heq | heq <;> rw [heq] <;> rfl

/-! ## The branches of a step -/

/-- What becomes of a thread, with the outcome of its call: one constructor for each branch of
`step`, with the condition it is taken under. -/
inductive Branch (build : Build) (t : SockThread) : Outcome → SockThread → Prop
  | malloc (hpc : t.pc = .malloc) : Branch build t .ok { t with pc := .recv }
  | mallocFail (e : ℤ) (hpc : t.pc = .malloc) :
    Branch build t (.fail e) { t with errno := e, lastError := e, pc := .close }
  | recv (bs : List Byte) (hpc : t.pc = .recv) (hlen : bs.length ≤ t.recvSize) :
    Branch build t (.bytes bs) (t.received build bs)
  | recvFail (e : ℤ) (hpc : t.pc = .recv) :
    Branch build t (.fail e) { t with errno := e, pc := .freeBuf }
  | realloc (hpc : t.pc = .realloc) (hsize : sizeT t.bufsize < 2 ^ 63) :
    Branch build t .ok { t with pc := .recv }
  | reallocFail (e : ℤ) (hpc : t.pc = .realloc) :
    Branch build t (.fail e) { t with errno := e, pc := .freeBuf }
  | freeBuf (hpc : t.pc = .freeBuf) :
    Branch build t .ok { t with lastError := t.errno, pc := .close }
  | printf (hpc : t.pc = .printf) : Branch build t .ok (t.lineRead build t.line)
  | printfFail (e : ℤ) (hpc : t.pc = .printf) :
    Branch build t (.fail e) { (t.lineRead build t.line) with errno := e }
  | fopenAppend (hpc : t.pc = .fopenAppend) :
    Branch build t .ok { t with file := some .append, pc := .lock }
  | fopenAppendFail (e : ℤ) (hpc : t.pc = .fopenAppend) :
    Branch build t (.fail e) { t with file := none, errno := e, lastError := e, pc := .free }
  | lockLine (hpc : t.pc = .lock) (hk : t.seekTo.isSome = false) :
    Branch build t .ok { t with lastError := 0, pc := .fwrite }
  | lockCtrl (hpc : t.pc = .lock) (hk : t.seekTo.isSome = true) :
    Branch build t .ok { t with lastError := 0, pc := .fopenRead }
  | lockFail (e : ℤ) (hpc : t.pc = .lock) :
    Branch build t (.fail e) { t with lastError := e, errno := e, pc := .fclose }
  | fwrite (hpc : t.pc = .fwrite) :
    Branch build t (.count t.line.length) { t with pc := .fcloseAppend }
  | fwriteShort (n : ℕ) (e : ℤ) (hpc : t.pc = .fwrite) (hlt : n < t.line.length) :
    Branch build t (.short n e) { t with errno := e, pc := .fcloseAppend }
  | fcloseAppend (hpc : t.pc = .fcloseAppend) : Branch build t .ok { t with pc := .fopenRead }
  | fcloseAppendFail (e : ℤ) (hpc : t.pc = .fcloseAppend) :
    Branch build t (.fail e) { (t.firstError e) with errno := e, pc := .fopenRead }
  | fopenReadLine (hpc : t.pc = .fopenRead) (hk : t.seekTo.isSome = false) :
    Branch build t .ok { t with file := some .read, pc := .getline }
  | fopenReadCtrl (hpc : t.pc = .fopenRead) (hk : t.seekTo.isSome = true) :
    Branch build t .ok { t with file := some .read, pc := .ioctl }
  | fopenReadFail (e : ℤ) (hpc : t.pc = .fopenRead) :
    Branch build t (.fail e) { t with file := none, errno := e, lastError := e, pc := .unlock }
  | ioctl (hpc : t.pc = .ioctl) : Branch build t .ok { t with pc := .getline }
  | ioctlFail (e : ℤ) (hpc : t.pc = .ioctl) :
    Branch build t (.fail e) { t with errno := -1, lastError := -1, pc := .unlock }
  | getline (bs : List Byte) (hpc : t.pc = .getline) (hne : bs ≠ []) :
    Branch build t (.bytes bs)
      { t with sendLine := bs, bytesLeft := bs.length, sendOffset := 0, pc := .send }
  | getlineEnd (hpc : t.pc = .getline) : Branch build t (.bytes []) { t with pc := .freeGetline }
  | getlineFail (e : ℤ) (hpc : t.pc = .getline) :
    Branch build t (.fail e) { t with errno := e, pc := .freeGetline }
  | send (n : ℕ) (hpc : t.pc = .send) (hpos : 1 ≤ n) (hle : n ≤ t.bytesLeft) :
    Branch build t (.count n) (t.sendLoop (t.bytesLeft - n) (t.advance n))
  | sendFail (e : ℤ) (hpc : t.pc = .send) :
    Branch build t (.fail e)
      { (t.sendLoop (sizeT (t.bytesLeft + 1)) (sizeT (t.sendOffset - 1))) with errno := e }
  | freeGetline (hpc : t.pc = .freeGetline) :
    Branch build t .ok
      { t with lastError := if t.errno ≠ 0 then t.errno else t.lastError, pc := .unlock }
  | unlock (hpc : t.pc = .unlock) : Branch build t .ok { t with pc := .fclose }
  | unlockFail (e : ℤ) (hpc : t.pc = .unlock) :
    Branch build t (.fail e) { (t.firstError e) with errno := e, pc := .fclose }
  | fclose (hpc : t.pc = .fclose) : Branch build t .ok { t with pc := .free }
  | fcloseFail (e : ℤ) (hpc : t.pc = .fclose) :
    Branch build t (.fail e) { (t.firstError e) with errno := e, pc := .free }
  | free (hpc : t.pc = .free) : Branch build t .ok { t with pc := .close }
  | close (hpc : t.pc = .close) : Branch build t .ok { t with pc := .finish }
  | closeFail (e : ℤ) (hpc : t.pc = .close) :
    Branch build t (.fail e) { t with errno := e, pc := .finish }
  | finish (hpc : t.pc = .finish) : Branch build t .ok { t with finished := true, pc := .done }

/-- **What a step can do.** -/
theorem branch_of_step {build : Build} {t t' : SockThread} {o : Outcome}
    (h : t.step build o = some t') : t.Branch build o t' := by
  cases hpc : t.pc <;> cases o <;> simp only [step, hpc, reduceCtorEq, Option.some.injEq,
    Option.ite_none_right_eq_some] at h
  case malloc.ok => exact h ▸ .malloc hpc
  case malloc.fail e => exact h ▸ .mallocFail e hpc
  case recv.bytes bs => exact h.2 ▸ .recv bs hpc h.1
  case recv.fail e => exact h ▸ .recvFail e hpc
  case realloc.ok => exact h.2 ▸ .realloc hpc h.1
  case realloc.fail e => exact h ▸ .reallocFail e hpc
  case freeBuf.ok => exact h ▸ .freeBuf hpc
  case printf.ok => exact h ▸ .printf hpc
  case printf.fail e => exact h ▸ .printfFail e hpc
  case fopenAppend.ok => exact h ▸ .fopenAppend hpc
  case fopenAppend.fail e => exact h ▸ .fopenAppendFail e hpc
  case lock.ok =>
    subst h
    cases hk : t.seekTo.isSome with
    | false => exact .lockLine hpc hk
    | true => exact .lockCtrl hpc hk
  case lock.fail e => exact h ▸ .lockFail e hpc
  case fwrite.count n =>
    obtain ⟨rfl, rfl⟩ := h
    exact .fwrite hpc
  case fwrite.short n e => exact h.2 ▸ .fwriteShort n e hpc h.1
  case fcloseAppend.ok => exact h ▸ .fcloseAppend hpc
  case fcloseAppend.fail e => exact h ▸ .fcloseAppendFail e hpc
  case fopenRead.ok =>
    subst h
    cases hk : t.seekTo.isSome with
    | false => exact .fopenReadLine hpc hk
    | true => exact .fopenReadCtrl hpc hk
  case fopenRead.fail e => exact h ▸ .fopenReadFail e hpc
  case ioctl.ok => exact h ▸ .ioctl hpc
  case ioctl.fail e => exact h ▸ .ioctlFail e hpc
  case getline.bytes bs =>
    split at h <;> obtain rfl := Option.some.inj h
    · rename_i hnil
      exact hnil ▸ .getlineEnd hpc
    · exact .getline bs hpc ‹_›
  case getline.fail e => exact h ▸ .getlineFail e hpc
  case send.count n => exact h.2 ▸ .send n hpc h.1.1 h.1.2
  case send.fail e => exact h ▸ .sendFail e hpc
  case freeGetline.ok => exact h ▸ .freeGetline hpc
  case unlock.ok => exact h ▸ .unlock hpc
  case unlock.fail e => exact h ▸ .unlockFail e hpc
  case fclose.ok => exact h ▸ .fclose hpc
  case fclose.fail e => exact h ▸ .fcloseFail e hpc
  case free.ok => exact h ▸ .free hpc
  case close.ok => exact h ▸ .close hpc
  case close.fail e => exact h ▸ .closeFail e hpc
  case finish.ok => exact h ▸ .finish hpc

/-- **How a thread ends.**  It closes the connection, then sets `finished`, and has returned. -/
theorem step_ending {build : Build} {t t' : SockThread} {o : Outcome}
    (h : t.step build o = some t') :
    (t.pc = .close ∧ t'.pc = .finish ∧ t'.finished = t.finished) ∨
      (t.pc = .finish ∧ t'.pc = .done ∧ t'.finished = true) ∨
      (t.pc ≠ .close ∧ t.pc ≠ .finish ∧ t.pc ≠ .done ∧ t'.pc ≠ .finish ∧ t'.pc ≠ .done ∧
        t'.finished = t.finished) := by
  cases branch_of_step h with
  | recv bs hpc hlen =>
    rcases (control_received build t hpc bs).2 with (hpc' | hpc' | hpc') | ⟨hpc', -⟩ | ⟨hpc', -⟩ <;>
      simp [hpc, hpc', finished_received]
  | printf hpc | printfFail e hpc =>
    rcases control_lineRead build t t.line with ⟨hpc', -⟩ | ⟨hpc', -⟩ <;>
      simp [hpc, hpc']
  | send n hpc hpos hle =>
    rcases control_sendLoop t (t.bytesLeft - n) (t.advance n) with hpc' | hpc' <;>
      simp [hpc, hpc']
  | sendFail e hpc =>
    rcases control_sendLoop t (sizeT (t.bytesLeft + 1)) (sizeT (t.sendOffset - 1)) with
      hpc' | hpc' <;>
      simp [hpc, hpc']
  | _ => simp [*, firstError]

/-! ## Executions -/

/-- A call together with its outcome. -/
abbrev Event := Call × Outcome

/-- One step of a thread, with a record of the calls made. -/
def execStep (build : Build) (s : SockThread × List Event) (o : Outcome) :
    Option (SockThread × List Event) :=
  match s.1.call, s.1.step build o with
  | some c, some t => some (t, s.2 ++ [(c, o)])
  | _, _ => none

/-- A thread executed with a list of outcomes, from its creation: the thread and its calls. -/
def exec (build : Build) (errno : ℤ) (os : List Outcome) : Option (SockThread × List Event) :=
  os.foldlM (execStep build) (init errno, [])

theorem execStep_eq_some {build : Build} {s s' : SockThread × List Event} {o : Outcome} :
    execStep build s o = some s' ↔
      ∃ c, s.1.call = some c ∧ s.1.step build o = some s'.1 ∧ s'.2 = s.2 ++ [(c, o)] := by
  rw [execStep]
  constructor
  · intro h
    split at h
    · rename_i c t hcall hstep
      obtain rfl := Option.some.inj h
      exact ⟨c, hcall, hstep, rfl⟩
    · exact absurd h (by simp)
  · rintro ⟨c, hcall, hstep, htr⟩
    simp only [hcall, hstep, ← htr]

/-- **The invariant rule**: what holds at the creation, and is kept by every step, holds after every
execution. -/
theorem exec_invariant {build : Build} {I : SockThread → List Event → Prop}
    (hstep : ∀ t tr c o t', I t tr → t.call = some c → t.step build o = some t' →
      I t' (tr ++ [(c, o)]))
    {errno : ℤ} (hinit : I (init errno) []) {os : List Outcome} {t : SockThread} {tr : List Event}
    (h : exec build errno os = some (t, tr)) : I t tr := by
  refine Run.foldlM_invariant (I := fun s ↦ I s.1 s.2) ?_ h hinit
  rintro ⟨t, tr⟩ o ⟨t', tr'⟩ hI hs
  obtain ⟨c, hcall, hnext, rfl⟩ := execStep_eq_some.mp hs
  exact hstep t tr c o t' hI hcall hnext

/-- An execution that goes one step further. -/
theorem exec_concat_eq_some {build : Build} {errno : ℤ} {os : List Outcome} {o : Outcome}
    {t' : SockThread} {tr' : List Event} : exec build errno (os ++ [o]) = some (t', tr') ↔
      ∃ t tr c, exec build errno os = some (t, tr) ∧ t.call = some c ∧
        t.step build o = some t' ∧ tr' = tr ++ [(c, o)] := by
  rw [exec, Run.foldlM_append_eq_some]
  constructor
  · rintro ⟨⟨t, tr⟩, hos, ho⟩
    obtain ⟨s, hs, heq⟩ := Run.foldlM_cons_eq_some.mp ho
    obtain rfl := Option.some.inj heq
    obtain ⟨c, hcall, hstep, htr⟩ := execStep_eq_some.mp hs
    exact ⟨t, tr, c, hos, hcall, hstep, htr⟩
  · rintro ⟨t, tr, c, hos, hcall, hstep, rfl⟩
    exact ⟨(t, tr), hos, Run.foldlM_cons_eq_some.mpr
      ⟨_, execStep_eq_some.mpr ⟨c, hcall, hstep, rfl⟩, rfl⟩⟩

/-- The beginning of an execution is one, and its calls are the first ones. -/
theorem exec_prefix {build : Build} {errno : ℤ} {pre os : List Outcome} {t : SockThread}
    {tr : List Event} (h : exec build errno os = some (t, tr)) (hpre : pre <+: os) :
    ∃ u tr', exec build errno pre = some (u, tr') ∧ tr' <+: tr := by
  obtain ⟨rest, rfl⟩ := hpre
  obtain ⟨⟨u, tr'⟩, hu, hrest⟩ := Run.foldlM_append_eq_some.mp h
  refine ⟨u, tr', hu, Run.foldlM_invariant (I := fun s ↦ tr' <+: s.2) ?_ hrest (List.prefix_refl _)⟩
  intro s o s' hs hnext
  obtain ⟨c, -, -, heq⟩ := execStep_eq_some.mp hnext
  rw [heq]
  exact hs.trans (List.prefix_append ..)

end SockThread

end Aesd
