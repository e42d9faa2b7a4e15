import Aesd.Lib.Heap
import Aesd.Lib.SList
import Aesd.Server.World

/-!
# The main thread

`main` of `main.c` with `init_thread`, `remove_joinable_threads` and `remove_all_remaining_threads`,
the list macros of `queue.h` and `signal_handler`, beside the client threads and the firings of the
timer it has to do with.  A `Process` is the state of all of them, an `Action` is one atomic event,
and `Process.step` is its effect, so a run is a list of actions and its order is the interleaving.

`main` makes one step for each call and for each test of a variable that something else can change.
`MainPc` says which comes next, by the part of `main` it is in; the scan of `SLIST_REMOVE` makes one
step for each element.  A client thread is a `SockThread` and a firing of the timer a `TimerThread`:
any outcome of their calls is possible here, so whatever the file, the sockets and the mutex do is
covered.  A client thread has an argument block; it reads `sock_fd` there when it closes the
connection and writes `finished` there at its end.

Conventions.

* A block is live from `malloc` to `free`.  To follow a pointer to a block that is not live, or to
  join a thread that does not exist or has been joined, ends in `MainPc.undefined`.
* `pthread_join` returns when the thread has ended, and succeeds.
* The kernel's table `fds` says for which connection a descriptor is open; connections are numbered
  in the order of the calls of `accept` that returned them.  Whatever `close` returns, the
  descriptor is closed.
* The handler shuts the listening socket down.  From then on `accept` fails.
* A timer whose deletion has failed goes on firing.

* The log is left out: `ip_address` and the addresses `accept` reports only go there.  So is the
  connection to the logger that `syslog` opens, also in `signal_handler`: `fds` has the connections
  of clients only.  It is in `Aesd.Server.Startup`.

`closes`, `retries`, `joins`, the field `fd` of a thread and the fields `before` and `saw` of a
sweep record what has happened and influence nothing.
-/

set_option autoImplicit false

namespace Aesd

/-! ## The program counter -/

/-- The signals that are handled. -/
inductive Signal where
  /-- `SIGCHLD`. -/
  | sigchld
  /-- `SIGINT`. -/
  | sigint
  /-- `SIGTERM`. -/
  | sigterm
  deriving DecidableEq, Repr

/-- Before the loop. -/
inductive SetupPc where
  /-- `parse_args`. -/
  | parseArgs
  /-- `start_listening`. -/
  | startListening
  /-- `sigaction` in `set_signals`. -/
  | sigaction (signal : Signal)
  /-- `daemonize`. -/
  | daemonize
  /-- `pthread_mutex_init`, and `SLIST_INIT`. -/
  | mutexInit
  /-- `start_timer`. -/
  | startTimer
  /-- `is_running = true`. -/
  | setRunning
  deriving DecidableEq, Repr

/-- In the accept loop. -/
inductive LoopPc where
  /-- The test of the loop. -/
  | test
  /-- `accept`. -/
  | accept
  /-- The test of `is_running` after `accept` has failed. -/
  | acceptFailed
  /-- `malloc` in `init_thread`. -/
  | initThread
  /-- `pthread_create`. -/
  | pthreadCreate
  /-- `free(thread_args)` after `pthread_create` has failed. -/
  | freeArgs
  /-- `client_sock_fd = -1`. -/
  | disown
  /-- `SLIST_INSERT_HEAD`. -/
  | insert
  deriving DecidableEq, Repr

/-- In `remove_joinable_threads`. -/
inductive SweepPc where
  /-- The test of `SLIST_FOREACH_SAFE`. -/
  | test
  /-- The test of `finished`. -/
  | finished
  /-- `pthread_join`. -/
  | join
  /-- The test at the beginning of `SLIST_REMOVE`. -/
  | remove
  /-- The loop of `SLIST_REMOVE`. -/
  | scan
  /-- `free(next)`. -/
  | free
  deriving DecidableEq, Repr

/-- Who has called `remove_joinable_threads`. -/
inductive Caller where
  /-- The accept loop. -/
  | loop
  /-- `remove_all_remaining_threads`. -/
  | drain
  deriving DecidableEq, Repr

/-- After the loop. -/
inductive CleanupPc where
  /-- The test of `client_sock_fd`. -/
  | test
  /-- `close(client_sock_fd)`. -/
  | closeClient
  /-- `timer_delete`. -/
  | timerDelete
  /-- The test of `remove_all_remaining_threads`. -/
  | drain
  /-- `remove(OUTPUT_FILE)`. -/
  | removeFile
  /-- `pthread_mutex_destroy`. -/
  | mutexDestroy
  /-- `close(server_sock_fd)`. -/
  | closeServer
  /-- Returned. -/
  | done
  deriving DecidableEq, Repr

/-- Where `main` is: what it does next. -/
inductive MainPc where
  /-- Before the loop. -/
  | setup (pc : SetupPc)
  /-- In the accept loop. -/
  | loop (pc : LoopPc)
  /-- In `remove_joinable_threads`. -/
  | sweep (caller : Caller) (pc : SweepPc)
  /-- After the loop. -/
  | cleanup (pc : CleanupPc)
  /-- `exit` has been called. -/
  | exited
  /-- What happens is undefined. -/
  | undefined
  deriving DecidableEq, Repr

/-! ## The state -/

/-- `struct aesd_thread_args`. -/
structure ThreadArgs where
  /-- `thread_id`. -/
  threadId : ℕ
  /-- `sock_fd`. -/
  sockFd : ℤ
  /-- `finished`. -/
  finished : Bool
  /-- `elements.sle_next`. -/
  next : ℕ
  deriving DecidableEq, Repr

/-- A client thread. -/
structure Thread where
  /-- The function it runs. -/
  sock : SockThread
  /-- Its argument. -/
  args : ℕ
  /-- `sock_fd` of its argument when it was created. -/
  fd : ℤ
  /-- It has ended. -/
  ended : Bool
  /-- It has been joined. -/
  joined : Bool

/-- The variables of `remove_joinable_threads`. -/
structure Sweep where
  /-- `next`. -/
  next : ℕ
  /-- `next_temp`. -/
  nextTemp : ℕ
  /-- `curelm` of `SLIST_REMOVE`. -/
  curelm : ℕ
  /-- The blocks of the threads that had not been joined at the beginning, newest first. -/
  before : List ℕ
  /-- The blocks whose `finished` was found set. -/
  saw : List ℕ
  deriving DecidableEq, Repr

/-- The state of the mutex. -/
inductive Mutex where
  /-- Not initialised. -/
  | raw
  /-- Initialised. -/
  | ready
  /-- Destroyed. -/
  | destroyed
  deriving DecidableEq, Repr

/-- Who closes a connection. -/
inductive Closer where
  /-- The cleanup of `main`. -/
  | main
  /-- A client thread. -/
  | thread (id : ℕ)
  deriving DecidableEq, Repr

/-- A call of `close` with a client's descriptor. -/
structure Close where
  /-- Who made it. -/
  closer : Closer
  /-- The value passed. -/
  fd : ℤ
  /-- The connection that was open there, if any. -/
  conn : Option ℕ
  deriving DecidableEq, Repr

/-- `main`, the threads it knows about, and what the kernel keeps for them. -/
structure Process where
  /-- Where `main` is. -/
  pc : MainPc
  /-- `argv`, without the name of the program. -/
  argv : List String
  /-- `should_daemonize`. -/
  shouldDaemonize : Bool
  /-- `exit_code`, or what was passed to `exit`. -/
  exitCode : ℕ
  /-- `is_running`. -/
  isRunning : Bool
  /-- `client_sock_fd`, once it has been assigned to. -/
  clientSockFd : Option ℤ
  /-- What `client_sock_fd` holds before. -/
  garbage : ℤ
  /-- `thread_args`. -/
  threadArgs : ℕ
  /-- `list_head`. -/
  listHead : ℕ
  /-- The variables of the sweep. -/
  sweep : Sweep
  /-- The argument blocks. -/
  mem : Heap ThreadArgs
  /-- The client threads, by their `thread_id`. -/
  threads : List Thread
  /-- The threads joined. -/
  joins : List ℕ
  /-- The firings of the timer. -/
  timers : List TimerThread
  /-- The timer is running. -/
  armed : Bool
  /-- `mutex`. -/
  mutex : Mutex
  /-- `OUTPUT_FILE` has been removed. -/
  removed : Bool
  /-- The signals with a handler. -/
  handlers : List Signal
  /-- The handler has shut the listening socket down. -/
  shutDown : Bool
  /-- The calls of `accept` since. -/
  retries : ℕ
  /-- The connection each descriptor is open for. -/
  fds : ℤ → Option ℕ
  /-- What `accept` has returned, other than `-1`. -/
  accepted : List ℤ
  /-- The calls of `close`. -/
  closes : List Close

/-- How a call of `main` comes back. -/
inductive MainOutcome where
  /-- Success. -/
  | ok
  /-- Failure. -/
  | fail
  /-- `fork` has returned in the parent. -/
  | parent
  /-- `accept` has returned a descriptor. -/
  | fd (n : ℕ)
  /-- There is a new thread, with the value its `errno` starts with. -/
  | thread (errno : ℤ)
  deriving DecidableEq, Repr

/-- One atomic event. -/
inductive Action where
  /-- `main` makes a step. -/
  | main (o : MainOutcome)
  /-- A signal is handled. -/
  | signal (signal : Signal)
  /-- The call of a client thread returns. -/
  | client (i : ℕ) (o : Outcome)
  /-- A client thread ends. -/
  | clientEnd (i : ℕ)
  /-- The timer fires. -/
  | fire
  /-- The call of a `timer_thread` returns. -/
  | timer (j : ℕ) (o : Outcome)
  deriving DecidableEq, Repr

/-- `parse_args`: `should_daemonize`, or what is passed to `exit`. -/
def parseArgs : List String → Except ℕ Bool
  | [] => .ok false
  | [arg] => if arg = "-d" then .ok true else if arg = "-h" then .error 0 else .ok false
  | _ => .error 1

/-- The block `init_thread` sets up. -/
def initThread (sockFd : ℤ) : ThreadArgs := ⟨0, sockFd, false, 0⟩

/-- The argument block of a thread, and whether the thread has been joined. -/
def Thread.slot (t : Thread) : ℕ × Bool := (t.args, t.joined)

/-- The blocks of the threads that have not been joined, newest first. -/
def unjoined (slots : List (ℕ × Bool)) : List ℕ :=
  ((slots.filter fun slot ↦ !slot.2).map Prod.fst).reverse

namespace Process

/-- The beginning of `main`. -/
def init (argv : List String) (garbage : ℤ) : Process where
  pc := .setup .parseArgs
  argv := argv
  shouldDaemonize := false
  exitCode := 1
  isRunning := false
  clientSockFd := none
  garbage := garbage
  threadArgs := 0
  listHead := 0
  sweep := ⟨0, 0, 0, [], []⟩
  mem := .empty
  threads := []
  joins := []
  timers := []
  armed := false
  mutex := .raw
  removed := false
  handlers := []
  shutDown := false
  retries := 0
  fds _ := none
  accepted := []
  closes := []

/-- The slots of all threads, oldest first. -/
def slots (s : Process) : List (ℕ × Bool) := s.threads.map Thread.slot

/-! ## The calls -/

/-- `main` goes on elsewhere. -/
def goto (s : Process) (pc : MainPc) : Process := { s with pc := pc }

/-- Follow a pointer to an argument block. -/
def deref (s : Process) (p : ℕ) (k : ThreadArgs → Option Process) : Option Process :=
  match s.mem.block p with
  | none => some (s.goto .undefined)
  | some a => k a

/-- The value of `client_sock_fd`. -/
def clientFd (s : Process) : ℤ := s.clientSockFd.getD s.garbage

/-- `close`. -/
def close (s : Process) (closer : Closer) (fd : ℤ) : Process :=
  { s with fds := Function.update s.fds fd none, closes := s.closes ++ [⟨closer, fd, s.fds fd⟩] }

/-- `signal_handler`. -/
def signalHandler (s : Process) : Signal → Process
  | .sigchld => s
  | .sigint | .sigterm => { s with isRunning := false, shutDown := true }

/-- What follows the registration of a handler. -/
def afterSigaction (s : Process) : Signal → SetupPc
  | .sigchld => .sigaction .sigint
  | .sigint => .sigaction .sigterm
  | .sigterm => if s.shouldDaemonize then .daemonize else .mutexInit

/-- `main` up to the loop. -/
def setupStep (build : Build) (s : Process) : SetupPc → MainOutcome → Option Process
  | .parseArgs, .ok =>
    match parseArgs s.argv with
    | .error code => some { s with exitCode := code, pc := .exited }
    | .ok daemon => some { s with shouldDaemonize := daemon, pc := .setup .startListening }
  | .startListening, .ok => some (s.goto (.setup (.sigaction .sigchld)))
  | .startListening, .fail => some (s.goto (.cleanup .done))
  | .sigaction sig, .ok =>
    some { s with handlers := sig :: s.handlers, pc := .setup (s.afterSigaction sig) }
  | .sigaction _, .fail => some (s.goto (.cleanup .closeServer))
  | .daemonize, .ok => some (s.goto (.setup .mutexInit))
  | .daemonize, .parent => some { s with exitCode := 0, pc := .exited }
  | .daemonize, .fail => some { s with exitCode := 1, pc := .exited }
  | .mutexInit, .ok =>
    let pc := match build with
      | .device => SetupPc.setRunning
      | .file => SetupPc.startTimer
    some { s with mutex := .ready, listHead := 0, pc := .setup pc }
  | .mutexInit, .fail => some (s.goto (.cleanup .closeServer))
  | .startTimer, .ok => some { s with armed := true, pc := .setup .setRunning }
  | .startTimer, .fail => some (s.goto (.cleanup .mutexDestroy))
  | .setRunning, .ok => some { s with isRunning := true, pc := .loop .test }
  | _, _ => none

/-- A call of `remove_joinable_threads` begins. -/
def beginSweep (s : Process) (caller : Caller) : Process :=
  { s with sweep := { s.sweep with next := s.listHead, before := unjoined s.slots, saw := [] },
           pc := .sweep caller .test }

/-- Out of the loop, at the end of it or by a `break`. -/
def leaveLoop (s : Process) : Process := { s with exitCode := 0, pc := .cleanup .test }

/-- The accept loop. -/
def loopStep (s : Process) : LoopPc → MainOutcome → Option Process
  | .test, .ok => some (if s.isRunning then s.goto (.loop .accept) else s.leaveLoop)
  | .accept, .fd n =>
    if s.shutDown = false ∧ s.fds n = none then
      some { s with clientSockFd := some n, fds := Function.update s.fds n (some s.accepted.length),
                    accepted := s.accepted ++ [(n : ℤ)], pc := .loop .initThread }
    else none
  | .accept, .fail =>
    some { s with clientSockFd := some (-1), retries := s.retries + if s.shutDown then 1 else 0,
                  pc := .loop .acceptFailed }
  | .acceptFailed, .ok => some (if s.isRunning then s.goto (.loop .test) else s.leaveLoop)
  | .initThread, .ok =>
    some { s with mem := s.mem.alloc (initThread s.clientFd), threadArgs := s.mem.next,
                  pc := .loop .pthreadCreate }
  | .initThread, .fail => some (s.goto (.cleanup .test))
  | .pthreadCreate, .thread errno =>
    s.deref s.threadArgs fun args ↦
      some { s with mem := s.mem.put s.threadArgs { args with threadId := s.threads.length },
                    threads :=
                      s.threads ++ [⟨.init errno, s.threadArgs, args.sockFd, false, false⟩],
                    pc := .loop .disown }
  | .pthreadCreate, .fail => some (s.goto (.loop .freeArgs))
  | .freeArgs, .ok => some { s with mem := s.mem.free s.threadArgs, pc := .cleanup .test }
  | .disown, .ok => some { s with clientSockFd := some (-1), pc := .loop .insert }
  | .insert, .ok =>
    s.deref s.threadArgs fun args ↦
      some (beginSweep { s with mem := s.mem.put s.threadArgs { args with next := s.listHead },
                                listHead := s.threadArgs } .loop)
  | _, _ => none

/-- Where `remove_joinable_threads` returns to. -/
def returnPc : Caller → MainPc
  | .loop => .loop .test
  | .drain => .cleanup .drain

/-- `pthread_join`, which waits for the thread to end. -/
def join (s : Process) (caller : Caller) (id : ℕ) : Option Process :=
  match s.threads[id]? with
  | none => some (s.goto .undefined)
  | some t =>
    if t.joined then some (s.goto .undefined)
    else if t.ended then
      some { s with threads := s.threads.set id { t with joined := true }, joins := id :: s.joins,
                    pc := .sweep caller .remove }
    else none

/-- `remove_joinable_threads`. -/
def sweepStep (s : Process) (caller : Caller) : SweepPc → MainOutcome → Option Process
  | .test, .ok =>
    if s.sweep.next = 0 then some (s.goto (returnPc caller))
    else
      s.deref s.sweep.next fun elm ↦
        some { s with
          sweep := { s.sweep with nextTemp := elm.next }, pc := .sweep caller .finished }
  | .finished, .ok =>
    s.deref s.sweep.next fun elm ↦
      some (if elm.finished then
          { s with sweep := { s.sweep with saw := s.sweep.next :: s.sweep.saw },
                   pc := .sweep caller .join }
        else
          { s with sweep := { s.sweep with next := s.sweep.nextTemp }, pc := .sweep caller .test })
  | .join, .ok => s.deref s.sweep.next fun elm ↦ s.join caller elm.threadId
  | .remove, .ok =>
    if s.listHead = s.sweep.next then
      s.deref s.listHead fun elm ↦
        some { s with listHead := elm.next, pc := .sweep caller .free }
    else
      some { s with sweep := { s.sweep with curelm := s.listHead }, pc := .sweep caller .scan }
  | .scan, .ok =>
    s.deref s.sweep.curelm fun cur ↦
      if cur.next = s.sweep.next then
        s.deref cur.next fun elm ↦
          some { s with mem := s.mem.put s.sweep.curelm { cur with next := elm.next },
                        pc := .sweep caller .free }
      else some { s with sweep := { s.sweep with curelm := cur.next } }
  | .free, .ok =>
    some { s with mem := s.mem.free s.sweep.next,
                  sweep := { s.sweep with next := s.sweep.nextTemp }, pc := .sweep caller .test }
  | _, _ => none

/-- What follows the test of `client_sock_fd`. -/
def afterClient : Build → CleanupPc
  | .device => .drain
  | .file => .timerDelete

/-- What follows `remove_all_remaining_threads`. -/
def afterDrain : Build → CleanupPc
  | .device => .mutexDestroy
  | .file => .removeFile

/-- `main` after the loop. -/
def cleanupStep (build : Build) (s : Process) : CleanupPc → MainOutcome → Option Process
  | .test, .ok =>
    some (s.goto (.cleanup (if s.clientFd ≠ -1 then .closeClient else afterClient build)))
  | .closeClient, .ok | .closeClient, .fail =>
    some ((s.close .main s.clientFd).goto (.cleanup (afterClient build)))
  | .timerDelete, .ok => some { s with armed := false, pc := .cleanup .drain }
  | .timerDelete, .fail => some (s.goto (.cleanup .drain))
  | .drain, .ok =>
    some (if s.listHead = 0 then s.goto (.cleanup (afterDrain build)) else s.beginSweep .drain)
  | .removeFile, .ok => some { s with removed := true, pc := .cleanup .mutexDestroy }
  | .removeFile, .fail => some (s.goto (.cleanup .mutexDestroy))
  | .mutexDestroy, .ok => some { s with mutex := .destroyed, pc := .cleanup .closeServer }
  | .mutexDestroy, .fail => some (s.goto (.cleanup .closeServer))
  | .closeServer, .ok | .closeServer, .fail => some (s.goto (.cleanup .done))
  | _, _ => none

/-- `main` makes a step. -/
def mainStep (build : Build) (s : Process) (o : MainOutcome) : Option Process :=
  match s.pc with
  | .setup pc => s.setupStep build pc o
  | .loop pc => s.loopStep pc o
  | .sweep caller pc => s.sweepStep caller pc o
  | .cleanup pc => s.cleanupStep build pc o
  | .exited | .undefined => none

/-- A client thread makes a step.  It uses its argument block until it has returned. -/
def clientStep (build : Build) (s : Process) (i : ℕ) (o : Outcome) : Option Process :=
  match s.threads[i]? with
  | none => none
  | some t =>
    match t.sock.step build o with
    | none => none
    | some sock =>
      s.deref t.args fun args ↦
        let s' := { s with threads := s.threads.set i { t with sock := sock } }
        match t.sock.pc with
        | .close => some (s'.close (.thread i) args.sockFd)
        | .finish => some { s' with mem := s.mem.put t.args { args with finished := true } }
        | _ => some s'

/-- A client thread that has returned ends. -/
def clientEnd (s : Process) (i : ℕ) : Option Process :=
  match s.threads[i]? with
  | none => none
  | some t =>
    if t.sock.pc = .done then some { s with threads := s.threads.set i { t with ended := true } }
    else none

/-- A `timer_thread` makes a step. -/
def timerStep (s : Process) (j : ℕ) (o : Outcome) : Option Process :=
  match s.timers[j]? with
  | none => none
  | some t => (t.step o).map fun t' ↦ { s with timers := s.timers.set j t' }

/-- One event. -/
def step (build : Build) (s : Process) : Action → Option Process
  | .main o => s.mainStep build o
  | .signal sig => if sig ∈ s.handlers then some (s.signalHandler sig) else none
  | .client i o => s.clientStep build i o
  | .clientEnd i => s.clientEnd i
  | .fire => if s.armed then some { s with timers := s.timers ++ [.init] } else none
  | .timer j o => s.timerStep j o

variable {build : Build} {s s' : Process} {i : ℕ}

theorem deref_of_block {p : ℕ} {args : ThreadArgs} (h : s.mem.block p = some args)
    (k : ThreadArgs → Option Process) : s.deref p k = k args := by
  rw [deref, h]

theorem deref_cases {p : ℕ} {k : ThreadArgs → Option Process} (h : s.deref p k = some s') :
    s' = s.goto .undefined ∨ ∃ args, s.mem.block p = some args ∧ k args = some s' := by
  rw [deref] at h
  split at h
  · exact .inl (Option.some.inj h).symm
  · rename_i args hblock
    exact .inr ⟨args, hblock, h⟩

/-! ## What `main` does before the loop -/

/-- Where `main` can be after a step of the setup. -/
inductive FromSetup : MainPc → Prop where
  /-- The setup goes on. -/
  | setup (pc : SetupPc) : FromSetup (.setup pc)
  /-- `exit`. -/
  | exited : FromSetup .exited
  /-- The loop begins. -/
  | loop : FromSetup (.loop .test)
  /-- Part of the cleanup. -/
  | cleanup {pc : CleanupPc} (h : pc ∈ [.mutexDestroy, .closeServer, .done]) :
    FromSetup (.cleanup pc)

/-- The setup changes these variables at most, and `is_running` only by its last statement. -/
theorem setupStep_cases {pc : SetupPc} {o : MainOutcome} (h : s.setupStep build pc o = some s') :
    ∃ pc' daemon code running head armed mutex handlers, FromSetup pc' ∧
      s' = { s with pc := pc', shouldDaemonize := daemon, exitCode := code, isRunning := running,
                    listHead := head, armed := armed, mutex := mutex, handlers := handlers } ∧
      (head = s.listHead ∨ head = 0) ∧ (mutex = s.mutex ∨ mutex = .ready) ∧
      (pc' = .loop .test ∧ pc = .setRunning ∧ running = true ∨
        pc' ≠ .loop .test ∧ running = s.isRunning) := by
  cases pc <;> cases o <;> simp only [setupStep, reduceCtorEq, Option.some.injEq] at h
  case parseArgs.ok =>
    split at h
    · exact ⟨_, _, _, _, _, _, _, _, .exited, (Option.some.inj h).symm, .inl rfl, .inl rfl,
        .inr ⟨by simp, rfl⟩⟩
    · exact ⟨_, _, _, _, _, _, _, _, .setup _, (Option.some.inj h).symm, .inl rfl, .inl rfl,
        .inr ⟨by simp, rfl⟩⟩
  case daemonize.parent | daemonize.fail =>
    exact ⟨_, _, _, _, _, _, _, _, .exited, h.symm, .inl rfl, .inl rfl, .inr ⟨by simp, rfl⟩⟩
  case startListening.fail | sigaction.fail | mutexInit.fail | startTimer.fail =>
    exact ⟨_, _, _, _, _, _, _, _, .cleanup (by simp), h.symm, .inl rfl, .inl rfl,
      .inr ⟨by simp, rfl⟩⟩
  case startListening.ok | sigaction.ok | daemonize.ok | startTimer.ok =>
    exact ⟨_, _, _, _, _, _, _, _, .setup _, h.symm, .inl rfl, .inl rfl, .inr ⟨by simp, rfl⟩⟩
  case mutexInit.ok =>
    exact ⟨_, _, _, _, _, _, _, _, .setup _, h.symm, .inr rfl, .inr rfl, .inr ⟨by simp, rfl⟩⟩
  case setRunning.ok =>
    exact ⟨_, _, _, _, _, _, _, _, .loop, h.symm, .inl rfl, .inl rfl, .inl ⟨rfl, rfl, rfl⟩⟩

/-! ## What `main` does in the loop and in the sweep -/

/-- The flags of `main`, and what a `timer_thread` depends on. -/
structure Flags where
  /-- `is_running`. -/
  isRunning : Bool
  /-- The listening socket has been shut down. -/
  shutDown : Bool
  /-- The timer is running. -/
  armed : Bool
  /-- The firings of the timer. -/
  timers : List TimerThread
  /-- The mutex. -/
  mutex : Mutex
  /-- `OUTPUT_FILE` has been removed. -/
  removed : Bool

/-- The flags of `main`, and what a `timer_thread` depends on. -/
def flags (s : Process) : Flags :=
  ⟨s.isRunning, s.shutDown, s.armed, s.timers, s.mutex, s.removed⟩

theorem flags_of_loopStep {pc : LoopPc} {o : MainOutcome} (h : s.loopStep pc o = some s') :
    s'.flags = s.flags := by
  cases pc <;> cases o <;> simp only [loopStep, reduceCtorEq, Option.some.injEq] at h
  case test.ok | acceptFailed.ok =>
    split at h <;> subst h <;> rfl
  case accept.fd n =>
    obtain ⟨-, rfl⟩ := Option.ite_some_none_eq_some.mp h
    rfl
  case pthreadCreate.thread | insert.ok =>
    rcases deref_cases h with rfl | ⟨args, -, hs⟩
    · rfl
    · obtain rfl := Option.some.inj hs
      rfl
  all_goals
    subst h
    rfl

theorem ok_of_sweepStep {caller : Caller} {pc : SweepPc} {o : MainOutcome}
    (h : s.sweepStep caller pc o = some s') : o = .ok := by
  cases o with
  | ok => rfl
  | fail | parent | fd | thread => cases pc <;> exact absurd h (by simp [sweepStep])

/-- What a sweep does to the threads: nothing, or one that has ended is joined. -/
def JoinsOne (threads threads' : List Thread) : Prop :=
  threads' = threads ∨ ∃ i t, threads[i]? = some t ∧ t.ended = true ∧
    threads' = threads.set i { t with joined := true }

/-- Where `main` can be after a step of the sweep. -/
def FromSweep (caller : Caller) (pc : MainPc) : Prop :=
  pc = .undefined ∨ (∃ pc', pc = .sweep caller pc') ∨ pc = returnPc caller

/-- The sweep changes these variables at most. -/
theorem sweepStep_cases {caller : Caller} {pc : SweepPc} {o : MainOutcome}
    (h : s.sweepStep caller pc o = some s') (hpc : s.pc = .sweep caller pc) :
    ∃ pc' sweep head mem threads joins, FromSweep caller pc' ∧ JoinsOne s.threads threads ∧
      s' = { s with pc := pc', sweep := sweep, listHead := head, mem := mem, threads := threads,
                    joins := joins } := by
  obtain rfl := ok_of_sweepStep h
  -- only `pthread_join` concerns a thread
  have hgoes : ∀ {pc' sweep head mem}, FromSweep caller pc' →
      { s with pc := pc', sweep := sweep, listHead := head, mem := mem } = s' →
      ∃ pc' sweep head mem threads joins, FromSweep caller pc' ∧ JoinsOne s.threads threads ∧
        s' = { s with pc := pc', sweep := sweep, listHead := head, mem := mem, threads := threads,
                      joins := joins } :=
    fun hfrom he ↦ ⟨_, _, _, _, _, _, hfrom, .inl rfl, he.symm⟩
  have hsweep : ∀ pc', FromSweep caller (.sweep caller pc') := fun pc' ↦ .inr (.inl ⟨pc', rfl⟩)
  cases pc <;> simp only [sweepStep] at h
  case test =>
    split at h
    · exact hgoes (.inr (.inr rfl)) (Option.some.inj h)
    · rcases deref_cases h with hs | ⟨args, -, hs⟩
      · exact hgoes (.inl rfl) hs.symm
      · exact hgoes (hsweep _) (Option.some.inj hs)
  case finished =>
    rcases deref_cases h with hs | ⟨args, -, hs⟩
    · exact hgoes (.inl rfl) hs.symm
    · split at hs <;> exact hgoes (hsweep _) (Option.some.inj hs)
  case join =>
    rcases deref_cases h with hs | ⟨args, -, hs⟩
    · exact hgoes (.inl rfl) hs.symm
    · rw [join] at hs
      split at hs
      · exact hgoes (.inl rfl) (Option.some.inj hs)
      · rename_i t ht
        split at hs
        · exact hgoes (.inl rfl) (Option.some.inj hs)
        · obtain ⟨hended, rfl⟩ := Option.ite_some_none_eq_some.mp hs
          exact ⟨_, _, _, _, _, _, hsweep _, .inr ⟨_, t, ht, hended, rfl⟩, rfl⟩
  case remove =>
    split at h
    · rcases deref_cases h with hs | ⟨args, -, hs⟩
      · exact hgoes (.inl rfl) hs.symm
      · exact hgoes (hsweep _) (Option.some.inj hs)
    · exact hgoes (hsweep _) (Option.some.inj h)
  case scan =>
    rcases deref_cases h with hs | ⟨args, -, hs⟩
    · exact hgoes (.inl rfl) hs.symm
    · split at hs
      · rcases deref_cases hs with hs | ⟨args', -, hs⟩
        · exact hgoes (.inl rfl) hs.symm
        · exact hgoes (hsweep _) (Option.some.inj hs)
      · exact hgoes (hpc ▸ hsweep _) (Option.some.inj hs)
  case free => exact hgoes (hsweep _) (Option.some.inj h)

theorem flags_of_sweepStep {caller : Caller} {pc : SweepPc} {o : MainOutcome}
    (h : s.sweepStep caller pc o = some s') (hpc : s.pc = .sweep caller pc) :
    s'.flags = s.flags := by
  obtain ⟨_, _, _, _, _, _, -, -, rfl⟩ := sweepStep_cases h hpc
  rfl

/-! ## What a client thread does -/

/-- What a step of a client thread changes besides the thread. -/
theorem clientStep_cases {o : Outcome} (h : s.clientStep build i o = some s') :
    ∃ t sock, s.threads[i]? = some t ∧ t.sock.step build o = some sock ∧
      ((s.mem.block t.args = none ∧ s' = s.goto .undefined) ∨ ∃ args,
        s.mem.block t.args = some args ∧
        ((t.sock.pc = .close ∧
            s' = { s with threads := s.threads.set i { t with sock := sock } }.close
              (.thread i) args.sockFd) ∨
          (t.sock.pc = .finish ∧
            s' = { s with threads := s.threads.set i { t with sock := sock },
                          mem := s.mem.put t.args { args with finished := true } }) ∨
          (t.sock.pc ≠ .close ∧ t.sock.pc ≠ .finish ∧
            s' = { s with threads := s.threads.set i { t with sock := sock } }))) := by
  rw [clientStep] at h
  split at h
  · exact absurd h (by simp)
  · rename_i t ht
    split at h
    · exact absurd h (by simp)
    · rename_i sock hsock
      refine ⟨t, sock, ht, hsock, ?_⟩
      rw [deref] at h
      split at h
      · rename_i hdead
        exact .inl ⟨hdead, (Option.some.inj h).symm⟩
      · rename_i args hlive
        refine .inr ⟨args, hlive, ?_⟩
        dsimp only at h
        split at h
        · rename_i hpc
          exact .inl ⟨hpc, (Option.some.inj h).symm⟩
        · rename_i hpc
          exact .inr (.inl ⟨hpc, (Option.some.inj h).symm⟩)
        · rename_i hclose hfinish
          exact .inr (.inr ⟨hclose, hfinish, (Option.some.inj h).symm⟩)

theorem clientEnd_eq_some : s.clientEnd i = some s' ↔ ∃ t, s.threads[i]? = some t ∧
    t.sock.pc = .done ∧ s' = { s with threads := s.threads.set i { t with ended := true } } := by
  rw [clientEnd]
  split
  · rename_i hnone
    simp [hnone]
  · rename_i t ht
    simp [ht, eq_comm]

theorem flags_of_clientStep {o : Outcome} (h : s.clientStep build i o = some s') :
    s'.flags = s.flags := by
  obtain ⟨_, _, -, -, ⟨-, rfl⟩ | ⟨_, -, ⟨-, rfl⟩ | ⟨-, rfl⟩ | ⟨-, -, rfl⟩⟩⟩ :=
    clientStep_cases h <;> rfl

theorem pc_of_clientStep {o : Outcome} (h : s.clientStep build i o = some s') :
    s'.pc = s.pc ∨ s'.pc = .undefined := by
  obtain ⟨_, _, -, -, ⟨-, rfl⟩ | ⟨_, -, ⟨-, rfl⟩ | ⟨-, rfl⟩ | ⟨-, -, rfl⟩⟩⟩ := clientStep_cases h
  · exact .inr rfl
  all_goals exact .inl rfl

theorem pc_of_clientEnd (h : s.clientEnd i = some s') : s'.pc = s.pc := by
  obtain ⟨_, -, -, rfl⟩ := clientEnd_eq_some.mp h
  rfl

theorem flags_of_clientEnd (h : s.clientEnd i = some s') : s'.flags = s.flags := by
  obtain ⟨_, -, -, rfl⟩ := clientEnd_eq_some.mp h
  rfl

theorem timerStep_eq_some {j : ℕ} {o : Outcome} : s.timerStep j o = some s' ↔ ∃ t t',
    s.timers[j]? = some t ∧ t.step o = some t' ∧ s' = { s with timers := s.timers.set j t' } := by
  rw [timerStep]
  split
  · rename_i hnone
    simp [hnone]
  · rename_i t ht
    simp [ht, eq_comm]

/-! ## The last things `main` does -/

/-- The file and the mutex go at the end. -/
structure Closing (s : Process) : Prop where
  /-- After the file has been removed. -/
  removed : s.removed = true →
    s.pc ∈ [.cleanup .mutexDestroy, .cleanup .closeServer, .cleanup .done, .undefined]
  /-- After the mutex has been destroyed. -/
  destroyed : s.mutex = .destroyed → s.pc ∈ [.cleanup .closeServer, .cleanup .done, .undefined]

theorem closing_init (argv : List String) (garbage : ℤ) : (init argv garbage).Closing :=
  ⟨by simp [init], by simp [init]⟩

theorem Closing.of_flags (h : s.Closing) (hq : s'.flags = s.flags)
    (hpc : s'.pc = s.pc ∨ s'.pc = .undefined) : s'.Closing where
  removed hr := by
    rcases hpc with hpc | hpc
    · rw [hpc]
      exact h.removed ((congrArg Flags.removed hq).symm.trans hr)
    · simp [hpc]
  destroyed hm := by
    rcases hpc with hpc | hpc
    · rw [hpc]
      exact h.destroyed ((congrArg Flags.mutex hq).symm.trans hm)
    · simp [hpc]

/-- Where neither has happened, a step that does neither keeps it that way. -/
theorem Closing.of_not (h : s.Closing)
    (hpc : s.pc ∉ [.cleanup .mutexDestroy, .cleanup .closeServer, .cleanup .done, .undefined])
    (hremoved : s'.removed = s.removed) (hmutex : s'.mutex = s.mutex ∨ s'.mutex = .ready) :
    s'.Closing where
  removed hr := absurd (h.removed (hremoved.symm.trans hr)) hpc
  destroyed hm := by
    rcases hmutex with he | he
    · exact absurd (List.mem_cons_of_mem _ (h.destroyed (he.symm.trans hm))) hpc
    · exact absurd (he.symm.trans hm) (by simp)

theorem Closing.step (h : s.Closing) {a : Action} (hs : s.step build a = some s') :
    s'.Closing := by
  cases a with
  | main o =>
    rw [Process.step, mainStep] at hs
    split at hs
    · rename_i hpc
      obtain ⟨_, _, _, _, _, _, _, _, -, rfl, -, hmutex, -⟩ := setupStep_cases hs
      exact h.of_not (by simp [hpc]) rfl hmutex
    · rename_i hpc
      have hq := flags_of_loopStep hs
      exact h.of_not (by simp [hpc]) (congrArg Flags.removed hq) (.inl (congrArg Flags.mutex hq))
    · rename_i hpc
      have hq := flags_of_sweepStep hs hpc
      exact h.of_not (by simp [hpc]) (congrArg Flags.removed hq) (.inl (congrArg Flags.mutex hq))
    · rename_i pc hpc
      cases pc <;> cases o <;> simp only [cleanupStep, reduceCtorEq, Option.some.injEq] at hs
      case removeFile.ok | removeFile.fail =>
        subst hs
        exact ⟨by simp [goto], fun hm ↦ absurd (h.destroyed hm) (by simp [hpc])⟩
      case mutexDestroy.ok | mutexDestroy.fail | closeServer.ok | closeServer.fail =>
        subst hs
        exact ⟨by simp [goto], by simp [goto]⟩
      case drain.ok => split at hs <;> subst hs <;> exact h.of_not (by simp [hpc]) rfl (.inl rfl)
      all_goals
        subst hs
        exact h.of_not (by simp [hpc]) rfl (.inl rfl)
    · exact absurd hs (by simp)
    · exact absurd hs (by simp)
  | signal sig =>
    obtain ⟨-, rfl⟩ := Option.ite_some_none_eq_some.mp hs
    cases sig <;> exact ⟨h.removed, h.destroyed⟩
  | client i o => exact h.of_flags (flags_of_clientStep hs) (pc_of_clientStep hs)
  | clientEnd i => exact h.of_flags (flags_of_clientEnd hs) (.inl (pc_of_clientEnd hs))
  | fire =>
    obtain ⟨-, rfl⟩ := Option.ite_some_none_eq_some.mp hs
    exact ⟨h.removed, h.destroyed⟩
  | timer j o =>
    obtain ⟨_, _, -, -, rfl⟩ := timerStep_eq_some.mp hs
    exact ⟨h.removed, h.destroyed⟩

end Process

end Aesd
