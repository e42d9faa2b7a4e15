import Aesd.Lib.Files
import Aesd.Server.Main

/-!
# Starting the server

For `Process`, `start_listening`, `daemonize` and `start_timer` are one call each.  Here they are
opened up: a `Startup` is a `Process` up to its accept loop together with the calls these functions
make, the list of addresses `start_listening` goes through, and the table of descriptors.  When one
of them returns, the `Process` makes its step, so a run of a `Startup` is one of a `Process` with
more to see in it (`Startup.refines`).

What there is to see is which socket the server ends up with.  `start_listening` takes the first
address for which it gets a socket and can bind it, and closes the sockets of those before.
`daemonize` then points the standard descriptors to `/dev/null`.  It does so whether or not they
have been in use: if the server has been started with one of them closed, `socket` has returned that
one, and the listening socket is gone (`startup_descriptors`).

The handler of `SIGINT` and `SIGTERM` calls `syslog`, and then the C library has a descriptor of its
own in the table, for the connection to the logger.  It may be among the standard descriptors when
`daemonize` comes to these.

Conventions.

* A new descriptor is the lowest that is free, and whatever `close` returns, its descriptor is
  closed.
* The handler shuts the socket down, which leaves its descriptor and its address.
* `openlog` opens nothing.  `syslog` connects to the logger if there is no connection, and if it
  cannot send, it closes the connection and connects again.  `closelog` closes it.
* `getaddrinfo` leaves `servinfo` as it is when it fails.
* To use the list of addresses after it has been freed, or to free it again, is undefined.

The addresses themselves are of any type: nothing looks into them but the calls.  `found`, `tried`
and `frees` record what has happened and influence nothing.
-/

set_option autoImplicit false

namespace Aesd

open Files (Lowest Aside Kept)

universe u

/-! ## The state -/

/-- In `start_listening`. -/
inductive ListenPc where
  /-- `getaddrinfo`. -/
  | getaddrinfo
  /-- The test of the loop, and the one after it. -/
  | test
  /-- `socket`. -/
  | socket
  /-- `setsockopt`. -/
  | setsockopt
  /-- `bind`. -/
  | bind
  /-- `inet_ntop`, and `freeaddrinfo`. -/
  | ntop
  /-- `listen`. -/
  | listen
  deriving DecidableEq, Repr

/-- In `daemonize`. -/
inductive DaemonPc where
  /-- The first `fork`. -/
  | fork
  /-- `setsid`. -/
  | setsid
  /-- The second `fork`. -/
  | forkAgain
  /-- `open("/dev/null")`. -/
  | openNull
  /-- `dup2` to the standard descriptor of this number. -/
  | dup2 (target : ℕ)
  deriving DecidableEq, Repr

/-- In `start_timer`. -/
inductive StartTimerPc where
  /-- `timer_create`. -/
  | create
  /-- `timer_settime`. -/
  | settime
  deriving DecidableEq, Repr

/-- The function `main` is in. -/
inductive Inside where
  /-- None of these. -/
  | main
  /-- `start_listening`. -/
  | startListening (pc : ListenPc)
  /-- `daemonize`. -/
  | daemonize (pc : DaemonPc)
  /-- `start_timer`. -/
  | startTimer (pc : StartTimerPc)
  deriving DecidableEq, Repr

/-- What a descriptor refers to. -/
inductive Resource (α : Type u) where
  /-- Something the process has been started with. -/
  | inherited (id : ℕ)
  /-- A socket: the address it is bound to, and whether `listen` has succeeded. -/
  | socket (bound : Option α) (listening : Bool)
  /-- `/dev/null`. -/
  | devNull
  /-- The connection to the logger. -/
  | log
  deriving DecidableEq, Repr

/-- What has become of an address. -/
inductive Tried where
  /-- `socket` has failed. -/
  | noSocket
  /-- `setsockopt` has failed. -/
  | noOption
  /-- `bind` has failed. -/
  | notBound
  /-- The socket has been bound; has `listen` succeeded? -/
  | bound (listening : Bool)
  deriving DecidableEq, Repr

/-- The timer. -/
inductive TimerState where
  /-- There is none. -/
  | absent
  /-- It has been created. -/
  | created
  /-- It has been set. -/
  | armed
  deriving DecidableEq, Repr

/-- `main` up to its loop, with what it starts. -/
structure Startup (α : Type u) where
  /-- `main`, for which the functions are calls. -/
  main : Process
  /-- The function it is in. -/
  inside : Inside
  /-- What the descriptors refer to. -/
  fds : ℕ → Option (Resource α)
  /-- The static `server_sock_fd`, unless it is `-1`. -/
  serverSockFd : Option ℕ
  /-- `servinfo` points to a list that has not been freed. -/
  servinfo : Bool
  /-- The list from `p_addrinfo` on. -/
  pAddrinfo : List α
  /-- The local `server_sock_fd` of `start_listening`. -/
  sockFd : ℕ
  /-- `fd` of `daemonize`, unless it is `-1`. -/
  nullFd : Option ℕ
  /-- The descriptor of the connection to the logger. -/
  logFd : Option ℕ
  /-- The timer. -/
  timer : TimerState
  /-- What `getaddrinfo` has returned. -/
  found : Option (List α)
  /-- What has become of the addresses. -/
  tried : List Tried
  /-- The calls of `freeaddrinfo`. -/
  frees : ℕ

/-- How a call comes back. -/
inductive StartOutcome (α : Type u) where
  /-- Success. -/
  | ok
  /-- Failure. -/
  | fail
  /-- `fork` has returned in the parent. -/
  | parent
  /-- A descriptor. -/
  | fd (n : ℕ)
  /-- The addresses. -/
  | addresses (as : List α)
  deriving DecidableEq, Repr

/-- How `syslog` comes back. -/
inductive LogOutcome where
  /-- It has been sent on the connection there was. -/
  | sent
  /-- A new connection has been made. -/
  | connected (n : ℕ)
  /-- There is no connection. -/
  | refused
  deriving DecidableEq, Repr

/-- One atomic event. -/
inductive StartAction (α : Type u) where
  /-- A call of `main` returns. -/
  | call (o : StartOutcome α)
  /-- A signal is handled. -/
  | signal (signal : Signal) (log : LogOutcome)
  deriving DecidableEq, Repr

/-- The function `main` calls next. -/
def Inside.enter : MainPc → Inside
  | .setup .startListening => .startListening .getaddrinfo
  | .setup .daemonize => .daemonize .fork
  | .setup .startTimer => .startTimer .create
  | _ => .main

/-- It is the connection to the logger. -/
def Resource.isLog {α : Type u} : Resource α → Bool
  | .log => true
  | _ => false

/-- The same, when `listen` has succeeded. -/
def Resource.listen {α : Type u} : Resource α → Resource α
  | .socket bound _ => .socket bound true
  | r => r

namespace Startup

variable {α : Type u}

/-- The beginning of `main`, with a table of descriptors. -/
def init (argv : List String) (garbage : ℤ) (fds : ℕ → Option (Resource α)) : Startup α where
  main := .init argv garbage
  inside := .main
  fds := fds
  serverSockFd := none
  servinfo := false
  pAddrinfo := []
  sockFd := 0
  nullFd := none
  logFd := none
  timer := .absent
  found := none
  tried := []
  frees := 0

/-! ## The functions -/

/-- The function goes on. -/
def into (s : Startup α) (inside : Inside) : Startup α := { s with inside := inside }

/-- What has become of the address. -/
def note (s : Startup α) (o : Tried) : Startup α := { s with tried := s.tried ++ [o] }

/-- On to the next address. -/
def next (s : Startup α) (as : List α) : Startup α :=
  { s with pAddrinfo := as, inside := .startListening .test }

/-- Something undefined happens. -/
def undefined (s : Startup α) : Startup α :=
  { s with main := s.main.goto .undefined, inside := .main }

/-- `syslog`. -/
def syslog (s : Startup α) : LogOutcome → Option (Startup α)
  | .sent =>
    match s.logFd with
    | none => none
    | some n => if (s.fds n).any Resource.isLog then some s else none
  | .connected n =>
    if Lowest (Files.close s.fds s.logFd) n then
      some { s with fds := Function.update (Files.close s.fds s.logFd) n (some .log),
                    logFd := some n }
    else none
  | .refused => some { s with fds := Files.close s.fds s.logFd, logFd := none }

/-- `closelog`, when `main` comes to its end. -/
def closelog (s : Startup α) : MainPc → Startup α
  | .cleanup .done => { s with fds := Files.close s.fds s.logFd, logFd := none }
  | _ => s

/-- `main` makes its step: the function has come back to it, or there was none. -/
def back (build : Build) (s : Startup α) (o : MainOutcome) : Option (Startup α) :=
  (s.main.mainStep build o).map fun m ↦ { s.closelog m.pc with main := m, inside := .enter m.pc }

/-- Follow `p_addrinfo`: the address, and what comes after it. -/
def node (s : Startup α) (k : α → List α → Option (Startup α)) : Option (Startup α) :=
  match s.servinfo, s.pAddrinfo with
  | true, a :: as => k a as
  | _, _ => some s.undefined

/-- `freeaddrinfo`. -/
def freeaddrinfo (s : Startup α) (k : Startup α → Option (Startup α)) : Option (Startup α) :=
  if s.servinfo then k { s with servinfo := false, frees := s.frees + 1 } else some s.undefined

/-- `start_listening` returns, and `main` tests what it has got. -/
def listening (build : Build) (s : Startup α) (fd : Option ℕ) : Option (Startup α) :=
  { s with serverSockFd := fd }.back build (if fd = none then .fail else .ok)

/-- `start_listening`. -/
def startListening (build : Build) (s : Startup α) :
    ListenPc → StartOutcome α → Option (Startup α)
  | .getaddrinfo, .addresses as =>
    some { s with servinfo := true, pAddrinfo := as, found := some as,
                  inside := .startListening .test }
  | .getaddrinfo, .fail => s.listening build none
  | .test, .ok =>
    match s.pAddrinfo with
    | [] => s.freeaddrinfo fun s ↦ s.listening build none
    | _ :: _ => some (s.into (.startListening .socket))
  | .socket, .fd n =>
    s.node fun _ _ ↦
      if Lowest s.fds n then
        some { s with fds := Function.update s.fds n (some (.socket none false)), sockFd := n,
                      inside := .startListening .setsockopt }
      else none
  | .socket, .fail =>
    s.node fun _ as ↦ some ((s.note .noSocket).next as)
  | .setsockopt, .ok => some (s.into (.startListening .bind))
  | .setsockopt, .fail =>
    -- the socket is not closed
    (s.note .noOption).freeaddrinfo fun s ↦ s.listening build none
  | .bind, .ok =>
    s.node fun a _ ↦
      some { s with fds := Function.update s.fds s.sockFd (some (.socket (some a) false)),
                    inside := .startListening .ntop }
  | .bind, .fail =>
    s.node fun _ as ↦
      some (({ s with fds := Function.update s.fds s.sockFd none }.note .notBound).next as)
  | .ntop, .ok =>
    s.node fun _ _ ↦ s.freeaddrinfo fun s ↦ some (s.into (.startListening .listen))
  | .listen, .ok =>
    ({ s with
      fds := Function.update s.fds s.sockFd ((s.fds s.sockFd).map Resource.listen) }.note
        (.bound true)).listening build (some s.sockFd)
  | .listen, .fail =>
    -- the failure is only reported
    (s.note (.bound false)).listening build (some s.sockFd)
  | _, _ => none

/-- `daemonize`.  The parents exit, and so does who fails. -/
def daemonize (build : Build) (s : Startup α) : DaemonPc → StartOutcome α → Option (Startup α)
  | .fork, .ok => some (s.into (.daemonize .setsid))
  | .fork, .parent | .forkAgain, .parent => s.back build .parent
  | .fork, .fail | .setsid, .fail | .forkAgain, .fail => s.back build .fail
  | .setsid, .ok => some (s.into (.daemonize .forkAgain))
  | .forkAgain, .ok => some (s.into (.daemonize .openNull))
  | .openNull, .fd n =>
    if Lowest s.fds n then
      some { s with fds := Function.update s.fds n (some .devNull), nullFd := some n,
                    inside := .daemonize (.dup2 0) }
    else none
  | .openNull, .fail => some { s with nullFd := none, inside := .daemonize (.dup2 0) }
  | .dup2 target, .ok =>
    match s.nullFd with
    | none => none
    | some n =>
      let s' := { s with fds := Function.update s.fds target (s.fds n) }
      if target < 2 then some (s'.into (.daemonize (.dup2 (target + 1)))) else s'.back build .ok
  | .dup2 _, .fail => s.back build .fail
  | _, _ => none

/-- `start_timer`. -/
def startTimer (build : Build) (s : Startup α) : StartTimerPc → StartOutcome α → Option (Startup α)
  | .create, .ok => some { s with timer := .created, inside := .startTimer .settime }
  | .create, .fail => s.back build .fail
  | .settime, .ok => { s with timer := .armed }.back build .ok
  | .settime, .fail => s.back build .fail
  | _, _ => none

/-- `close(server_sock_fd)`. -/
def closeServer (s : Startup α) : Startup α :=
  match s.serverSockFd with
  | none => s
  | some n => { s with fds := Function.update s.fds n none }

/-- `main` itself, up to the loop, and what it cleans up when it does not get there. -/
def mainStep (build : Build) (s : Startup α) : StartOutcome α → Option (Startup α)
  | .ok =>
    match s.main.pc with
    | .setup _ => s.back build .ok
    | .cleanup .closeServer => s.closeServer.back build .ok
    | .cleanup _ => s.back build .ok
    | _ => none
  | .fail =>
    match s.main.pc with
    | .setup _ => s.back build .fail
    | .cleanup .closeServer => s.closeServer.back build .fail
    | .cleanup _ => s.back build .fail
    | _ => none
  | _ => none

/-- What `signal_handler` does besides. -/
def handled (s : Startup α) (sig : Signal) (log : LogOutcome) : Option (Startup α) :=
  match sig with
  | .sigchld => some s
  | .sigint | .sigterm => s.syslog log

/-- One event. -/
def step (build : Build) (s : Startup α) : StartAction α → Option (Startup α)
  | .call o =>
    match s.inside with
    | .main => s.mainStep build o
    | .startListening pc => s.startListening build pc o
    | .daemonize pc => s.daemonize build pc o
    | .startTimer pc => s.startTimer build pc o
  | .signal sig log =>
    match s.main.step build (.signal sig) with
    | none => none
    | some m => { s with main := m }.handled sig log

end Startup

/-! ## What is there at each place -/

/-- The address has been passed over, and nothing is left of it. -/
def Tried.Passed (o : Tried) : Prop := o = .noSocket ∨ o = .notBound

section

variable {α : Type u}

/-- The addresses before those in `rest` have been passed over. -/
structure Searching (found : Option (List α)) (tried : List Tried) (rest : List α) : Prop where
  /-- What has become of them. -/
  passed : ∀ o ∈ tried, o.Passed
  /-- They come first. -/
  found : ∃ seen, found = some (seen ++ rest) ∧ seen.length = tried.length

/-- One address more has been passed over. -/
theorem Searching.next {found : Option (List α)} {tried : List Tried} {a : α} {as : List α}
    (h : Searching found tried (a :: as)) {o : Tried} (ho : o.Passed) :
    Searching found (tried ++ [o]) as where
  passed := by
    intro o' ho'
    rcases List.mem_append.mp ho' with ho' | ho'
    · exact h.passed o' ho'
    · rw [List.mem_singleton.mp ho']
      exact ho
  found := by
    obtain ⟨seen, hfound, hlen⟩ := h.found
    refine ⟨seen ++ [a], ?_, ?_⟩
    · rw [hfound, List.append_assoc, List.singleton_append]
    · rw [List.length_append, List.length_append, hlen]
      rfl

theorem Searching.isSome {found : Option (List α)} {tried : List Tried} {as : List α}
    (h : Searching found tried as) : found.isSome = true := by
  obtain ⟨seen, hfound, -⟩ := h.found
  rw [hfound]
  rfl

/-- The address `a` is the first that has not been passed over. -/
def Chosen (found : Option (List α)) (tried : List Tried) (a : α) (listening : Bool) : Prop :=
  ∃ pre rest, tried = pre ++ [.bound listening] ∧ Searching found pre (a :: rest)

/-- The table with the socket of the server. -/
def withSocket (t : ℕ → Option (Resource α)) (n : ℕ) (a : α) (listening : Bool) :
    ℕ → Option (Resource α) :=
  Function.update t n (some (.socket (some a) listening))

/-- The table with `/dev/null` at the first `k` descriptors. -/
def stdNull (k : ℕ) (t : ℕ → Option (Resource α)) (m : ℕ) : Option (Resource α) :=
  if m < k then some .devNull else t m

/-- What `daemonize` makes of the table, when it has come to `dup2` with `k`. -/
def Daemonized (t : ℕ → Option (Resource α)) (k d : ℕ) (fds : ℕ → Option (Resource α)) : Prop :=
  Lowest t d ∧ fds = stdNull k (Function.update t d (some .devNull))

/-- One descriptor more. -/
theorem update_stdNull {t : ℕ → Option (Resource α)} {k : ℕ} :
    Function.update (stdNull k t) k (some .devNull) = stdNull (k + 1) t := by
  funext m
  rw [Function.update_apply, stdNull, stdNull]
  split
  · rename_i he
    rw [if_pos (by omega)]
  · rename_i hne
    exact if_congr (by omega) rfl rfl

/-- What a daemon's descriptors refer to. -/
theorem stdNull_update {t : ℕ → Option (Resource α)} {k d : ℕ} (m : ℕ) :
    stdNull k (Function.update t d (some .devNull)) m =
      if m < k ∨ m = d then some .devNull else t m := by
  rw [stdNull, Function.update_apply]
  by_cases hlt : m < k
  · simp [hlt]
  · simp [hlt]

/-- The socket is there, whatever has been logged. -/
theorem socket_of_aside {t fds : ℕ → Option (Resource α)} {logFd : Option ℕ} {n : ℕ} {a : α}
    {listening : Bool} (h : Aside (withSocket t n a listening) .log logFd fds) :
    fds n = some (.socket (some a) listening) ∧ logFd ≠ some n := by
  have hself : withSocket t n a listening n = some (.socket (some a) listening) :=
    Function.update_self ..
  obtain ⟨heq, hne⟩ := h.eq_of_open (n := n) (by rw [hself]; simp)
  exact ⟨heq.trans hself, hne⟩

namespace Startup

/-- There is a connection to the logger only if a signal has ended the server. -/
def Quiet (s : Startup α) : Prop := s.main.shutDown = false → s.logFd = none

/-- The server has a socket. -/
def HasSocket (t₀ : ℕ → Option (Resource α)) (s : Startup α) (n : ℕ) (a : α) (listening : Bool) :
    Prop :=
  Chosen s.found s.tried a listening ∧ s.frees = 1 ∧ s.serverSockFd = some n ∧ Lowest t₀ n ∧ s.Quiet

/-- The socket, when `daemonize` has come to `dup2` with `k`. -/
def socketAfter (k n : ℕ) (a : α) (listening : Bool) : Resource α :=
  if n < k then .devNull else .socket (some a) listening

/-- What a daemon has when it has come to `dup2` with `k`, and which table that makes if no signal
has ended it. -/
structure Dups (t₀ fds : ℕ → Option (Resource α)) (logFd : Option ℕ) (shutDown : Bool) (n : ℕ)
    (a : α) (listening : Bool) (k d : ℕ) : Prop where
  /-- The socket, or `/dev/null` in its place. -/
  socket : Kept fds logFd n (socketAfter k n a listening)
  /-- What it has opened. -/
  null : Kept fds logFd d .devNull
  /-- It is another descriptor. -/
  ne : n ≠ d
  /-- All of the table. -/
  table : shutDown = false → Daemonized (withSocket t₀ n a listening) k d fds

/-- What a server has, which may be a daemon. -/
def Serves (t₀ : ℕ → Option (Resource α)) (s : Startup α) (n : ℕ) (a : α) (listening : Bool) :
    Bool → Prop
  | true => ∃ d, Dups t₀ s.fds s.logFd s.main.shutDown n a listening 3 d
  | false => Aside (withSocket t₀ n a listening) .log s.logFd s.fds

/-- The socket is there, and if the server is to be a daemon it is one. -/
def Settled (t₀ : ℕ → Option (Resource α)) (s : Startup α) : Prop :=
  ∃ n a l, s.HasSocket t₀ n a l ∧ s.Serves t₀ n a l s.main.shouldDaemonize

/-- There are no handlers yet. -/
def Unhandled (s : Startup α) : Prop := s.main.handlers = [] ∧ s.logFd = none

/-- In `start_listening`. -/
def ListenAt (t₀ : ℕ → Option (Resource α)) (s : Startup α) : ListenPc → Prop
  | .getaddrinfo => s.fds = t₀ ∧ s.tried = [] ∧ s.found = none ∧ s.frees = 0
  | .test => Searching s.found s.tried s.pAddrinfo ∧ s.servinfo = true ∧ s.frees = 0 ∧ s.fds = t₀
  | .socket => ∃ a as, s.pAddrinfo = a :: as ∧ Searching s.found s.tried (a :: as) ∧
      s.servinfo = true ∧ s.frees = 0 ∧ s.fds = t₀
  | .setsockopt | .bind => ∃ a as, s.pAddrinfo = a :: as ∧ Searching s.found s.tried (a :: as) ∧
      s.servinfo = true ∧ s.frees = 0 ∧ Lowest t₀ s.sockFd ∧
      s.fds = Function.update t₀ s.sockFd (some (.socket none false))
  | .ntop => ∃ a as, s.pAddrinfo = a :: as ∧ Searching s.found s.tried (a :: as) ∧
      s.servinfo = true ∧ s.frees = 0 ∧ Lowest t₀ s.sockFd ∧
      s.fds = withSocket t₀ s.sockFd a false
  | .listen => ∃ a as, Searching s.found s.tried (a :: as) ∧ s.frees = 1 ∧ Lowest t₀ s.sockFd ∧
      s.fds = withSocket t₀ s.sockFd a false

/-- In `daemonize`. -/
def DaemonAt (t₀ : ℕ → Option (Resource α)) (s : Startup α) (n : ℕ) (a : α) (l : Bool) :
    DaemonPc → Prop
  | .dup2 k => k < 3 ∧ ∀ d, s.nullFd = some d →
      Dups t₀ s.fds s.logFd s.main.shutDown n a l k d
  | _ => Aside (withSocket t₀ n a l) .log s.logFd s.fds

/-- What a daemon leaves behind if nothing has been logged. -/
def LeftByDaemon (t₀ : ℕ → Option (Resource α)) (s : Startup α) : Prop :=
  ∃ n d, s.serverSockFd = some n ∧ n ≠ d ∧ t₀ d = none ∧
    ∀ m, s.fds m = if m = n then none else if m < 3 ∨ m = d then some .devNull else t₀ m

/-- `main` has returned without having got to its loop. -/
def Ended (t₀ : ℕ → Option (Resource α)) (s : Startup α) : Prop :=
  s.Quiet ∧ s.frees = (if s.found.isSome then 1 else 0) ∧
  (Aside t₀ .log s.logFd s.fds ∨
    (s.Unhandled ∧ ∃ pre n, s.tried = pre ++ [.noOption] ∧ Lowest t₀ n ∧
      s.fds = Function.update t₀ n (some (.socket none false))) ∨
    s.main.shouldDaemonize = true ∧ (s.main.shutDown = false → s.LeftByDaemon t₀))

/-- What there is, depending on where `main` is. -/
def StartAt (t₀ : ℕ → Option (Resource α)) (s : Startup α) : Inside → MainPc → Prop
  | .startListening pc, .setup .startListening => s.Unhandled ∧ s.ListenAt t₀ pc
  | .daemonize pc, .setup .daemonize => s.main.shouldDaemonize = true ∧
      ∃ n a l, s.HasSocket t₀ n a l ∧ s.DaemonAt t₀ n a l pc
  | .startTimer _, .setup .startTimer => s.Settled t₀
  | .main, .setup .parseArgs => s.Unhandled ∧ s.ListenAt t₀ .getaddrinfo
  | .main, .setup (.sigaction _) => ∃ n a l, s.HasSocket t₀ n a l ∧ s.Serves t₀ n a l false
  | .main, .setup .mutexInit | .main, .setup .setRunning | .main, .loop .test => s.Settled t₀
  | .main, .cleanup .mutexDestroy | .main, .cleanup .closeServer =>
      ∃ n a l daemon, s.HasSocket t₀ n a l ∧ (daemon = true → s.main.shouldDaemonize = true) ∧
        s.Serves t₀ n a l daemon
  | .main, .cleanup .done => s.Ended t₀
  | .main, .exited => True
  | _, _ => False

variable {build : Build} {t₀ : ℕ → Option (Resource α)} {s s' : Startup α}

/-- A step of the `Process`, or none. -/
def Coarse (build : Build) (m m' : Process) : Prop :=
  m' = m ∨ ∃ b, m.step build b = some m'

theorem back_eq_some {o : MainOutcome} : s.back build o = some s' ↔
    ∃ m, s.main.mainStep build o = some m ∧
      s' = { s.closelog m.pc with main := m, inside := .enter m.pc } := by
  rw [back, Option.map_eq_some_iff]
  exact exists_congr fun m ↦ and_congr_right' eq_comm

theorem coarse_of_back {r : Startup α} {o : MainOutcome} (hs : r.back build o = some s') :
    Coarse build r.main s'.main := by
  obtain ⟨m, hm, rfl⟩ := back_eq_some.mp hs
  exact .inr ⟨.main o, hm⟩

theorem coarse_of_listening {r : Startup α} {fd : Option ℕ}
    (hs : r.listening build fd = some s') : Coarse build r.main s'.main :=
  coarse_of_back (r := { r with serverSockFd := fd }) hs

/-- `start_listening` has failed. -/
theorem listening_none (hpc : s.main.pc = .setup .startListening) :
    s.listening build none = some { s with
      serverSockFd := none, main := s.main.goto (.cleanup .done), inside := .main,
      fds := Files.close s.fds s.logFd, logFd := none } := by
  rw [listening, if_pos rfl, back, Process.mainStep, hpc]
  rfl

/-- `start_listening` has returned a descriptor. -/
theorem listening_some (hpc : s.main.pc = .setup .startListening) (n : ℕ) :
    s.listening build (some n) = some { s with
      serverSockFd := some n, main := s.main.goto (.setup (.sigaction .sigchld)),
      inside := .main } := by
  rw [listening, if_neg (by simp), back, Process.mainStep, hpc]
  rfl

theorem node_of_cons {a : α} {as : List α} (hlive : s.servinfo = true) (hp : s.pAddrinfo = a :: as)
    (k : α → List α → Option (Startup α)) : s.node k = k a as := by
  rw [node, hlive, hp]

theorem freeaddrinfo_of_live (hlive : s.servinfo = true) (k : Startup α → Option (Startup α)) :
    s.freeaddrinfo k = k { s with servinfo := false, frees := s.frees + 1 } := by
  rw [freeaddrinfo, if_pos hlive]

/-- What there is now. -/
def Now (t₀ : ℕ → Option (Resource α)) (s : Startup α) : Prop := s.StartAt t₀ s.inside s.main.pc

/-- The table that is there when nothing has been logged. -/
theorem eq_of_unhandled {t : ℕ → Option (Resource α)} (h : s.Unhandled) (ht : s.fds = t) :
    Aside t .log s.logFd s.fds := by
  rw [h.2, ht]
  exact Files.aside_none

/-- `start_listening` returns without a socket. -/
theorem now_failed {m : Process} (hs : s.listening build none = some s') (hmain : s.main = m)
    (hpc : m.pc = .setup .startListening) (hun : s.Unhandled)
    (hfrees : s.frees = if s.found.isSome then 1 else 0)
    (hfds : s.fds = t₀ ∨ ∃ pre n, s.tried = pre ++ [.noOption] ∧
      Lowest t₀ n ∧ s.fds = Function.update t₀ n (some (.socket none false))) :
    s'.Now t₀ ∧ Coarse build m s'.main := by
  subst hmain
  refine ⟨?_, coarse_of_listening hs⟩
  rw [listening_none hpc, hun.2] at hs
  obtain rfl := Option.some.inj hs
  refine ⟨fun _ ↦ rfl, hfrees, hfds.imp ?_ fun hleft ↦ .inl ⟨⟨hun.1, rfl⟩, hleft⟩⟩
  rintro rfl
  exact Files.aside_none

/-- `start_listening` returns a socket. -/
theorem now_chosen {m : Process} {n : ℕ} (hs : s.listening build (some n) = some s')
    (hmain : s.main = m) (hpc : m.pc = .setup .startListening) (hun : s.Unhandled) {a : α}
    {l : Bool} (hchosen : Chosen s.found s.tried a l) (hfrees : s.frees = 1) (hlow : Lowest t₀ n)
    (hfds : s.fds = withSocket t₀ n a l) : s'.Now t₀ ∧ Coarse build m s'.main := by
  subst hmain
  refine ⟨?_, coarse_of_listening hs⟩
  rw [listening_some hpc] at hs
  obtain rfl := Option.some.inj hs
  exact ⟨n, a, l, ⟨hchosen, hfrees, rfl, hlow, fun _ ↦ hun.2⟩, eq_of_unhandled hun hfds⟩

/-- **`start_listening`.** -/
theorem now_startListening {pc : ListenPc} (hpc : s.main.pc = .setup .startListening)
    (hun : s.Unhandled) (h : s.ListenAt t₀ pc) {o : StartOutcome α}
    (hs : s.startListening build pc o = some s') : s'.Now t₀ ∧ Coarse build s.main s'.main := by
  -- a step inside of it is none of `main`'s
  have hinside : ∀ {pc' : ListenPc} {r : Startup α}, r.inside = .startListening pc' →
      r.main = s.main → r.logFd = s.logFd → r.ListenAt t₀ pc' →
      r.Now t₀ ∧ Coarse build s.main r.main := by
    intro pc' r hin hmain hlog hr
    refine ⟨?_, .inl hmain⟩
    rw [Now, hin, hmain, hpc]
    exact ⟨⟨hmain ▸ hun.1, hlog.trans hun.2⟩, hr⟩
  cases pc <;> cases o <;> simp only [startListening, reduceCtorEq] at hs
  case getaddrinfo.addresses as =>
    obtain ⟨hfds, htried, -, hfrees⟩ := h
    obtain rfl := Option.some.inj hs
    refine hinside rfl rfl rfl ⟨⟨?_, [], rfl, ?_⟩, rfl, hfrees, hfds⟩
    · change ∀ o ∈ s.tried, _
      rw [htried]
      exact List.forall_mem_nil _
    · change _ = s.tried.length
      rw [htried]
      rfl
  case getaddrinfo.fail =>
    obtain ⟨hfds, -, hfound, hfrees⟩ := h
    refine now_failed hs rfl hpc hun ?_ (.inl hfds)
    rw [hfrees, hfound]
    rfl
  case test.ok =>
    obtain ⟨hsearch, hlive, hfrees, hfds⟩ := h
    split at hs
    · rw [freeaddrinfo_of_live hlive] at hs
      refine now_failed hs rfl hpc hun ?_ (.inl hfds)
      change s.frees + 1 = if s.found.isSome then 1 else 0
      rw [hfrees, if_pos hsearch.isSome]
    · rename_i a as hp
      obtain rfl := Option.some.inj hs
      exact hinside rfl rfl rfl ⟨a, as, hp, hp ▸ hsearch, hlive, hfrees, hfds⟩
  case socket.fd n =>
    obtain ⟨a, as, hp, hsearch, hlive, hfrees, hfds⟩ := h
    rw [node_of_cons hlive hp] at hs
    obtain ⟨hlow, rfl⟩ := Option.ite_some_none_eq_some.mp hs
    rw [hfds] at hlow
    refine hinside rfl rfl rfl ⟨a, as, hp, hsearch, hlive, hfrees, hlow, ?_⟩
    change Function.update s.fds n _ = _
    rw [hfds]
  case socket.fail =>
    obtain ⟨a, as, hp, hsearch, hlive, hfrees, hfds⟩ := h
    rw [node_of_cons hlive hp] at hs
    obtain rfl := Option.some.inj hs
    exact hinside rfl rfl rfl ⟨hsearch.next (.inl rfl), hlive, hfrees, hfds⟩
  case setsockopt.ok =>
    obtain rfl := Option.some.inj hs
    exact hinside rfl rfl rfl h
  case setsockopt.fail =>
    obtain ⟨a, as, -, hsearch, hlive, hfrees, hlow, hfds⟩ := h
    rw [freeaddrinfo_of_live (s := s.note .noOption) hlive] at hs
    refine now_failed hs rfl hpc hun ?_ (.inr ⟨s.tried, s.sockFd, rfl, hlow, hfds⟩)
    change s.frees + 1 = if s.found.isSome then 1 else 0
    rw [hfrees, if_pos hsearch.isSome]
  case bind.ok =>
    obtain ⟨a, as, hp, hsearch, hlive, hfrees, hlow, hfds⟩ := h
    rw [node_of_cons hlive hp] at hs
    obtain rfl := Option.some.inj hs
    refine hinside rfl rfl rfl ⟨a, as, hp, hsearch, hlive, hfrees, hlow, ?_⟩
    change Function.update s.fds s.sockFd _ = _
    rw [hfds, Function.update_idem, withSocket]
  case bind.fail =>
    obtain ⟨a, as, hp, hsearch, hlive, hfrees, hlow, hfds⟩ := h
    rw [node_of_cons hlive hp] at hs
    obtain rfl := Option.some.inj hs
    refine hinside rfl rfl rfl ⟨hsearch.next (.inr rfl), hlive, hfrees, ?_⟩
    change Function.update s.fds s.sockFd none = t₀
    rw [hfds, Files.close_open hlow.1]
  case ntop.ok =>
    obtain ⟨a, as, hp, hsearch, hlive, hfrees, hlow, hfds⟩ := h
    rw [node_of_cons hlive hp, freeaddrinfo_of_live hlive] at hs
    obtain rfl := Option.some.inj hs
    refine hinside rfl rfl rfl ⟨a, as, hsearch, ?_, hlow, hfds⟩
    change s.frees + 1 = 1
    rw [hfrees]
  case listen.ok =>
    obtain ⟨a, as, hsearch, hfrees, hlow, hfds⟩ := h
    refine now_chosen hs rfl hpc hun ⟨s.tried, as, rfl, hsearch⟩ hfrees hlow ?_
    change Function.update s.fds s.sockFd ((s.fds s.sockFd).map Resource.listen) = _
    rw [hfds, withSocket, Function.update_self, Function.update_idem]
    rfl
  case listen.fail =>
    obtain ⟨a, as, hsearch, hfrees, hlow, hfds⟩ := h
    exact now_chosen hs rfl hpc hun ⟨s.tried, as, rfl, hsearch⟩ hfrees hlow hfds

/-- `main` goes on. -/
theorem now_back {m m' : Process} {o : MainOutcome} {r : Startup α}
    (hs : r.back build o = some s') (hmain : r.main = m) (hm : m.mainStep build o = some m')
    (hnow : { r.closelog m'.pc with main := m', inside := .enter m'.pc }.Now t₀) :
    s'.Now t₀ ∧ Coarse build m s'.main := by
  subst hmain
  refine ⟨?_, coarse_of_back hs⟩
  obtain ⟨m'', hm'', rfl⟩ := back_eq_some.mp hs
  obtain rfl := Option.some.inj (hm.symm.trans hm'')
  exact hnow

/-- The setup goes on. -/
theorem now_setup {m m' : Process} {pc : SetupPc} {o : MainOutcome} {r : Startup α}
    (hs : r.back build o = some s') (hmain : r.main = m) (hpc : m.pc = .setup pc)
    (hm : m.setupStep build pc o = some m')
    (hnow : { r.closelog m'.pc with main := m', inside := .enter m'.pc }.Now t₀) :
    s'.Now t₀ ∧ Coarse build m s'.main := by
  refine now_back hs hmain ?_ hnow
  rw [Process.mainStep, hpc]
  exact hm

/-- The cleanup goes on. -/
theorem now_cleanup {m m' : Process} {pc : CleanupPc} {o : MainOutcome} {r : Startup α}
    (hs : r.back build o = some s') (hmain : r.main = m) (hpc : m.pc = .cleanup pc)
    (hm : m.cleanupStep build pc o = some m')
    (hnow : { r.closelog m'.pc with main := m', inside := .enter m'.pc }.Now t₀) :
    s'.Now t₀ ∧ Coarse build m s'.main := by
  refine now_back hs hmain ?_ hnow
  rw [Process.mainStep, hpc]
  exact hm

/-- `daemonize` opens `/dev/null`. -/
theorem dups_of_open {n d : ℕ} {a : α} {l : Bool} (hquiet : s.Quiet)
    (h : Aside (withSocket t₀ n a l) .log s.logFd s.fds) (hlow : Lowest s.fds d) :
    Dups t₀ (Function.update s.fds d (some .devNull)) s.logFd s.main.shutDown n a l 0 d := by
  obtain ⟨hsock, hlog⟩ := socket_of_aside h
  have hne : n ≠ d := by
    rintro rfl
    exact absurd (hlow.1.symm.trans hsock) (by simp)
  refine ⟨⟨?_, hlog⟩, ⟨Function.update_self .., (h.free_of_free hlow.1).2⟩, hne, ?_⟩
  · exact (Function.update_of_ne hne ..).trans hsock
  · intro hshut
    have hfds : s.fds = withSocket t₀ n a l := by
      rw [h.eq, hquiet hshut]
      rfl
    rw [hfds] at hlow ⊢
    refine ⟨hlow, ?_⟩
    funext m
    rw [stdNull, if_neg (Nat.not_lt_zero m)]

/-- `dup2` to one of the standard descriptors. -/
theorem Dups.dup2 {fds : ℕ → Option (Resource α)} {logFd : Option ℕ} {shutDown : Bool}
    {n k d : ℕ} {a : α} {l : Bool} (h : Dups t₀ fds logFd shutDown n a l k d) :
    Dups t₀ (Function.update fds k (fds d)) logFd shutDown n a l (k + 1) d := by
  rw [h.null.1]
  refine ⟨⟨?_, h.socket.2⟩, ⟨?_, h.null.2⟩, h.ne, fun hshut ↦ ?_⟩
  · rw [Function.update_apply, h.socket.1, socketAfter, socketAfter]
    split
    · rename_i heq
      rw [if_pos (by omega)]
    · rename_i hne
      exact congrArg some (if_congr (by omega) rfl rfl)
  · rw [Function.update_apply, h.null.1, ite_self]
  · obtain ⟨hlow, hfds⟩ := h.table hshut
    refine ⟨hlow, ?_⟩
    rw [hfds, update_stdNull]

/-- **`daemonize`.** -/
theorem now_daemonize {pc : DaemonPc} (hpc : s.main.pc = .setup .daemonize)
    (hdaemon : s.main.shouldDaemonize = true) {n : ℕ} {a : α} {l : Bool}
    (hsock : s.HasSocket t₀ n a l) (h : s.DaemonAt t₀ n a l pc) {o : StartOutcome α}
    (hs : s.daemonize build pc o = some s') : s'.Now t₀ ∧ Coarse build s.main s'.main := by
  have hinside : ∀ {pc' : DaemonPc} {r : Startup α}, r.inside = .daemonize pc' →
      r.main = s.main → r.HasSocket t₀ n a l → r.DaemonAt t₀ n a l pc' →
      r.Now t₀ ∧ Coarse build s.main r.main := by
    intro pc' r hin hmain hsock hr
    refine ⟨?_, .inl hmain⟩
    rw [Now, hin, hmain, hpc]
    exact ⟨hmain ▸ hdaemon, n, a, l, hsock, hr⟩
  have hexit : ∀ {o'}, o' = MainOutcome.parent ∨ o' = .fail → s.back build o' = some s' →
      s'.Now t₀ ∧ Coarse build s.main s'.main := by
    rintro o' (rfl | rfl) hs <;> exact now_setup hs rfl hpc rfl trivial
  cases pc <;> cases o <;> simp only [daemonize, reduceCtorEq] at hs
  case fork.ok | setsid.ok | forkAgain.ok =>
    obtain rfl := Option.some.inj hs
    exact hinside rfl rfl hsock h
  case fork.parent | forkAgain.parent => exact hexit (.inl rfl) hs
  case fork.fail | setsid.fail | forkAgain.fail | dup2.fail => exact hexit (.inr rfl) hs
  case openNull.fd d =>
    obtain ⟨hlow, rfl⟩ := Option.ite_some_none_eq_some.mp hs
    refine hinside rfl rfl hsock ⟨by omega, ?_⟩
    rintro d' ⟨⟩
    exact dups_of_open hsock.2.2.2.2 h hlow
  case openNull.fail =>
    obtain rfl := Option.some.inj hs
    refine hinside rfl rfl hsock ⟨by omega, ?_⟩
    rintro d' ⟨⟩
  case dup2.ok k =>
    obtain ⟨hk, hnull⟩ := h
    split at hs
    · exact absurd hs (by simp)
    · rename_i d hd
      have hdups := (hnull d hd).dup2
      split at hs
      · rename_i hlt
        obtain rfl := Option.some.inj hs
        refine hinside rfl rfl hsock ⟨by omega, ?_⟩
        intro d' he
        obtain rfl : d = d' := Option.some.inj (hd.symm.trans he)
        exact hdups
      · rename_i hge
        obtain rfl : k = 2 := by omega
        refine now_setup hs rfl hpc rfl ⟨n, a, l, hsock, ?_⟩
        change Serves t₀ _ n a l s.main.shouldDaemonize
        rw [hdaemon]
        exact ⟨d, hdups⟩

/-- **`start_timer`.** -/
theorem now_startTimer {pc : StartTimerPc} (hpc : s.main.pc = .setup .startTimer)
    (h : s.Settled t₀) {o : StartOutcome α} (hs : s.startTimer build pc o = some s') :
    s'.Now t₀ ∧ Coarse build s.main s'.main := by
  have hfail : s.back build .fail = some s' → s'.Now t₀ ∧ Coarse build s.main s'.main := by
    obtain ⟨n, a, l, hsock, htable⟩ := h
    exact fun hs ↦ now_setup hs rfl hpc rfl ⟨n, a, l, _, hsock, id, htable⟩
  cases pc <;> cases o <;> simp only [startTimer, reduceCtorEq] at hs
  case create.ok =>
    obtain rfl := Option.some.inj hs
    refine ⟨?_, .inl rfl⟩
    change StartAt t₀ _ (.startTimer .settime) s.main.pc
    rw [hpc]
    exact h
  case create.fail | settime.fail => exact hfail hs
  case settime.ok => exact now_setup hs rfl hpc rfl h

/-- The step of `main` has failed to exist. -/
theorem back_eq_none {m : Process} {o : MainOutcome} (hmain : s.main = m)
    (hm : m.mainStep build o = none) : s.back build o ≠ some s' := by
  subst hmain
  rw [back, hm]
  simp

theorem now_main_setup {pc : SetupPc} (hpc : s.main.pc = .setup pc)
    (h : s.StartAt t₀ .main (.setup pc)) {o : MainOutcome} (ho : o = .ok ∨ o = .fail)
    (hs : s.back build o = some s') : s'.Now t₀ ∧ Coarse build s.main s'.main := by
  have hnone : s.main.setupStep build pc o ≠ none := by
    intro hm
    exact back_eq_none rfl (by rw [Process.mainStep, hpc]; exact hm) hs
  cases pc with
  | parseArgs =>
    rcases ho with rfl | rfl
    · obtain ⟨m, hm, -⟩ := back_eq_some.mp hs
      rw [Process.mainStep, hpc] at hm
      refine now_setup hs rfl hpc hm ?_
      simp only [Process.setupStep] at hm
      split at hm <;> obtain rfl := Option.some.inj hm
      · trivial
      · exact h
    · exact absurd rfl hnone
  | sigaction sig =>
    obtain ⟨n, a, l, hsock, hfds⟩ := h
    rcases ho with rfl | rfl
    · refine now_setup hs rfl hpc rfl ?_
      cases sig with
      | sigchld | sigint => exact ⟨n, a, l, hsock, hfds⟩
      | sigterm =>
        change StartAt t₀ { s with main := _ } (.enter (.setup (s.main.afterSigaction .sigterm)))
          (.setup (s.main.afterSigaction .sigterm))
        rw [Process.afterSigaction]
        split
        · rename_i hdaemon
          exact ⟨hdaemon, n, a, l, hsock, hfds⟩
        · rename_i hdaemon
          refine ⟨n, a, l, hsock, ?_⟩
          change Serves t₀ _ n a l s.main.shouldDaemonize
          rw [Bool.not_eq_true] at hdaemon
          rw [hdaemon]
          exact hfds
    · exact now_setup hs rfl hpc rfl ⟨n, a, l, false, hsock, by simp, hfds⟩
  | mutexInit =>
    rcases ho with rfl | rfl
    · refine now_setup hs rfl hpc rfl ?_
      cases build <;> exact h
    · obtain ⟨n, a, l, hsock, htable⟩ := h
      exact now_setup hs rfl hpc rfl ⟨n, a, l, _, hsock, id, htable⟩
  | setRunning =>
    rcases ho with rfl | rfl
    · exact now_setup hs rfl hpc rfl h
    · exact absurd rfl hnone
  | startListening | daemonize | startTimer => exact h.elim

theorem closeServer_of_some {n : ℕ} (h : s.serverSockFd = some n) :
    s.closeServer = { s with fds := Function.update s.fds n none } := by
  rw [closeServer]
  split
  · rename_i hnone
    exact absurd (hnone.symm.trans h) (by simp)
  · rename_i n' hn
    obtain rfl := Option.some.inj (hn.symm.trans h)
    rfl

/-- The server has closed its socket, and the C library its connection. -/
theorem ended_of_closed {n : ℕ} {a : α} {l daemon : Bool} (hsock : s.HasSocket t₀ n a l)
    (hdaemon : daemon = true → s.main.shouldDaemonize = true) (h : s.Serves t₀ n a l daemon) :
    { s with fds := Files.close (Function.update s.fds n none) s.logFd, logFd := none }.Ended
      t₀ := by
  obtain ⟨⟨pre, rest, -, hsearch⟩, hfrees, hfd, hlow, hquiet⟩ := hsock
  refine ⟨fun _ ↦ rfl, hfrees.trans (if_pos hsearch.isSome).symm, ?_⟩
  cases daemon with
  | false =>
    left
    have hserves : Aside (withSocket t₀ n a l) .log s.logFd s.fds := h
    obtain ⟨-, hlog⟩ := socket_of_aside hserves
    dsimp only
    rw [(hserves.close_other hlog).close_eq, withSocket, Files.close_open hlow.1]
    exact Files.aside_none
  | true =>
    refine .inr (.inr ⟨hdaemon rfl, fun hshut ↦ ?_⟩)
    obtain ⟨d, hdups⟩ := h
    obtain ⟨hd, hfds⟩ := hdups.table hshut
    have hfree := hd.1
    rw [withSocket, Function.update_of_ne hdups.ne.symm] at hfree
    refine ⟨n, d, hfd, hdups.ne, hfree, fun m ↦ ?_⟩
    dsimp only
    rw [hquiet hshut, Files.close, hfds, Function.update_apply]
    refine if_ctx_congr Iff.rfl (fun _ ↦ rfl) fun hmn ↦ ?_
    rw [stdNull_update, withSocket, Function.update_of_ne hmn]

theorem now_main_cleanup {pc : CleanupPc} (hpc : s.main.pc = .cleanup pc)
    (h : s.StartAt t₀ .main (.cleanup pc)) {o : MainOutcome} (ho : o = .ok ∨ o = .fail)
    (hs : (if pc = .closeServer then s.closeServer else s).back build o = some s') :
    s'.Now t₀ ∧ Coarse build s.main s'.main := by
  cases pc with
  | mutexDestroy =>
    rw [if_neg (by simp)] at hs
    rcases ho with rfl | rfl <;> exact now_cleanup hs rfl hpc rfl h
  | closeServer =>
    rw [if_pos rfl] at hs
    obtain ⟨n, a, l, daemon, hsock, hdaemon, htable⟩ := h
    rw [closeServer_of_some hsock.2.2.1] at hs
    have hended := ended_of_closed hsock hdaemon htable
    rcases ho with rfl | rfl <;> exact now_cleanup hs rfl hpc rfl hended
  | done =>
    rw [if_neg (by simp)] at hs
    refine absurd hs (back_eq_none rfl ?_)
    rw [Process.mainStep, hpc]
    rcases ho with rfl | rfl <;> rfl
  | test | closeClient | timerDelete | drain | removeFile => exact h.elim

/-- **`main` itself.** -/
theorem now_main (h : s.StartAt t₀ .main s.main.pc) {o : StartOutcome α}
    (hs : s.mainStep build o = some s') : s'.Now t₀ ∧ Coarse build s.main s'.main := by
  cases hpc : s.main.pc with
  | setup pc =>
    rw [hpc] at h
    cases o <;> simp only [mainStep, hpc, reduceCtorEq] at hs
    case ok => exact now_main_setup hpc h (.inl rfl) hs
    case fail => exact now_main_setup hpc h (.inr rfl) hs
  | cleanup pc =>
    rw [hpc] at h
    cases o <;> simp only [mainStep, hpc, reduceCtorEq] at hs
    case ok =>
      refine now_main_cleanup hpc h (.inl rfl) ?_
      cases pc <;> exact hs
    case fail =>
      refine now_main_cleanup hpc h (.inr rfl) ?_
      cases pc <;> exact hs
  | loop | sweep | exited | undefined =>
    exact absurd hs (by cases o <;> simp [mainStep, hpc])

/-- `main` is in a function if it is where it calls it. -/
theorem pc_of_inside {mpc : MainPc} : ∀ {inside : Inside}, s.StartAt t₀ inside mpc →
    match inside with
    | .main => True
    | .startListening pc => mpc = .setup .startListening ∧ s.Unhandled ∧ s.ListenAt t₀ pc
    | .daemonize pc => mpc = .setup .daemonize ∧ s.main.shouldDaemonize = true ∧
        ∃ n a l, s.HasSocket t₀ n a l ∧ s.DaemonAt t₀ n a l pc
    | .startTimer _ => mpc = .setup .startTimer ∧ s.Settled t₀
  | .main, _ => trivial
  | .startListening pc, h => by
    cases mpc with
    | setup pc' => cases pc' <;> first | exact ⟨rfl, h⟩ | exact h.elim
    | loop | sweep | cleanup | exited | undefined => exact h.elim
  | .daemonize pc, h => by
    cases mpc with
    | setup pc' => cases pc' <;> first | exact ⟨rfl, h⟩ | exact h.elim
    | loop | sweep | cleanup | exited | undefined => exact h.elim
  | .startTimer pc, h => by
    cases mpc with
    | setup pc' => cases pc' <;> first | exact ⟨rfl, h⟩ | exact h.elim
    | loop | sweep | cleanup | exited | undefined => exact h.elim

/-! ## Signals -/

/-- **What the handler does to the table**: what is aside from the rest is still so, and what is
not the connection to the logger stays what it is. -/
theorem syslog_cases {log : LogOutcome} (hs : s.syslog log = some s') :
    ∃ fds logFd, s' = { s with fds := fds, logFd := logFd } ∧
      (∀ t, Aside t .log s.logFd s.fds → Aside t .log logFd fds) ∧
      ∀ n r, Kept s.fds s.logFd n r → Kept fds logFd n r := by
  cases log with
  | sent =>
    rw [syslog] at hs
    split at hs
    · exact absurd hs (by simp)
    · obtain ⟨-, rfl⟩ := Option.ite_some_none_eq_some.mp hs
      exact ⟨_, _, rfl, fun _ ht ↦ ht, fun _ _ hn ↦ hn⟩
  | connected k =>
    obtain ⟨hlow, rfl⟩ := Option.ite_some_none_eq_some.mp hs
    exact ⟨_, _, rfl, fun _ ht ↦ ht.reopen hlow, fun _ _ hn ↦ hn.reopen hlow _⟩
  | refused =>
    obtain rfl := Option.some.inj hs
    exact ⟨_, _, rfl, fun _ ht ↦ ht.close_eq ▸ Files.aside_none, fun _ _ hn ↦ hn.close⟩

section

variable {fds : ℕ → Option (Resource α)} {logFd : Option ℕ} {m : Process} {n d k : ℕ} {a : α}
  {l : Bool}

theorem HasSocket.handled (h : s.HasSocket t₀ n a l) (hm : m.shutDown = true) :
    { s with main := m, fds := fds, logFd := logFd }.HasSocket t₀ n a l := by
  obtain ⟨hchosen, hfrees, hfd, hlow, -⟩ := h
  exact ⟨hchosen, hfrees, hfd, hlow, fun hshut ↦ absurd (hm.symm.trans hshut) (by simp)⟩

theorem Dups.handled (h : Dups t₀ s.fds s.logFd s.main.shutDown n a l k d)
    (hkept : ∀ n r, Kept s.fds s.logFd n r → Kept fds logFd n r) (hm : m.shutDown = true) :
    Dups t₀ fds logFd m.shutDown n a l k d :=
  ⟨hkept _ _ h.socket, hkept _ _ h.null, h.ne, fun hshut ↦ absurd (hm.symm.trans hshut) (by simp)⟩

theorem Serves.handled {daemon : Bool} (h : s.Serves t₀ n a l daemon)
    (haside : ∀ t, Aside t .log s.logFd s.fds → Aside t .log logFd fds)
    (hkept : ∀ n r, Kept s.fds s.logFd n r → Kept fds logFd n r) (hm : m.shutDown = true) :
    { s with main := m, fds := fds, logFd := logFd }.Serves t₀ n a l daemon := by
  cases daemon with
  | false => exact haside _ h
  | true =>
    obtain ⟨d, hdups⟩ := h
    exact ⟨d, hdups.handled hkept hm⟩

/-- **A signal changes nothing else.** -/
theorem StartAt.handled {inside : Inside} {pc : MainPc} (h : s.StartAt t₀ inside pc)
    (hreg : s.main.handlers ≠ [])
    (haside : ∀ t, Aside t .log s.logFd s.fds → Aside t .log logFd fds)
    (hkept : ∀ n r, Kept s.fds s.logFd n r → Kept fds logFd n r) (hm : m.shutDown = true)
    (hdaemon : m.shouldDaemonize = s.main.shouldDaemonize) :
    { s with main := m, fds := fds, logFd := logFd }.StartAt t₀ inside pc := by
  have hsettled : s.Settled t₀ → { s with main := m, fds := fds, logFd := logFd }.Settled t₀ := by
    rintro ⟨n, a, l, hsock, hserves⟩
    refine ⟨n, a, l, hsock.handled hm, ?_⟩
    change Serves t₀ _ n a l m.shouldDaemonize
    rw [hdaemon]
    exact hserves.handled haside hkept hm
  rw [StartAt.eq_def] at h ⊢
  split at h
  case h_1 | h_4 => exact absurd h.1.1 hreg
  case h_2 pc =>
    obtain ⟨hd, n, a, l, hsock, hat⟩ := h
    refine ⟨hdaemon.trans hd, n, a, l, hsock.handled hm, ?_⟩
    cases pc with
    | dup2 k => exact ⟨hat.1, fun d hnull ↦ (hat.2 d hnull).handled hkept hm⟩
    | fork | setsid | forkAgain | openNull => exact haside _ hat
  case h_5 =>
    obtain ⟨n, a, l, hsock, hserves⟩ := h
    exact ⟨n, a, l, hsock.handled hm, hserves.handled haside hkept hm⟩
  case h_3 | h_6 | h_7 | h_8 => exact hsettled h
  case h_9 | h_10 =>
    obtain ⟨n, a, l, daemon, hsock, hd, hserves⟩ := h
    exact ⟨n, a, l, daemon, hsock.handled hm, fun he ↦ hdaemon.trans (hd he),
      hserves.handled haside hkept hm⟩
  case h_11 =>
    obtain ⟨-, hfrees, hends⟩ := h
    refine ⟨fun hshut ↦ absurd (hm.symm.trans hshut) (by simp), hfrees, ?_⟩
    rcases hends with htable | ⟨hun, -⟩ | ⟨hd, -⟩
    · exact .inl (haside _ htable)
    · exact absurd hun.1 hreg
    · exact .inr (.inr ⟨hdaemon.trans hd, fun hshut ↦ absurd (hm.symm.trans hshut) (by simp)⟩)
  case h_12 => trivial
  case h_13 => exact h

end

/-- **One event.** -/
theorem now_step (h : s.Now t₀) {a : StartAction α} (hs : s.step build a = some s') :
    s'.Now t₀ ∧ Coarse build s.main s'.main := by
  cases a with
  | call o =>
    rw [step] at hs
    have hpc := pc_of_inside h
    split at hs <;> rename_i hin <;> rw [hin] at hpc
    · exact now_main (hin ▸ h) hs
    · exact now_startListening hpc.1 hpc.2.1 hpc.2.2 hs
    · obtain ⟨hpc, hdaemon, n, a, l, hsock, hat⟩ := hpc
      exact now_daemonize hpc hdaemon hsock hat hs
    · exact now_startTimer hpc.1 hpc.2 hs
  | signal sig log =>
    rw [step] at hs
    split at hs
    · exact absurd hs (by simp)
    · rename_i m hm
      obtain ⟨hreg, rfl⟩ := Option.ite_some_none_eq_some.mp hm
      have hne : s.main.handlers ≠ [] := List.ne_nil_of_mem hreg
      have hends : { s with main := { s.main with isRunning := false, shutDown := true } }.syslog
          log = some s' →
          s'.Now t₀ ∧ s'.main = { s.main with isRunning := false, shutDown := true } := by
        intro hs
        obtain ⟨fds, logFd, rfl, haside, hkept⟩ := syslog_cases hs
        exact ⟨h.handled hne haside hkept rfl rfl, rfl⟩
      cases sig with
      | sigchld =>
        obtain rfl := Option.some.inj hs
        exact ⟨h, .inl rfl⟩
      | sigint | sigterm =>
        obtain ⟨hnow, hmain⟩ := hends hs
        exact ⟨hnow, .inr ⟨_, hm.trans (congrArg some hmain.symm)⟩⟩

theorem now_init (argv : List String) (garbage : ℤ) (t₀ : ℕ → Option (Resource α)) :
    (init argv garbage t₀).Now t₀ := ⟨⟨rfl, rfl⟩, rfl, rfl, rfl, rfl⟩

theorem now_of_run {argv : List String} {garbage : ℤ} {as : List (StartAction α)}
    (hrun : as.foldlM (Startup.step build) (init argv garbage t₀) = some s) : s.Now t₀ :=
  Run.foldlM_invariant (I := Now t₀) (fun _ _ _ h hs ↦ (now_step h hs).1) hrun
    (now_init argv garbage t₀)

/-- **With the functions closed again it is the `Process`.** -/
theorem refines {argv : List String} {garbage : ℤ} {as : List (StartAction α)}
    (hrun : as.foldlM (Startup.step build) (init argv garbage t₀) = some s) :
    ∃ bs : List Action, bs.foldlM (Process.step build) (.init argv garbage) = some s.main :=
  Run.foldlM_stutter (I := Now t₀) Startup.main (fun _ _ _ h hs ↦ now_step h hs) hrun
    (now_init argv garbage t₀)

/-- At the loop. -/
theorem settled_of_loop (h : s.Now t₀) (hpc : s.main.pc = .loop .test) : s.Settled t₀ := by
  rw [Now, hpc] at h
  cases hin : s.inside <;> rw [hin] at h <;> first | exact h | exact h.elim

/-- On return. -/
theorem ended_of_done (h : s.Now t₀) (hpc : s.main.pc = .cleanup .done) : s.Ended t₀ := by
  rw [Now, hpc] at h
  cases hin : s.inside <;> rw [hin] at h <;> first | exact h | exact h.elim

end Startup

end

/-- The calls of `main` that succeed one after another. -/
def startOks {α : Type u} (n : ℕ) : List (StartAction α) := List.replicate n (.call .ok)

/-- A daemon is started with `stdin` closed. -/
def daemonRun : List (StartAction String) :=
  [.call .ok, .call (.addresses ["0.0.0.0", "::"]), .call .ok, .call .fail, .call .ok,
    .call (.fd 0)] ++ startOks 4 ++ startOks 3 ++ startOks 3 ++ [.call (.fd 3)] ++ startOks 3 ++
    startOks 2

/-- What is open then. -/
def noStdin (n : ℕ) : Option (Resource String) :=
  if n = 1 ∨ n = 2 then some (.inherited n) else none

end Aesd
