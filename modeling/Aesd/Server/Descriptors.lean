import Aesd.Server.Reaper

/-!
# Who closes a connection

A descriptor that `accept` has returned belongs to `main` until there is a thread for it, and to the
thread from then on.  `main` keeps no record of this but the value of `client_sock_fd`: it is the
descriptor, or `-1` when there is none to close.  But it is not initialised, so it is neither before
the first call of `accept`, and a signal that comes before the first test of the loop leads to the
test of it with that value.

`Process.Tracked` says whose every connection is.  Connection `k` is the one thread `k` serves, if
there is such a thread, and only the last one can be without.  `descriptors_closed_iff` says that
the signal before the first test is all that can go wrong.
-/

set_option autoImplicit false

namespace Aesd

/-! ## The table -/

/-- The connection was open, and it was its own thread that closed it, or `main`, because there is
no thread for it. -/
def Close.Proper (c : Close) (accepted : List ℤ) (n : ℕ) : Prop :=
  ∃ k, c.conn = some k ∧ accepted[k]? = some c.fd ∧
    (c.closer = .thread k ∧ k < n ∨ c.closer = .main ∧ n ≤ k)

/-- The kernel's table after some calls of `accept` and `close`; `n` is the number of threads. -/
structure FdTable (accepted : List ℤ) (n : ℕ) (fds : ℤ → Option ℕ) (closes : List Close) :
    Prop where
  /-- An open connection has not been closed. -/
  opened : ∀ fd k, fds fd = some k → accepted[k]? = some fd ∧ some k ∉ closes.map Close.conn
  /-- Every call of `close` was in order. -/
  proper : ∀ c ∈ closes, c.Proper accepted n
  /-- No connection has been closed twice. -/
  once : (closes.map Close.conn).Nodup

namespace FdTable

variable {accepted : List ℤ} {n : ℕ} {fds : ℤ → Option ℕ} {closes : List Close}

/-- A connection is open at one descriptor. -/
theorem fd_eq (h : FdTable accepted n fds closes) {fd fd' : ℤ} {k : ℕ} (hk : fds fd = some k)
    (hk' : fds fd' = some k) : fd = fd' :=
  Option.some.inj ((h.opened fd k hk).1.symm.trans (h.opened fd' k hk').1)

theorem conn_lt (h : FdTable accepted n fds closes) {k : ℕ} (hk : some k ∈ closes.map Close.conn) :
    k < accepted.length := by
  obtain ⟨c, hc, hconn⟩ := List.mem_map.mp hk
  obtain ⟨k', hk', hget, -⟩ := h.proper c hc
  obtain rfl : k = k' := Option.some.inj (hconn.symm.trans hk')
  exact (List.getElem?_eq_some_iff.mp hget).1

/-- An open connection is closed. -/
theorem close (h : FdTable accepted n fds closes) {fd : ℤ} {k : ℕ} (hk : fds fd = some k)
    {closer : Closer} (hcloser : closer = .thread k ∧ k < n ∨ closer = .main ∧ n ≤ k) :
    FdTable accepted n (Function.update fds fd none) (closes ++ [⟨closer, fd, fds fd⟩]) where
  opened fd' k' hk' := by
    rw [Function.update_apply] at hk'
    split at hk'
    · exact absurd hk' (by simp)
    · rename_i hne
      obtain ⟨hget, hnot⟩ := h.opened fd' k' hk'
      refine ⟨hget, ?_⟩
      rw [List.map_append, List.mem_append, not_or]
      refine ⟨hnot, ?_⟩
      simp only [List.map_cons, List.map_nil, List.mem_singleton, hk, Option.some.injEq]
      rintro rfl
      exact hne (h.fd_eq hk' hk)
  proper c hc := by
    rcases List.mem_append.mp hc with hc | hc
    · exact h.proper c hc
    · obtain rfl := List.mem_singleton.mp hc
      exact ⟨k, hk, (h.opened fd k hk).1, hcloser⟩
  once := by
    rw [List.map_append, List.nodup_append]
    refine ⟨h.once, List.nodup_singleton _, ?_⟩
    intro c hc c' hc' he
    obtain rfl := List.mem_singleton.mp hc'
    rw [he] at hc
    exact (h.opened fd k hk).2 (hk ▸ hc)

/-- A new connection. -/
theorem accept (h : FdTable accepted n fds closes) (fd : ℤ) :
    FdTable (accepted ++ [fd]) n (Function.update fds fd (some accepted.length)) closes where
  opened fd' k hk := by
    rw [Function.update_apply] at hk
    split at hk
    · rename_i he
      obtain rfl := Option.some.inj hk
      refine ⟨by rw [he, List.getElem?_concat_length], ?_⟩
      exact fun hmem ↦ absurd (h.conn_lt hmem) (Nat.lt_irrefl _)
    · exact ⟨Table.concat_of (h.opened fd' k hk).1 fd, (h.opened fd' k hk).2⟩
  proper c hc := by
    obtain ⟨k, hconn, hget, hcloser⟩ := h.proper c hc
    exact ⟨k, hconn, Table.concat_of hget fd, hcloser⟩
  once := h.once

/-- A new thread, for the connection that is open without one. -/
theorem create (h : FdTable accepted n fds closes) {fd : ℤ} (hopen : fds fd = some n)
    (hlen : accepted.length = n + 1) : FdTable accepted (n + 1) fds closes where
  opened := h.opened
  proper c hc := by
    obtain ⟨k, hconn, hget, hcloser⟩ := h.proper c hc
    refine ⟨k, hconn, hget, ?_⟩
    rcases hcloser with ⟨he, hlt⟩ | ⟨-, hle⟩
    · exact .inl ⟨he, by omega⟩
    · have hlt := (List.getElem?_eq_some_iff.mp hget).1
      obtain rfl : k = n := by omega
      exact absurd (hconn ▸ List.mem_map_of_mem hc) (h.opened fd k hopen).2
  once := h.once

end FdTable

/-! ## Whose a connection is -/

/-- The thread has closed its connection. -/
def Thread.HasClosed (t : Thread) : Prop := t.sock.pc = .finish ∨ t.sock.pc = .done

/-- The last connection is `main`'s, and `client_sock_fd` says so. -/
structure Holding (accepted : List ℤ) (n : ℕ) (fds : ℤ → Option ℕ) (sockFd : Option ℤ) : Prop where
  /-- There is one more connection than there are threads. -/
  length : accepted.length = n + 1
  /-- Its descriptor. -/
  fd : ∃ fd, sockFd = some fd ∧ fd ≠ -1 ∧ fds fd = some n

/-- What `main` has to do with the connections, depending on where it is. -/
def ClientAt (accepted : List ℤ) (n : ℕ) (fds : ℤ → Option ℕ) (closed : List (Option ℕ))
    (sockFd : Option ℤ) (garbage : ℤ) : MainPc → Prop
  | .setup _ | .exited => accepted = [] ∧ n = 0 ∧ sockFd = none
  | .loop .test | .loop .accept =>
    accepted.length = n ∧ (sockFd = some (-1) ∨ sockFd = none ∧ accepted = [])
  | .loop .initThread | .loop .pthreadCreate | .loop .freeArgs | .cleanup .closeClient =>
    Holding accepted n fds sockFd
  | .loop .disown => accepted.length = n
  | .loop .acceptFailed | .loop .insert | .sweep .loop _ =>
    accepted.length = n ∧ sockFd = some (-1)
  | .cleanup .test =>
    Holding accepted n fds sockFd ∨ accepted.length = n ∧ sockFd.getD garbage = -1
  | .cleanup _ | .sweep .drain _ =>
    accepted.length = n ∨ accepted.length = n + 1 ∧ some n ∈ closed
  | .undefined => True

namespace Process

variable {build : Build} {s s' : Process} {i : ℕ}

/-- What `main` has to do with the connections. -/
def clientAt (s : Process) : Prop :=
  ClientAt s.accepted s.threads.length s.fds (s.closes.map Close.conn) s.clientSockFd s.garbage s.pc

/-- Every connection is somebody's. -/
structure Tracked (s : Process) : Prop where
  /-- The table. -/
  table : FdTable s.accepted s.threads.length s.fds s.closes
  /-- Every thread has its own connection. -/
  fd : ∀ (k : ℕ) (t : Thread), s.threads[k]? = some t → s.accepted[k]? = some t.fd
  /-- It is open as long as the thread has not closed it. -/
  holds : ∀ (k : ℕ) (t : Thread), s.threads[k]? = some t → ¬t.HasClosed → s.fds t.fd = some k
  /-- And it is not open any longer. -/
  closed : ∀ (k : ℕ) (t : Thread), s.threads[k]? = some t → t.HasClosed →
    some k ∈ s.closes.map Close.conn
  /-- `main`. -/
  main : s.clientAt
  /-- The loop is entered. -/
  first : s.pc = .loop .test → s.clientSockFd = none → s.isRunning = true ∨ s.garbage = -1

theorem tracked_init (argv : List String) (garbage : ℤ) : (init argv garbage).Tracked where
  table := ⟨by simp [init], by simp [init], by simp [init]⟩
  fd := by simp [init]
  holds := by simp [init]
  closed := by simp [init]
  main := ⟨rfl, rfl, rfl⟩
  first := by simp [init]

/-- Threads that differ in nothing that matters here. -/
def SameFds (threads threads' : List Thread) : Prop :=
  threads'.length = threads.length ∧ ∀ (k : ℕ) (t' : Thread), threads'[k]? = some t' →
    ∃ t : Thread, threads[k]? = some t ∧ t'.fd = t.fd ∧ (t'.HasClosed ↔ t.HasClosed)

theorem SameFds.refl (threads : List Thread) : SameFds threads threads :=
  ⟨rfl, fun _ t' ht ↦ ⟨t', ht, rfl, Iff.rfl⟩⟩

theorem sameFds_set {threads : List Thread} {t t' : Thread} (hi : threads[i]? = some t)
    (hfd : t'.fd = t.fd) (hclosed : t'.HasClosed ↔ t.HasClosed) :
    SameFds threads (threads.set i t') := by
  refine ⟨List.length_set, ?_⟩
  intro k u hk
  rcases Table.of_set hk with ⟨rfl, rfl⟩ | ⟨-, hk⟩
  · exact ⟨t, hi, hfd, hclosed⟩
  · exact ⟨u, hk, rfl, Iff.rfl⟩

/-- The connections, open and closed. -/
def connections (s : Process) : List ℤ × (ℤ → Option ℕ) × List Close :=
  (s.accepted, s.fds, s.closes)

/-- No connection has been opened or closed. -/
theorem Tracked.congr (h : s.Tracked) (hconn : s'.connections = s.connections)
    (hthreads : SameFds s.threads s'.threads)
    (hmain : ClientAt s.accepted s.threads.length s.fds (s.closes.map Close.conn) s'.clientSockFd
      s'.garbage s'.pc)
    (hfirst : s'.pc = .loop .test → s'.clientSockFd = none →
      s'.isRunning = true ∨ s'.garbage = -1) : s'.Tracked := by
  simp only [connections, Prod.mk.injEq] at hconn
  obtain ⟨haccepted, hfds, hcloses⟩ := hconn
  constructor
  · rw [haccepted, hthreads.1, hfds, hcloses]
    exact h.table
  · intro k t' hk
    obtain ⟨t, ht, hfd, -⟩ := hthreads.2 k t' hk
    rw [haccepted, hfd]
    exact h.fd k t ht
  · intro k t' hk hopen
    obtain ⟨t, ht, hfd, hclosed⟩ := hthreads.2 k t' hk
    rw [hfds, hfd]
    exact h.holds k t ht fun hc ↦ hopen (hclosed.mpr hc)
  · intro k t' hk hc
    obtain ⟨t, ht, -, hclosed⟩ := hthreads.2 k t' hk
    rw [hcloses]
    exact h.closed k t ht (hclosed.mp hc)
  · rw [clientAt, haccepted, hthreads.1, hfds, hcloses]
    exact hmain
  · exact hfirst

/-! ## The threads -/

/-- A thread that does not close its connection. -/
theorem hasClosed_step {t : Thread} {sock : SockThread} {o : Outcome}
    (hstep : t.sock.step build o = some sock) (hpc : t.sock.pc ≠ .close) :
    Thread.HasClosed { t with sock := sock } ↔ t.HasClosed := by
  rcases SockThread.step_ending hstep with ⟨he, -⟩ | ⟨he, he', -⟩ | ⟨-, h₁, h₂, h₁', h₂', -⟩
  · exact absurd he hpc
  · simp [Thread.HasClosed, he, he']
  · simp [Thread.HasClosed, h₁, h₂, h₁', h₂']

/-- A connection other than the one closed is still open. -/
theorem holding_close {accepted : List ℤ} {n : ℕ} {fds : ℤ → Option ℕ} {closed : List (Option ℕ)}
    {sockFd : Option ℤ} {garbage fd : ℤ} {k : ℕ} {pc : MainPc} {c : Option ℕ}
    (h : ClientAt accepted n fds closed sockFd garbage pc) (hk : fds fd = some k) (hlt : k < n) :
    ClientAt accepted n (Function.update fds fd none) (closed ++ [c]) sockFd garbage pc := by
  have hholding : Holding accepted n fds sockFd →
      Holding accepted n (Function.update fds fd none) sockFd := by
    rintro ⟨hlen, fd', hsock, hne, hfd'⟩
    refine ⟨hlen, fd', hsock, hne, ?_⟩
    rw [Function.update_of_ne, hfd']
    rintro rfl
    have he : k = n := Option.some.inj (hk.symm.trans hfd')
    omega
  have hafter : accepted.length = n ∨ accepted.length = n + 1 ∧ some n ∈ closed →
      accepted.length = n ∨ accepted.length = n + 1 ∧ some n ∈ closed ++ [c] :=
    fun h ↦ h.imp_right fun h ↦ ⟨h.1, List.mem_append_left _ h.2⟩
  cases pc with
  | setup _ => exact h
  | loop pc => cases pc <;> first | exact h | exact hholding h
  | sweep caller _ =>
    cases caller with
    | loop => exact h
    | drain => exact hafter h
  | cleanup pc => cases pc <;> first | exact hafter h | exact hholding h | exact h.imp_left hholding
  | exited => exact h
  | undefined => trivial

/-- **A client thread** closes its own connection, and nothing else. -/
theorem Tracked.client (h : s.Tracked) (hsound : s.Sound) {o : Outcome}
    (hs : s.clientStep build i o = some s') : s'.Tracked := by
  obtain ⟨t, sock, hi, hstep, hcases⟩ := clientStep_cases hs
  obtain ⟨-, -, args, hblock, hd⟩ := hsound.block_of_step hi hstep
  have hquiet : t.sock.pc ≠ .close → SameFds s.threads (s.threads.set i { t with sock := sock }) :=
    fun hpc ↦ sameFds_set hi rfl (hasClosed_step hstep hpc)
  rcases hcases with ⟨hdead, -⟩ | ⟨args', hblock', ⟨hpc, rfl⟩ | ⟨hpc, rfl⟩ | ⟨hpc, -, rfl⟩⟩
  · exact absurd (hblock.symm.trans hdead) (by simp)
  · obtain rfl : args = args' := Option.some.inj (hblock.symm.trans hblock')
    have hpc' : sock.pc = .finish := by
      rcases SockThread.step_ending hstep with ⟨-, he, -⟩ | ⟨he, -⟩ | ⟨he, -⟩
      · exact he
      · exact absurd (hpc.symm.trans he) (by simp)
      · exact absurd hpc he
    have hopen : s.fds t.fd = some i := h.holds i t hi (by simp [Thread.HasClosed, hpc])
    have hlt : i < s.threads.length := (List.getElem?_eq_some_iff.mp hi).1
    rw [hd.sockFd]
    have hlen : (s.threads.set i { t with sock := sock }).length = s.threads.length :=
      List.length_set
    constructor
    · change FdTable s.accepted (s.threads.set i _).length _ _
      rw [hlen]
      exact h.table.close hopen (.inl ⟨rfl, hlt⟩)
    · intro k u hk
      rcases Table.of_set hk with ⟨rfl, rfl⟩ | ⟨-, hk⟩
      · exact h.fd k t hi
      · exact h.fd k u hk
    · intro k u hk hnot
      rcases Table.of_set hk with ⟨rfl, rfl⟩ | ⟨hne, hk⟩
      · exact absurd (.inl hpc') hnot
      · have hu := h.holds k u hk hnot
        change Function.update s.fds t.fd none u.fd = some k
        rw [Function.update_of_ne, hu]
        intro he
        rw [he, hopen] at hu
        exact hne (Option.some.inj hu).symm
    · intro k u hk hc
      change some k ∈ (s.closes ++ [_]).map Close.conn
      rw [List.map_append, List.mem_append]
      rcases Table.of_set hk with ⟨rfl, -⟩ | ⟨-, hk⟩
      · exact .inr (by simp [hopen])
      · exact .inl (h.closed k u hk hc)
    · change ClientAt s.accepted (s.threads.set i _).length _ ((s.closes ++ [_]).map _) _ _ s.pc
      rw [hlen, List.map_append]
      exact holding_close h.main hopen hlt
    · exact h.first
  · have hsame := hquiet (by simp [hpc])
    exact h.congr rfl hsame h.main h.first
  · exact h.congr rfl (hquiet hpc) h.main h.first

theorem Tracked.clientEnd (h : s.Tracked) (hs : s.clientEnd i = some s') : s'.Tracked := by
  obtain ⟨t, hi, -, rfl⟩ := clientEnd_eq_some.mp hs
  exact h.congr rfl (sameFds_set hi rfl Iff.rfl) h.main h.first

/-! ## `main` -/

/-- `main` goes on elsewhere, and no connection has been opened or closed. -/
theorem Tracked.move (h : s.Tracked)
    (hsame : (s'.connections, s'.threads) = (s.connections, s.threads))
    (hmain : ClientAt s.accepted s.threads.length s.fds (s.closes.map Close.conn) s'.clientSockFd
      s'.garbage s'.pc)
    (hfirst : s'.pc = .loop .test → s'.clientSockFd = none →
      s'.isRunning = true ∨ s'.garbage = -1) : s'.Tracked := by
  obtain ⟨hconn, hthreads⟩ := Prod.mk.inj hsame
  refine h.congr hconn ?_ hmain hfirst
  rw [hthreads]
  exact .refl _

/-- What `main` has to do with the connections at the place where it is. -/
theorem Tracked.at (h : s.Tracked) {pc : MainPc} (hpc : s.pc = pc) :
    ClientAt s.accepted s.threads.length s.fds (s.closes.map Close.conn) s.clientSockFd s.garbage
      pc :=
  hpc ▸ h.main

/-- The value of `client_sock_fd` while `main` has a connection. -/
theorem clientFd_of_holding (h : Holding s.accepted s.threads.length s.fds s.clientSockFd) :
    s.clientFd ≠ -1 ∧ s.fds s.clientFd = some s.threads.length := by
  obtain ⟨-, fd, hsock, hne, hfd⟩ := h
  rw [Process.clientFd, hsock, Option.getD_some]
  exact ⟨hne, hfd⟩

theorem Tracked.setup (h : s.Tracked) {pc : SetupPc} (hpc : s.pc = .setup pc) {o : MainOutcome}
    (hs : s.setupStep build pc o = some s') : s'.Tracked := by
  obtain ⟨pc', _, _, _, _, _, _, _, hfrom, rfl, -, -, hset⟩ := setupStep_cases hs
  obtain ⟨haccepted, hn, hsock⟩ := h.at hpc
  have hlen : s.accepted.length = s.threads.length := by rw [haccepted, hn, List.length_nil]
  refine h.move rfl ?_ ?_
  · cases hfrom with
    | setup | exited => exact ⟨haccepted, hn, hsock⟩
    | loop => exact ⟨hlen, .inr ⟨hsock, haccepted⟩⟩
    | cleanup hlate =>
      simp only [List.mem_cons, List.not_mem_nil, or_false] at hlate
      rcases hlate with rfl | rfl | rfl <;> exact .inl hlen
  · rintro he -
    rcases hset with ⟨-, -, hrunning⟩ | ⟨hne, -⟩
    · exact .inl hrunning
    · exact absurd he hne

/-- `accept` returns a descriptor that is not in use. -/
theorem Tracked.accept (h : s.Tracked) {fd : ℕ} (hfree : s.fds fd = none)
    (hlen : s.accepted.length = s.threads.length) :
    { s with clientSockFd := some fd, fds := Function.update s.fds fd (some s.accepted.length),
             accepted := s.accepted ++ [(fd : ℤ)], pc := .loop .initThread }.Tracked where
  table := h.table.accept fd
  fd k t hk := Table.concat_of (h.fd k t hk) _
  holds k t hk hopen := by
    have ht := h.holds k t hk hopen
    change Function.update s.fds fd _ t.fd = some k
    rw [Function.update_of_ne, ht]
    intro he
    rw [he, hfree] at ht
    exact absurd ht (by simp)
  closed := h.closed
  main := by
    refine ⟨by rw [List.length_append, hlen, List.length_singleton], fd, rfl, by omega, ?_⟩
    change Function.update s.fds fd _ _ = _
    rw [Function.update_self, hlen]
  first he := absurd he (by simp)

/-- The connection passes from `main` to the new thread. -/
theorem Tracked.create (h : s.Tracked)
    (hholding : Holding s.accepted s.threads.length s.fds s.clientSockFd) {mem : Heap ThreadArgs}
    {t : Thread} (hfd : t.fd = s.clientFd) (hnew : ¬t.HasClosed) :
    { s with mem := mem, threads := s.threads ++ [t], pc := .loop .disown }.Tracked := by
  have hopen := (clientFd_of_holding hholding).2
  have hlen : (s.threads ++ [t]).length = s.threads.length + 1 := List.length_append
  constructor
  · change FdTable s.accepted (s.threads ++ [t]).length s.fds s.closes
    rw [hlen]
    exact h.table.create hopen hholding.length
  · intro k u hk
    rcases Table.of_concat hk with hk | ⟨rfl, rfl⟩
    · exact h.fd k u hk
    · rw [hfd]
      exact (h.table.opened _ _ hopen).1
  · intro k u hk hnot
    rcases Table.of_concat hk with hk | ⟨rfl, rfl⟩
    · exact h.holds k u hk hnot
    · rw [hfd]
      exact hopen
  · intro k u hk hc
    rcases Table.of_concat hk with hk | ⟨rfl, rfl⟩
    · exact h.closed k u hk hc
    · exact absurd hc hnew
  · change s.accepted.length = (s.threads ++ [t]).length
    rw [hlen, hholding.length]
  · exact fun he ↦ absurd he (by simp)

theorem Tracked.loop (h : s.Tracked) (hsound : s.Sound) {pc : LoopPc} (hpc : s.pc = .loop pc)
    {o : MainOutcome} (hs : s.loopStep pc o = some s') : s'.Tracked := by
  have hat := h.at hpc
  cases pc <;> cases o <;> simp only [loopStep, reduceCtorEq, Option.some.injEq] at hs
  case test.ok =>
    split at hs <;> subst hs
    · exact h.move rfl hat (by simp [goto])
    · rename_i hrunning
      refine h.move rfl (.inr ⟨hat.1, ?_⟩) (by simp [leaveLoop])
      rcases hat.2 with hsock | ⟨hsock, -⟩
      · exact congrArg (Option.getD · _) hsock
      · exact (congrArg (Option.getD · _) hsock).trans ((h.first hpc hsock).resolve_left hrunning)
  case accept.fd n =>
    obtain ⟨⟨-, hfree⟩, rfl⟩ := Option.ite_some_none_eq_some.mp hs
    exact h.accept hfree hat.1
  case accept.fail =>
    subst hs
    exact h.move rfl ⟨hat.1, rfl⟩ (by simp)
  case acceptFailed.ok =>
    split at hs <;> subst hs
    · refine h.move rfl ⟨hat.1, .inl hat.2⟩ ?_
      intro _ hnone
      exact absurd (hat.2.symm.trans hnone) (by simp)
    · exact h.move rfl (.inr ⟨hat.1, congrArg (Option.getD · _) hat.2⟩)
        (by simp [leaveLoop])
  case initThread.ok | pthreadCreate.fail =>
    subst hs
    exact h.move rfl hat (by simp [goto])
  case initThread.fail | freeArgs.ok =>
    subst hs
    exact h.move rfl (.inl hat) (by simp [goto])
  case pthreadCreate.thread errno =>
    obtain ⟨hown, -⟩ := hsound.owns (.inl hpc)
    rw [deref_of_block hown, Option.some_inj] at hs
    subst hs
    exact h.create hat rfl (by simp [Thread.HasClosed, SockThread.init])
  case disown.ok =>
    subst hs
    exact h.move rfl ⟨hat, rfl⟩ (by simp)
  case insert.ok =>
    rcases deref_cases hs with rfl | ⟨args, -, hs⟩
    · exact h.move rfl trivial (by simp [goto])
    · obtain rfl := Option.some.inj hs
      exact h.move rfl hat (by simp [beginSweep])

theorem sameFds_of_joinsOne {threads threads' : List Thread} (h : JoinsOne threads threads') :
    SameFds threads threads' := by
  rcases h with rfl | ⟨i, t, hi, -, rfl⟩
  · exact .refl _
  · exact sameFds_set hi rfl Iff.rfl

theorem Tracked.sweep (h : s.Tracked) {caller : Caller} {pc : SweepPc}
    (hpc : s.pc = .sweep caller pc) {o : MainOutcome} (hs : s.sweepStep caller pc o = some s') :
    s'.Tracked := by
  have hat := h.at hpc
  obtain ⟨pc', _, _, _, _, _, hfrom, hjoins, rfl⟩ := sweepStep_cases hs hpc
  refine h.congr rfl (sameFds_of_joinsOne hjoins) ?_ ?_
  · cases caller with
    | loop =>
      rcases hfrom with rfl | ⟨pc', rfl⟩ | rfl
      · trivial
      · exact hat
      · exact ⟨hat.1, .inl hat.2⟩
    | drain =>
      rcases hfrom with rfl | ⟨pc', rfl⟩ | rfl
      · trivial
      · exact hat
      · exact hat
  · rintro (rfl : pc' = _) (hnone : s.clientSockFd = none)
    cases caller with
    | loop => exact absurd (hat.2.symm.trans hnone) (by simp)
    | drain => rcases hfrom with he | ⟨_, he⟩ | he <;> exact absurd he (by simp [returnPc])

/-- `main` closes the connection it has. -/
theorem Tracked.closeClient (h : s.Tracked)
    (hholding : Holding s.accepted s.threads.length s.fds s.clientSockFd) {pc : CleanupPc}
    (hpc : pc = .drain ∨ pc = .timerDelete) :
    ((s.close .main s.clientFd).goto (.cleanup pc)).Tracked where
  table := h.table.close (clientFd_of_holding hholding).2 (.inr ⟨rfl, le_rfl⟩)
  fd := h.fd
  holds k t hk hopen := by
    have ht := h.holds k t hk hopen
    change Function.update s.fds s.clientFd none t.fd = some k
    rw [Function.update_of_ne, ht]
    intro he
    rw [he, (clientFd_of_holding hholding).2] at ht
    have hlt : k < s.threads.length := (List.getElem?_eq_some_iff.mp hk).1
    exact absurd (Option.some.inj ht) (by omega)
  closed k t hk hc := by
    change some k ∈ (s.closes ++ [_]).map Close.conn
    rw [List.map_append]
    exact List.mem_append_left _ (h.closed k t hk hc)
  main := by
    have hmem : some s.threads.length ∈ (s.close .main s.clientFd).closes.map Close.conn := by
      simp [close, (clientFd_of_holding hholding).2]
    rcases hpc with rfl | rfl <;> exact .inr ⟨hholding.length, hmem⟩
  first he := absurd he (by simp [goto])

theorem Tracked.cleanup (h : s.Tracked) {pc : CleanupPc} (hpc : s.pc = .cleanup pc)
    {o : MainOutcome} (hs : s.cleanupStep build pc o = some s') : s'.Tracked := by
  have hat := h.at hpc
  cases pc <;> cases o <;> simp only [cleanupStep, reduceCtorEq, Option.some.injEq] at hs
  case test.ok =>
    split at hs <;> subst hs
    · rename_i hne
      exact h.move rfl (hat.resolve_right fun hno ↦ hne hno.2) (by simp [goto])
    · rename_i he
      have hlen := (hat.resolve_left fun hh ↦ he (clientFd_of_holding hh).1).1
      refine h.move rfl ?_ (by simp [goto])
      cases build <;> exact .inl hlen
  case closeClient.ok | closeClient.fail =>
    subst hs
    exact h.closeClient hat (by cases build <;> simp [afterClient])
  case drain.ok =>
    split at hs <;> subst hs
    · refine h.move rfl ?_ (by simp [goto])
      cases build <;> exact hat
    · exact h.move rfl hat (by simp [beginSweep])
  all_goals
    subst hs
    exact h.move rfl hat (by simp [goto])

/-! ## Every run -/

/-- Is the action not the handling of `SIGINT` or `SIGTERM` between `is_running = true` and the
first test of the loop?  It is harmless even there if `client_sock_fd` happens to hold `-1`. -/
def settled (s : Process) : Action → Bool
  | .signal .sigint | .signal .sigterm =>
    s.pc != .loop .test || s.clientSockFd.isSome || s.garbage == -1
  | _ => true

/-- The signals excluded, and what handling them leaves. -/
theorem of_settled_eq_false {a : Action} (hnot : s.settled a = false)
    (ha : s.step build a = some s') :
    s.pc = .loop .test ∧ s.clientSockFd = none ∧ s.garbage ≠ -1 ∧
      s' = { s with isRunning := false, shutDown := true } := by
  unfold settled at hnot
  split at hnot
  case h_3 => exact absurd hnot (by simp)
  all_goals
    obtain ⟨-, rfl⟩ := Option.ite_some_none_eq_some.mp ha
    simp only [Bool.or_eq_false_iff, bne_eq_false_iff_eq, Option.isSome_eq_false_iff,
      Option.isNone_iff_eq_none, beq_eq_false_iff_ne, ne_eq] at hnot
    exact ⟨hnot.1.1, hnot.1.2, hnot.2, rfl⟩

/-- **One action.** -/
theorem Tracked.step (h : s.Tracked) (hsound : s.Sound) {a : Action}
    (hs : Run.restrict (Process.step build) settled s a = some s') : s'.Tracked := by
  obtain ⟨hsettled, hs⟩ := Run.restrict_eq_some.mp hs
  cases a with
  | main o =>
    rw [Process.step, mainStep] at hs
    split at hs
    · rename_i hpc
      exact h.setup hpc hs
    · rename_i hpc
      exact h.loop hsound hpc hs
    · rename_i hpc
      exact h.sweep hpc hs
    · rename_i hpc
      exact h.cleanup hpc hs
    · exact absurd hs (by simp)
    · exact absurd hs (by simp)
  | signal sig =>
    obtain ⟨-, rfl⟩ := Option.ite_some_none_eq_some.mp hs
    cases sig with
    | sigchld => exact h
    | sigint | sigterm =>
      refine h.move rfl h.main ?_
      rintro (hpc : s.pc = _) (hnone : s.clientSockFd = none)
      simp only [settled, hpc, hnone, bne_self_eq_false, Option.isSome_none, Bool.false_or,
        beq_iff_eq] at hsettled
      exact .inr hsettled
  | client i o => exact h.client hsound hs
  | clientEnd i => exact h.clientEnd hs
  | fire =>
    obtain ⟨-, rfl⟩ := Option.ite_some_none_eq_some.mp hs
    exact h.move rfl h.main h.first
  | timer j o =>
    obtain ⟨_, _, -, -, rfl⟩ := timerStep_eq_some.mp hs
    exact h.move rfl h.main h.first

theorem tracked_of_run {argv : List String} {garbage : ℤ} {as : List Action}
    (hrun : as.foldlM (Run.restrict (Process.step build) settled) (init argv garbage) = some s) :
    s.Tracked ∧ s.Sound := by
  refine Run.foldlM_invariant (I := fun t : Process ↦ t.Tracked ∧ t.Sound) ?_ hrun
    ⟨tracked_init argv garbage, sound_init argv garbage⟩
  intro t a t' ht hs
  exact ⟨ht.1.step ht.2 hs, ht.2.step (Run.restrict_eq_some.mp hs).2⟩

/-- What is to be true of the descriptors `accept` has returned. -/
structure ClosesAll (s : Process) : Prop where
  /-- Thread `k` has been given the descriptor of connection `k`. -/
  own : ∀ (k : ℕ) (t : Thread), s.threads[k]? = some t → s.accepted[k]? = some t.fd
  /-- Every value passed to `close` is that of an open connection, and the connection is closed by
  its own thread, or by `main` if it has none. -/
  proper : ∀ c ∈ s.closes, c.Proper s.accepted s.threads.length
  /-- No connection is closed twice. -/
  once : (s.closes.map Close.conn).Nodup
  /-- When `main` has returned, every connection has been closed. -/
  all : s.pc = .cleanup .done → ∀ k < s.accepted.length, some k ∈ s.closes.map Close.conn

theorem Tracked.closesAll (h : s.Tracked) (hsound : s.Sound) : s.ClosesAll where
  own := h.fd
  proper := h.table.proper
  once := h.table.once
  all hpc k hk := by
    rcases lt_or_ge k s.threads.length with hlt | hge
    · obtain ⟨hlist, hempty⟩ := hsound.listAt hpc
      have hget : s.threads[k]? = some s.threads[k] := List.getElem?_eq_getElem hlt
      have hst := hsound.blocks.staged _ (List.getElem_mem hlt)
      have hjoined := (hsound.reaped hlist (hempty (by simp)) hget).1
      exact h.closed k _ hget (.inr (hst.ended (hst.joined hjoined)))
    · rcases h.at hpc with hlen | ⟨hlen, hmem⟩
      · exact absurd hk (by omega)
      · obtain rfl : k = s.threads.length := by omega
        exact hmem

/-- The loop is left before `accept` has been called: `main` closes what `client_sock_fd` happens to
hold. -/
theorem exists_closes_garbage (build : Build) (hpc : s.pc = .loop .test)
    (hsock : s.clientSockFd = none)
    (hrunning : s.isRunning = false) (hgarbage : s.garbage ≠ -1) :
    ∃ s', (List.replicate 3 (Action.main .ok)).foldlM (Process.step build) s = some s' ∧
      s'.accepted = s.accepted ∧ ⟨.main, s.garbage, s.fds s.garbage⟩ ∈ s'.closes := by
  have hfd : s.leaveLoop.clientFd = s.garbage := by
    change s.clientSockFd.getD s.garbage = s.garbage
    rw [hsock, Option.getD_none]
  have h₁ : s.step build (.main .ok) = some s.leaveLoop := by
    rw [step, mainStep, hpc]
    simp [loopStep, hrunning]
  have h₂ : s.leaveLoop.step build (.main .ok) =
      some (s.leaveLoop.goto (.cleanup .closeClient)) := by
    change some (s.leaveLoop.goto (.cleanup (if s.leaveLoop.clientFd ≠ -1 then _ else _))) = _
    rw [hfd, if_pos hgarbage]
  refine ⟨((s.leaveLoop.goto (.cleanup .closeClient)).close .main s.leaveLoop.clientFd).goto
    (.cleanup (afterClient build)), ?_, rfl, ?_⟩
  · simp only [List.replicate, Run.foldlM_cons_eq_some]
    exact ⟨_, h₁, _, h₂, _, rfl, rfl⟩
  · change _ ∈ s.closes ++ [⟨.main, s.leaveLoop.clientFd, s.fds s.leaveLoop.clientFd⟩]
    rw [hfd]
    simp

end Process

/-- **Every descriptor is closed once**, by its own thread or by `main`, in exactly the runs in
which the loop is not told to stop before its first test: this is so after any part of the run, and
it stays so when `main` goes on alone from there. -/
theorem descriptors_closed_iff (build : Build) (argv : List String) (garbage : ℤ) (as : List Action)
    (s : Process) (hrun : as.foldlM (Process.step build) (.init argv garbage) = some s) :
    (∀ pre t, pre <+: as → pre.foldlM (Process.step build) (.init argv garbage) = some t →
      ∀ n t', (List.replicate n (Action.main .ok)).foldlM (Process.step build) t = some t' →
        t'.ClosesAll) ↔
    as.foldlM (Run.restrict (Process.step build) Process.settled) (.init argv garbage) =
      some s := by
  constructor
  · intro hall
    refine Run.foldlM_restrict_of_forall hrun ?_
    intro pre a t t' hpre ht ha
    rw [← Bool.not_eq_false]
    intro hnot
    have hat := (Process.tracked_of_run ht).1
    have hrun' : (pre ++ [a]).foldlM (Process.step build) (.init argv garbage) = some t' :=
      Run.foldlM_append_eq_some.mpr
        ⟨t, (Run.foldlM_restrict_eq_some.mp ht).1, Run.foldlM_cons_eq_some.mpr ⟨t', ha, rfl⟩⟩
    obtain ⟨hpc, hsock, hgarbage, rfl⟩ := Process.of_settled_eq_false hnot ha
    obtain ⟨u, hu, haccepted, hmem⟩ := Process.exists_closes_garbage
      (s := { t with isRunning := false, shutDown := true }) build hpc hsock rfl hgarbage
    obtain ⟨k, -, hget, -⟩ := (hall _ _ hpre hrun' 3 u hu).proper _ hmem
    have hnone : t.accepted = [] := by
      rcases (hat.at hpc).2 with he | ⟨-, hnil⟩
      · exact absurd (hsock.symm.trans he) (by simp)
      · exact hnil
    rw [haccepted, hnone] at hget
    exact absurd hget (by simp)
  · intro hres pre t hpre ht n t' ht'
    have hmain : (List.replicate n (Action.main .ok)).foldlM
        (Run.restrict (Process.step build) Process.settled) t = some t' := by
      refine Run.foldlM_restrict_eq_some.mpr ⟨ht', ?_⟩
      intro qs a u u' hqs _ _
      obtain rfl :=
        List.eq_of_mem_replicate (hqs.subset (List.mem_append_right _ (by simp)) : a ∈ _)
      rfl
    obtain ⟨htracked, hsound⟩ := Process.tracked_of_run
      (Run.foldlM_append_eq_some.mpr ⟨t, Run.foldlM_restrict_prefix hres hpre ht, hmain⟩)
    exact htracked.closesAll hsound

/-- `init_thread` fails for the only connection. -/
def initThreadFails : List Action :=
  mainOks 8 ++ [.main (.fd 5), .main .fail] ++ mainOks 5

/-- `main` closes it. -/
theorem initThreadFails_closes :
    ∃ s, initThreadFails.foldlM (Process.step .device) (.init [] 0) = some s ∧
      some 0 ∈ s.closes.map Close.conn := by
  have hrun : (initThreadFails.foldlM (Run.restrict (Process.step .device) Process.settled)
      (.init [] 0)).map (fun s ↦ (s.pc, s.accepted)) = some (.cleanup .done, [5]) := by
    decide +kernel
  obtain ⟨s, hres, hfacts⟩ := Option.map_eq_some_iff.mp hrun
  obtain ⟨hpc, haccepted⟩ := Prod.mk.inj hfacts
  have hs := (Run.foldlM_restrict_eq_some.mp hres).1
  have hall := (descriptors_closed_iff .device [] 0 initThreadFails s hs).mpr hres initThreadFails s
    (List.prefix_refl _) hs 0 s rfl
  exact ⟨s, hs, hall.all hpc 0 (by simp [haccepted])⟩

/-- A signal before the first test of the loop. -/
def signalBeforeTest : List Action := mainOks 7 ++ [.signal .sigint] ++ mainOks 3

/-- `main` passes the value `client_sock_fd` happens to hold, here that of the standard input, to
`close`. -/
theorem signalBeforeTest_closes :
    (signalBeforeTest.foldlM (Process.step .device) (.init [] 0)).map Process.closes =
      some [⟨.main, 0, none⟩] ∧
    ∃ s, signalBeforeTest.foldlM (Process.step .device) (.init [] 0) = some s ∧ ¬s.ClosesAll := by
  have hrun : (signalBeforeTest.foldlM (Process.step .device) (.init [] 0)).map Process.closes =
      some [⟨.main, 0, none⟩] := by decide +kernel
  refine ⟨hrun, ?_⟩
  obtain ⟨s, hs, hcloses⟩ := Option.map_eq_some_iff.mp hrun
  refine ⟨s, hs, ?_⟩
  intro hall
  obtain ⟨k, hconn, -⟩ := hall.proper ⟨.main, 0, none⟩ (by simp [hcloses])
  exact absurd hconn (by simp)

end Aesd
