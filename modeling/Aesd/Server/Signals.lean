import Aesd.Server.Main

/-!
# Being told to stop

The handler of `SIGINT` and `SIGTERM` clears `is_running` and shuts the listening socket down, so
that the accept loop ends at its test or when `accept` fails.  `main` sets `is_running` itself,
though, and it does so after the handlers have been registered: in between lie `daemonize`, the
mutex and the timer.  A signal handled there is forgotten, and as `accept` can only fail from then
on, the loop never ends.

`signal_stops_iff` says that this is all that can go wrong: a signal handled at any later point is
not forgotten, and `accept` is called at most once more.
-/

set_option autoImplicit false

namespace Aesd

namespace Process

variable {build : Build} {s s' : Process}

/-- Is the action not `is_running = true` after `SIGINT` or `SIGTERM` has been handled? -/
def heard (s : Process) : Action → Bool
  | .main .ok => s.pc != .setup .setRunning || !s.shutDown
  | _ => true

/-- Where `main` can be when `accept` has failed after the handler has run. -/
def LeavesLoop (pc : MainPc) : Prop :=
  pc = .loop .acceptFailed ∨ (∃ pc', pc = .cleanup pc') ∨ (∃ pc', pc = .sweep .drain pc') ∨
    pc = .undefined

/-- What holds once the handler has run. -/
structure Stopping (s : Process) : Prop where
  /-- `is_running` is not set. -/
  running : s.shutDown = true → s.isRunning = false
  /-- `accept` is only called in vain after the handler has run. -/
  fresh : s.shutDown = false → s.retries = 0
  /-- At most once. -/
  once : s.retries ≤ 1
  /-- And then the loop is left. -/
  leaves : s.retries = 1 → LeavesLoop s.pc

theorem stopping_init (argv : List String) (garbage : ℤ) : (init argv garbage).Stopping :=
  ⟨by simp [init], fun _ ↦ rfl, Nat.zero_le _, by simp [init]⟩

/-- The two flags and the number of calls. -/
def stop (s : Process) : Bool × Bool × ℕ := (s.isRunning, s.shutDown, s.retries)

/-- Neither the flags nor the number of calls have changed. -/
theorem Stopping.congr (h : s.Stopping) (hstop : s'.stop = s.stop)
    (hleaves : s.retries = 1 → LeavesLoop s'.pc) : s'.Stopping := by
  simp only [stop, Prod.mk.injEq] at hstop
  obtain ⟨hrunning, hshut, hretries⟩ := hstop
  constructor
  · exact fun hs ↦ hrunning.trans (h.running (hshut.symm.trans hs))
  · exact fun hs ↦ hretries.trans (h.fresh (hshut.symm.trans hs))
  · exact hretries.symm ▸ h.once
  · exact fun hr ↦ hleaves (hretries.symm.trans hr)

/-- Elsewhere `accept` has not been called in vain. -/
theorem Stopping.retries_eq_zero (h : s.Stopping) (hpc : ¬LeavesLoop s.pc) : s.retries = 0 := by
  have hle := h.once
  have hne : s.retries ≠ 1 := fun hr ↦ hpc (h.leaves hr)
  omega

/-- As long as `main` runs, the handler has not. -/
theorem Stopping.shutDown_eq_false (h : s.Stopping) (hrunning : s.isRunning = true) :
    s.shutDown = false := by
  rw [Bool.eq_false_iff]
  intro hs
  exact absurd ((h.running hs).symm.trans hrunning) (by simp)

theorem Stopping.setup (h : s.Stopping) {pc : SetupPc} (hpc : s.pc = .setup pc) {o : MainOutcome}
    (hheard : s.heard (.main o) = true) (hs : s.setupStep build pc o = some s') : s'.Stopping := by
  have hzero : s.retries = 0 := h.retries_eq_zero (by simp [hpc, LeavesLoop])
  obtain ⟨_, _, _, _, _, _, _, _, -, rfl, -, -, hset⟩ := setupStep_cases hs
  refine ⟨?_, fun _ ↦ hzero, h.once, by simp [hzero]⟩
  rintro (hshut : s.shutDown = true)
  rcases hset with ⟨-, rfl, -⟩ | ⟨-, rfl⟩
  · -- `is_running = true`
    cases o <;> simp only [setupStep, reduceCtorEq] at hs
    simp [heard, hpc, hshut] at hheard
  · exact h.running hshut

theorem Stopping.loop (h : s.Stopping) {pc : LoopPc} (hpc : s.pc = .loop pc) {o : MainOutcome}
    (hs : s.loopStep pc o = some s') : s'.Stopping := by
  cases pc <;> cases o <;> simp only [loopStep, reduceCtorEq, Option.some.injEq] at hs
  case test.ok | acceptFailed.ok =>
    split at hs <;> subst hs
    · rename_i hrunning
      have hzero := h.fresh (h.shutDown_eq_false hrunning)
      exact h.congr rfl (by simp [hzero])
    · exact h.congr rfl fun _ ↦ .inr (.inl ⟨_, rfl⟩)
  case accept.fd n =>
    obtain ⟨⟨hshut, -⟩, rfl⟩ := Option.ite_some_none_eq_some.mp hs
    exact h.congr rfl (by simp [h.fresh hshut])
  case accept.fail =>
    subst hs
    have hzero : s.retries = 0 := h.retries_eq_zero (by simp [hpc, LeavesLoop])
    refine ⟨h.running, ?_, ?_, fun _ ↦ .inl rfl⟩
    · intro hshut
      change s.retries + (if s.shutDown = true then 1 else 0) = 0
      rw [hzero, if_neg (by simpa using hshut)]
    · change s.retries + (if s.shutDown = true then 1 else 0) ≤ 1
      rw [hzero]
      split <;> simp
  case pthreadCreate.thread | insert.ok =>
    have hzero : s.retries = 0 := h.retries_eq_zero (by simp [hpc, LeavesLoop])
    rcases deref_cases hs with rfl | ⟨args, -, hs⟩
    · exact h.congr rfl (by simp [hzero])
    · obtain rfl := Option.some.inj hs
      exact h.congr rfl (by simp [hzero])
  all_goals
    subst hs
    have hzero : s.retries = 0 := h.retries_eq_zero (by simp [hpc, LeavesLoop])
    exact h.congr rfl (by simp [hzero])

theorem Stopping.sweep (h : s.Stopping) {caller : Caller} {pc : SweepPc}
    (hpc : s.pc = .sweep caller pc) {o : MainOutcome} (hs : s.sweepStep caller pc o = some s') :
    s'.Stopping := by
  obtain ⟨pc', _, _, _, _, _, hfrom, -, rfl⟩ := sweepStep_cases hs hpc
  refine h.congr rfl ?_
  intro hr
  cases caller with
  | loop =>
    have hzero : s.retries = 0 := h.retries_eq_zero (by simp [hpc, LeavesLoop])
    omega
  | drain =>
    rcases hfrom with he | ⟨pc'', he⟩ | he
    · exact .inr (.inr (.inr he))
    · exact .inr (.inr (.inl ⟨pc'', he⟩))
    · exact .inr (.inl ⟨_, he⟩)

theorem Stopping.cleanup (h : s.Stopping) {pc : CleanupPc} {o : MainOutcome}
    (hs : s.cleanupStep build pc o = some s') : s'.Stopping := by
  cases pc <;> cases o <;> simp only [cleanupStep, reduceCtorEq, Option.some.injEq] at hs
  case drain.ok =>
    split at hs <;> subst hs
    · exact h.congr rfl fun _ ↦ .inr (.inl ⟨_, rfl⟩)
    · exact h.congr rfl fun _ ↦ .inr (.inr (.inl ⟨_, rfl⟩))
  all_goals
    subst hs
    exact h.congr rfl fun _ ↦ .inr (.inl ⟨_, rfl⟩)

/-- `main` stays where it is, or does something undefined because a client thread has. -/
theorem Stopping.of_flags (h : s.Stopping) (hq : s'.flags = s.flags)
    (hretries : s'.retries = s.retries)
    (hpc : s'.pc = s.pc ∨ s'.pc = .undefined) : s'.Stopping := by
  have hrunning : s'.isRunning = s.isRunning := congrArg Flags.isRunning hq
  have hshut : s'.shutDown = s.shutDown := congrArg Flags.shutDown hq
  refine h.congr (by rw [stop, hrunning, hshut, hretries, stop]) ?_
  intro hr
  rcases hpc with hpc | hpc
  · rw [hpc]
    exact h.leaves hr
  · exact .inr (.inr (.inr hpc))

/-- **One action.**  The handler clears the flag, and nothing sets it again. -/
theorem Stopping.step (h : s.Stopping) {a : Action}
    (hs : Run.restrict (Process.step build) heard s a = some s') : s'.Stopping := by
  obtain ⟨hheard, hs⟩ := Run.restrict_eq_some.mp hs
  cases a with
  | main o =>
    rw [Process.step, mainStep] at hs
    split at hs
    · rename_i hpc
      exact h.setup hpc hheard hs
    · rename_i hpc
      exact h.loop hpc hs
    · rename_i hpc
      exact h.sweep hpc hs
    · exact h.cleanup hs
    · exact absurd hs (by simp)
    · exact absurd hs (by simp)
  | signal sig =>
    obtain ⟨-, rfl⟩ := Option.ite_some_none_eq_some.mp hs
    cases sig with
    | sigchld => exact h
    | sigint | sigterm => exact ⟨fun _ ↦ rfl, by simp [signalHandler], h.once, h.leaves⟩
  | client i o =>
    refine h.of_flags (flags_of_clientStep hs) ?_ (pc_of_clientStep hs)
    obtain ⟨_, _, -, -, ⟨-, rfl⟩ | ⟨_, -, ⟨-, rfl⟩ | ⟨-, rfl⟩ | ⟨-, -, rfl⟩⟩⟩ :=
      clientStep_cases hs <;> rfl
  | clientEnd i =>
    refine h.of_flags (flags_of_clientEnd hs) ?_ (.inl (pc_of_clientEnd hs))
    obtain ⟨_, -, -, rfl⟩ := clientEnd_eq_some.mp hs
    rfl
  | fire =>
    obtain ⟨-, rfl⟩ := Option.ite_some_none_eq_some.mp hs
    exact ⟨h.running, h.fresh, h.once, h.leaves⟩
  | timer j o =>
    obtain ⟨_, _, -, -, rfl⟩ := timerStep_eq_some.mp hs
    exact ⟨h.running, h.fresh, h.once, h.leaves⟩

/-- What the signal has to bring about: `is_running` is not set, the test of the loop and the test
after a failure of `accept` both leave the loop, and `accept` is called at most once on the socket
that has been shut down. -/
def Stops (build : Build) (s : Process) : Prop :=
  s.isRunning = false ∧ s.retries ≤ 1 ∧
    ∀ o s', s.pc = .loop .test ∨ s.pc = .loop .acceptFailed → s.mainStep build o = some s' →
      s'.pc = .cleanup .test

/-- With the flag cleared, both tests leave the loop. -/
theorem leaves_of_not_running (hrunning : s.isRunning = false) {o : MainOutcome}
    (hpc : s.pc = .loop .test ∨ s.pc = .loop .acceptFailed) (hs : s.mainStep build o = some s') :
    s'.pc = .cleanup .test := by
  rcases hpc with hpc | hpc
  all_goals
    rw [mainStep, hpc] at hs
    cases o <;> simp only [loopStep, reduceCtorEq, Option.some.injEq, hrunning] at hs
    rw [← hs]
    rfl

end Process

/-- **A signal is not forgotten**, and the program stops, in exactly the runs in which no `SIGINT`
and no `SIGTERM` has been handled when `main` sets `is_running`. -/
theorem signal_stops_iff (build : Build) (argv : List String) (garbage : ℤ) (as : List Action)
    (s : Process) (hrun : as.foldlM (Process.step build) (.init argv garbage) = some s) :
    (∀ pre t, pre <+: as → pre.foldlM (Process.step build) (.init argv garbage) = some t →
      t.shutDown = true → t.Stops build) ↔
    as.foldlM (Run.restrict (Process.step build) Process.heard) (.init argv garbage) = some s := by
  constructor
  · intro hall
    refine Run.foldlM_restrict_eq_some.mpr ⟨hrun, ?_⟩
    intro pre a t t' hpre ht ha
    rw [← Bool.not_eq_false]
    intro hnot
    obtain ⟨rfl, hpc, hshut⟩ : a = .main .ok ∧ t.pc = .setup .setRunning ∧ t.shutDown = true := by
      simp only [Process.heard] at hnot
      split at hnot <;> simp_all
    have hrun' : (pre ++ [Action.main .ok]).foldlM (Process.step build) (.init argv garbage) =
        some t' :=
      Run.foldlM_append_eq_some.mpr ⟨t, ht, Run.foldlM_cons_eq_some.mpr ⟨t', ha, rfl⟩⟩
    have heq : { t with isRunning := true, pc := .loop .test } = t' := by
      rw [Process.step, Process.mainStep, hpc] at ha
      exact Option.some.inj ha
    subst heq
    exact absurd (hall _ _ hpre hrun' hshut).1 (by simp)
  · intro hres pre t hpre ht hshut
    have h : t.Stopping := Run.foldlM_invariant (I := Process.Stopping)
      (fun _ _ _ h hs ↦ h.step hs) (Run.foldlM_restrict_prefix hres hpre ht)
      (Process.stopping_init argv garbage)
    refine ⟨h.running hshut, h.once, ?_⟩
    intro o t' hpc hs
    exact Process.leaves_of_not_running (h.running hshut) hpc hs

/-- A signal while `accept` waits. -/
def lateSignal : List Action := List.replicate 8 (.main .ok) ++ [.signal .sigint, .main .fail]

/-- That signal stops the program. -/
theorem lateSignal_stops :
    ∃ s, lateSignal.foldlM (Process.step .device) (.init [] 0) = some s ∧ s.Stops .device := by
  have hrun : (lateSignal.foldlM (Run.restrict (Process.step .device) Process.heard)
      (.init [] 0)).map Process.shutDown = some true := by decide +kernel
  obtain ⟨s, hres, hshut⟩ := Option.map_eq_some_iff.mp hrun
  have hs := (Run.foldlM_restrict_eq_some.mp hres).1
  exact ⟨s, hs,
    (signal_stops_iff .device [] 0 lateSignal s hs).mpr hres lateSignal s (List.prefix_refl _) hs
      hshut⟩

/-- A signal while the mutex is initialised: the loop runs, and `accept` is called again and again.
-/
def earlySignal : List Action :=
  List.replicate 5 (.main .ok) ++ [.signal .sigterm] ++ List.replicate 2 (.main .ok) ++
    [.main .ok, .main .fail, .main .ok, .main .ok, .main .fail, .main .ok, .main .ok, .main .fail]

/-- The signal is forgotten. -/
theorem earlySignal_forgotten :
    (earlySignal.foldlM (Process.step .device) (.init [] 0)).map
      (fun s ↦ (s.shutDown, s.isRunning, s.retries)) = some (true, true, 3) ∧
    ∃ s, earlySignal.foldlM (Process.step .device) (.init [] 0) = some s ∧ s.shutDown = true ∧
      ¬s.Stops .device := by
  have hrun : (earlySignal.foldlM (Process.step .device) (.init [] 0)).map
      (fun s ↦ (s.shutDown, s.isRunning, s.retries)) = some (true, true, 3) := by decide +kernel
  refine ⟨hrun, ?_⟩
  obtain ⟨s, hs, hfacts⟩ := Option.map_eq_some_iff.mp hrun
  obtain ⟨hshut, hrunning, -⟩ := (Prod.mk.injEq ..).mp hfacts |>.imp_right (Prod.mk.injEq ..).mp
  exact ⟨s, hs, hshut, fun h ↦ absurd (h.1.symm.trans hrunning) (by simp)⟩

end Aesd
