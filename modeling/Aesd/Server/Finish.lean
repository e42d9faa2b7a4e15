import Aesd.Server.Drain
import Aesd.Server.Service

/-!
# The server can be stopped

`Aesd.Server.Progress` shows that a client thread never waits for ever for the mutex, and
`Aesd.Server.Drain` that `main` never waits for anything but a thread.  Neither is enough to know
that the server comes to an end: the threads wait for each other and `main` waits for the threads.
Here the two are put together.

From every state of a `Service` with `main` past its setup, there is a continuation in which it
returns, and nothing has to fail for this but an `accept` after the signal (`service_can_end`).
The signal is sent only while `is_running` is true.  It may be the second one: what came during the
setup has been forgotten (`Aesd.Server.Signals`), and `main` has to be told again.

First whoever has the mutex finishes, then one thread after another; then the threads end, and
`main`, wherever it is, has nobody to wait for any more.

The continuation is made of three parts, each by `Run.Leads.of_rank` or `Run.Leads.forall_lt`; what
they keep is `Service.Ready`.
-/

set_option autoImplicit false

namespace Aesd

/-! ## Which thread an event is of -/

/-- The client an event is of. -/
def Label.client {ι τ : Type} {B : Backend (ι ⊕ τ)} : Label B → Option ι
  | .ret i _ | .flush i _ _ | .fill i _ _ | .seek i _ => some i
  | .timerRet _ _ | .timerFlush _ _ _ => none

section Client

variable {ι : Type} [DecidableEq ι] {seek : FixedSizeLlseek} {base : List (List Byte)}
  {stream : ι → List Byte} {w : DeviceWorld seek ι} {log : Delim.Log (Tagged ι)}

/-- **The event that brings a client forward is its own.** -/
theorem Turns.exists_label (h : Turns base stream w log) {i : ι}
    (hown : w.owner = none ∨ w.owner = some (.inl i)) (hdone : (w.client i).thread.pc ≠ .done) :
    ∃ l w' log', l.client = some i ∧ World.succeed (w, log) l = some (w', log') ∧
      Advances i w log w' log' := by
  obtain ⟨w', log', hadv⟩ := h.exists_step hown hdone
  obtain ⟨l, hl⟩ := hadv.event
  refine ⟨l, w', log', ?_, hl, hadv⟩
  obtain ⟨hstep, -⟩ := Run.recording_eq_some.mp hl
  obtain ⟨-, hstep⟩ := Run.restrict_eq_some.mp hstep
  have hrank := hadv.rank_lt
  -- an event of another client leaves this one and the device as they are
  have hother : ∀ {j : ι} {c : Client}, w'.client = (w.setClient j c).client → w'.dev = w.dev →
      some j = some i := by
    intro j c hclient hdev
    by_contra hne
    have hij : i ≠ j := fun he ↦ hne (congrArg some he.symm)
    have hsame : w'.client i = w.client i := by
      rw [hclient]
      exact Function.update_of_ne hij _ _
    rw [hsame, hdev] at hrank
    exact absurd hrank (lt_irrefl _)
  cases World.step_cases hstep with
  | timerRet j | timerLock j | timerUnlock j | timerFlush j => exact j.elim
  | ret j o c | lock j c | unlock j c | fill j count env | seek j env => exact hother rfl rfl
  | flush j n env file hpc =>
    -- who writes has the mutex
    have hcrit : (w.client j).thread.pc.critical = true := by
      rcases hpc with hpc | hpc <;> rw [hpc] <;> rfl
    have hheld := (h.mutex j).mp hcrit
    rcases hown with hfree | hmine
    · exact absurd (hfree.symm.trans hheld) (by simp)
    · exact congrArg some (Sum.inl.inj (Option.some.inj (hheld.symm.trans hmine)))

end Client

/-! ## `main` listens to signals -/

/-- Past the setup, as far as the loop: the handler of `SIGINT` has been registered. -/
def MainPc.Heeds : MainPc → Prop
  | .loop _ | .sweep .loop _ => True
  | .setup pc => pc ∈ [.sigaction .sigterm, .daemonize, .mutexInit, .startTimer, .setRunning]
  | .sweep .drain _ | .cleanup _ | .exited | .undefined => False

namespace Process

variable {build : Build} {s s' : Process} {i : ℕ}

/-- **`SIGINT` has a handler** wherever it should. -/
def Heeding (s : Process) : Prop := s.pc.Heeds → .sigint ∈ s.handlers

/-- The handlers stay, and `main` has not come here without them. -/
theorem Heeding.mono (h : s.Heeding) (hpc : s'.pc.Heeds → s.pc.Heeds)
    (hhandlers : s'.handlers = s.handlers) : s'.Heeding :=
  fun hheeds ↦ hhandlers ▸ h (hpc hheeds)

theorem Heeding.setup (h : s.Heeding) {pc : SetupPc} (hpc : s.pc = .setup pc) {o : MainOutcome}
    (hs : s.setupStep build pc o = some s') : s'.Heeding := by
  cases pc <;> cases o <;> simp only [setupStep, reduceCtorEq, Option.some.injEq] at hs
  case parseArgs.ok =>
    split at hs <;> obtain rfl := Option.some.inj hs <;>
      exact fun hheeds ↦ absurd hheeds (by simp [MainPc.Heeds])
  case sigaction.ok sig =>
    subst hs
    cases sig with
    | sigchld => exact fun hheeds ↦ absurd hheeds (by simp [MainPc.Heeds, afterSigaction])
    | sigint => exact fun _ ↦ List.mem_cons_self
    | sigterm =>
      have hheeds : s.pc.Heeds := by
        rw [hpc]
        simp [MainPc.Heeds]
      exact fun _ ↦ List.mem_cons_of_mem _ (h hheeds)
  all_goals
    subst hs
    refine h.mono (fun hheeds ↦ ?_) rfl
    rw [hpc]
    simp_all [MainPc.Heeds, goto]

theorem handlers_of_loopStep {pc : LoopPc} {o : MainOutcome} (hs : s.loopStep pc o = some s') :
    s'.handlers = s.handlers := by
  cases pc <;> cases o <;> simp only [loopStep, reduceCtorEq, Option.some.injEq] at hs
  case test.ok | acceptFailed.ok =>
    split at hs <;> subst hs <;> rfl
  case accept.fd n =>
    obtain ⟨-, rfl⟩ := Option.ite_some_none_eq_some.mp hs
    rfl
  case pthreadCreate.thread | insert.ok =>
    rcases deref_cases hs with rfl | ⟨args, -, hs⟩
    · rfl
    · obtain rfl := Option.some.inj hs
      rfl
  all_goals
    subst hs
    rfl

theorem Heeding.main (h : s.Heeding) {o : MainOutcome} (hs : s.mainStep build o = some s') :
    s'.Heeding := by
  rw [mainStep] at hs
  split at hs
  · rename_i hpc
    exact h.setup hpc hs
  · rename_i hpc
    exact h.mono (fun _ ↦ hpc ▸ trivial) (handlers_of_loopStep hs)
  · rename_i caller pc hpc
    obtain ⟨pc', _, _, _, _, _, hfrom, -, rfl⟩ := sweepStep_cases hs hpc
    refine h.mono (fun hheeds ↦ ?_) rfl
    rw [hpc]
    cases caller with
    | loop => trivial
    | drain => rcases hfrom with rfl | ⟨pc', rfl⟩ | rfl <;> exact hheeds
  · intro hheeds
    rcases (cleanupStep_cases hs).2 with ⟨pc', hpc'⟩ | hpc' <;> rw [hpc'] at hheeds <;>
      exact hheeds.elim
  · exact absurd hs (by simp)
  · exact absurd hs (by simp)

theorem Heeding.step (h : s.Heeding) {a : Action} (hs : s.step build a = some s') :
    s'.Heeding := by
  cases a with
  | main o => exact h.main hs
  | signal sig =>
    obtain ⟨-, rfl⟩ := Option.ite_some_none_eq_some.mp hs
    cases sig <;> exact h
  | client i o =>
    obtain ⟨_, _, -, -, ⟨-, rfl⟩ | ⟨_, -, ⟨-, rfl⟩ | ⟨-, rfl⟩ | ⟨-, -, rfl⟩⟩⟩ := clientStep_cases hs
    · exact fun hheeds ↦ hheeds.elim
    all_goals exact h
  | clientEnd i =>
    obtain ⟨_, -, -, rfl⟩ := clientEnd_eq_some.mp hs
    exact h
  | fire =>
    obtain ⟨-, rfl⟩ := Option.ite_some_none_eq_some.mp hs
    exact h
  | timer j o =>
    obtain ⟨_, _, -, -, rfl⟩ := timerStep_eq_some.mp hs
    exact h

theorem Sound.pc_ne_undefined (h : s.Sound) : s.pc ≠ .undefined := fun hpc ↦ h.listAt hpc

/-- With all threads ended a sweep goes on. -/
theorem Sound.sweep_goes_on (h : s.Sound) (hawaits : s.Awaits)
    (hended : ∀ t ∈ s.threads, t.ended = true) {caller : Caller} {pc : SweepPc}
    (hpc : s.pc = .sweep caller pc) : ∃ s', s.sweepStep caller pc .ok = some s' := by
  rcases h.goes_on hawaits .device (by simp [hpc]) (by simp [hpc]) with
    ⟨o, s', hs⟩ | ⟨i, t, _, _, hi, hnot, -⟩
  · rw [Process.step, mainStep, hpc] at hs
    obtain rfl := ok_of_sweepStep hs
    exact ⟨s', hs⟩
  · exact absurd (hended t (List.mem_of_getElem? hi)) (by simp [hnot])

/-- Past the loop, and with all threads ended, `main` goes on without a failure. -/
theorem Draining.goes_on_ok (h : s.Draining) (hawaits : s.Awaits) (build : Build)
    (hdone : s.pc ≠ .cleanup .done) : ∃ s', s.mainStep build .ok = some s' := by
  have hlate := h.late
  cases hpc : s.pc with
  | setup | loop | exited | undefined =>
    rw [hpc] at hlate
    exact hlate.elim
  | sweep caller pc =>
    obtain ⟨s', hs⟩ := h.sound.sweep_goes_on hawaits h.ended hpc
    exact ⟨s', by rw [mainStep, hpc]; exact hs⟩
  | cleanup pc =>
    refine Option.isSome_iff_exists.mp ?_
    rw [mainStep, hpc]
    cases pc <;> first | rfl | exact absurd hpc hdone

/-- A call of a thread comes back, if the thread is where it can. -/
theorem Sound.exists_clientStep (h : s.Sound) {t : Thread} (hi : s.threads[i]? = some t)
    {o : Outcome} {sock : SockThread} (hstep : t.sock.step build o = some sock) :
    ∃ s', s.clientStep build i o = some s' ∧ s'.pc = s.pc ∧ s'.isRunning = s.isRunning ∧
      s'.threads.length = s.threads.length := by
  obtain ⟨-, -, args, hblock, -⟩ := h.block_of_step hi hstep
  rw [clientStep, hi]
  dsimp only
  rw [hstep]
  dsimp only
  rw [deref_of_block hblock]
  split <;> exact ⟨_, rfl, rfl, rfl, List.length_set⟩

/-- Threads are only ever added. -/
theorem length_threads_le {a : Action} (hs : s.step build a = some s') :
    s.threads.length ≤ s'.threads.length := by
  cases a with
  | main o =>
    rcases socks_of_mainStep hs with hsame | ⟨_, _, _, -, hthreads⟩
    · have hlen := congrArg List.length hsame
      rw [List.length_map, List.length_map] at hlen
      exact hlen.ge
    · rw [hthreads, List.length_append]
      exact Nat.le_add_right _ _
  | signal sig =>
    obtain ⟨-, rfl⟩ := Option.ite_some_none_eq_some.mp hs
    cases sig <;> exact le_rfl
  | client i o =>
    obtain ⟨_, _, -, -, ⟨-, rfl⟩ | ⟨_, -, ⟨-, rfl⟩ | ⟨-, rfl⟩ | ⟨-, -, rfl⟩⟩⟩ := clientStep_cases hs
    · exact le_rfl
    all_goals exact List.length_set.ge
  | clientEnd i =>
    obtain ⟨_, -, -, rfl⟩ := clientEnd_eq_some.mp hs
    exact List.length_set.ge
  | fire =>
    obtain ⟨-, rfl⟩ := Option.ite_some_none_eq_some.mp hs
    exact le_rfl
  | timer j o =>
    obtain ⟨_, _, -, -, rfl⟩ := timerStep_eq_some.mp hs
    exact le_rfl

end Process

/-! ## Nothing fails -/

/-- The service, in the device build. -/
abbrev DeviceService (seek : FixedSizeLlseek) : Type := Service (charDevice seek (ℕ ⊕ Empty))

namespace Service

/-- Nothing fails but an `accept` when `is_running` is false, and the only signal is a `SIGINT`
while it is true. -/
def calm {τ : Type} {B : Backend (ℕ ⊕ τ)} (s : Service B) : ServiceAction B → Bool
  | .main .fail => decide (s.main.pc = .loop .accept) && !s.main.isRunning
  | .main _ => true
  | .signal sig => decide (sig = .sigint) && s.main.isRunning
  | .clientEnd _ => true
  | .fire => true
  | .world l => AllSucceed s.world l

section Device

variable {seek : FixedSizeLlseek} {base : List (List Byte)} {stream : ℕ → List Byte}

/-- One event in which nothing fails. -/
def calmStep (seek : FixedSizeLlseek) : DeviceService seek →
    ServiceAction (charDevice seek (ℕ ⊕ Empty)) → Option (DeviceService seek) :=
  Run.restrict (Service.step Empty.elim) calm

/-- **What is known of a service** all of whose threads have succeeded so far. -/
structure Ready (base : List (List Byte)) (stream : ℕ → List Byte) (s : DeviceService seek) :
    Prop where
  /-- Both parts agree. -/
  coupled : s.Coupled
  /-- Blocks and list are as they should be. -/
  sound : s.main.Sound
  /-- `main` waits for a thread that has finished. -/
  awaits : s.main.Awaits
  /-- `SIGINT` has a handler. -/
  heeding : s.main.Heeding
  /-- The clients take turns. -/
  turns : ∃ log, Turns base stream s.world log

variable {s s' : DeviceService seek} {i : ℕ}

theorem onWorld_of_calm (s : DeviceService seek) (a : ServiceAction (charDevice seek (ℕ ⊕ Empty)))
    (h : calm s a = true) : onWorld AllSucceed s a = true := by
  cases a with
  | world l => exact h
  | main | signal | clientEnd | fire => rfl

/-- **One event.** -/
theorem Ready.step (h : s.Ready base stream) {a : ServiceAction (charDevice seek (ℕ ⊕ Empty))}
    (hs : Run.restrict (Service.step Empty.elim) (onWorld AllSucceed) s a = some s') :
    s'.Ready base stream := by
  obtain ⟨hgood, hs⟩ := Run.restrict_eq_some.mp hs
  obtain ⟨log, hturns⟩ := h.turns
  have hmain : s'.main.Sound ∧ s'.main.Awaits ∧ s'.main.Heeding := by
    rcases step_main hs with heq | ⟨b, hb⟩
    · rw [heq]
      exact ⟨h.sound, h.awaits, h.heeding⟩
    · exact ⟨h.sound.step hb, h.awaits.step hb, h.heeding.step hb⟩
  refine ⟨h.coupled.step h.sound hs, hmain.1, hmain.2.1, hmain.2.2, ?_⟩
  rcases step_world hs with ⟨-, heq⟩ | ⟨l, hl, hstep⟩
  · rw [heq]
    exact ⟨log, hturns⟩
  · cases a with
    | world l' =>
      obtain rfl := Option.some.inj hl
      exact ⟨_, hturns.step (deviceStep_of_step hgood hstep log)⟩
    | main | signal | clientEnd | fire => exact absurd hl (by simp [labelOf])

theorem Ready.calm (h : s.Ready base stream) {a : ServiceAction (charDevice seek (ℕ ⊕ Empty))}
    (hs : calmStep seek s a = some s') : s'.Ready base stream := by
  obtain ⟨hcalm, hs⟩ := Run.restrict_eq_some.mp hs
  exact h.step (Run.restrict_eq_some.mpr ⟨onWorld_of_calm s a hcalm, hs⟩)

/-! ## The threads go on -/

/-- What the threads leave alone. -/
def still (s : DeviceService seek) : MainPc × Bool × ℕ :=
  (s.main.pc, s.main.isRunning, s.main.threads.length)

theorem length_of_still (h : s'.still = s.still) :
    s'.main.threads.length = s.main.threads.length :=
  congrArg (fun x : MainPc × Bool × ℕ ↦ x.2.2) h

/-- The thread has been through. -/
def Through (i : ℕ) (s : DeviceService seek) : Prop := (s.world.client i).thread.pc = .done

/-- The thread has ended, if there is one. -/
def Ended (i : ℕ) (s : DeviceService seek) : Prop :=
  ∀ t, s.main.threads[i]? = some t → t.ended = true

/-- **A thread goes on** in both parts. -/
theorem Ready.exists_calmStep (h : s.Ready base stream)
    {l : DeviceLabel seek ℕ} (hl : l.client = some i) (hi : i < s.main.threads.length)
    (hgood : AllSucceed s.world l = true) {w : DeviceWorld seek ℕ} (hw : s.world.step l = some w) :
    ∃ s', calmStep seek s (.world l) = some s' ∧ s'.world = w ∧ s'.still = s.still := by
  obtain ⟨t, ht⟩ : ∃ t, s.main.threads[i]? = some t := ⟨_, List.getElem?_eq_getElem hi⟩
  have hcalm : ∀ {s'}, Service.step Empty.elim s (.world l) = some s' →
      calmStep seek s (.world l) = some s' :=
    fun hs ↦ Run.restrict_eq_some.mpr ⟨hgood, hs⟩
  rcases thread_of_step Empty.elim hw with ⟨j, o, hact, hstep, -⟩ | ⟨hno, -⟩
  · -- the call comes back in the process too
    obtain rfl : j = i := by
      cases l <;> simp_all [actionOf, Label.client]
    rw [← h.coupled.running j t ht] at hstep
    obtain ⟨m, hm, hpc, hrunning, hlen⟩ := h.sound.exists_clientStep ht hstep
    refine ⟨⟨m, w⟩, hcalm ?_, rfl, ?_⟩
    · simp only [Service.step, hw, hact]
      rw [Process.step, hm]
      rfl
    · rw [still, still, hpc, hrunning, hlen]
  · refine ⟨⟨s.main, w⟩, hcalm ?_, rfl, rfl⟩
    have hnone : actionOf Empty.elim s.world l = none := by
      cases l <;> simp_all [actionOf, Label.client]
    simp only [Service.step, hw, hnone]

/-- Who has been through stays there. -/
theorem done_of_step {w w' : DeviceWorld seek ℕ} {l : DeviceLabel seek ℕ}
    (hw : w.step l = some w') (hdone : (w.client i).thread.pc = .done) :
    (w'.client i).thread.pc = .done := by
  rcases thread_of_step Empty.elim hw with ⟨j, o, -, hstep, hother⟩ | ⟨-, hsame⟩
  · by_cases hij : i = j
    · subst hij
      simp [SockThread.step, hdone] at hstep
    · rw [hother i hij]
      exact hdone
  · rw [hsame i]
    exact hdone

/-- **A thread can finish** unless another one has the mutex. -/
theorem Ready.finish (h : s.Ready base stream) (hi : i < s.main.threads.length)
    (hown : s.world.owner = none ∨ s.world.owner = some (.inl i)) :
    ∃ t, Run.Leads (calmStep seek) s t ∧ (t.Ready base stream ∧ t.still = s.still) ∧
      t.world.owner = none ∧ t.Through i ∧ ∀ j, s.Through j → t.Through j := by
  have hstep : ∀ r : DeviceService seek, (r.Ready base stream ∧ r.still = s.still ∧
      (r.world.owner = none ∨ r.world.owner = some (.inl i)) ∧
      ∀ j, s.Through j → r.Through j) → ¬r.Through i → ∃ a r', calmStep seek r a = some r' ∧
        (r'.Ready base stream ∧ r'.still = s.still ∧
          (r'.world.owner = none ∨ r'.world.owner = some (.inl i)) ∧
          ∀ j, s.Through j → r'.Through j) ∧
        (r'.world.client i).rank r'.world.dev.stored.flatten <
          (r.world.client i).rank r.world.dev.stored.flatten := by
    rintro r ⟨hready, hstill, hown, hkeep⟩ hdone
    obtain ⟨log, hturns⟩ := hready.turns
    obtain ⟨l, w', log', hl, hsucc, hadv⟩ := hturns.exists_label hown hdone
    obtain ⟨hgood, hw⟩ := Run.restrict_eq_some.mp (Run.recording_eq_some.mp hsucc).1
    obtain ⟨r', hcalm, rfl, hstill'⟩ :=
      hready.exists_calmStep hl (length_of_still hstill ▸ hi) hgood hw
    refine ⟨_, r', hcalm, ⟨hready.calm hcalm, hstill'.trans hstill, ?_, ?_⟩, hadv.rank_lt⟩
    · rcases hadv.owner with heq | hfree | hheld
      · rw [heq]
        exact hown
      · exact .inl hfree
      · exact .inr hheld
    · exact fun j hj ↦ done_of_step hw (hkeep j hj)
  obtain ⟨t, hlead, ⟨hready, hstill, hown', hkeep⟩, hdone⟩ :=
    Run.Leads.of_rank _ hstep ⟨h, rfl, hown, fun _ ↦ id⟩
  refine ⟨t, hlead, ⟨hready, hstill⟩, hown'.resolve_right ?_, hdone, hkeep⟩
  intro hheld
  obtain ⟨log, hturns⟩ := hready.turns
  have hcrit := (hturns.mutex i).mpr hheld
  rw [hdone] at hcrit
  exact absurd hcrit Bool.false_ne_true

/-- Only a thread that there is has the mutex. -/
theorem Ready.lt_of_owner (h : s.Ready base stream) (hheld : s.world.owner = some (.inl i)) :
    i < s.main.threads.length := by
  by_contra hge
  obtain ⟨e, he⟩ := h.coupled.waiting i (Nat.le_of_not_lt hge)
  obtain ⟨log, hturns⟩ := h.turns
  have hcrit := (hturns.mutex i).mpr hheld
  rw [he] at hcrit
  exact absurd hcrit Bool.false_ne_true

/-- **All threads can finish.** -/
theorem Ready.all_through (h : s.Ready base stream) :
    ∃ t, Run.Leads (calmStep seek) s t ∧ (t.Ready base stream ∧ t.still = s.still) ∧
      ∀ i < s.main.threads.length, t.Through i := by
  refine Run.Leads.forall_lt ?_ ⟨h, rfl⟩
  rintro r ⟨hready, hstill⟩ i hi
  have hir : i < r.main.threads.length := length_of_still hstill ▸ hi
  rcases r.world.owner_cases with hfree | ⟨j, hheld⟩
  · obtain ⟨t, hlead, ⟨hready', hstill'⟩, -, hdone, hkeep⟩ := hready.finish hir (.inl hfree)
    exact ⟨t, hlead, ⟨hready', hstill'.trans hstill⟩, hdone, hkeep⟩
  · -- first whoever has the mutex
    obtain ⟨u, hleadu, ⟨hreadyu, hstillu⟩, hfree, -, hkeepu⟩ :=
      hready.finish (hready.lt_of_owner hheld) (.inr hheld)
    obtain ⟨t, hlead, ⟨hready', hstill'⟩, -, hdone, hkeep⟩ :=
      hreadyu.finish (length_of_still hstillu ▸ hir) (.inl hfree)
    exact ⟨t, hleadu.trans hlead, ⟨hready', hstill'.trans (hstillu.trans hstill)⟩, hdone,
      fun k hk ↦ hkeep k (hkeepu k hk)⟩

/-- A thread that has been through can end. -/
theorem Ready.end_thread (h : s.Ready base stream) (hi : i < s.main.threads.length)
    (hdone : s.Through i) :
    ∃ t, calmStep seek s (.clientEnd i) = some t ∧ t.world = s.world ∧ t.still = s.still ∧
      t.Ended i ∧ ∀ j, s.Ended j → t.Ended j := by
  obtain ⟨u, hu⟩ : ∃ u, s.main.threads[i]? = some u := ⟨_, List.getElem?_eq_getElem hi⟩
  have hpc : u.sock.pc = .done := by
    rw [h.coupled.running i u hu]
    exact hdone
  have hend : s.main.clientEnd i = some
      { s.main with threads := s.main.threads.set i { u with ended := true } } :=
    Process.clientEnd_eq_some.mpr ⟨u, hu, hpc, rfl⟩
  refine ⟨⟨{ s.main with threads := s.main.threads.set i { u with ended := true } }, s.world⟩,
    Run.restrict_eq_some.mpr ⟨rfl, ?_⟩, rfl, ?_, ?_, ?_⟩
  · rw [Service.step, Process.step, hend]
    rfl
  · rw [still, still, List.length_set]
  · intro v hv
    rcases Table.of_set hv with ⟨-, rfl⟩ | ⟨hne, -⟩
    · rfl
    · exact absurd rfl hne
  · intro j hj v hv
    rcases Table.of_set hv with ⟨-, rfl⟩ | ⟨-, hv⟩
    · rfl
    · exact hj v hv

/-- **All threads can end.** -/
theorem Ready.all_ended (h : s.Ready base stream) :
    ∃ t, Run.Leads (calmStep seek) s t ∧ t.Ready base stream ∧ t.still = s.still ∧
      ∀ u ∈ t.main.threads, u.ended = true := by
  obtain ⟨r, hlead, ⟨hready, hstill⟩, hthrough⟩ := h.all_through
  have hone : ∀ q : DeviceService seek, (q.Ready base stream ∧ q.still = s.still ∧
      ∀ i < s.main.threads.length, q.Through i) → ∀ i < s.main.threads.length,
      ∃ t, Run.Leads (calmStep seek) q t ∧ (t.Ready base stream ∧ t.still = s.still ∧
        ∀ i < s.main.threads.length, t.Through i) ∧ t.Ended i ∧ ∀ j, q.Ended j → t.Ended j := by
    rintro q ⟨hreadyq, hstillq, hthroughq⟩ i hi
    obtain ⟨t, hcalm, hworld, hstill', hended, hkeep⟩ :=
      hreadyq.end_thread (length_of_still hstillq ▸ hi) (hthroughq i hi)
    refine ⟨t, .single hcalm, ⟨hreadyq.calm hcalm, hstill'.trans hstillq, ?_⟩, hended, hkeep⟩
    intro j hj
    rw [Through, hworld]
    exact hthroughq j hj
  obtain ⟨t, hlead', ⟨hready', hstill', -⟩, hended⟩ :=
    Run.Leads.forall_lt hone ⟨hready, hstill, hthrough⟩
  refine ⟨t, hlead.trans hlead', hready', hstill', ?_⟩
  intro u hu
  obtain ⟨i, hi⟩ := List.mem_iff_getElem?.mp hu
  exact hended i (length_of_still hstill' ▸ (List.getElem?_eq_some_iff.mp hi).1) u hi

/-! ## `main` goes on -/

theorem calmStep_ok {m : Process} (hm : s.main.mainStep .device .ok = some m) :
    calmStep seek s (.main .ok) = some ⟨m, s.world⟩ := by
  refine Run.restrict_eq_some.mpr ⟨rfl, ?_⟩
  change (s.main.mainStep .device .ok).map (fun m ↦ (⟨m, s.world⟩ : DeviceService seek)) = _
  rw [hm]
  rfl

/-- `main` can return from here. -/
def CanEnd (s : DeviceService seek) : Prop :=
  ∃ t, Run.Leads (calmStep seek) s t ∧ t.main.pc = .cleanup .done

theorem CanEnd.of_leads (h : s'.CanEnd) (hlead : Run.Leads (calmStep seek) s s') : s.CanEnd := by
  obtain ⟨t, hlead', hpc⟩ := h
  exact ⟨t, hlead.trans hlead', hpc⟩

/-- **Past the loop**: the threads end, and `main` waits for none of them. -/
theorem Ready.canEnd_of_pastLoop (h : s.Ready base stream) (hlate : s.main.pc.PastLoop) :
    s.CanEnd := by
  obtain ⟨r, hlead, hready, hstill, hended⟩ := h.all_ended
  have hpc : r.main.pc = s.main.pc := congrArg Prod.fst hstill
  have hstep : ∀ q : DeviceService seek, q.Ready base stream ∧ q.main.Draining →
      ¬q.main.pc = .cleanup .done → ∃ a q', calmStep seek q a = some q' ∧
        (q'.Ready base stream ∧ q'.main.Draining) ∧ q'.main.cost < q.main.cost := by
    rintro q ⟨hready, hdrain⟩ hne
    obtain ⟨m, hm⟩ := hdrain.goes_on_ok hready.awaits .device hne
    obtain ⟨hdrain', hcost⟩ := hdrain.step (a := .main .ok) hm
    have hcalm := calmStep_ok hm
    exact ⟨_, _, hcalm, ⟨hready.calm hcalm, hdrain'⟩, hcost⟩
  obtain ⟨t, hlead', -, hdone⟩ := Run.Leads.of_rank _ hstep
    ⟨hready, hready.sound, hpc ▸ hlate, hended⟩
  exact ⟨t, hlead.trans hlead', hdone⟩

/-- **In the sweep of the loop**: it comes to its end. -/
theorem Ready.leads_of_sweep (h : s.Ready base stream) {pc : SweepPc}
    (hpc : s.main.pc = .sweep .loop pc) :
    ∃ t, Run.Leads (calmStep seek) s t ∧ t.Ready base stream ∧ t.main.pc = .loop .test := by
  obtain ⟨r, hlead, hready, hstill, hended⟩ := h.all_ended
  have hpcr : r.main.pc = s.main.pc := congrArg Prod.fst hstill
  have hstep : ∀ q : DeviceService seek, (q.Ready base stream ∧
      (∀ u ∈ q.main.threads, u.ended = true) ∧
      (q.main.pc = .loop .test ∨ ∃ pc, q.main.pc = .sweep .loop pc)) →
      ¬q.main.pc = .loop .test → ∃ a q', calmStep seek q a = some q' ∧ (q'.Ready base stream ∧
        (∀ u ∈ q'.main.threads, u.ended = true) ∧
        (q'.main.pc = .loop .test ∨ ∃ pc, q'.main.pc = .sweep .loop pc)) ∧
        q'.main.cost < q.main.cost := by
    rintro q ⟨hready, hended, hat⟩ hne
    obtain ⟨pc, hpc⟩ := hat.resolve_left hne
    obtain ⟨m, hm⟩ := hready.sound.sweep_goes_on hready.awaits hended hpc
    have hcalm : calmStep seek q (.main .ok) = some ⟨m, q.world⟩ := by
      refine calmStep_ok ?_
      rw [Process.mainStep, hpc]
      exact hm
    have hready' := hready.calm hcalm
    obtain ⟨pc', _, _, _, _, _, hfrom, hjoins, rfl⟩ := Process.sweepStep_cases hm hpc
    refine ⟨_, _, hcalm, ⟨hready', ?_, ?_⟩, hready.sound.cost_sweep hended hpc hm⟩
    · rcases hjoins with rfl | ⟨i, u, hi, hu, rfl⟩
      · exact hended
      · exact Table.forall_set hended hu
    · rcases hfrom with rfl | ⟨pc', rfl⟩ | rfl
      · exact absurd rfl hready'.sound.pc_ne_undefined
      · exact .inr ⟨_, rfl⟩
      · exact .inl rfl
  obtain ⟨t, hlead', ⟨hreadyt, -⟩, hdone⟩ := Run.Leads.of_rank _ hstep
    ⟨hready, hended, .inr ⟨pc, hpcr.trans hpc⟩⟩
  exact ⟨t, hlead.trans hlead', hreadyt, hdone⟩

/-- `main` can be told to stop. -/
theorem Ready.leads_told (h : s.Ready base stream) (hpc : s.main.pc.Heeds) :
    ∃ t, Run.Leads (calmStep seek) s t ∧ t.Ready base stream ∧ t.main.isRunning = false ∧
      t.main.pc = s.main.pc := by
  cases hrunning : s.main.isRunning with
  | false => exact ⟨s, .refl s, h, hrunning, rfl⟩
  | true =>
    have hcalm : calmStep seek s (.signal .sigint) =
        some ⟨s.main.signalHandler .sigint, s.world⟩ := by
      refine Run.restrict_eq_some.mpr ⟨by simp [Service.calm, hrunning], ?_⟩
      rw [Service.step, Process.step, if_pos (h.heeding hpc)]
      rfl
    exact ⟨_, .single hcalm, h.calm hcalm, rfl, rfl⟩

/-- One step more. -/
theorem Ready.canEnd_of_ok (h : s.Ready base stream) {m : Process}
    (hm : s.main.mainStep .device .ok = some m)
    (hnext : ∀ t : DeviceService seek, t.Ready base stream → t.main = m → t.CanEnd) :
    s.CanEnd :=
  (hnext _ (h.calm (calmStep_ok hm)) rfl).of_leads (.single (calmStep_ok hm))

/-- At the two tests of `is_running`. -/
theorem Ready.canEnd_of_test (h : s.Ready base stream)
    (hpc : s.main.pc = .loop .test ∨ s.main.pc = .loop .acceptFailed) : s.CanEnd := by
  have hheeds : s.main.pc.Heeds := by
    rcases hpc with hpc | hpc <;> rw [hpc] <;> trivial
  obtain ⟨t, hlead, hready, hstopped, hpct⟩ := h.leads_told hheeds
  rw [← hpct] at hpc
  refine (hready.canEnd_of_ok (m := t.main.leaveLoop) ?_ ?_).of_leads hlead
  · rcases hpc with hpc | hpc <;>
      simp only [Process.mainStep, hpc, Process.loopStep, hstopped, Bool.false_eq_true, if_false]
  · intro u hu hmain
    refine hu.canEnd_of_pastLoop ?_
    rw [hmain]
    trivial

/-- In `remove_joinable_threads`. -/
theorem Ready.canEnd_of_sweep (h : s.Ready base stream) {pc : SweepPc}
    (hpc : s.main.pc = .sweep .loop pc) : s.CanEnd := by
  obtain ⟨t, hlead, hready, hpct⟩ := h.leads_of_sweep hpc
  exact (hready.canEnd_of_test (.inl hpct)).of_leads hlead

/-- With a new thread that is to be put on the list. -/
theorem Ready.canEnd_of_insert (h : s.Ready base stream) (hpc : s.main.pc = .loop .insert) :
    s.CanEnd := by
  obtain ⟨m, hm⟩ : ∃ m, s.main.mainStep .device .ok = some m := by
    refine Option.isSome_iff_exists.mp ?_
    rw [Process.mainStep, hpc]
    exact Process.deref_isSome fun _ _ ↦ rfl
  refine h.canEnd_of_ok hm fun t ht hmain ↦ ?_
  rw [Process.mainStep, hpc] at hm
  rcases Process.deref_cases hm with rfl | ⟨args, -, hm⟩
  · exact absurd (congrArg Process.pc hmain) ht.sound.pc_ne_undefined
  · obtain rfl := Option.some.inj hm
    have hpct : t.main.pc = .sweep .loop .test := hmain ▸ rfl
    exact ht.canEnd_of_sweep hpct

/-- With a new thread that has just been created. -/
theorem Ready.canEnd_of_disown (h : s.Ready base stream) (hpc : s.main.pc = .loop .disown) :
    s.CanEnd := by
  refine h.canEnd_of_ok (m := { s.main with clientSockFd := some (-1), pc := .loop .insert }) ?_
    fun t ht hmain ↦ ht.canEnd_of_insert (hmain ▸ rfl)
  rw [Process.mainStep, hpc]
  rfl

/-- With a thread that is to be created. -/
theorem Ready.canEnd_of_create (h : s.Ready base stream)
    (hpc : s.main.pc = .loop .pthreadCreate) : s.CanEnd := by
  let errno := (s.world.client s.main.threads.length).thread.errno
  obtain ⟨m, hm⟩ : ∃ m, s.main.mainStep .device (.thread errno) = some m := by
    refine Option.isSome_iff_exists.mp ?_
    rw [Process.mainStep, hpc]
    exact Process.deref_isSome fun _ _ ↦ rfl
  have hcalm : calmStep seek s (.main (.thread errno)) = some ⟨m, s.world⟩ := by
    refine Run.restrict_eq_some.mpr ⟨rfl, ?_⟩
    rw [Service.step, if_pos (show s.fits (.thread errno) = true from beq_self_eq_true _)]
    change (s.main.mainStep .device (.thread errno)).map _ = _
    rw [hm]
    rfl
  have hready := h.calm hcalm
  refine CanEnd.of_leads ?_ (.single hcalm)
  rw [Process.mainStep, hpc] at hm
  rcases Process.deref_cases hm with rfl | ⟨args, -, hm⟩
  · exact absurd rfl hready.sound.pc_ne_undefined
  · obtain rfl := Option.some.inj hm
    exact hready.canEnd_of_disown rfl

/-- **From anywhere in the loop.** -/
theorem Ready.canEnd_of_loop (h : s.Ready base stream) {pc : LoopPc}
    (hpc : s.main.pc = .loop pc) : s.CanEnd := by
  cases pc with
  | test => exact h.canEnd_of_test (.inl hpc)
  | acceptFailed => exact h.canEnd_of_test (.inr hpc)
  | accept =>
    -- the signal comes, and `accept` fails
    obtain ⟨t, hlead, hready, hstopped, hpct⟩ := h.leads_told (by rw [hpc]; trivial)
    rw [hpc] at hpct
    let m : Process := { t.main with
      clientSockFd := some (-1)
      retries := t.main.retries + if t.main.shutDown then 1 else 0
      pc := .loop .acceptFailed }
    have hcalm : calmStep seek t (.main .fail) = some ⟨m, t.world⟩ := by
      refine Run.restrict_eq_some.mpr ⟨by simp [Service.calm, hpct, hstopped], ?_⟩
      change (t.main.mainStep .device .fail).map _ = _
      rw [Process.mainStep, hpct]
      rfl
    exact ((hready.calm hcalm).canEnd_of_test (.inr rfl)).of_leads (hlead.trans (.single hcalm))
  | initThread =>
    refine h.canEnd_of_ok (m := { s.main with
      mem := s.main.mem.alloc (initThread s.main.clientFd)
      threadArgs := s.main.mem.next
      pc := .loop .pthreadCreate }) ?_ fun t ht hmain ↦ ht.canEnd_of_create (hmain ▸ rfl)
    rw [Process.mainStep, hpc]
    rfl
  | pthreadCreate => exact h.canEnd_of_create hpc
  | freeArgs =>
    refine h.canEnd_of_ok (m := { s.main with
      mem := s.main.mem.free s.main.threadArgs
      pc := .cleanup .test }) ?_ fun t ht hmain ↦ ht.canEnd_of_pastLoop (by rw [hmain]; trivial)
    rw [Process.mainStep, hpc]
    rfl
  | disown => exact h.canEnd_of_disown hpc
  | insert => exact h.canEnd_of_insert hpc

/-- A service is ready when it has come about without a failure of a thread. -/
theorem ready_of_run {cs : List WriteCall}
    (hpending : (cs.foldl Sys.write .init).dev.tmpBuffSize = 0) {errno : ℕ → ℤ}
    {argv : List String} {garbage : ℤ}
    {as : List (ServiceAction (charDevice seek (ℕ ⊕ Empty)))}
    (hrun : as.foldlM (Run.restrict (Service.step Empty.elim) (onWorld AllSucceed))
      (.init argv garbage (World.init (charDevice seek (ℕ ⊕ Empty))
        (cs.foldl Sys.write .init).dev stream errno)) = some s) :
    s.Ready (History.writes cs).completed stream := by
  refine Run.foldlM_invariant (fun _ _ _ h hs ↦ h.step hs) hrun ?_
  exact ⟨coupled_init .., Process.sound_init ..,
    Process.awaits_of_ne (by simp [init, Process.init]), fun hheeds ↦ absurd hheeds
      (by simp [init, Process.init, MainPc.Heeds]), _, turns_init (refines_writes hpending) errno⟩

end Device

end Service

/-- Past the setup, and not gone. -/
def MainPc.PastSetup : MainPc → Prop
  | .loop _ | .sweep _ _ | .cleanup _ => True
  | .setup _ | .exited | .undefined => False

/-- `main` waits in `accept`; the second thread has the mutex, and the first waits for it. -/
def twoLocked : List (ServiceAction (charDevice fixedSizeLlseek (ℕ ⊕ Empty))) :=
  let begin (i : ℕ) : List (DeviceLabel fixedSizeLlseek ℕ) :=
    [.ret i .ok, .ret i (.bytes (twoLines i)), .ret i .ok, .ret i .ok]
  let labels := begin 0 ++ begin 1 ++ [.ret 1 .ok]
  acceptTwo 8 ++ labels.map .world

end Aesd
