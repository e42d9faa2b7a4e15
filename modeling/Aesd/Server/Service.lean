import Aesd.Server.Answers
import Aesd.Server.FileTurns
import Aesd.Server.Reaper

/-!
# The whole server

`Process` is `main` with its client threads, whose calls may come back in any way; `World` is the
client threads with the file and the mutex, and nobody who starts them or waits for them.  A
`Service` is both at once.  The client with the number `i` in the `World` is the one whose thread is
number `i` in the `Process`, and when a call of its thread comes back it does so in both, with the
same outcome.

So a run of a `Service` is a run of a `Process` and a run of a `World`, and what is known of either
can be used.  What it is used for here is the shutdown.  `main` returns only when all the threads it
has created have been joined, a thread ends only when it has been through, and one that has been
through has been served in its turn: nobody whose connection has been accepted and handed to a
thread goes away without an answer, whatever has made `main` leave its loop.  This is
`shutdown_serves_all` for the device.  For the regular file, which `main` removes after it has
waited, it is `shutdown_serves_all_file`.
-/

set_option autoImplicit false

namespace Aesd

/-! ## Both at once -/

variable {τ : Type}

/-- `main`, the threads, the mutex and the file. -/
structure Service (B : Backend (ℕ ⊕ τ)) where
  /-- `main` and its threads. -/
  main : Process
  /-- The threads and the file. -/
  world : World B

/-- One atomic event. -/
inductive ServiceAction (B : Backend (ℕ ⊕ τ)) where
  /-- `main` makes a step. -/
  | main (o : MainOutcome)
  /-- A signal is handled. -/
  | signal (signal : Signal)
  /-- A client thread ends. -/
  | clientEnd (i : ℕ)
  /-- The timer fires. -/
  | fire
  /-- A thread goes on, or its streams do. -/
  | world (l : Label B)

namespace Service

variable {B : Backend (ℕ ⊕ τ)}

/-- Nothing has happened. -/
def init (argv : List String) (garbage : ℤ) (w : World B) : Service B := ⟨.init argv garbage, w⟩

/-- How the ioctl of a client comes back. -/
def ioctlOutcome (w : World B) (i : ℕ) (env : B.SeekEnv) : Outcome :=
  match (w.client i).thread.seekTo with
  | none => .ok
  | some arg =>
    if (B.seekTo w.file env (w.client i).fPos arg).1 then .ok else .fail EINVAL

/-- What a label is for `main`: the call of a thread comes back, or nothing happens.  The firings of
the timer have the numbers `num`. -/
def actionOf (num : τ → ℕ) (w : World B) : Label B → Option Action
  | .ret i o => some (.client i o)
  | .seek i env => some (.client i (ioctlOutcome w i env))
  | .timerRet j o => some (.timer (num j) o)
  | .flush _ _ _ | .fill _ _ _ | .timerFlush _ _ _ => none

/-- The value `errno` starts with is that of the thread that comes next. -/
def fits (s : Service B) : MainOutcome → Bool
  | .thread errno => errno == (s.world.client s.main.threads.length).thread.errno
  | _ => true

variable [DecidableEq τ]

/-- One event. -/
def step (num : τ → ℕ) (s : Service B) : ServiceAction B → Option (Service B)
  | .main o =>
    if s.fits o then (s.main.step B.build (.main o)).map fun m ↦ ⟨m, s.world⟩ else none
  | .signal sig => (s.main.step B.build (.signal sig)).map fun m ↦ ⟨m, s.world⟩
  | .clientEnd i => (s.main.step B.build (.clientEnd i)).map fun m ↦ ⟨m, s.world⟩
  | .fire => (s.main.step B.build .fire).map fun m ↦ ⟨m, s.world⟩
  | .world l =>
    match s.world.step l with
    | none => none
    | some w =>
      match actionOf num s.world l with
      | none => some ⟨s.main, w⟩
      | some a => (s.main.step B.build a).map fun m ↦ ⟨m, w⟩

/-- A condition on what the threads do. -/
def onWorld (P : World B → Label B → Bool) (s : Service B) : ServiceAction B → Bool
  | .world l => P s.world l
  | _ => true

/-- The label of an event. -/
def labelOf : ServiceAction B → Option (Label B)
  | .world l => some l
  | _ => none

variable {num : τ → ℕ} {s s' : Service B}

/-! ## The two parts -/

/-- For `main`, an event is one of its own, or none. -/
theorem step_main {a : ServiceAction B} (hs : s.step num a = some s') :
    s'.main = s.main ∨ ∃ b, s.main.step B.build b = some s'.main := by
  have hown : ∀ {b : Action} {w : World B},
      (s.main.step B.build b).map (fun m ↦ (⟨m, w⟩ : Service B)) = some s' →
      s'.main = s.main ∨ ∃ b, s.main.step B.build b = some s'.main := by
    intro b w h
    obtain ⟨m, hm, rfl⟩ := Option.map_eq_some_iff.mp h
    exact .inr ⟨b, hm⟩
  cases a with
  | main o => exact hown (Option.ite_none_right_eq_some.mp hs).2
  | signal sig => exact hown hs
  | clientEnd i => exact hown hs
  | fire => exact hown hs
  | world l =>
    rw [step] at hs
    split at hs
    · exact absurd hs (by simp)
    · split at hs
      · obtain rfl := Option.some.inj hs
        exact .inl rfl
      · exact hown hs

/-- For the threads too. -/
theorem step_world {a : ServiceAction B} (hs : s.step num a = some s') :
    (labelOf a = none ∧ s'.world = s.world) ∨
      ∃ l, labelOf a = some l ∧ s.world.step l = some s'.world := by
  have hown : ∀ {b : Action} {w : World B},
      (s.main.step B.build b).map (fun m ↦ (⟨m, w⟩ : Service B)) = some s' → s'.world = w := by
    intro b w h
    obtain ⟨m, -, rfl⟩ := Option.map_eq_some_iff.mp h
    rfl
  cases a with
  | main o => exact .inl ⟨rfl, hown (Option.ite_none_right_eq_some.mp hs).2⟩
  | signal sig => exact .inl ⟨rfl, hown hs⟩
  | clientEnd i => exact .inl ⟨rfl, hown hs⟩
  | fire => exact .inl ⟨rfl, hown hs⟩
  | world l =>
    right
    rw [step] at hs
    split at hs
    · exact absurd hs (by simp)
    · rename_i w hw
      refine ⟨l, rfl, ?_⟩
      split at hs
      · obtain rfl := Option.some.inj hs
        exact hw
      · rw [hown hs]
        exact hw

/-! ## They agree -/

/-- The threads that there are have come as far in both, and the others have not begun. -/
structure Coupled (s : Service B) : Prop where
  /-- The threads. -/
  running : ∀ i t, s.main.threads[i]? = some t → t.sock = (s.world.client i).thread
  /-- Those that are still to be created. -/
  waiting : ∀ i, s.main.threads.length ≤ i → ∃ e, (s.world.client i).thread = .init e

omit [DecidableEq τ] in
theorem coupled_init (argv : List String) (garbage : ℤ) (file : B.State) (stream : ℕ → List Byte)
    (errno : ℕ → ℤ) : (init argv garbage (World.init B file stream errno)).Coupled where
  running i t hi := absurd hi (by simp [init, Process.init])
  waiting i _ := ⟨errno i, rfl⟩

omit [DecidableEq τ] in
/-- Only what the threads run matters. -/
theorem Coupled.of_socks (h : s.Coupled) {m : Process}
    (hsame : m.threads.map Thread.sock = s.main.threads.map Thread.sock) :
    (⟨m, s.world⟩ : Service B).Coupled where
  running i t hi := by
    have hsock : (s.main.threads.map Thread.sock)[i]? = some t.sock := by
      have hi' : m.threads[i]? = some t := hi
      rw [← hsame, List.getElem?_map, hi', Option.map_some]
    rw [List.getElem?_map] at hsock
    obtain ⟨u, hu, hut⟩ := Option.map_eq_some_iff.mp hsock
    rw [← hut]
    exact h.running i u hu
  waiting i hi := by
    have hlen := congrArg List.length hsame
    rw [List.length_map, List.length_map] at hlen
    exact h.waiting i (hlen ▸ hi)

end Service

namespace Process

variable {build : Build} {s s' : Process}

/-- What `main` does to the threads: nothing that they would notice, or there is a new one. -/
theorem socks_of_mainStep {o : MainOutcome} (hs : s.mainStep build o = some s') :
    s'.threads.map Thread.sock = s.threads.map Thread.sock ∨
      ∃ errno args fd, o = .thread errno ∧
        s'.threads = s.threads ++ [⟨.init errno, args, fd, false, false⟩] := by
  rw [mainStep] at hs
  split at hs
  · obtain ⟨_, _, _, _, _, _, _, _, -, rfl, -⟩ := setupStep_cases hs
    exact .inl rfl
  · rename_i pc hpc
    cases pc <;> cases o <;> simp only [loopStep, reduceCtorEq, Option.some.injEq] at hs
    case test.ok | acceptFailed.ok =>
      split at hs <;> subst hs <;> exact .inl rfl
    case accept.fd n =>
      obtain ⟨-, rfl⟩ := Option.ite_some_none_eq_some.mp hs
      exact .inl rfl
    case pthreadCreate.thread errno =>
      rcases deref_cases hs with rfl | ⟨args, -, hs⟩
      · exact .inl rfl
      · obtain rfl := Option.some.inj hs
        exact .inr ⟨errno, _, _, rfl, rfl⟩
    case insert.ok =>
      rcases deref_cases hs with rfl | ⟨args, -, hs⟩
      · exact .inl rfl
      · obtain rfl := Option.some.inj hs
        exact .inl rfl
    all_goals
      subst hs
      exact .inl rfl
  · rename_i hpc
    obtain ⟨_, _, _, _, _, _, -, hjoins, rfl⟩ := sweepStep_cases hs hpc
    rcases hjoins with rfl | ⟨i, t, hi, -, rfl⟩
    · exact .inl rfl
    · exact .inl (Table.map_set hi rfl)
  · left
    rename_i pc hpc
    cases pc <;> cases o <;> simp only [cleanupStep, reduceCtorEq, Option.some.injEq] at hs
    case drain.ok =>
      split at hs <;> subst hs <;> rfl
    all_goals
      subst hs
      rfl
  · exact absurd hs (by simp)
  · exact absurd hs (by simp)

/-- A call of a client thread comes back. -/
theorem Sound.threads_of_client (h : s.Sound) {i : ℕ} {o : Outcome}
    (hs : s.clientStep build i o = some s') :
    ∃ t sock, s.threads[i]? = some t ∧ t.sock.step build o = some sock ∧
      s'.threads = s.threads.set i { t with sock := sock } := by
  obtain ⟨t, sock, hi, hstep, hcases⟩ := clientStep_cases hs
  obtain ⟨-, -, args, hblock, -⟩ := h.block_of_step hi hstep
  refine ⟨t, sock, hi, hstep, ?_⟩
  rcases hcases with ⟨hdead, -⟩ | ⟨args', -, ⟨-, rfl⟩ | ⟨-, rfl⟩ | ⟨-, -, rfl⟩⟩
  · exact absurd (hblock.symm.trans hdead) (by simp)
  · rfl
  · rfl
  · rfl

end Process

namespace Service

variable {B : Backend (ℕ ⊕ τ)} [DecidableEq τ] {num : τ → ℕ} {s s' : Service B}

omit [DecidableEq τ] in
/-- A label that is none of a client is at most one of the timer. -/
theorem timer_of_actionOf {w : World B} {l : Label B} {a : Action} (h : actionOf num w l = some a)
    (hno : ∀ i o, actionOf num w l ≠ some (.client i o)) : ∃ j o, a = .timer j o := by
  cases l with
  | ret i o => exact absurd rfl (hno i o)
  | seek i env => exact absurd rfl (hno i _)
  | timerRet j o => exact ⟨_, o, (Option.some.inj h).symm⟩
  | flush | fill | timerFlush => exact absurd h (by simp [actionOf])

theorem thread_of_seek {w w' : World B} {i : ℕ} {env : B.SeekEnv}
    (h : w.step (.seek i env) = some w') :
    (w.client i).thread.step B.build (ioctlOutcome w i env) = some (w'.client i).thread ∧
      ∀ j, j ≠ i → (w'.client j).thread = (w.client j).thread := by
  obtain ⟨hpc, arg, t, harg, rfl, ht⟩ := World.clientSeek_eq_some h
  constructor
  · change _ = some (Function.update w.client i _ i).thread
    rw [Function.update_self, ioctlOutcome, harg]
    rcases ht with ⟨hret, rfl⟩ | ⟨hret, rfl⟩ <;> simp [hret, SockThread.step, hpc]
  · intro j hne
    change (Function.update w.client i _ j).thread = _
    rw [Function.update_of_ne hne]

/-- **What an event of the threads is for one of them.** -/
theorem thread_of_step (num : τ → ℕ) {w w' : World B} {l : Label B} (h : w.step l = some w') :
    (∃ i o, actionOf num w l = some (.client i o) ∧
      (w.client i).thread.step B.build o = some (w'.client i).thread ∧
      ∀ j, j ≠ i → (w'.client j).thread = (w.client j).thread) ∨
    (∀ i o, actionOf num w l ≠ some (.client i o)) ∧
      ∀ j, (w'.client j).thread = (w.client j).thread := by
  have hother : ∀ (i : ℕ) (c : Client) j, j ≠ i →
      (Function.update w.client i c j).thread = (w.client j).thread :=
    fun i c j hne ↦ by rw [Function.update_of_ne hne]
  have hsame : ∀ (i : ℕ) (c : Client), c.thread = (w.client i).thread → ∀ j,
      (Function.update w.client i c j).thread = (w.client j).thread := by
    intro i c hc j
    by_cases hj : j = i
    · rw [hj, Function.update_self, hc]
    · exact hother i c j hj
  cases World.step_cases h with
  | ret i o c hret | lock i c hpc hret | unlock i c hpc hret =>
    refine .inl ⟨i, _, rfl, ?_, hother i c⟩
    change _ = some (Function.update w.client i c i).thread
    rw [Function.update_self]
    exact (Client.step_of_ret hret).1
  | flush i n env | fill i count env => exact .inr ⟨by simp [actionOf], hsame i _ rfl⟩
  | timerRet | timerLock | timerUnlock | timerFlush =>
    exact .inr ⟨by simp [actionOf], fun _ ↦ rfl⟩
  | seek i env => exact .inl ⟨i, _, rfl, thread_of_seek h⟩

/-- **One event.** -/
theorem Coupled.step (h : s.Coupled) (hsound : s.main.Sound) {a : ServiceAction B}
    (hs : s.step num a = some s') : s'.Coupled := by
  -- what does not concern the threads
  have hquiet : ∀ {b : Action}, (∀ {m : Process}, s.main.step B.build b = some m →
      m.threads.map Thread.sock = s.main.threads.map Thread.sock) →
      (s.main.step B.build b).map (fun m ↦ (⟨m, s.world⟩ : Service B)) = some s' →
      s'.Coupled := by
    intro b hsocks hs
    obtain ⟨m, hm, rfl⟩ := Option.map_eq_some_iff.mp hs
    exact h.of_socks (hsocks hm)
  cases a with
  | main o =>
    obtain ⟨hfits, hs⟩ := Option.ite_none_right_eq_some.mp hs
    obtain ⟨m, hm, rfl⟩ := Option.map_eq_some_iff.mp hs
    rcases Process.socks_of_mainStep hm with hsame | ⟨errno, args, fd, rfl, hthreads⟩
    · exact h.of_socks hsame
    · obtain ⟨e, he⟩ := h.waiting _ le_rfl
      have hinit : SockThread.init errno = (s.world.client s.main.threads.length).thread := by
        rw [fits, he, beq_iff_eq] at hfits
        rw [he, hfits]
        rfl
      refine ⟨fun i t hi ↦ ?_, fun i hi ↦ ?_⟩
      · change m.threads[i]? = some t at hi
        rw [hthreads] at hi
        rcases Table.of_concat hi with hi | ⟨rfl, rfl⟩
        · exact h.running i t hi
        · exact hinit
      · change m.threads.length ≤ i at hi
        rw [hthreads, List.length_append] at hi
        exact h.waiting i (by omega)
  | signal sig =>
    refine hquiet (fun hm ↦ ?_) hs
    obtain ⟨-, rfl⟩ := Option.ite_some_none_eq_some.mp hm
    cases sig <;> rfl
  | clientEnd i =>
    refine hquiet (fun hm ↦ ?_) hs
    obtain ⟨t, hi, -, rfl⟩ := Process.clientEnd_eq_some.mp hm
    exact Table.map_set hi rfl
  | fire =>
    refine hquiet (fun hm ↦ ?_) hs
    obtain ⟨-, rfl⟩ := Option.ite_some_none_eq_some.mp hm
    rfl
  | world l =>
    rw [Service.step] at hs
    split at hs
    · exact absurd hs (by simp)
    rename_i w hw
    rcases thread_of_step num hw with ⟨i, o, hact, hstep, hother⟩ | ⟨hno, hsame⟩
    · rw [hact] at hs
      obtain ⟨m, hm, rfl⟩ := Option.map_eq_some_iff.mp hs
      obtain ⟨t, sock, hi, hsock, hthreads⟩ := hsound.threads_of_client hm
      rw [h.running i t hi, hstep] at hsock
      obtain rfl := Option.some.inj hsock
      refine ⟨fun j u hj ↦ ?_, fun j hj ↦ ?_⟩
      · change m.threads[j]? = some u at hj
        rw [hthreads] at hj
        rcases Table.of_set hj with ⟨rfl, rfl⟩ | ⟨hne, hj⟩
        · rfl
        · exact (h.running j u hj).trans (hother j hne).symm
      · change m.threads.length ≤ j at hj
        rw [hthreads, List.length_set] at hj
        have hlt := (List.getElem?_eq_some_iff.mp hi).1
        change ∃ e, (w.client j).thread = _
        rw [hother j (by omega)]
        exact h.waiting j hj
    · have hsocks : ∀ m : Process, m.threads = s.main.threads →
          (⟨m, w⟩ : Service B).Coupled := by
        rintro m hm
        refine ⟨fun j u hj ↦ ?_, fun j hj ↦ ?_⟩
        · exact (h.running j u (hm ▸ hj)).trans (hsame j).symm
        · change ∃ e, (w.client j).thread = _
          rw [hsame j]
          exact h.waiting j (hm ▸ hj)
      split at hs
      · obtain rfl := Option.some.inj hs
        exact hsocks _ rfl
      · rename_i act hact
        obtain ⟨m, hm, rfl⟩ := Option.map_eq_some_iff.mp hs
        refine hsocks m ?_
        obtain ⟨j, o, rfl⟩ := timer_of_actionOf hact hno
        obtain ⟨_, _, -, -, rfl⟩ := Process.timerStep_eq_some.mp hm
        rfl

/-- **Every run.** -/
theorem coupled_of_run {argv : List String} {garbage : ℤ} {file : B.State}
    {stream : ℕ → List Byte} {errno : ℕ → ℤ} {P : World B → Label B → Bool}
    {as : List (ServiceAction B)}
    (hrun : as.foldlM (Run.restrict (Service.step num) (onWorld P))
      (init argv garbage (World.init B file stream errno)) = some s) : s.Coupled := by
  have hboth := Run.foldlM_invariant (I := fun s : Service B ↦ s.Coupled ∧ s.main.Sound)
    (fun s a s' h hs ↦ ?_) hrun ⟨coupled_init .., Process.sound_init argv garbage⟩
  · exact hboth.1
  · obtain ⟨-, hs⟩ := Run.restrict_eq_some.mp hs
    refine ⟨h.1.step h.2 hs, ?_⟩
    rcases step_main hs with heq | ⟨b, hb⟩
    · rw [heq]
      exact h.2
    · exact h.2.step hb

/-- The run of `main` in it. -/
theorem main_run {argv : List String} {garbage : ℤ} {w : World B} {P : World B → Label B → Bool}
    {as : List (ServiceAction B)}
    (hrun : as.foldlM (Run.restrict (Service.step num) (onWorld P)) (init argv garbage w) =
      some s) :
    ∃ bs : List Action, bs.foldlM (Process.step B.build) (.init argv garbage) = some s.main :=
  Run.foldlM_stutter (I := fun _ ↦ True) Service.main
    (fun _ _ _ _ hs ↦ ⟨trivial, step_main (Run.restrict_eq_some.mp hs).2⟩) hrun trivial

/-- The run of the threads in it. -/
theorem world_run {argv : List String} {garbage : ℤ} {w : World B} {P : World B → Label B → Bool}
    {as : List (ServiceAction B)}
    (hrun : as.foldlM (Run.restrict (Service.step num) (onWorld P)) (init argv garbage w) =
      some s) :
    (as.filterMap labelOf).foldlM (Run.restrict World.step P) w = some s.world := by
  refine Run.foldlM_filterMap Service.world labelOf (fun s a s' hs ↦ ?_) hrun
  obtain ⟨hP, hs⟩ := Run.restrict_eq_some.mp hs
  rcases step_world hs with hnone | ⟨l, hl, hstep⟩
  · exact .inl hnone
  · refine .inr ⟨l, hl, Run.restrict_eq_some.mpr ⟨?_, hstep⟩⟩
    cases a with
    | world l' =>
      obtain rfl := Option.some.inj hl
      exact hP
    | main | signal | clientEnd | fire => exact absurd hl (by simp [labelOf])

omit [DecidableEq τ] in
theorem mem_of_label {l : Label B} {as : List (ServiceAction B)} (h : l ∈ as.filterMap labelOf) :
    ServiceAction.world l ∈ as := by
  obtain ⟨a, ha, hl⟩ := List.mem_filterMap.mp h
  cases a with
  | world l' =>
    obtain rfl := Option.some.inj hl
    exact ha
  | main | signal | clientEnd | fire => exact absurd hl (by simp [labelOf])

section Drained

variable {argv : List String} {garbage : ℤ} {file : B.State} {stream : ℕ → List Byte}
  {errno : ℕ → ℤ} {P : World B → Label B → Bool} {as : List (ServiceAction B)} {pc : CleanupPc}

/-- **When `main` has waited for its threads, every one of them has been through.** -/
theorem through_of_drained (hrun : as.foldlM (Run.restrict (Service.step num) (onWorld P))
      (init argv garbage (World.init B file stream errno)) = some s)
    (hpc : s.main.pc = .cleanup pc)
    (hlate : pc ∈ [.removeFile, .mutexDestroy, .closeServer, .done]) {i : ℕ}
    (hi : i < s.main.threads.length) : (s.world.client i).thread.pc = .done := by
  obtain ⟨bs, hbs⟩ := main_run hrun
  obtain ⟨hsound, -⟩ := Process.sound_of_run hbs
  obtain ⟨t, ht⟩ : ∃ t, s.main.threads[i]? = some t := ⟨_, List.getElem?_eq_getElem hi⟩
  obtain ⟨hlist, hempty⟩ := hsound.listAt hpc
  obtain ⟨hjoined, -⟩ := hsound.reaped hlist (hempty hlate) ht
  have hst := hsound.blocks.staged t (List.mem_of_getElem? ht)
  rw [← (coupled_of_run hrun).running i t ht]
  exact hst.ended (hst.joined hjoined)

/-- Then nobody is between taking the mutex and giving it back. -/
theorem waiting_or_done (hrun : as.foldlM (Run.restrict (Service.step num) (onWorld P))
      (init argv garbage (World.init B file stream errno)) = some s)
    (hpc : s.main.pc = .cleanup pc)
    (hlate : pc ∈ [.removeFile, .mutexDestroy, .closeServer, .done]) (i : ℕ) :
    i < s.main.threads.length ∧ (s.world.client i).thread.pc = .done ∨
      (s.world.client i).thread.pc.waiting = true := by
  rcases Nat.lt_or_ge i s.main.threads.length with hi | hi
  · exact .inl ⟨hi, through_of_drained hrun hpc hlate hi⟩
  · obtain ⟨e, he⟩ := (coupled_of_run hrun).waiting i hi
    rw [he]
    exact .inr rfl

end Drained

omit [DecidableEq τ] in
/-- The order has nobody that waits, so it has only threads that there are. -/
theorem created_of_mem (h : ∀ i, i < s.main.threads.length ∧ (s.world.client i).thread.pc = .done ∨
      (s.world.client i).thread.pc.waiting = true)
    (hwaiting : ∀ i, (s.world.client i).thread.pc.waiting = true → i ∉ s.world.order) {i : ℕ}
    (hi : i ∈ s.world.order) : i < s.main.threads.length := by
  rcases h i with ⟨hlt, -⟩ | hwait
  · exact hlt
  · exact absurd hi (hwaiting i hwait)

omit [DecidableEq τ] in
/-- No client has the mutex. -/
theorem owner_ne (h : ∀ i, i < s.main.threads.length ∧ (s.world.client i).thread.pc = .done ∨
      (s.world.client i).thread.pc.waiting = true)
    (hmutex : ∀ i, (s.world.client i).thread.pc.critical = true ↔ s.world.owner = some (.inl i))
    (i : ℕ) : s.world.owner ≠ some (.inl i) := by
  intro hown
  have hcrit := (hmutex i).mpr hown
  rcases h i with ⟨-, hpc⟩ | hwait
  · rw [hpc] at hcrit
    exact absurd hcrit Bool.false_ne_true
  · rw [Pc.not_critical_of_waiting hwait] at hcrit
    exact absurd hcrit Bool.false_ne_true

end Service

/-- **Nobody is lost at shutdown**, in the device build, with all I/O and all allocations of the
threads succeeding and nothing pending at the start, however `main` and the threads are interleaved,
whatever signals come and whatever else has made `main` leave its loop.  When it has returned,

* every client for which it had created a thread has been answered in its turn: what has been
  written for it and what it has been sent is what it would have been if the clients before it had
  been served one after another and then this one, alone (unless its line was too long to be read,
  or the kernel has refused its ioctl);
* these are all that have had a turn, each one once, and the device is left as it would have been if
  they had been served one after another. -/
theorem shutdown_serves_all (seek : FixedSizeLlseek) (hseek : SeeksInside seek)
    (cs : List WriteCall) (hpending : (cs.foldl Sys.write .init).dev.tmpBuffSize = 0)
    (stream : ℕ → List Byte) (errno : ℕ → ℤ) (argv : List String) (garbage : ℤ)
    (as : List (ServiceAction (charDevice seek (ℕ ⊕ Empty))))
    (s : Service (charDevice seek (ℕ ⊕ Empty)))
    (hrun : as.foldlM (Run.restrict (Service.step Empty.elim) (Service.onWorld AllSucceed))
      (.init argv garbage (World.init (charDevice seek (ℕ ⊕ Empty))
        (cs.foldl Sys.write .init).dev stream errno)) = some s)
    (hdone : s.main.pc = .cleanup .done) :
    (∀ i < s.main.threads.length, TooLong (stream i) ∨
      ∃ pre post, s.world.order = pre ++ i :: post ∧
        (s.world.client i).written = appendedLine (stream i) ∧
        ((s.world.client i).got =
            reply (onDevice (History.writes cs).completed (serial stream pre)) (stream i) ∨
          (s.world.client i).got = [] ∧ ¬Ordinary (stream i) ∧
            ∃ env, ServiceAction.world (Label.seek i env) ∈ as ∧ ¬IoctlEnv.Succeeds env)) ∧
    (∀ i ∈ s.world.order, i < s.main.threads.length) ∧ s.world.order.Nodup ∧
    Refines s.world.dev (onDevice (History.writes cs).completed (serial stream s.world.order)) := by
  obtain ⟨log, h⟩ := answers_of_run hseek hpending (Service.world_run hrun)
  have hend := Service.waiting_or_done hrun hdone (by simp)
  refine ⟨?_, fun i hi ↦ Service.created_of_mem hend h.turns.waiting hi, h.turns.nodup, ?_⟩
  · intro i hi
    have hpc := Service.through_of_drained hrun hdone (by simp) hi
    refine (h.served (by rw [hpc]; rfl)).imp_right ?_
    rintro ⟨pre, post, hord, hwritten, hgot | ⟨hnil, hs, hno⟩⟩
    · exact ⟨pre, post, hord, hwritten, .inl hgot⟩
    · obtain ⟨env, hno⟩ := not_forall.mp hno
      obtain ⟨hmem, hno⟩ := Classical.not_imp.mp hno
      exact ⟨pre, post, hord, hwritten, .inr ⟨hnil, hs, env, Service.mem_of_label hmem, hno⟩⟩
  · rcases s.world.owner_cases with hfree | ⟨i, hown⟩
    · rw [← h.turns.log_free hfree]
      exact h.turns.device
    · exact absurd hown (Service.owner_ne hend h.turns.mutex i)

/-- `main` accepts a connection, creates a thread for it and looks through its list. -/
def acceptOne {B : Backend (ℕ ⊕ τ)} (fd steps : ℕ) : List (ServiceAction B) :=
  [.main (.fd fd), .main .ok, .main (.thread 0)] ++ List.replicate steps (.main .ok)

/-- `main` sets itself up, and accepts two connections. -/
def acceptTwo {B : Backend (ℕ ⊕ τ)} (setup : ℕ) : List (ServiceAction B) :=
  List.replicate setup (.main .ok) ++ acceptOne 5 6 ++ acceptOne 6 8

/-- The threads end, `SIGINT` comes, `accept` fails, and `main` cleans up. -/
def endTwo {B : Backend (ℕ ⊕ τ)} (cleanup : ℕ) : List (ServiceAction B) :=
  [.clientEnd 0, .clientEnd 1, .signal .sigint, .main .fail] ++
    List.replicate cleanup (.main .ok)

/-- Two clients send `"a\n"` and `"b\n"`. -/
def twoLines (i : ℕ) : List Byte := if i = 0 then [97, 10] else [98, 10]

/-- Both have read their lines when the second takes the mutex. -/
def twoServed : List (ServiceAction (charDevice fixedSizeLlseek (ℕ ⊕ Empty))) :=
  let begin (i : ℕ) : List (DeviceLabel fixedSizeLlseek ℕ) :=
    [.ret i .ok, .ret i (.bytes (twoLines i)), .ret i .ok, .ret i .ok]
  let write (i : ℕ) : List (DeviceLabel fixedSizeLlseek ℕ) :=
    [.ret i .ok, .ret i (.count 2), .flush i 2 (WriteCall.plain 0 []).env, .ret i .ok, .ret i .ok]
  let line (i : ℕ) (l : List Byte) : List (DeviceLabel fixedSizeLlseek ℕ) :=
    [.fill i 512 ⟨false, 0⟩, .ret i (.bytes l), .ret i (.count 2)]
  let finish (i : ℕ) : List (DeviceLabel fixedSizeLlseek ℕ) :=
    [.fill i 512 ⟨false, 0⟩, .ret i (.bytes [])] ++ List.replicate 6 (.ret i .ok)
  let labels := begin 0 ++ begin 1 ++ write 1 ++ line 1 [98, 10] ++ finish 1 ++ write 0 ++
    line 0 [98, 10] ++ line 0 [97, 10] ++ finish 0
  acceptTwo 8 ++ labels.map .world ++ endTwo 17

/-- The first is sent both lines, and they are what the device holds at the end. -/
theorem shutdown_serves_all_two :
    ∃ s, twoServed.foldlM (Run.restrict (Service.step Empty.elim) (Service.onWorld AllSucceed))
        (.init [] 0 (World.init (charDevice fixedSizeLlseek (ℕ ⊕ Empty)) Sys.init.dev
          twoLines fun _ ↦ 0)) = some s ∧
      (s.world.client 0).got = [98, 10, 97, 10] ∧
      Refines s.world.dev ⟨[[98, 10], [97, 10]], []⟩ := by
  have hrun : (twoServed.foldlM (Run.restrict (Service.step Empty.elim)
      (Service.onWorld AllSucceed)) (.init [] 0 (World.init
        (charDevice fixedSizeLlseek (ℕ ⊕ Empty)) Sys.init.dev twoLines fun _ ↦ 0))).map
      (fun s ↦ (s.main.pc, s.main.threads.length, s.world.order)) =
      some (.cleanup .done, 2, [1, 0]) := by decide +kernel
  obtain ⟨s, hs, hfacts⟩ := Option.map_eq_some_iff.mp hrun
  obtain ⟨hdone, hfacts⟩ := Prod.mk.inj hfacts
  obtain ⟨hlen, horder⟩ := Prod.mk.inj hfacts
  obtain ⟨hserved, -, -, hdev⟩ := shutdown_serves_all fixedSizeLlseek seeksInside_fixedSizeLlseek []
    rfl twoLines (fun _ ↦ 0) [] 0 twoServed s hs hdone
  have hshort : ¬TooLong (twoLines 0) := SockThread.not_tooLong_of_length (by decide)
  obtain ⟨pre, post, hord, -, hgot⟩ := (hserved 0 (by omega)).resolve_left hshort
  have hsplit : [1] ++ 0 :: [] = pre ++ 0 :: post := horder.symm.trans hord
  obtain ⟨rfl, -⟩ := (List.append_cons_inj_of_notMem (by decide) (by decide)).mp hsplit
  refine ⟨s, hs, ?_, ?_⟩
  · rcases hgot with hgot | ⟨-, hctrl, -⟩
    · rw [hgot]
      decide +kernel
    · exact absurd (by decide +kernel) hctrl
  · rw [horder] at hdev
    exact hdev

/-! ## The regular file -/

/-- **Nobody is lost at shutdown** in the build without the device either, when the calls of the
clients succeed.  The timers may fail in any way and write at any time, and they may still do so
while `main` waits for its threads.  When it comes to remove the file,

* the clients' bytes in it are whole lines, in the order in which the threads took the mutex;
* only threads that `main` has created have had a turn, each one once;
* every one of them has had its line written and has been sent a prefix of the file, with the lines
  up to its own and no others, unless its line was too long to be read. -/
theorem shutdown_serves_all_file (file : List ((ℕ ⊕ ℕ) × Byte)) (stream : ℕ → List Byte)
    (errno : ℕ → ℤ) (argv : List String) (garbage : ℤ)
    (as : List (ServiceAction (regularFile (ℕ ⊕ ℕ)))) (s : Service (regularFile (ℕ ⊕ ℕ)))
    (hrun : as.foldlM (Run.restrict (Service.step id) (Service.onWorld ClientsSucceed))
      (.init argv garbage (World.init (regularFile (ℕ ⊕ ℕ)) file stream errno)) = some s)
    (hremove : s.main.pc = .cleanup .removeFile) :
    ∃ added, s.world.content = file ++ added ∧
      added.filter fromClient = linesOf ℕ stream s.world.order ∧
      (∀ i ∈ s.world.order, i < s.main.threads.length) ∧ s.world.order.Nodup ∧
      ∀ i < s.main.threads.length, TooLong (stream i) ∨
        (s.world.client i).written = firstLine (stream i) ∧
        ∃ pre post seen, s.world.order = pre ++ i :: post ∧ seen <+: added ∧
          seen.filter fromClient = linesOf ℕ stream (pre ++ [i]) ∧
          (s.world.client i).got = (file ++ seen).map Prod.snd := by
  obtain ⟨added, h⟩ := (fileTurns_init file stream errno).run (Service.world_run hrun)
  have hend := Service.waiting_or_done hrun hremove (by simp)
  refine ⟨added, h.content_eq, h.lines_free (Service.owner_ne hend h.mutex),
    fun i hi ↦ Service.created_of_mem hend h.waiting hi, h.nodup, ?_⟩
  intro i hi
  have hpc := Service.through_of_drained hrun hremove (by simp) hi
  exact (h.leaving i (by rw [hpc]; rfl)).imp_right fun hs ↦ ⟨hs.written, hs.got⟩

/-- The same, and a timestamp `"t\n"` comes between the lines. -/
def twoServedFile : List (ServiceAction (regularFile (ℕ ⊕ ℕ))) :=
  let begin (i : ℕ) : List (FileLabel ℕ ℕ) :=
    [.ret i .ok, .ret i (.bytes (twoLines i)), .ret i .ok, .ret i .ok]
  let write (i : ℕ) : List (FileLabel ℕ ℕ) :=
    [.ret i .ok, .ret i (.count 2), .flush i 2 (), .ret i .ok, .ret i .ok, .fill i 512 ()]
  let line (i : ℕ) (l : List Byte) : List (FileLabel ℕ ℕ) := [.ret i (.bytes l), .ret i (.count 2)]
  let finish (i : ℕ) : List (FileLabel ℕ ℕ) :=
    [.fill i 512 (), .ret i (.bytes [])] ++ List.replicate 6 (.ret i .ok)
  let stamp : List (FileLabel ℕ ℕ) :=
    [.timerRet 0 .ok, .timerRet 0 .ok, .timerRet 0 (.bytes [116, 120]), .timerRet 0 (.count 2),
      .timerRet 0 .ok, .timerFlush 0 2 ()]
  let labels := begin 0 ++ begin 1 ++ write 1 ++ line 1 [98, 10] ++ finish 1 ++ stamp ++ write 0 ++
    line 0 [98, 10] ++ line 0 [116, 10] ++ line 0 [97, 10] ++ finish 0
  acceptTwo 9 ++ [.fire] ++ labels.map .world ++ endTwo 16

/-- The thread has written its line and has been sent the file with both. -/
theorem shutdown_serves_all_file_two :
    ∃ s, twoServedFile.foldlM (Run.restrict (Service.step id) (Service.onWorld ClientsSucceed))
        (.init [] 0 (World.init (regularFile (ℕ ⊕ ℕ)) [] twoLines fun _ ↦ 0)) = some s ∧
      (s.world.client 0).written = [97, 10] ∧
      ∃ seen : List ((ℕ ⊕ ℕ) × Byte), seen <+: s.world.content ∧
        seen.filter fromClient = [(.inl 1, 98), (.inl 1, 10), (.inl 0, 97), (.inl 0, 10)] ∧
        (s.world.client 0).got = seen.map Prod.snd := by
  have hrun : (twoServedFile.foldlM (Run.restrict (Service.step id)
      (Service.onWorld ClientsSucceed)) (.init [] 0 (World.init (regularFile (ℕ ⊕ ℕ)) []
        twoLines fun _ ↦ 0))).map
      (fun s ↦ (s.main.pc, s.main.threads.length, s.world.order)) =
      some (.cleanup .removeFile, 2, [1, 0]) := by decide +kernel
  obtain ⟨s, hs, hfacts⟩ := Option.map_eq_some_iff.mp hrun
  obtain ⟨hremove, hfacts⟩ := Prod.mk.inj hfacts
  obtain ⟨hlen, horder⟩ := Prod.mk.inj hfacts
  obtain ⟨added, hcontent, -, -, -, hserved⟩ := shutdown_serves_all_file [] twoLines (fun _ ↦ 0)
    [] 0 twoServedFile s hs hremove
  have hshort : ¬TooLong (twoLines 0) := SockThread.not_tooLong_of_length (by decide)
  obtain ⟨hwritten, pre, post, seen, hord, hseen, hlines, hgot⟩ :=
    (hserved 0 (by omega)).resolve_left hshort
  have hsplit : [1] ++ 0 :: [] = pre ++ 0 :: post := horder.symm.trans hord
  obtain ⟨rfl, -⟩ := (List.append_cons_inj_of_notMem (by decide) (by decide)).mp hsplit
  refine ⟨s, hs, hwritten.trans (by decide), seen, ?_, hlines.trans (by decide), hgot⟩
  rw [hcontent]
  exact hseen

end Aesd
