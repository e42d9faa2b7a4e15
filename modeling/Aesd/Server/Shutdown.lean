import Aesd.Lib.Table
import Aesd.Server.Main

/-!
# Shutdown against the timer

In the build without the device, `main` deletes the timer, waits for its client threads, removes
`OUTPUT_FILE` and destroys the mutex.  It does not wait for a `timer_thread` that has already
started, and deleting the timer does not do so either.  Such a thread can open the file again after
it has been removed, and it can lock or unlock the mutex after it has been destroyed.

`timers_lawful_iff` says when this cannot happen: nothing that the threads of the timer may do next
is out of order if and only if the file has been removed when no thread was still to open it, and
the mutex destroyed when none was still to use it, the timer having been deleted before.
-/

set_option autoImplicit false

namespace Aesd

namespace TimerThread

variable {t t' : TimerThread} {o : Outcome}

/-- The file is opened first and closed last. -/
theorem step_order (h : t.step o = some t') :
    t'.pc ≠ .fopen ∧ t.pc ≠ .done ∧ (t.pc = .fclose → t'.pc = .done) := by
  cases hpc : t.pc <;> cases o <;> simp only [step, hpc, reduceCtorEq, Option.some.injEq,
    Option.ite_none_right_eq_some] at h
  case strftime.bytes bs =>
    split at h
    · obtain rfl := Option.some.inj h
      simp
    · obtain ⟨-, rfl⟩ := Option.ite_some_none_eq_some.mp h
      simp
  case fwrite.count | fwrite.short =>
    obtain ⟨-, rfl⟩ := h
    simp
  all_goals
    subst h
    simp

/-- A thread that has not got to `fclose` may come to use the mutex: now, or after its next step. -/
theorem uses_mutex (h : t.pc ≠ .fclose ∧ t.pc ≠ .done) :
    (t.pc = .lock ∨ t.pc = .unlock) ∨
      ∃ o t', t.step o = some t' ∧ (t'.pc = .lock ∨ t'.pc = .unlock) := by
  cases hpc : t.pc with
  | fopen => exact .inr ⟨.ok, { t with pc := .lock }, by simp [step, hpc], .inl rfl⟩
  | lock => exact .inl (.inl rfl)
  | strftime => exact .inr ⟨.bytes [], { t with pc := .unlock }, by simp [step, hpc], .inr rfl⟩
  | fwrite =>
    exact .inr ⟨.count t.stamp.length, { t with pc := .unlock }, by simp [step, hpc], .inr rfl⟩
  | unlock => exact .inl (.inr rfl)
  | fclose => exact absurd hpc h.1
  | done => exact absurd hpc h.2

end TimerThread

namespace Process

variable {build : Build} {s s' : Process}

/-- Has everyone been waited for?  When the file is removed no `timer_thread` still opens it, and
when the mutex is destroyed none still uses it; none will start later. -/
def waited (s : Process) : Action → Bool
  | .main .ok =>
    match s.pc with
    | .cleanup .removeFile => !s.armed && s.timers.all fun t ↦ t.pc != .fopen
    | .cleanup .mutexDestroy => !s.armed && s.timers.all fun t ↦ t.pc == .fclose || t.pc == .done
    | _ => true
  | _ => true

/-- No `timer_thread` is about to lock or unlock the mutex after it has been destroyed, or to open
the file after it has been removed. -/
def Lawful (s : Process) : Prop :=
  ∀ (j : ℕ) (t : TimerThread), s.timers[j]? = some t →
    (t.pc = .lock ∨ t.pc = .unlock → s.mutex ≠ .destroyed) ∧ (t.pc = .fopen → s.removed = false)

/-- What is gone is needed no more. -/
structure Spared (s : Process) : Prop where
  /-- After the file has been removed. -/
  file : s.removed = true → s.armed = false ∧ ∀ t ∈ s.timers, t.pc ≠ .fopen
  /-- After the mutex has been destroyed. -/
  mutex : s.mutex = .destroyed →
    s.armed = false ∧ ∀ t ∈ s.timers, t.pc = .fclose ∨ t.pc = .done

theorem spared_init (argv : List String) (garbage : ℤ) : (init argv garbage).Spared :=
  ⟨by simp [init], by simp [init]⟩

theorem Spared.lawful (h : s.Spared) : s.Lawful := by
  intro j t hj
  have hmem := List.mem_of_getElem? hj
  constructor
  · intro hpc hm
    rcases (h.mutex hm).2 t hmem with he | he <;> rw [he] at hpc <;> exact absurd hpc (by simp)
  · intro hpc
    rw [Bool.eq_false_iff]
    intro hr
    exact (h.file hr).2 t hmem hpc

theorem Spared.congr (h : s.Spared) (hremoved : s'.removed = s.removed)
    (hmutex : s'.mutex = s.mutex)
    (harmed : s.armed = false → s'.armed = false) (htimers : s'.timers = s.timers) : s'.Spared where
  file hr := by
    rw [htimers]
    exact (h.file (hremoved.symm.trans hr)).imp_left harmed
  mutex hm := by
    rw [htimers]
    exact (h.mutex (hmutex.symm.trans hm)).imp_left harmed

theorem Spared.of_flags (h : s.Spared) (hq : s'.flags = s.flags) : s'.Spared :=
  h.congr (congrArg Flags.removed hq) (congrArg Flags.mutex hq) (congrArg Flags.armed hq).trans
    (congrArg Flags.timers hq)

/-- **`main` makes a step.**  The setup comes before anything has gone. -/
theorem Spared.main (h : s.Spared) (hclosing : s.Closing) {o : MainOutcome}
    (hwaited : s.waited (.main o) = true) (hs : s.mainStep build o = some s') : s'.Spared := by
  rw [mainStep] at hs
  split at hs
  · rename_i hpc
    obtain ⟨_, _, _, _, _, _, _, _, -, rfl, -, hmutex, -⟩ := setupStep_cases hs
    constructor
    · intro hr
      exact absurd (hclosing.removed hr) (by simp [hpc])
    · intro hm
      rcases hmutex with he | he
      · exact absurd (hclosing.destroyed (he.symm.trans hm)) (by simp [hpc])
      · exact absurd (he.symm.trans hm) (by simp)
  · exact h.of_flags (flags_of_loopStep hs)
  · rename_i hpc
    exact h.of_flags (flags_of_sweepStep hs hpc)
  · rename_i pc hpc
    cases pc <;> cases o <;> simp only [cleanupStep, reduceCtorEq, Option.some.injEq] at hs
    case removeFile.ok =>
      subst hs
      simp only [waited, hpc, Bool.and_eq_true, Bool.not_eq_true', List.all_eq_true, bne_iff_ne]
        at hwaited
      exact ⟨fun _ ↦ hwaited, h.mutex⟩
    case mutexDestroy.ok =>
      subst hs
      simp only [waited, hpc, Bool.and_eq_true, Bool.not_eq_true', List.all_eq_true,
        Bool.or_eq_true,
        beq_iff_eq] at hwaited
      exact ⟨h.file, fun _ ↦ hwaited⟩
    case drain.ok => split at hs <;> subst hs <;> exact h.of_flags rfl
    case timerDelete.ok =>
      subst hs
      exact h.congr rfl rfl (fun _ ↦ rfl) rfl
    all_goals
      subst hs
      exact h.of_flags rfl
  · exact absurd hs (by simp)
  · exact absurd hs (by simp)

/-- **One action.** -/
theorem Spared.step (h : s.Spared) (hclosing : s.Closing) {a : Action}
    (hs : Run.restrict (Process.step build) waited s a = some s') : s'.Spared := by
  obtain ⟨hwaited, hs⟩ := Run.restrict_eq_some.mp hs
  cases a with
  | main o => exact h.main hclosing hwaited hs
  | signal sig =>
    obtain ⟨-, rfl⟩ := Option.ite_some_none_eq_some.mp hs
    cases sig <;> exact h.congr rfl rfl id rfl
  | client i o => exact h.of_flags (flags_of_clientStep hs)
  | clientEnd i => exact h.of_flags (flags_of_clientEnd hs)
  | fire =>
    obtain ⟨harmed, rfl⟩ := Option.ite_some_none_eq_some.mp hs
    constructor
    · intro hr
      exact absurd ((h.file hr).1.symm.trans harmed) (by simp)
    · intro hm
      exact absurd ((h.mutex hm).1.symm.trans harmed) (by simp)
  | timer j o =>
    obtain ⟨t, t', hj, hstep, rfl⟩ := timerStep_eq_some.mp hs
    obtain ⟨hfopen, hdone, hfclose⟩ := TimerThread.step_order hstep
    constructor
    · intro hr
      exact ⟨(h.file hr).1, Table.forall_set (h.file hr).2 hfopen⟩
    · intro hm
      refine ⟨(h.mutex hm).1, Table.forall_set (h.mutex hm).2 ?_⟩
      rcases (h.mutex hm).2 t (List.mem_of_getElem? hj) with he | he
      · exact .inr (hfclose he)
      · exact absurd he hdone

/-- Is it an action of the timer or of one of its threads? -/
def ofTimer : Action → Bool
  | .fire | .timer _ _ => true
  | _ => false

/-- The timer fires once more, or one of its threads makes a step, any number of times. -/
def TimerRun (build : Build) (s s' : Process) : Prop :=
  ∃ as : List Action, (∀ a ∈ as, ofTimer a = true) ∧ as.foldlM (Process.step build) s = some s'

/-- A file that is removed too early may be opened again. -/
theorem exists_opens (hr : s.removed = true)
    (h : s.armed = true ∨ ∃ t ∈ s.timers, t.pc = .fopen) :
    ∃ s', TimerRun build s s' ∧ ¬s'.Lawful := by
  rcases h with harmed | ⟨t, ht, hpc⟩
  · refine ⟨{ s with timers := s.timers ++ [.init] }, ⟨[.fire], by simp [ofTimer], ?_⟩, ?_⟩
    · rw [Run.foldlM_cons_eq_some]
      exact ⟨_, if_pos harmed, rfl⟩
    · intro hl
      have hno := (hl s.timers.length .init List.getElem?_concat_length).2 rfl
      exact absurd (hno.symm.trans hr) (by simp)
  · refine ⟨s, ⟨[], by simp, rfl⟩, ?_⟩
    intro hl
    obtain ⟨j, hj⟩ := List.mem_iff_getElem?.mp ht
    exact absurd (((hl j t hj).2 hpc).symm.trans hr) (by simp)

/-- A mutex that is destroyed too early may be used again. -/
theorem exists_uses (hm : s.mutex = .destroyed)
    (h : s.armed = true ∨ ∃ t ∈ s.timers, t.pc ≠ .fclose ∧ t.pc ≠ .done) :
    ∃ s', TimerRun build s s' ∧ ¬s'.Lawful := by
  rcases h with harmed | ⟨t, ht, hpc⟩
  · let t' : TimerThread := { TimerThread.init with pc := .lock }
    refine ⟨{ s with timers := (s.timers ++ [TimerThread.init]).set s.timers.length t' },
      ⟨[.fire, .timer s.timers.length .ok], by simp [ofTimer], ?_⟩, ?_⟩
    · simp only [Run.foldlM_cons_eq_some]
      refine ⟨_, if_pos harmed, _, timerStep_eq_some.mpr ?_, rfl⟩
      exact ⟨.init, t', List.getElem?_concat_length, rfl, rfl⟩
    · intro hl
      exact (hl s.timers.length t' (Table.set_self List.getElem?_concat_length t')).1 (.inl rfl) hm
  · obtain ⟨j, hj⟩ := List.mem_iff_getElem?.mp ht
    rcases TimerThread.uses_mutex hpc with hnow | ⟨o, t', hstep, hnext⟩
    · exact ⟨s, ⟨[], by simp, rfl⟩, fun hl ↦ (hl j t hj).1 hnow hm⟩
    · refine ⟨{ s with timers := s.timers.set j t' }, ⟨[.timer j o], by simp [ofTimer], ?_⟩, ?_⟩
      · rw [Run.foldlM_cons_eq_some]
        exact ⟨_, timerStep_eq_some.mpr ⟨t, t', hj, hstep, rfl⟩, rfl⟩
      · exact fun hl ↦ (hl j t' (Table.set_self hj t')).1 hnext hm

/-- Where nobody has been waited for, something may go wrong. -/
theorem exists_unlawful {a : Action} (hnot : s.waited a = false) (hs : s.step build a = some s') :
    ∃ s'', TimerRun build s' s'' ∧ ¬s''.Lawful := by
  unfold waited at hnot
  split at hnot
  · split at hnot
    · rename_i hpc
      rw [step, mainStep, hpc] at hs
      obtain rfl := Option.some.inj hs
      refine exists_opens rfl ?_
      rcases Bool.and_eq_false_iff.mp hnot with harmed | hopens
      · exact .inl (by simpa using harmed)
      · exact .inr (by simpa using hopens)
    · rename_i hpc
      rw [step, mainStep, hpc] at hs
      obtain rfl := Option.some.inj hs
      refine exists_uses rfl ?_
      rcases Bool.and_eq_false_iff.mp hnot with harmed | huses
      · exact .inl (by simpa using harmed)
      · exact .inr (by simpa using huses)
    · exact absurd hnot (by simp)
  · exact absurd hnot (by simp)

theorem spared_of_run {argv : List String} {garbage : ℤ} {as : List Action}
    (hrun : as.foldlM (Run.restrict (Process.step build) waited) (init argv garbage) = some s) :
    s.Spared ∧ s.Closing := by
  refine Run.foldlM_invariant (I := fun t : Process ↦ t.Spared ∧ t.Closing) ?_ hrun
    ⟨spared_init argv garbage, closing_init argv garbage⟩
  intro t a t' ht hs
  exact ⟨ht.1.step ht.2 hs, ht.2.step (Run.restrict_eq_some.mp hs).2⟩

end Process

/-- **The timer is in order**, in exactly the runs in which everyone has been waited for: whatever
the timer and its threads do after any part of the run, none of them uses a mutex that has been
destroyed or opens a file that has been removed. -/
theorem timers_lawful_iff (build : Build) (argv : List String) (garbage : ℤ) (as : List Action)
    (s : Process) (hrun : as.foldlM (Process.step build) (.init argv garbage) = some s) :
    (∀ pre t, pre <+: as → pre.foldlM (Process.step build) (.init argv garbage) = some t →
      ∀ t', Process.TimerRun build t t' → t'.Lawful) ↔
    as.foldlM (Run.restrict (Process.step build) Process.waited) (.init argv garbage) = some s := by
  constructor
  · intro hall
    refine Run.foldlM_restrict_eq_some.mpr ⟨hrun, ?_⟩
    intro pre a t t' hpre ht ha
    rw [← Bool.not_eq_false]
    intro hnot
    obtain ⟨t'', hto, hunlawful⟩ := Process.exists_unlawful hnot ha
    have hrun' : (pre ++ [a]).foldlM (Process.step build) (.init argv garbage) = some t' :=
      Run.foldlM_append_eq_some.mpr ⟨t, ht, Run.foldlM_cons_eq_some.mpr ⟨t', ha, rfl⟩⟩
    exact hunlawful (hall _ t' hpre hrun' t'' hto)
  · rintro hres pre t hpre ht t' ⟨bs, hbs, hrun'⟩
    have hpre' := Run.foldlM_restrict_prefix hres hpre ht
    have htimer : bs.foldlM (Run.restrict (Process.step build) Process.waited) t = some t' := by
      refine Run.foldlM_restrict_eq_some.mpr ⟨hrun', ?_⟩
      intro qs a u u' hqs _ _
      have ha := hbs a (hqs.subset (by simp))
      cases a <;> first | rfl | exact absurd ha (by simp [Process.ofTimer])
    have hwhole : (pre ++ bs).foldlM (Run.restrict (Process.step build) Process.waited)
        (.init argv garbage) = some t' := Run.foldlM_append_eq_some.mpr ⟨t, hpre', htimer⟩
    exact (Process.spared_of_run hwhole).1.lawful

/-- From the start to the removal of the file, in the build without the device: a signal ends the
loop, and nothing else happens but `before` the timer is deleted, and `after` the file has been
removed. -/
def shutdownRun (before after : List Action) : List Action :=
  List.replicate 9 (.main .ok) ++ [.signal .sigterm, .main .fail] ++ List.replicate 2 (.main .ok) ++
    before ++ List.replicate 3 (.main .ok) ++ after

/-- A firing that adds its timestamp and is over when the timer is deleted. -/
def wholeFiring : List Action :=
  [.fire, .timer 0 .ok, .timer 0 .ok, .timer 0 (.bytes [116, 120]), .timer 0 (.count 2),
    .timer 0 .ok, .timer 0 .ok]

/-- It is harmless, until the mutex has been destroyed. -/
theorem shutdownRun_lawful :
    ∃ s, (shutdownRun wholeFiring [.main .ok]).foldlM (Process.step .file) (.init [] 0) = some s ∧
      s.removed = true ∧ s.mutex = .destroyed ∧ s.timers.map TimerThread.pc = [.done] ∧
      s.Lawful := by
  have hrun : ((shutdownRun wholeFiring [.main .ok]).foldlM
      (Run.restrict (Process.step .file) Process.waited) (.init [] 0)).map
      (fun s ↦ (s.removed, s.mutex, s.timers.map TimerThread.pc)) =
      some (true, .destroyed, [.done]) := by decide +kernel
  obtain ⟨s, hres, hfacts⟩ := Option.map_eq_some_iff.mp hrun
  simp only [Prod.mk.injEq] at hfacts
  obtain ⟨hremoved, hmutex, htimers⟩ := hfacts
  have hs := (Run.foldlM_restrict_eq_some.mp hres).1
  exact ⟨s, hs, hremoved, hmutex, htimers, (timers_lawful_iff .file [] 0 _ s hs).mpr hres _ s
    (List.prefix_refl _) hs s ⟨[], by simp, rfl⟩⟩

/-- A firing that has just begun opens the file after it has been removed, and is about to lock the
mutex after it has been destroyed. -/
theorem shutdownRun_unlawful :
    (∃ s, (shutdownRun [.fire] []).foldlM (Process.step .file) (.init [] 0) = some s ∧ ¬s.Lawful) ∧
    ∃ s, (shutdownRun [.fire] [.timer 0 .ok, .main .ok]).foldlM (Process.step .file)
      (.init [] 0) = some s ∧ s.mutex = .destroyed ∧ ¬s.Lawful := by
  have hopen : ((shutdownRun [.fire] []).foldlM (Process.step .file) (.init [] 0)).map
      (fun s ↦ (s.removed, s.timers)) = some (true, [⟨.fopen, []⟩]) := by decide +kernel
  have hlock : ((shutdownRun [.fire] [.timer 0 .ok, .main .ok]).foldlM (Process.step .file)
      (.init [] 0)).map (fun s ↦ (s.mutex, s.timers)) = some (.destroyed, [⟨.lock, []⟩]) := by
    decide +kernel
  constructor
  · obtain ⟨s, hs, hfacts⟩ := Option.map_eq_some_iff.mp hopen
    obtain ⟨hremoved, htimers⟩ := Prod.mk.inj hfacts
    refine ⟨s, hs, ?_⟩
    intro hl
    have hno := (hl 0 ⟨.fopen, []⟩ (by rw [htimers]; rfl)).2 rfl
    exact absurd (hno.symm.trans hremoved) (by simp)
  · obtain ⟨s, hs, hfacts⟩ := Option.map_eq_some_iff.mp hlock
    obtain ⟨hmutex, htimers⟩ := Prod.mk.inj hfacts
    refine ⟨s, hs, hmutex, ?_⟩
    intro hl
    exact (hl 0 ⟨.lock, []⟩ (by rw [htimers]; rfl)).1 (.inl rfl) hmutex

end Aesd
