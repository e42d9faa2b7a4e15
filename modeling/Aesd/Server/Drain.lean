import Aesd.Server.Reaper

/-!
# Coming to an end

After the loop `main` waits for its client threads.  `remove_all_remaining_threads` does so by going
through the list again and again until it is empty, and a thread that has been passed over because
it had not finished yet is found in the next sweep.  This file says that there is an end to it.

`main` is never stuck: it can always make a step, unless it is in `pthread_join`, and then the
thread it waits for has nothing left to do but to end (`Process.Sound.goes_on`).  And once all the
threads have ended, `Process.cost` is a number that every step of `main` makes smaller and that
nobody else changes: a sweep in progress may have passed over some threads, and the next one takes
out all of them.
-/

set_option autoImplicit false

namespace Aesd

open SList (Seg)

/-! ## Never stuck -/

namespace Process

variable {build : Build} {s s' : Process} {i : ℕ}

/-- A thread that `main` waits for has finished. -/
def Awaits (s : Process) : Prop :=
  ∀ caller, s.pc = .sweep caller .join →
    ∃ args, s.mem.block s.sweep.next = some args ∧ args.finished = true

theorem awaits_of_ne (h : ∀ caller, s.pc ≠ .sweep caller .join) : s.Awaits :=
  fun caller hpc ↦ absurd hpc (h caller)

/-- A client thread only ever sets `finished`. -/
theorem Awaits.client (h : s.Awaits) {o : Outcome} (hs : s.clientStep build i o = some s') :
    s'.Awaits := by
  obtain ⟨t, sock, -, -, ⟨-, rfl⟩ | ⟨args, hblock, ⟨-, rfl⟩ | ⟨-, rfl⟩ | ⟨-, -, rfl⟩⟩⟩ :=
    clientStep_cases hs
  · exact awaits_of_ne (by simp [goto])
  · exact h
  · intro caller hpc
    obtain ⟨args', hnext, hfin⟩ := h caller hpc
    rw [Heap.block_put]
    split
    · rw [hblock]
      exact ⟨_, rfl, rfl⟩
    · exact ⟨args', hnext, hfin⟩
  · exact h

/-- `main` waits for a thread after it has seen `finished`. -/
theorem Awaits.sweep {caller : Caller} {pc : SweepPc} {o : MainOutcome}
    (hpc : s.pc = .sweep caller pc) (hs : s.sweepStep caller pc o = some s') : s'.Awaits := by
  obtain rfl := ok_of_sweepStep hs
  cases pc <;> simp only [sweepStep] at hs
  case test =>
    split at hs
    · obtain rfl := Option.some.inj hs
      exact awaits_of_ne (by cases caller <;> simp [goto, returnPc])
    · rcases deref_cases hs with rfl | ⟨args, -, hs⟩
      · exact awaits_of_ne (by simp [goto])
      · obtain rfl := Option.some.inj hs
        exact awaits_of_ne (by simp)
  case finished =>
    rcases deref_cases hs with rfl | ⟨args, hblock, hs⟩
    · exact awaits_of_ne (by simp [goto])
    · obtain rfl := Option.some.inj hs
      split
      · rename_i hfin
        exact fun _ _ ↦ ⟨args, hblock, hfin⟩
      · exact awaits_of_ne (by simp)
  case join =>
    rcases deref_cases hs with rfl | ⟨args, -, hs⟩
    · exact awaits_of_ne (by simp [goto])
    · rw [join] at hs
      split at hs
      · obtain rfl := Option.some.inj hs
        exact awaits_of_ne (by simp [goto])
      · split at hs
        · obtain rfl := Option.some.inj hs
          exact awaits_of_ne (by simp [goto])
        · obtain ⟨-, rfl⟩ := Option.ite_some_none_eq_some.mp hs
          exact awaits_of_ne (by simp)
  case remove =>
    split at hs
    · rcases deref_cases hs with rfl | ⟨args, -, hs⟩
      · exact awaits_of_ne (by simp [goto])
      · obtain rfl := Option.some.inj hs
        exact awaits_of_ne (by simp)
    · obtain rfl := Option.some.inj hs
      exact awaits_of_ne (by simp)
  case scan =>
    rcases deref_cases hs with rfl | ⟨args, -, hs⟩
    · exact awaits_of_ne (by simp [goto])
    · split at hs
      · rcases deref_cases hs with rfl | ⟨args', -, hs⟩
        · exact awaits_of_ne (by simp [goto])
        · obtain rfl := Option.some.inj hs
          exact awaits_of_ne (by simp)
      · obtain rfl := Option.some.inj hs
        exact awaits_of_ne (by simp [hpc])
  case free =>
    obtain rfl := Option.some.inj hs
    exact awaits_of_ne (by simp)

/-- Where `main` can be after a step of the loop. -/
theorem pc_of_loopStep {pc : LoopPc} {o : MainOutcome} (hs : s.loopStep pc o = some s') :
    ∀ caller, s'.pc ≠ .sweep caller .join := by
  cases pc <;> cases o <;> simp only [loopStep, reduceCtorEq, Option.some.injEq] at hs
  case test.ok | acceptFailed.ok =>
    split at hs <;> subst hs <;> simp [goto, leaveLoop]
  case accept.fd n =>
    obtain ⟨-, rfl⟩ := Option.ite_some_none_eq_some.mp hs
    simp
  case pthreadCreate.thread | insert.ok =>
    rcases deref_cases hs with rfl | ⟨args, -, hs⟩
    · simp [goto]
    · obtain rfl := Option.some.inj hs
      simp [beginSweep]
  all_goals
    subst hs
    simp [goto]

/-- The cleanup leaves the threads alone, and goes on or begins a sweep. -/
theorem cleanupStep_cases {pc : CleanupPc} {o : MainOutcome}
    (hs : s.cleanupStep build pc o = some s') :
    s'.threads = s.threads ∧ ((∃ pc', s'.pc = .cleanup pc') ∨ s'.pc = .sweep .drain .test) := by
  cases pc <;> cases o <;> simp only [cleanupStep, reduceCtorEq, Option.some.injEq] at hs
  case drain.ok =>
    split at hs <;> subst hs
    · exact ⟨rfl, .inl ⟨_, rfl⟩⟩
    · exact ⟨rfl, .inr rfl⟩
  all_goals
    subst hs
    exact ⟨rfl, .inl ⟨_, rfl⟩⟩

theorem Awaits.step (h : s.Awaits) {a : Action} (hs : s.step build a = some s') : s'.Awaits := by
  cases a with
  | main o =>
    rw [Process.step, mainStep] at hs
    split at hs
    · obtain ⟨_, _, _, _, _, _, _, _, hfrom, rfl, -⟩ := setupStep_cases hs
      exact awaits_of_ne (by cases hfrom <;> simp)
    · exact awaits_of_ne (pc_of_loopStep hs)
    · rename_i hpc
      exact .sweep hpc hs
    · refine awaits_of_ne fun caller hpc ↦ ?_
      rcases (cleanupStep_cases hs).2 with ⟨pc', hpc'⟩ | hpc' <;>
        exact absurd (hpc'.symm.trans hpc) (by simp)
    · exact absurd hs (by simp)
    · exact absurd hs (by simp)
  | signal sig =>
    obtain ⟨-, rfl⟩ := Option.ite_some_none_eq_some.mp hs
    cases sig <;> exact h
  | client i o => exact h.client hs
  | clientEnd i =>
    obtain ⟨_, -, -, rfl⟩ := clientEnd_eq_some.mp hs
    exact h
  | fire =>
    obtain ⟨-, rfl⟩ := Option.ite_some_none_eq_some.mp hs
    exact h
  | timer j o =>
    obtain ⟨_, _, -, -, rfl⟩ := timerStep_eq_some.mp hs
    exact h

/-- What `deref` leads to. -/
theorem deref_isSome {p : ℕ} {k : ThreadArgs → Option Process}
    (h : ∀ args, s.mem.block p = some args → (k args).isSome = true) :
    (s.deref p k).isSome = true := by
  rw [deref]
  split
  · rfl
  · rename_i args hblock
    exact h args hblock

/-- Outside `pthread_join` a sweep goes on. -/
theorem sweepStep_isSome {caller : Caller} {pc : SweepPc} (hpc : pc ≠ .join) :
    (s.sweepStep caller pc .ok).isSome = true := by
  cases pc <;> simp only [sweepStep]
  case join => exact absurd rfl hpc
  case test =>
    split
    · rfl
    · exact deref_isSome fun _ _ ↦ rfl
  case finished => exact deref_isSome fun _ _ ↦ rfl
  case remove =>
    split
    · exact deref_isSome fun _ _ ↦ rfl
    · rfl
  case scan =>
    refine deref_isSome fun _ _ ↦ ?_
    split
    · exact deref_isSome fun _ _ ↦ rfl
    · rfl
  case free => rfl

/-- In `pthread_join` the thread is the one whose block comes next. -/
theorem Sound.awaited (h : s.Sound) {caller : Caller} (hpc : s.pc = .sweep caller .join) :
    ∃ i t args, s.threads[i]? = some t ∧ t.args = s.sweep.next ∧ t.joined = false ∧
      s.mem.block s.sweep.next = some args ∧ Describes i t args := by
  obtain ⟨seen, rest, -, -, hlist, -⟩ := h.sweepAt hpc
  refine h.blocks.exists_of_mem_unjoined ?_
  change _ ∈ unjoined s.slots
  rw [hlist.unjoined]
  exact List.mem_append_right _ List.mem_cons_self

/-- **`main` goes on**, at once or when the thread that it waits for has ended, which it can. -/
theorem Sound.goes_on (h : s.Sound) (hawaits : s.Awaits) (build : Build) (hexited : s.pc ≠ .exited)
    (hdone : s.pc ≠ .cleanup .done) :
    (∃ o s', s.step build (.main o) = some s') ∨
      ∃ i t s₁ s₂, s.threads[i]? = some t ∧ t.ended = false ∧
        s.step build (.clientEnd i) = some s₁ ∧ s₁.step build (.main .ok) = some s₂ := by
  have hok : (s.mainStep build .ok).isSome = true → ∃ o s', s.step build (.main o) = some s' :=
    fun hsome ↦ ⟨.ok, Option.isSome_iff_exists.mp hsome⟩
  cases hpc : s.pc with
  | setup pc =>
    refine .inl (hok ?_)
    rw [mainStep, hpc]
    cases pc <;> simp only [setupStep, Option.isSome_some]
    split <;> rfl
  | loop pc =>
    left
    have hfail : pc = .accept ∨ pc = .pthreadCreate →
        ∃ o s', s.step build (.main o) = some s' := by
      refine fun hf ↦ ⟨.fail, Option.isSome_iff_exists.mp ?_⟩
      rw [Process.step, mainStep, hpc]
      rcases hf with rfl | rfl <;> rfl
    cases pc
    case accept => exact hfail (.inl rfl)
    case pthreadCreate => exact hfail (.inr rfl)
    all_goals
      refine hok ?_
      rw [mainStep, hpc]
    case insert => exact deref_isSome fun _ _ ↦ rfl
    all_goals rfl
  | sweep caller pc =>
    by_cases hjoin : pc = .join
    swap
    · refine .inl (hok ?_)
      rw [mainStep, hpc]
      exact sweepStep_isSome hjoin
    subst hjoin
    obtain ⟨i, t, args, hi, -, hjoined, hblock, rfl, -, hfin⟩ := h.awaited hpc
    obtain ⟨args', hblock', hfin'⟩ := hawaits caller hpc
    obtain rfl : args = args' := Option.some.inj (hblock.symm.trans hblock')
    have hret : t.sock.pc = .done :=
      (h.blocks.staged t (List.mem_of_getElem? hi)).finished.mp (hfin.symm.trans hfin')
    -- with the thread ended, the join succeeds
    have hjoin : ∀ r : Process, r.pc = s.pc → r.mem = s.mem → r.sweep = s.sweep →
        (∃ u, r.threads[args.threadId]? = some u ∧ u.joined = false ∧ u.ended = true) →
        (r.mainStep build .ok).isSome = true := by
      rintro r hrpc hrmem hrsweep ⟨u, hu, hujoined, huended⟩
      rw [mainStep, hrpc, hpc]
      refine deref_isSome fun args' hargs' ↦ ?_
      rw [hrmem, hrsweep, hblock] at hargs'
      obtain rfl := Option.some.inj hargs'
      rw [join, hu]
      dsimp only
      rw [if_neg (by simp [hujoined]), if_pos huended]
      rfl
    cases hended : t.ended with
    | true => exact .inl (hok (hjoin s rfl rfl rfl ⟨t, hi, hjoined, hended⟩))
    | false =>
      have hlt := (List.getElem?_eq_some_iff.mp hi).1
      have hend : s.step build (.clientEnd args.threadId) = some
          { s with threads := s.threads.set args.threadId { t with ended := true } } :=
        clientEnd_eq_some.mpr ⟨t, hi, hret, rfl⟩
      obtain ⟨s₂, hs₂⟩ := Option.isSome_iff_exists.mp
        (hjoin { s with threads := s.threads.set args.threadId { t with ended := true } } rfl rfl
          rfl ⟨{ t with ended := true }, by rw [List.getElem?_set_self hlt], hjoined, rfl⟩)
      exact .inr ⟨args.threadId, t, _, s₂, hi, hended, hend, hs₂⟩
  | cleanup pc =>
    refine .inl (hok ?_)
    rw [mainStep, hpc]
    cases pc <;> first | rfl | exact absurd hpc hdone
  | exited => exact absurd hpc hexited
  | undefined => exact (h.listAt hpc).elim

/-! ## How long it takes -/

end Process

/-- There is one thread less to join. -/
theorem length_unjoined_set {slots : List (ℕ × Bool)} {i p : ℕ} (hi : slots[i]? = some (p, false))
    (h : (slots.map Prod.fst).Nodup) :
    (unjoined (slots.set i (p, true))).length + 1 = (unjoined slots).length := by
  have hmem : p ∈ unjoined slots := mem_unjoined.mpr (List.mem_of_getElem? hi)
  have herase : (unjoined slots).filter (· ≠ p) = (unjoined slots).erase p := by
    rw [(nodup_unjoined h).erase_eq_filter]
    refine List.filter_congr fun q _ ↦ ?_
    by_cases hq : q = p <;> simp [hq]
  have hpos := List.length_pos_of_mem hmem
  rw [unjoined_set hi h, herase, List.length_erase_of_mem hmem]
  omega

/-- Past the accept loop. -/
def MainPc.PastLoop : MainPc → Prop
  | .cleanup _ | .sweep .drain _ => True
  | _ => False

/-- What the sweep has ahead of it, with the block it is at. -/
def Sweep.ahead (w : Sweep) : List ℕ :=
  if w.next = 0 then [] else w.before.dropWhile (· ≠ w.next)

/-- Without what comes before `p`, the list begins with `p`. -/
theorem dropWhile_ne {xs ys : List ℕ} {p : ℕ} (h : (xs ++ p :: ys).Nodup) :
    (xs ++ p :: ys).dropWhile (· ≠ p) = p :: ys := by
  have hxs : ∀ q ∈ xs, q ≠ p := by
    rintro q hq rfl
    rw [List.nodup_append] at h
    exact h.2.2 _ hq _ List.mem_cons_self rfl
  rw [List.dropWhile_append_of_pos (by simpa using hxs)]
  simp

theorem Sweep.ahead_eq_cons {w : Sweep} {seen rest : List ℕ} (h : w.before = seen ++ w.next :: rest)
    (hnodup : w.before.Nodup) (h0 : w.next ≠ 0) : w.ahead = w.next :: rest := by
  rw [ahead, if_neg h0, h, dropWhile_ne (h ▸ hnodup)]

/-- At the test of the traversal. -/
theorem Sweep.ahead_of_seg {w : Sweep} {link : ℕ → Option ℕ} {seen rest : List ℕ}
    (h : w.Split seen [] rest) (hseg : Seg 0 link w.next rest 0) : w.ahead = rest := by
  by_cases h0 : w.next = 0
  · rw [h0] at hseg
    rw [hseg.eq_nil, ahead, if_pos h0]
  · obtain ⟨ys, -, rfl, -, -⟩ := hseg.exists_cons h0
    exact ahead_eq_cons h.before h.nodup h0

/-- At a block. -/
theorem Sweep.Split.ahead {w : Sweep} {seen rest : List ℕ} (h : w.Split seen [w.next] rest)
    (h0 : w.next ≠ 0) : w.ahead = w.next :: rest :=
  ahead_eq_cons h.before h.nodup h0

/-- What is left to do at the test of `remove_all_remaining_threads`, with `u` threads to join: a
sweep goes through all of them, at five steps each, and what follows is four steps at most. -/
def drainCost (u : ℕ) : ℕ := u * (u + 7) + 4

/-- What is left to do in a sweep: `u` threads have not been joined, `a` blocks are ahead, and the
scan has `m` of the list before it.  The rest of the sweep takes out all that is ahead, and leaves
what it has passed over to the next one. -/
def SweepPc.cost (u a m : ℕ) : SweepPc → ℕ
  | .test => a * (u + 5) + 1 + drainCost (u - a)
  | .finished => (a - 1) * (u + 5) + u + 5 + drainCost (u - a)
  | .join => (a - 1) * (u + 5) + u + 4 + drainCost (u - a)
  | .remove => (a - 1) * (u + 5) + u + 3 + drainCost (u - (a - 1))
  | .scan => (a - 1) * (u + 5) + m + 2 + drainCost (u - (a - 1))
  | .free => (a - 1) * (u + 5) + 2 + drainCost (u - (a - 1))

/-- The rest of the sweep has one thread less to scan. -/
theorem SweepPc.cost_remove_lt (u r m m' : ℕ) :
    SweepPc.remove.cost u (r + 1) m < SweepPc.join.cost (u + 1) (r + 1) m' := by
  have hle : r * (u + 5) ≤ r * (u + 1 + 5) := Nat.mul_le_mul_left r (by omega)
  rw [cost, cost, Nat.add_sub_cancel, Nat.add_sub_add_right]
  omega

/-- A sweep that begins with all of them costs less than there is for it. -/
theorem SweepPc.cost_test_lt (u : ℕ) : SweepPc.test.cost (u + 1) (u + 1) 0 < drainCost (u + 1) := by
  have hmul : (u + 1) * (u + 1 + 7) = (u + 1) * (u + 1 + 5) + (u + 1) * 2 :=
    Nat.mul_add (u + 1) (u + 1 + 5) 2
  rw [cost, drainCost, drainCost, Nat.sub_self]
  omega

/-- What is left to do outside of the sweeps. -/
def CleanupPc.cost (u : ℕ) : CleanupPc → ℕ
  | .test => drainCost u + 3
  | .closeClient => drainCost u + 2
  | .timerDelete => drainCost u + 1
  | .drain => drainCost u
  | .removeFile => 3
  | .mutexDestroy => 2
  | .closeServer => 1
  | .done => 0

theorem mul_add_drainCost_le {u x y : ℕ} (hxy : x ≤ y) (n : ℕ) (hx : x ≤ n) (hu : u ≤ n) :
    x * (u + 5) + drainCost (u - y) ≤ n * (u + 7) + 4 := by
  have h₁ : x * (u + 5) ≤ x * (u + 7) := Nat.mul_le_mul_left x (by omega)
  have h₂ : (u - y) * (u - y + 7) ≤ (u - y) * (u + 7) := Nat.mul_le_mul_left _ (by omega)
  have h₃ : x * (u + 7) + (u - y) * (u + 7) ≤ n * (u + 7) := by
    rw [← Nat.add_mul]
    exact Nat.mul_le_mul_right _ (by omega)
  rw [drainCost]
  omega

theorem SweepPc.cost_le {u a m : ℕ} (ha : a ≤ u + 1) (hm : m ≤ u) (pc : SweepPc) :
    pc.cost u a m ≤ u * (u + 8) + 12 := by
  have hmul : u * (u + 8) = u * (u + 7) + u := Nat.mul_succ u (u + 7)
  have h₁ := mul_add_drainCost_le (u := u) (le_refl (a - 1)) u (by omega) le_rfl
  have h₂ := mul_add_drainCost_le (u := u) (Nat.sub_le a 1) u (by omega) le_rfl
  cases pc with
  | test =>
    have h := mul_add_drainCost_le (u := u) (le_refl a) (u + 1) ha (by omega)
    rw [Nat.succ_mul] at h
    rw [cost]
    omega
  | finished | join | remove | scan | free =>
    rw [cost]
    omega

theorem CleanupPc.cost_le (u : ℕ) (pc : CleanupPc) : pc.cost u ≤ u * (u + 8) + 12 := by
  have hmul : u * (u + 8) = u * (u + 7) + u := Nat.mul_succ u (u + 7)
  cases pc <;> rw [cost] <;> try rw [drainCost]
  all_goals omega

/-- `main` makes a step. -/
def Action.ofMain : Action → Bool
  | .main _ => true
  | _ => false

namespace Process

variable {build : Build} {s s' : Process} {caller : Caller}

/-- The steps `main` has still to make, at most. -/
def cost (s : Process) : ℕ :=
  let u := (unjoined s.slots).length
  match s.pc with
  | .sweep _ pc =>
    pc.cost u s.sweep.ahead.length ((unjoined s.slots).dropWhile (· ≠ s.sweep.curelm)).length
  | .cleanup pc => pc.cost u
  | _ => 0

/-- `main` is past the loop, and all threads have ended. -/
structure Draining (s : Process) : Prop where
  /-- Blocks and list are as they should be. -/
  sound : s.Sound
  /-- The loop is over. -/
  late : s.pc.PastLoop
  /-- The threads have ended. -/
  ended : ∀ t ∈ s.threads, t.ended = true

theorem cost_of_sweep {pc : SweepPc} (hpc : s.pc = .sweep caller pc) {u a m : ℕ}
    (hu : (unjoined s.slots).length = u) (ha : s.sweep.ahead.length = a)
    (hm : ((unjoined s.slots).dropWhile (· ≠ s.sweep.curelm)).length = m) :
    s.cost = pc.cost u a m := by
  rw [cost, hpc, ← hu, ← ha, ← hm]

theorem cost_of_cleanup {pc : CleanupPc} (hpc : s.pc = .cleanup pc) {u : ℕ}
    (hu : (unjoined s.slots).length = u) : s.cost = pc.cost u := by
  rw [cost, hpc, ← hu]

/-- The sweep ends, or goes on to a block. -/
theorem Sound.cost_test (h : s.Sound) (hpc : s.pc = .sweep caller .test)
    (hs : s.sweepStep caller .test .ok = some s') : s'.cost < s.cost := by
  obtain ⟨seen, rest, hsplit, -, hseg⟩ := h.sweepAt hpc
  have hahead := Sweep.ahead_of_seg hsplit hseg
  rw [cost_of_sweep hpc rfl (congrArg _ hahead) rfl, SweepPc.cost]
  rw [sweepStep] at hs
  split at hs
  · rename_i h0
    rw [h0] at hseg
    obtain rfl := Option.some.inj hs
    rw [hseg.eq_nil]
    cases caller with
    | loop => exact Nat.lt_add_right _ (Nat.succ_pos _)
    | drain =>
      change drainCost (unjoined s.slots).length < _
      simp
  · rename_i h0
    obtain ⟨ys, r, rfl, hr, -⟩ := hseg.exists_cons h0
    obtain ⟨args, hblock, -⟩ := exists_of_links hr
    rw [deref_of_block hblock] at hs
    obtain rfl := Option.some.inj hs
    change SweepPc.finished.cost (unjoined s.slots).length s.sweep.ahead.length 0 < _
    rw [hahead, SweepPc.cost, List.length_cons, Nat.add_sub_cancel, Nat.succ_mul]
    omega

/-- All threads have ended, so the block has `finished` set. -/
theorem Sound.cost_finished (h : s.Sound) (hended : ∀ t ∈ s.threads, t.ended = true)
    (hpc : s.pc = .sweep caller .finished) (hs : s.sweepStep caller .finished .ok = some s') :
    s'.cost < s.cost := by
  obtain ⟨seen, rest, -, hlist, -⟩ := h.sweepAt hpc
  have hmem : s.sweep.next ∈ unjoined s.slots := by
    rw [hlist.unjoined]
    exact List.mem_append_right _ List.mem_cons_self
  obtain ⟨i, t, args, hi, -, -, hblock, hd⟩ := h.blocks.exists_of_mem_unjoined hmem
  have ht := List.mem_of_getElem? hi
  have hst := h.blocks.staged t ht
  have hfin : args.finished = true :=
    hd.finished.trans (hst.finished.mpr (hst.ended (hended t ht)))
  rw [sweepStep, deref_of_block hblock, if_pos hfin] at hs
  obtain rfl := Option.some.inj hs
  change SweepPc.join.cost (unjoined s.slots).length s.sweep.ahead.length 0 < _
  rw [cost_of_sweep hpc rfl rfl rfl, SweepPc.cost, SweepPc.cost]
  omega

/-- The thread is joined. -/
theorem Sound.cost_join (h : s.Sound) (hpc : s.pc = .sweep caller .join)
    (hs : s.sweepStep caller .join .ok = some s') : s'.cost < s.cost := by
  obtain ⟨seen, rest, hsplit, -⟩ := h.sweepAt hpc
  obtain ⟨i, t, args, hi, hargs, hjoined, hblock, hd⟩ := h.awaited hpc
  have hahead := hsplit.ahead (Heap.ne_null hblock)
  have hslot : s.slots[i]? = some (s.sweep.next, false) := by
    rw [slots, List.getElem?_map, hi, Option.map_some, Thread.slot, hargs, hjoined]
  have hu := length_unjoined_set hslot h.blocks.nodup_slots
  rw [sweepStep, deref_of_block hblock, hd.threadId, join, hi] at hs
  dsimp only at hs
  rw [if_neg (by simp [hjoined])] at hs
  obtain ⟨-, rfl⟩ := Option.ite_some_none_eq_some.mp hs
  change SweepPc.remove.cost
    (unjoined ((s.threads.set i { t with joined := true }).map Thread.slot)).length
    s.sweep.ahead.length 0 < _
  rw [List.map_set, Thread.slot, hargs, cost_of_sweep hpc hu.symm (congrArg _ hahead) rfl, hahead,
    List.length_cons]
  exact SweepPc.cost_remove_lt ..

/-- The block comes first, or the scan begins. -/
theorem Sound.cost_remove (h : s.Sound) (hpc : s.pc = .sweep caller .remove)
    (hs : s.sweepStep caller .remove .ok = some s') : s'.cost < s.cost := by
  obtain ⟨seen, rest, -, -, hlist, -⟩ := h.sweepAt hpc
  rw [cost_of_sweep hpc rfl rfl rfl, SweepPc.cost]
  rw [sweepStep] at hs
  split at hs
  · rename_i hhead
    obtain ⟨args, hblock⟩ := hlist.block (p := s.sweep.next) (by simp)
    rw [hhead, deref_of_block hblock] at hs
    obtain rfl := Option.some.inj hs
    change SweepPc.free.cost (unjoined s.slots).length s.sweep.ahead.length 0 < _
    rw [SweepPc.cost]
    omega
  · obtain rfl := Option.some.inj hs
    have hle := List.length_dropWhile_le (· ≠ s.listHead) (unjoined s.slots)
    change SweepPc.scan.cost (unjoined s.slots).length s.sweep.ahead.length
      ((unjoined s.slots).dropWhile (· ≠ s.listHead)).length < _
    rw [SweepPc.cost]
    omega

/-- The scan goes on, or the block comes next. -/
theorem Sound.cost_scan (h : s.Sound) (hpc : s.pc = .sweep caller .scan)
    (hs : s.sweepStep caller .scan .ok = some s') : s'.cost < s.cost := by
  obtain ⟨seen, rest, hsplit, -, hlist, -, hcur⟩ := h.sweepAt hpc
  obtain ⟨as, bs, hk⟩ := List.append_of_mem hcur
  have hseg : Seg 0 (links s.mem) s.listHead
      (as ++ s.sweep.curelm :: (bs ++ s.sweep.next :: rest)) 0 := by
    have hseg := hlist.seg
    rw [hk, List.append_assoc, List.cons_append] at hseg
    exact hseg
  have hunjoined : unjoined s.slots = as ++ s.sweep.curelm :: (bs ++ rest) := by
    rw [hlist.unjoined, hk, List.append_assoc, List.cons_append]
  have hnodup : (as ++ s.sweep.curelm :: (bs ++ rest)).Nodup :=
    hunjoined ▸ nodup_unjoined h.blocks.nodup_slots
  obtain ⟨r, hr, hrseg⟩ := hseg.link_mid
  obtain ⟨cur, hblock, rfl⟩ := exists_of_links hr
  rw [cost_of_sweep hpc rfl rfl rfl, hunjoined, dropWhile_ne hnodup, SweepPc.cost]
  rw [sweepStep, deref_of_block hblock] at hs
  cases bs with
  | nil =>
    obtain ⟨hnext, -, q, hq, -⟩ := hrseg
    obtain ⟨elm, helm, rfl⟩ := exists_of_links hq
    rw [if_pos hnext, hnext, deref_of_block helm] at hs
    obtain rfl := Option.some.inj hs
    change SweepPc.free.cost (unjoined s.slots).length s.sweep.ahead.length 0 < _
    rw [hunjoined, SweepPc.cost, List.length_cons]
    omega
  | cons b bs =>
    have hnext : cur.next = b := hrseg.1
    have hb : b ∈ s.sweep.kept seen := by
      rw [hk]
      simp
    have hne : b ≠ s.sweep.next := by
      rintro rfl
      exact hsplit.notMem_seen (by simp) (Sweep.mem_kept.mp hb).1
    rw [hnext, if_neg hne] at hs
    obtain rfl := Option.some.inj hs
    -- the list from `b` on is one shorter
    have hsplit' : as ++ s.sweep.curelm :: (b :: bs ++ rest) =
        (as ++ [s.sweep.curelm]) ++ b :: (bs ++ rest) := by simp
    rw [hsplit'] at hnodup hunjoined
    rw [cost_of_sweep (s := { s with sweep := { s.sweep with curelm := b } })
      (a := s.sweep.ahead.length) hpc (congrArg _ hunjoined) rfl
      (congrArg _ ((congrArg _ hunjoined).trans (dropWhile_ne hnodup))), SweepPc.cost, hsplit']
    simp only [List.length_cons, List.cons_append]
    omega

/-- The block is freed, and the sweep goes on. -/
theorem Sound.cost_free (h : s.Sound) (hpc : s.pc = .sweep caller .free)
    (hs : s.sweepStep caller .free .ok = some s') : s'.cost < s.cost := by
  obtain ⟨seen, rest, hsplit, -, -, hseg, hlive⟩ := h.sweepAt hpc
  obtain ⟨r, hr⟩ := Option.ne_none_iff_exists'.mp hlive
  obtain ⟨args, hblock, -⟩ := exists_of_links hr
  have hahead := hsplit.ahead (Heap.ne_null hblock)
  rw [sweepStep, Option.some_inj] at hs
  subst hs
  have hahead' : { s.sweep with next := s.sweep.nextTemp }.ahead = rest :=
    Sweep.ahead_of_seg (hsplit.advance rfl rfl rfl) hseg
  change SweepPc.test.cost (unjoined s.slots).length
    { s.sweep with next := s.sweep.nextTemp }.ahead.length 0 < _
  rw [hahead', cost_of_sweep hpc rfl (congrArg _ hahead) rfl, SweepPc.cost, SweepPc.cost,
    List.length_cons, Nat.add_sub_cancel]
  omega

/-- **A step of a sweep**, when all threads have ended. -/
theorem Sound.cost_sweep (h : s.Sound) (hended : ∀ t ∈ s.threads, t.ended = true) {pc : SweepPc}
    (hpc : s.pc = .sweep caller pc) (hs : s.sweepStep caller pc .ok = some s') :
    s'.cost < s.cost := by
  cases pc with
  | test => exact h.cost_test hpc hs
  | finished => exact h.cost_finished hended hpc hs
  | join => exact h.cost_join hpc hs
  | remove => exact h.cost_remove hpc hs
  | scan => exact h.cost_scan hpc hs
  | free => exact h.cost_free hpc hs

/-- What is ahead has not been joined, but for the block the sweep is at. -/
theorem Sound.length_ahead_le (h : s.Sound) {pc : SweepPc}
    (hpc : s.pc = .sweep caller pc) : s.sweep.ahead.length ≤ (unjoined s.slots).length + 1 := by
  have hat := h.sweepAt hpc
  cases pc with
  | test =>
    obtain ⟨seen, rest, hsplit, hlist, hseg⟩ := hat
    rw [Sweep.ahead_of_seg hsplit hseg, hlist.unjoined, List.length_append]
    omega
  | finished =>
    obtain ⟨seen, rest, hsplit, hlist, -⟩ := hat
    obtain ⟨args, hblock⟩ := hlist.block (p := s.sweep.next) (by simp)
    rw [Sweep.ahead_eq_cons hsplit.before hsplit.nodup (Heap.ne_null hblock), hlist.unjoined,
      List.length_append]
    omega
  | join =>
    obtain ⟨seen, rest, hsplit, -, hlist, -⟩ := hat
    obtain ⟨args, hblock⟩ := hlist.block (p := s.sweep.next) (by simp)
    rw [hsplit.ahead (Heap.ne_null hblock), hlist.unjoined, List.length_append]
    omega
  | remove | scan =>
    obtain ⟨seen, rest, hsplit, -, hlist, -⟩ := hat
    obtain ⟨args, hblock⟩ := hlist.block (p := s.sweep.next) (by simp)
    rw [hsplit.ahead (Heap.ne_null hblock), hlist.unjoined, List.length_append, List.length_cons]
    omega
  | free =>
    obtain ⟨seen, rest, hsplit, -, hlist, -, hlive⟩ := hat
    obtain ⟨r, hr⟩ := Option.ne_none_iff_exists'.mp hlive
    obtain ⟨args, hblock, -⟩ := exists_of_links hr
    rw [hsplit.ahead (Heap.ne_null hblock), hlist.unjoined, List.length_append, List.length_cons]
    omega

/-- A bound in the number of threads to join. -/
theorem Sound.cost_le (h : s.Sound) :
    s.cost ≤ (unjoined s.slots).length * ((unjoined s.slots).length + 8) + 12 := by
  cases hpc : s.pc with
  | sweep caller pc =>
    rw [cost_of_sweep hpc rfl rfl rfl]
    exact SweepPc.cost_le (h.length_ahead_le hpc) (List.length_dropWhile_le ..) pc
  | cleanup pc =>
    rw [cost_of_cleanup hpc rfl]
    exact pc.cost_le _
  | setup | loop | exited | undefined =>
    rw [cost, hpc]
    exact Nat.zero_le _

/-- After the loop. -/
theorem Sound.cost_cleanup (h : s.Sound) {pc : CleanupPc} (hpc : s.pc = .cleanup pc)
    {o : MainOutcome} (hs : s.cleanupStep build pc o = some s') : s'.cost < s.cost := by
  obtain ⟨hlist, -⟩ := h.listAt hpc
  rw [cost_of_cleanup hpc rfl]
  cases pc <;> cases o <;> simp only [cleanupStep, reduceCtorEq, Option.some.injEq] at hs
  case drain.ok =>
    split at hs
    · rename_i h0
      subst hs
      have hnil : unjoined s.slots = [] := (h0 ▸ hlist.seg).eq_nil
      change CleanupPc.cost (unjoined s.slots).length (afterDrain build) < _
      rw [hnil]
      cases build <;> decide
    · rename_i h0
      subst hs
      obtain ⟨ys, -, hys, -, -⟩ := hlist.seg.exists_cons h0
      have hahead : (s.beginSweep .drain).sweep.ahead = unjoined s.slots := by
        have hsplit : (s.beginSweep .drain).sweep.Split [] [] (unjoined s.slots) :=
          ⟨rfl, nodup_unjoined h.blocks.nodup_slots, by simp [beginSweep]⟩
        exact Sweep.ahead_of_seg hsplit hlist.seg
      change SweepPc.test.cost (unjoined s.slots).length
        (s.beginSweep .drain).sweep.ahead.length 0 < _
      rw [hahead, hys]
      exact SweepPc.cost_test_lt _
  all_goals subst hs
  case test.ok =>
    change CleanupPc.cost (unjoined s.slots).length _ < _
    cases build <;> split <;> simp [afterClient, CleanupPc.cost]
  case closeClient.ok | closeClient.fail =>
    change CleanupPc.cost (unjoined s.slots).length (afterClient build) < _
    cases build <;> simp [afterClient, CleanupPc.cost]
  all_goals
    refine (cost_of_cleanup rfl rfl).trans_lt ?_
    simp [CleanupPc.cost, slots, goto]

/-- **One action**: `main` comes nearer to its end, and nobody takes it back. -/
theorem Draining.step (h : s.Draining) {a : Action} (hs : s.step build a = some s') :
    s'.Draining ∧ s'.cost + (if a.ofMain then 1 else 0) ≤ s.cost := by
  have hsound := h.sound.step hs
  cases a with
  | main o =>
    rw [Process.step, mainStep] at hs
    have hlate : ∀ {pc : MainPc}, s.pc = pc → pc.PastLoop := fun hpc ↦ hpc ▸ h.late
    split at hs
    · rename_i hpc
      exact (hlate hpc).elim
    · rename_i hpc
      exact (hlate hpc).elim
    · rename_i caller pc hpc
      cases caller with
      | loop => exact (hlate hpc).elim
      | drain =>
        obtain rfl := ok_of_sweepStep hs
        constructor
        · obtain ⟨pc', _, _, _, threads, _, hfrom, hjoins, rfl⟩ := sweepStep_cases hs hpc
          refine ⟨hsound, ?_, ?_⟩
          · rcases hfrom with rfl | ⟨pc', rfl⟩ | rfl
            · exact (hsound.listAt rfl).elim
            · trivial
            · trivial
          · rcases hjoins with rfl | ⟨i, t, hi, hended, rfl⟩
            · exact h.ended
            · exact Table.forall_set h.ended hended
        · exact h.sound.cost_sweep h.ended hpc hs
    · rename_i hpc
      obtain ⟨hthreads, hpc'⟩ := cleanupStep_cases hs
      refine ⟨⟨hsound, ?_, hthreads ▸ h.ended⟩, h.sound.cost_cleanup hpc hs⟩
      rcases hpc' with ⟨pc', hpc'⟩ | hpc' <;> rw [hpc'] <;> trivial
    · exact absurd hs (by simp)
    · exact absurd hs (by simp)
  | signal sig =>
    obtain ⟨-, rfl⟩ := Option.ite_some_none_eq_some.mp hs
    cases sig <;> exact ⟨⟨hsound, h.late, h.ended⟩, le_rfl⟩
  | client i o =>
    obtain ⟨t, sock, hi, hstep, -⟩ := clientStep_cases hs
    have hended := h.ended t (List.mem_of_getElem? hi)
    exact absurd (h.sound.block_of_step hi hstep).1 (by simp [hended])
  | clientEnd i =>
    obtain ⟨t, hi, -, rfl⟩ := clientEnd_eq_some.mp hs
    refine ⟨⟨hsound, h.late, Table.forall_set h.ended rfl⟩, le_of_eq ?_⟩
    have hslots : (s.threads.set i { t with ended := true }).map Thread.slot = s.slots :=
      Table.map_set hi rfl
    change cost { s with threads := s.threads.set i { t with ended := true } } = s.cost
    rw [cost, cost, slots, hslots]
  | fire =>
    obtain ⟨-, rfl⟩ := Option.ite_some_none_eq_some.mp hs
    exact ⟨⟨hsound, h.late, h.ended⟩, le_rfl⟩
  | timer j o =>
    obtain ⟨_, _, -, -, rfl⟩ := timerStep_eq_some.mp hs
    exact ⟨⟨hsound, h.late, h.ended⟩, le_rfl⟩

/-- Once the threads have ended `main` waits for nobody. -/
theorem Draining.goes_on (h : s.Draining) (hawaits : s.Awaits) (build : Build)
    (hdone : s.pc ≠ .cleanup .done) : ∃ o s', s.step build (.main o) = some s' := by
  have hexited : s.pc ≠ .exited := by
    intro hpc
    have hlate := h.late
    rw [hpc] at hlate
    exact hlate
  rcases h.sound.goes_on hawaits build hexited hdone with hstep | ⟨i, t, _, _, hi, hended, -⟩
  · exact hstep
  · exact absurd (h.ended t (List.mem_of_getElem? hi)) (by simp [hended])

theorem awaits_of_run {argv : List String} {garbage : ℤ} {as : List Action}
    (hrun : as.foldlM (Process.step build) (init argv garbage) = some s) : s.Awaits :=
  Run.foldlM_invariant (fun _ _ _ h hs ↦ h.step hs) hrun (awaits_of_ne (by simp [init]))

end Process

/-- The run of one client, up to the cleanup. -/
def oneClientLoop : List Action :=
  mainOks 8 ++ connect 5 6 ++ failing 0 ++ [.signal .sigint, .main .fail, .main .ok]

end Aesd
