import Mathlib.Logic.Function.Basic
import Aesd.Lib.Run

/-!
# Objects behind a lock

Callers share a state.  A call is a sequence of small steps, and the steps of different calls may
come in any order; but the shared state is only used under one lock.

`Program` is the code of such calls: where a call starts and, for every place in the code, what it
does next.  Its other fields say that the code keeps to the lock: a call takes it at most once, uses
the shared state only while it has it, and gives it back before it returns.

* `Program.Alone` is what a call does with nobody else there.
* `Program.step` is the machine in which the steps of all calls are interleaved.
* `atomicStep` is what one would like to have instead: the whole call is one step, somewhere between
  the event that begins it and the event that returns its result.

`linearizable` says that one has it.  If every call, alone, does what `exec` says, then every
interleaving looks from outside like a run in which each call is one step that does what `exec`
says: the same calls with the same results in the same order.  `exists_completion` says that the
lock is in nobody's way for ever.
-/

set_option autoImplicit false

namespace Monitor

universe u

variable {σ ι ω κ ρ : Type u}

/-! ## Programs -/

/-- What a call does next; `κ` are the places in the code, with the variables of the call. -/
inductive Next (σ κ ρ : Type u) where
  /-- A step that uses the variables of the call only. -/
  | own (k : κ)
  /-- Take the lock. -/
  | lock (k : κ)
  /-- A step that uses the shared state. -/
  | access (f : σ → σ × κ)
  /-- Give the lock back. -/
  | unlock (k : κ)
  /-- Return. -/
  | ret (r : ρ)

/-- Where a place in the code is, seen from the lock. -/
inductive Phase where
  /-- The lock has not been taken. -/
  | before
  /-- The lock is held. -/
  | inside
  /-- The lock has been given back. -/
  | after
  deriving DecidableEq, Repr

/-- The code of the calls `ω` that callers `ι` can make, with results in `ρ`. -/
structure Program (σ ι ω κ ρ : Type u) where
  /-- Where a call starts. -/
  start : ι → ω → κ
  /-- What it does next. -/
  next : κ → Next σ κ ρ
  /-- Whether it has the lock. -/
  phase : κ → Phase
  /-- A call starts without the lock. -/
  phase_start : ∀ i a, phase (start i a) = .before
  /-- Own steps do not touch the lock. -/
  phase_own : ∀ k k', next k = .own k' → phase k' = phase k
  /-- The lock is taken once. -/
  phase_lock : ∀ k k', next k = .lock k' → phase k = .before ∧ phase k' = .inside
  /-- The shared state is used under the lock. -/
  phase_access : ∀ k f, next k = .access f → phase k = .inside ∧ ∀ s, phase (f s).2 = .inside
  /-- Who gives the lock back has it. -/
  phase_unlock : ∀ k k', next k = .unlock k' → phase k = .inside ∧ phase k' = .after
  /-- Nobody returns with the lock. -/
  phase_ret : ∀ k r, next k = .ret r → phase k ≠ .inside

namespace Program

variable (P : Program σ ι ω κ ρ)

/-- Alone and from place `k` on, a call takes the shared state `s` to `s'` in `n` steps and returns
`r`. -/
inductive Alone : ℕ → σ → κ → σ → ρ → Prop
  /-- It returns. -/
  | ret {s : σ} {k : κ} {r : ρ} (h : P.next k = .ret r) : Alone 0 s k s r
  /-- An own step comes first. -/
  | own {n : ℕ} {s s' : σ} {k k' : κ} {r : ρ} (h : P.next k = .own k') (hrest : Alone n s k' s' r) :
    Alone (n + 1) s k s' r
  /-- It takes the lock. -/
  | lock {n : ℕ} {s s' : σ} {k k' : κ} {r : ρ} (h : P.next k = .lock k')
      (hrest : Alone n s k' s' r) : Alone (n + 1) s k s' r
  /-- It uses the shared state. -/
  | access {n : ℕ} {s s' : σ} {k : κ} {f : σ → σ × κ} {r : ρ} (h : P.next k = .access f)
      (hrest : Alone n (f s).1 (f s).2 s' r) : Alone (n + 1) s k s' r
  /-- It gives the lock back. -/
  | unlock {n : ℕ} {s s' : σ} {k k' : κ} {r : ρ} (h : P.next k = .unlock k')
      (hrest : Alone n s k' s' r) : Alone (n + 1) s k s' r

variable {P} {n : ℕ} {s s' : σ} {k k' : κ} {r : ρ}

/-- A step that uses the shared state, when it is known what it does. -/
theorem Alone.access_eq {f : σ → σ × κ} {u : σ} (h : P.next k = .access f) (hf : f s = (u, k'))
    (hrest : P.Alone n u k' s' r) : P.Alone (n + 1) s k s' r :=
  .access h (by rw [hf]; exact hrest)

theorem Alone.of_own (h : P.Alone n s k s' r) (hk : P.next k = .own k') :
    ∃ m < n, P.Alone m s k' s' r := by
  cases h with
  | own h hrest => rw [h] at hk; cases hk; exact ⟨_, Nat.lt_succ_self _, hrest⟩
  | ret h | lock h | access h | unlock h => rw [h] at hk; cases hk

theorem Alone.of_lock (h : P.Alone n s k s' r) (hk : P.next k = .lock k') :
    ∃ m < n, P.Alone m s k' s' r := by
  cases h with
  | lock h hrest => rw [h] at hk; cases hk; exact ⟨_, Nat.lt_succ_self _, hrest⟩
  | ret h | own h | access h | unlock h => rw [h] at hk; cases hk

theorem Alone.of_access {f : σ → σ × κ} (h : P.Alone n s k s' r) (hk : P.next k = .access f) :
    ∃ m < n, P.Alone m (f s).1 (f s).2 s' r := by
  cases h with
  | access h hrest => rw [h] at hk; cases hk; exact ⟨_, Nat.lt_succ_self _, hrest⟩
  | ret h | own h | lock h | unlock h => rw [h] at hk; cases hk

theorem Alone.of_unlock (h : P.Alone n s k s' r) (hk : P.next k = .unlock k') :
    ∃ m < n, P.Alone m s k' s' r := by
  cases h with
  | unlock h hrest => rw [h] at hk; cases hk; exact ⟨_, Nat.lt_succ_self _, hrest⟩
  | ret h | own h | lock h | access h => rw [h] at hk; cases hk

theorem Alone.of_ret {r' : ρ} (h : P.Alone n s k s' r) (hk : P.next k = .ret r') :
    s' = s ∧ r = r' := by
  cases h with
  | ret h => rw [h] at hk; cases hk; exact ⟨rfl, rfl⟩
  | own h | lock h | access h | unlock h => rw [h] at hk; cases hk

/-- After the lock has been given back, the shared state is neither changed nor looked at. -/
theorem Alone.of_after (h : P.Alone n s k s' r) (hk : P.phase k = .after) :
    s' = s ∧ ∀ t, P.Alone n t k t r := by
  induction h with
  | ret h => exact ⟨rfl, fun t ↦ .ret h⟩
  | own h _ ih =>
    obtain ⟨rfl, hall⟩ := ih ((P.phase_own _ _ h).trans hk)
    exact ⟨rfl, fun t ↦ .own h (hall t)⟩
  | lock h => rw [(P.phase_lock _ _ h).1] at hk; cases hk
  | access h => rw [(P.phase_access _ _ h).1] at hk; cases hk
  | unlock h => rw [(P.phase_unlock _ _ h).1] at hk; cases hk

end Program

/-! ## Interleaved calls -/

/-- The shared state, the lock and the calls in progress. -/
structure State (σ ι κ : Type u) where
  /-- The shared state. -/
  shared : σ
  /-- The caller whose call holds the lock. -/
  owner : Option ι
  /-- Where the call of each caller is, if it has called. -/
  call : ι → Option κ

/-- What can happen.  Only the first and the last can be seen from outside. -/
inductive Event (ι ω ρ : Type u) where
  /-- A call begins. -/
  | call (i : ι) (a : ω)
  /-- A call makes a step. -/
  | step (i : ι)
  /-- A call returns. -/
  | ret (i : ι) (r : ρ)
  deriving DecidableEq

/-- Can the event be seen from outside? -/
def Event.visible : Event ι ω ρ → Bool
  | .call _ _ | .ret _ _ => true
  | .step _ => false

/-- Nobody has called. -/
def State.init (s : σ) : State σ ι κ := ⟨s, none, fun _ ↦ none⟩

/-! ## Atomic calls -/

/-- A caller, seen from outside. -/
inductive Slot (ω ρ : Type u) where
  /-- It has not called. -/
  | idle
  /-- It has called, and nothing has been done yet. -/
  | called (a : ω)
  /-- The call has been done, and has not returned. -/
  | done (r : ρ)
  deriving DecidableEq

/-- The shared state and the callers. -/
structure AtomicState (σ ι ω ρ : Type u) where
  /-- The shared state. -/
  shared : σ
  /-- The callers. -/
  slot : ι → Slot ω ρ

/-- Nobody has called. -/
def AtomicState.init (s : σ) : AtomicState σ ι ω ρ := ⟨s, fun _ ↦ .idle⟩

/-! ## How interleaved calls and atomic ones correspond -/

/-- Each call, alone, does what `exec` says, in at most `bound` steps. -/
def Program.Implements (P : Program σ ι ω κ ρ) (exec : σ → ι → ω → σ × ρ) (bound : ℕ) : Prop :=
  ∀ s i a, ∃ n ≤ bound, P.Alone n s (P.start i a) (exec s i a).1 (exec s i a).2

/-- How a call in progress and an atomic one correspond: it takes effect when the lock is taken.
`shared'` is the state in which the call that has the lock is going to leave the shared one. -/
inductive Program.Stands (P : Program σ ι ω κ ρ) (exec : σ → ι → ω → σ × ρ) (bound : ℕ)
    (shared shared' : σ) (i : ι) : Option κ → Slot ω ρ → Prop
  /-- There is no call. -/
  | idle : Stands P exec bound shared shared' i none .idle
  /-- The lock has not been taken, and what will be done then is what `exec` says. -/
  | before (k : κ) (a : ω) (hk : P.phase k = .before)
      (h : ∀ s, ∃ n ≤ bound, P.Alone n s k (exec s i a).1 (exec s i a).2) :
    Stands P exec bound shared shared' i (some k) (.called a)
  /-- The rest of the call leads to where the atomic one is already. -/
  | inside (k : κ) (r : ρ) (hk : P.phase k = .inside)
      (h : ∃ n ≤ bound, P.Alone n shared k shared' r) :
    Stands P exec bound shared shared' i (some k) (.done r)
  /-- The result is all that is left. -/
  | after (k : κ) (r : ρ) (hk : P.phase k = .after) (h : ∃ n ≤ bound, ∀ s, P.Alone n s k s r) :
    Stands P exec bound shared shared' i (some k) (.done r)

/-- **The simulation relation.** -/
structure Program.Linear (P : Program σ ι ω κ ρ) (exec : σ → ι → ω → σ × ρ) (bound : ℕ)
    (s : State σ ι κ) (t : AtomicState σ ι ω ρ) : Prop where
  /-- The owner of the lock is the call that is inside. -/
  mutex : ∀ i, s.owner = some i ↔ ∃ k, s.call i = some k ∧ P.phase k = .inside
  /-- With the lock free the two shared states are the same. -/
  free : s.owner = none → t.shared = s.shared
  /-- The calls correspond. -/
  stands : ∀ i, P.Stands exec bound s.shared t.shared i (s.call i) (t.slot i)

namespace Program

variable {P : Program σ ι ω κ ρ} {exec : σ → ι → ω → σ × ρ} {bound n : ℕ} {s s' : State σ ι κ}
  {t : AtomicState σ ι ω ρ} {u u' : σ} {i : ι} {k k' : κ} {r : ρ}

theorem Stands.eq_idle {x : Slot ω ρ} (h : P.Stands exec bound u u' i none x) : x = .idle := by
  cases h
  rfl

theorem Stands.of_before {k : κ} {x : Slot ω ρ} (h : P.Stands exec bound u u' i (some k) x)
    (hk : P.phase k = .before) : ∃ a, x = .called a ∧
      ∀ s, ∃ n ≤ bound, P.Alone n s k (exec s i a).1 (exec s i a).2 := by
  cases h with
  | before _ a _ h => exact ⟨a, rfl, h⟩
  | inside _ _ h | after _ _ h => rw [hk] at h; cases h

theorem Stands.of_inside {k : κ} {x : Slot ω ρ} (h : P.Stands exec bound u u' i (some k) x)
    (hk : P.phase k = .inside) : ∃ r, x = .done r ∧ ∃ n ≤ bound, P.Alone n u k u' r := by
  cases h with
  | inside _ r _ h => exact ⟨r, rfl, h⟩
  | before _ _ h | after _ _ h => rw [hk] at h; cases h

theorem Stands.of_after {k : κ} {x : Slot ω ρ} (h : P.Stands exec bound u u' i (some k) x)
    (hk : P.phase k = .after) : ∃ r, x = .done r ∧ ∃ n ≤ bound, ∀ s, P.Alone n s k s r := by
  cases h with
  | after _ r _ h => exact ⟨r, rfl, h⟩
  | before _ _ h | inside _ _ h => rw [hk] at h; cases h

/-- Only a call that is inside depends on the shared states. -/
theorem Stands.of_not_inside {c : Option κ} {x : Slot ω ρ} (h : P.Stands exec bound u u' i c x)
    (hc : ∀ k, c = some k → P.phase k ≠ .inside) (v v' : σ) : P.Stands exec bound v v' i c x := by
  cases h with
  | idle => exact .idle
  | before k a hk h => exact .before k a hk h
  | inside k r hk h => exact absurd hk (hc k rfl)
  | after k r hk h => exact .after k r hk h

theorem linear_init (P : Program σ ι ω κ ρ) (exec : σ → ι → ω → σ × ρ) (bound : ℕ) (u : σ) :
    P.Linear exec bound (.init u) (.init u) :=
  ⟨fun _ ↦ iff_of_false (by simp [State.init]) (by simp [State.init]), fun _ ↦ rfl, fun _ ↦ .idle⟩

/-- **Mutual exclusion.** -/
theorem Linear.eq_of_inside (h : P.Linear exec bound s t) {j : ι} {k k' : κ}
    (hi : s.call i = some k) (hk : P.phase k = .inside) (hj : s.call j = some k')
    (hk' : P.phase k' = .inside) : i = j := by
  have hown := (h.mutex i).mpr ⟨k, hi, hk⟩
  have hown' := (h.mutex j).mpr ⟨k', hj, hk'⟩
  exact Option.some.inj (hown.symm.trans hown')

/-- Who is inside is alone, so the others do not notice what it does. -/
theorem Linear.stands_others (h : P.Linear exec bound s t) {k : κ} (hi : s.call i = some k)
    (hk : P.phase k = .inside) (v v' : σ) :
    ∀ j, j ≠ i → P.Stands exec bound v v' j (s.call j) (t.slot j) := by
  intro j hj
  exact (h.stands j).of_not_inside (fun k' hk' hin ↦ hj (h.eq_of_inside hk' hin hi hk)) v v'

/-- When there is no call, the lock is free. -/
theorem Linear.owner_of_idle (h : P.Linear exec bound s t) (hidle : ∀ i, s.call i = none) :
    s.owner = none := by
  rw [Option.eq_none_iff_forall_ne_some]
  intro i hi
  obtain ⟨k, hk, -⟩ := (h.mutex i).mp hi
  rw [hidle i] at hk
  cases hk

/-- A caller is idle in one machine when it is in the other. -/
theorem Linear.slot_eq_idle_iff (h : P.Linear exec bound s t) (i : ι) :
    t.slot i = .idle ↔ s.call i = none := by
  have hstands := h.stands i
  constructor
  · intro hidle
    rw [hidle] at hstands
    generalize s.call i = c at hstands
    cases hstands
    rfl
  · intro hnone
    rw [hnone] at hstands
    exact hstands.eq_idle

/-- With the lock free, nobody is inside. -/
theorem Linear.stands_free (h : P.Linear exec bound s t) (hfree : s.owner = none) (v v' : σ) :
    ∀ j, P.Stands exec bound v v' j (s.call j) (t.slot j) := by
  intro j
  refine (h.stands j).of_not_inside (fun k hk hin ↦ ?_) v v'
  have hown := (h.mutex j).mpr ⟨k, hk, hin⟩
  rw [hfree] at hown
  cases hown

/-- What is left of a call, alone, takes at most `bound` steps. -/
theorem Linear.exists_alone (h : P.Linear exec bound s t) (hi : s.call i = some k) :
    ∃ n ≤ bound, ∃ u' r, P.Alone n s.shared k u' r := by
  have hstands := h.stands i
  rw [hi] at hstands
  cases hp : P.phase k with
  | before =>
    obtain ⟨a, -, hall⟩ := hstands.of_before hp
    obtain ⟨n, hn, halone⟩ := hall s.shared
    exact ⟨n, hn, _, _, halone⟩
  | inside =>
    obtain ⟨r, -, n, hn, halone⟩ := hstands.of_inside hp
    exact ⟨n, hn, _, r, halone⟩
  | after =>
    obtain ⟨r, -, n, hn, hall⟩ := hstands.of_after hp
    exact ⟨n, hn, _, r, hall s.shared⟩

end Program

variable [DecidableEq ι]

/-- A call goes on from another place. -/
def State.goOn (s : State σ ι κ) (i : ι) (k : κ) : State σ ι κ :=
  { s with call := Function.update s.call i (some k) }

/-- A caller goes on. -/
def AtomicState.goOn (s : AtomicState σ ι ω ρ) (i : ι) (x : Slot ω ρ) : AtomicState σ ι ω ρ :=
  { s with slot := Function.update s.slot i x }

/-! ## One call goes on -/

namespace Program

variable {P : Program σ ι ω κ ρ} {exec : σ → ι → ω → σ × ρ} {bound n : ℕ} {s s' : State σ ι κ}
  {t : AtomicState σ ι ω ρ} {u u' : σ} {i : ι} {k k' : κ} {r : ρ}

/-- One call changes and the others do not depend on what changes. -/
theorem Stands.forall_update {call : ι → Option κ} {slot : ι → Slot ω ρ} {c : Option κ}
    {x : Slot ω ρ} (hi : P.Stands exec bound u u' i c x)
    (hrest : ∀ j, j ≠ i → P.Stands exec bound u u' j (call j) (slot j)) (j : ι) :
    P.Stands exec bound u u' j (Function.update call i c j) (Function.update slot i x j) := by
  by_cases hj : j = i
  · subst hj
    rw [Function.update_self, Function.update_self]
    exact hi
  · rw [Function.update_of_ne hj, Function.update_of_ne hj]
    exact hrest j hj

/-- The lock changes hands as the phases say. -/
theorem Linear.mutex_update (h : P.Linear exec bound s t) {c : Option κ} {owner : Option ι}
    (hi : owner = some i ↔ ∃ k, c = some k ∧ P.phase k = .inside)
    (hrest : ∀ j, j ≠ i → (owner = some j ↔ s.owner = some j)) (j : ι) :
    owner = some j ↔ ∃ k, Function.update s.call i c j = some k ∧ P.phase k = .inside := by
  by_cases hj : j = i
  · subst hj
    rw [Function.update_self]
    exact hi
  · rw [Function.update_of_ne hj, hrest j hj]
    exact h.mutex j

/-- A step that neither takes the lock nor gives it back. -/
theorem Linear.mutex_goOn (h : P.Linear exec bound s t) {k k' : κ} (hi : s.call i = some k)
    (hk : P.phase k' = .inside ↔ P.phase k = .inside) (j : ι) :
    s.owner = some j ↔
      ∃ k, Function.update s.call i (some k') j = some k ∧ P.phase k = .inside := by
  refine h.mutex_update ?_ (fun _ _ ↦ Iff.rfl) j
  rw [h.mutex i, hi]
  simp only [Option.some.injEq, exists_eq_left', hk]

/-- A call begins. -/
theorem Linear.call (h : P.Linear exec bound s t) (himp : P.Implements exec bound)
    (hi : s.call i = none) (a : ω) :
    P.Linear exec bound (s.goOn i (P.start i a)) (t.goOn i (.called a)) := by
  have hphase := P.phase_start i a
  refine ⟨h.mutex_update ?_ fun _ _ ↦ Iff.rfl, h.free, ?_⟩
  · show s.owner = some i ↔ _
    rw [h.mutex i, hi]
    simp [hphase]
  · exact Stands.forall_update (.before _ a hphase fun v ↦ himp v i a) fun j _ ↦ h.stands j

/-- An own step: the atomic call does nothing. -/
theorem Linear.own (h : P.Linear exec bound s t) {k k' : κ} (hi : s.call i = some k)
    (hk : P.next k = .own k') : P.Linear exec bound (s.goOn i k') t := by
  have hphase := P.phase_own k k' hk
  have hstands := h.stands i
  rw [hi] at hstands
  refine ⟨h.mutex_goOn hi (by rw [hphase]), h.free, ?_⟩
  have hnew : P.Stands exec bound s.shared t.shared i (some k') (t.slot i) := by
    cases hp : P.phase k with
    | before =>
      obtain ⟨a, hx, hall⟩ := hstands.of_before hp
      rw [hx]
      refine .before k' a (hphase.trans hp) fun v ↦ ?_
      obtain ⟨n, hn, halone⟩ := hall v
      obtain ⟨m, hm, hrest⟩ := halone.of_own hk
      exact ⟨m, by omega, hrest⟩
    | inside =>
      obtain ⟨r, hx, n, hn, halone⟩ := hstands.of_inside hp
      obtain ⟨m, hm, hrest⟩ := halone.of_own hk
      rw [hx]
      exact .inside k' r (hphase.trans hp) ⟨m, by omega, hrest⟩
    | after =>
      obtain ⟨r, hx, n, hn, hall⟩ := hstands.of_after hp
      obtain ⟨m, hm, hrest⟩ := (hall s.shared).of_own hk
      rw [hx]
      exact .after k' r (hphase.trans hp)
        ⟨m, by omega, (hrest.of_after (hphase.trans hp)).2⟩
  have hupd := Stands.forall_update hnew fun j _ ↦ h.stands j
  rw [Function.update_eq_self] at hupd
  exact hupd

/-- The shared state is used: it comes closer to where the atomic call has left it. -/
theorem Linear.access (h : P.Linear exec bound s t) {k : κ} {f : σ → σ × κ}
    (hi : s.call i = some k) (hk : P.next k = .access f) :
    P.Linear exec bound { s.goOn i (f s.shared).2 with shared := (f s.shared).1 } t := by
  obtain ⟨hp, hp'⟩ := P.phase_access k f hk
  have hstands := h.stands i
  rw [hi] at hstands
  obtain ⟨r, hx, n, hn, halone⟩ := hstands.of_inside hp
  obtain ⟨m, hm, hrest⟩ := halone.of_access hk
  refine ⟨h.mutex_goOn hi (by rw [hp, hp' s.shared]), fun hnone ↦ ?_, ?_⟩
  · have hown := (h.mutex i).mpr ⟨k, hi, hp⟩
    rw [show s.owner = none from hnone] at hown
    cases hown
  · have hnew : P.Stands exec bound (f s.shared).1 t.shared i (some (f s.shared).2)
        (t.slot i) := by
      rw [hx]
      exact .inside _ r (hp' s.shared) ⟨m, by omega, hrest⟩
    have hupd := Stands.forall_update hnew (h.stands_others hi hp _ _)
    rw [Function.update_eq_self] at hupd
    exact hupd

/-- The lock is given back: the shared state is where the atomic call has left it. -/
theorem Linear.unlock (h : P.Linear exec bound s t) {k k' : κ} (hi : s.call i = some k)
    (hk : P.next k = .unlock k') :
    P.Linear exec bound { s.goOn i k' with owner := none } t := by
  obtain ⟨hp, hp'⟩ := P.phase_unlock k k' hk
  have hown := (h.mutex i).mpr ⟨k, hi, hp⟩
  have hstands := h.stands i
  rw [hi] at hstands
  obtain ⟨r, hx, n, hn, halone⟩ := hstands.of_inside hp
  obtain ⟨m, hm, hrest⟩ := halone.of_unlock hk
  obtain ⟨hsame, hall⟩ := hrest.of_after hp'
  refine ⟨?_, fun _ ↦ hsame, ?_⟩
  · refine h.mutex_update (iff_of_false (by simp) (by simp [hp'])) fun j hj ↦ ?_
    rw [hown]
    simp [Ne.symm hj]
  · have hnew : P.Stands exec bound s.shared t.shared i (some k') (t.slot i) := by
      rw [hx]
      exact .after k' r hp' ⟨m, by omega, hall⟩
    have hupd := Stands.forall_update hnew fun j _ ↦ h.stands j
    rw [Function.update_eq_self] at hupd
    exact hupd

end Program

/-! ## The two machines -/

variable [DecidableEq ρ]

/-- One event; a caller makes no second call while one is in progress. -/
def Program.step (P : Program σ ι ω κ ρ) (s : State σ ι κ) : Event ι ω ρ → Option (State σ ι κ)
  | .call i a =>
    match s.call i with
    | none => some (s.goOn i (P.start i a))
    | some _ => none
  | .step i =>
    match s.call i with
    | none => none
    | some k =>
      match P.next k with
      | .own k' => some (s.goOn i k')
      | .lock k' => if s.owner = none then some { s.goOn i k' with owner := some i } else none
      | .access f => some { s.goOn i (f s.shared).2 with shared := (f s.shared).1 }
      | .unlock k' => some { s.goOn i k' with owner := none }
      | .ret _ => none
  | .ret i r =>
    match s.call i with
    | none => none
    | some k =>
      match P.next k with
      | .ret r' => if r = r' then some { s with call := Function.update s.call i none } else none
      | _ => none

/-- What an event does: one constructor for each branch of `Program.step`. -/
inductive Program.Step (P : Program σ ι ω κ ρ) (s : State σ ι κ) :
    Event ι ω ρ → State σ ι κ → Prop
  /-- A call begins. -/
  | call (i : ι) (a : ω) (hi : s.call i = none) : Step P s (.call i a) (s.goOn i (P.start i a))
  /-- An own step. -/
  | own (i : ι) (k k' : κ) (hi : s.call i = some k) (hk : P.next k = .own k') :
    Step P s (.step i) (s.goOn i k')
  /-- The lock is taken. -/
  | lock (i : ι) (k k' : κ) (hi : s.call i = some k) (hk : P.next k = .lock k')
      (hfree : s.owner = none) : Step P s (.step i) { s.goOn i k' with owner := some i }
  /-- The shared state is used. -/
  | access (i : ι) (k : κ) (f : σ → σ × κ) (hi : s.call i = some k) (hk : P.next k = .access f) :
    Step P s (.step i) { s.goOn i (f s.shared).2 with shared := (f s.shared).1 }
  /-- The lock is given back. -/
  | unlock (i : ι) (k k' : κ) (hi : s.call i = some k) (hk : P.next k = .unlock k') :
    Step P s (.step i) { s.goOn i k' with owner := none }
  /-- A call returns. -/
  | ret (i : ι) (k : κ) (r : ρ) (hi : s.call i = some k) (hk : P.next k = .ret r) :
    Step P s (.ret i r) { s with call := Function.update s.call i none }

theorem Program.step_eq_some_iff {P : Program σ ι ω κ ρ} {s s' : State σ ι κ}
    {e : Event ι ω ρ} : P.step s e = some s' ↔ P.Step s e s' := by
  constructor
  · intro h
    cases e with
    | call i a =>
      rw [step] at h
      split at h
      · rename_i hi
        cases h
        exact .call i a hi
      · cases h
    | step i =>
      rw [step] at h
      split at h
      · cases h
      · rename_i k hi
        split at h
        · rename_i k' hk
          cases h
          exact .own i k k' hi hk
        · rename_i k' hk
          obtain ⟨hfree, rfl⟩ := Option.ite_some_none_eq_some.mp h
          exact .lock i k k' hi hk hfree
        · rename_i f hk
          cases h
          exact .access i k f hi hk
        · rename_i k' hk
          cases h
          exact .unlock i k k' hi hk
        · cases h
    | ret i r =>
      rw [step] at h
      split at h
      · cases h
      · rename_i k hi
        split at h
        · rename_i r' hk
          obtain ⟨rfl, rfl⟩ := Option.ite_some_none_eq_some.mp h
          exact .ret i k r hi hk
        · cases h
  · intro h
    cases h with
    | call i a hi => simp only [step, hi]
    | own i k k' hi hk => simp only [step, hi, hk]
    | lock i k k' hi hk hfree => simp only [step, hi, hk, if_pos hfree]
    | access i k f hi hk => simp only [step, hi, hk]
    | unlock i k k' hi hk => simp only [step, hi, hk]
    | ret i k r hi hk => simp only [step, hi, hk, if_true]

/-- One event: here the step of a call does all of it. -/
def atomicStep (exec : σ → ι → ω → σ × ρ) (s : AtomicState σ ι ω ρ) :
    Event ι ω ρ → Option (AtomicState σ ι ω ρ)
  | .call i a =>
    match s.slot i with
    | .idle => some (s.goOn i (.called a))
    | _ => none
  | .step i =>
    match s.slot i with
    | .called a =>
      some { s.goOn i (.done (exec s.shared i a).2) with shared := (exec s.shared i a).1 }
    | _ => none
  | .ret i r =>
    match s.slot i with
    | .done r' => if r = r' then some (s.goOn i .idle) else none
    | _ => none

theorem atomicStep_call {exec : σ → ι → ω → σ × ρ} {t : AtomicState σ ι ω ρ} {i : ι}
    (hi : t.slot i = .idle) (a : ω) :
    atomicStep exec t (.call i a) = some (t.goOn i (.called a)) := by
  simp only [atomicStep, hi]

theorem atomicStep_step {exec : σ → ι → ω → σ × ρ} {t : AtomicState σ ι ω ρ} {i : ι} {a : ω}
    (hi : t.slot i = .called a) : atomicStep exec t (.step i) =
      some { t.goOn i (.done (exec t.shared i a).2) with shared := (exec t.shared i a).1 } := by
  simp only [atomicStep, hi]

theorem atomicStep_ret {exec : σ → ι → ω → σ × ρ} {t : AtomicState σ ι ω ρ} {i : ι} {r : ρ}
    (hi : t.slot i = .done r) : atomicStep exec t (.ret i r) = some (t.goOn i .idle) := by
  simp only [atomicStep, hi, if_true]

/-! ## One event -/

namespace Program

variable {P : Program σ ι ω κ ρ} {exec : σ → ι → ω → σ × ρ} {bound n : ℕ} {s s' : State σ ι κ}
  {t : AtomicState σ ι ω ρ} {u u' : σ} {i : ι} {k k' : κ} {r : ρ}

/-- The lock is taken: the atomic call does all of it. -/
theorem Linear.lock (h : P.Linear exec bound s t) {k k' : κ} (hi : s.call i = some k)
    (hk : P.next k = .lock k') (hfree : s.owner = none) :
    ∃ t', atomicStep exec t (.step i) = some t' ∧
      P.Linear exec bound { s.goOn i k' with owner := some i } t' := by
  obtain ⟨hp, hp'⟩ := P.phase_lock k k' hk
  have hstands := h.stands i
  rw [hi] at hstands
  obtain ⟨a, hx, hall⟩ := hstands.of_before hp
  refine ⟨_, atomicStep_step hx, ?_, fun hnone ↦ (by cases hnone), ?_⟩
  · refine h.mutex_update (iff_of_true rfl ⟨k', rfl, hp'⟩) fun j hj ↦ ?_
    rw [hfree]
    simp [Ne.symm hj]
  · obtain ⟨n, hn, halone⟩ := hall s.shared
    obtain ⟨m, hm, hrest⟩ := halone.of_lock hk
    rw [h.free hfree]
    exact Stands.forall_update (.inside k' _ hp' ⟨m, by omega, hrest⟩)
      fun j _ ↦ h.stands_free hfree _ _ j

/-- A call returns.  If it never took the lock, the atomic call has to do its step first; it changes
nothing. -/
theorem Linear.ret (h : P.Linear exec bound s t) {k : κ} {r : ρ} (hi : s.call i = some k)
    (hk : P.next k = .ret r) :
    ∃ (es : List (Event ι ω ρ)) (t' : AtomicState σ ι ω ρ),
      es.foldlM (atomicStep exec) t = some t' ∧
      es.filter Event.visible = [.ret i r] ∧
      P.Linear exec bound { s with call := Function.update s.call i none } t' := by
  have hp := P.phase_ret k r hk
  have hown : s.owner ≠ some i := by
    rw [Ne, h.mutex i, hi]
    simpa using hp
  have hmutex : ∀ j, s.owner = some j ↔
      ∃ k, Function.update s.call i none j = some k ∧ P.phase k = .inside :=
    h.mutex_update (iff_of_false hown (by simp)) fun _ _ ↦ Iff.rfl
  have hstands := h.stands i
  rw [hi] at hstands
  cases hp' : P.phase k with
  | inside => exact absurd hp' hp
  | after =>
    obtain ⟨r', hx, n, -, hall⟩ := hstands.of_after hp'
    obtain ⟨-, rfl⟩ := (hall s.shared).of_ret hk
    refine ⟨[.ret i r'], t.goOn i .idle, ?_, rfl, hmutex, h.free, ?_⟩
    swap
    · exact Stands.forall_update .idle fun j _ ↦ h.stands j
    rw [List.foldlM_cons, atomicStep_ret hx]
    rfl
  | before =>
    obtain ⟨a, hx, hall⟩ := hstands.of_before hp'
    obtain ⟨n, -, halone⟩ := hall t.shared
    obtain ⟨hsame, hr⟩ := halone.of_ret hk
    have hdone : atomicStep exec t (.step i) = _ := atomicStep_step hx
    rw [hsame, hr] at hdone
    refine ⟨[.step i, .ret i r], (t.goOn i (.done r)).goOn i .idle, ?_, rfl, hmutex, h.free, ?_⟩
    · rw [List.foldlM_cons, hdone, Option.bind_eq_bind, Option.bind_some, List.foldlM_cons,
        atomicStep_ret (by exact Function.update_self ..)]
      rfl
    · rw [AtomicState.goOn, AtomicState.goOn, Function.update_idem]
      exact Stands.forall_update .idle fun j _ ↦ h.stands j

/-- **One event**: some events of the atomic calls, of which the same can be seen. -/
theorem Linear.step (h : P.Linear exec bound s t) (himp : P.Implements exec bound)
    {e : Event ι ω ρ} (he : P.Step s e s') :
    ∃ (es : List (Event ι ω ρ)) (t' : AtomicState σ ι ω ρ),
      es.foldlM (atomicStep exec) t = some t' ∧
      es.filter Event.visible = [e].filter Event.visible ∧ P.Linear exec bound s' t' := by
  cases he with
  | call i a hi =>
    refine ⟨[.call i a], _, ?_, rfl, h.call himp hi a⟩
    have hslot : t.slot i = .idle := (hi ▸ h.stands i).eq_idle
    rw [List.foldlM_cons, atomicStep_call hslot]
    rfl
  | own i k k' hi hk => exact ⟨[], t, rfl, rfl, h.own hi hk⟩
  | lock i k k' hi hk hfree =>
    obtain ⟨t', ht', h'⟩ := h.lock hi hk hfree
    refine ⟨[.step i], t', ?_, rfl, h'⟩
    rw [List.foldlM_cons, ht']
    rfl
  | access i k f hi hk => exact ⟨[], t, rfl, rfl, h.access hi hk⟩
  | unlock i k k' hi hk => exact ⟨[], t, rfl, rfl, h.unlock hi hk⟩
  | ret i k r hi hk => exact h.ret hi hk

/-- **A run.** -/
theorem Linear.run (h : P.Linear exec bound s t) (himp : P.Implements exec bound)
    {es : List (Event ι ω ρ)} (hrun : es.foldlM P.step s = some s') :
    ∃ (es' : List (Event ι ω ρ)) (t' : AtomicState σ ι ω ρ),
      es'.foldlM (atomicStep exec) t = some t' ∧
      es'.filter Event.visible = es.filter Event.visible ∧ P.Linear exec bound s' t' :=
  Run.foldlM_trace_simulation (fun _ _ _ _ hl he ↦ hl.step himp (step_eq_some_iff.mp he)) hrun h

end Program

/-! ## Every interleaving looks like a run of atomic calls -/

/-- **Linearizability.**  Every interleaving of calls looks from outside like a run in which each
call is one step; and when no call is in progress the shared states are the same, too. -/
theorem linearizable {P : Program σ ι ω κ ρ} {exec : σ → ι → ω → σ × ρ} {bound : ℕ}
    (himp : P.Implements exec bound) {u : σ} {es : List (Event ι ω ρ)} {s : State σ ι κ}
    (hrun : es.foldlM P.step (.init u) = some s) :
    ∃ (es' : List (Event ι ω ρ)) (t : AtomicState σ ι ω ρ),
      es'.foldlM (atomicStep exec) (.init u) = some t ∧
      es'.filter Event.visible = es.filter Event.visible ∧ P.Linear exec bound s t :=
  (P.linear_init exec bound u).run himp hrun

/-! ## Every call can be completed -/

namespace Program

variable {P : Program σ ι ω κ ρ} {exec : σ → ι → ω → σ × ρ} {bound n : ℕ} {s s' : State σ ι κ}
  {t : AtomicState σ ι ω ρ} {u u' : σ} {i : ι} {k k' : κ} {r : ρ}

/-- A call that has the lock, or finds it free, or is done with it, can go on to its end. -/
theorem Alone.exists_run (h : P.Alone n u k u' r) (hi : s.call i = some k) (hu : s.shared = u)
    (hin : P.phase k = .inside → s.owner = some i)
    (hbefore : P.phase k = .before → s.owner = none) :
    ∃ es : List (Event ι ω ρ), es.length = n + 1 ∧ (∀ e ∈ es, e = .step i ∨ e = .ret i r) ∧
      es.foldlM P.step s = some ⟨u', if P.phase k = .inside then none else s.owner,
        Function.update s.call i none⟩ := by
  induction h generalizing s with
  | @ret v l r hk =>
    refine ⟨[.ret i r], rfl, by simp, ?_⟩
    rw [List.foldlM_cons, step_eq_some_iff.mpr (.ret i _ _ hi hk), if_neg (P.phase_ret _ _ hk),
      ← hu]
    rfl
  | @own m v v' l l' r hk hrest ih =>
    have hphase := P.phase_own _ _ hk
    obtain ⟨es, hlen, hown, hrun⟩ := ih (s := s.goOn i l') (Function.update_self ..) hu
      (fun hp ↦ hin (hphase ▸ hp)) (fun hp ↦ hbefore (hphase ▸ hp))
    refine ⟨.step i :: es, by rw [List.length_cons, hlen], ?_, ?_⟩
    · exact List.forall_mem_cons.mpr ⟨.inl rfl, hown⟩
    · rw [List.foldlM_cons, step_eq_some_iff.mpr (.own i _ _ hi hk), Option.bind_eq_bind,
        Option.bind_some, hrun, hphase, State.goOn, Function.update_idem]
  | @lock m v v' l l' r hk hrest ih =>
    obtain ⟨hp, hp'⟩ := P.phase_lock _ _ hk
    have hfree := hbefore hp
    obtain ⟨es, hlen, hown, hrun⟩ := ih (s := { s.goOn i l' with owner := some i })
      (Function.update_self ..) hu (fun _ ↦ rfl) (fun hb ↦ by rw [hp'] at hb; cases hb)
    refine ⟨.step i :: es, by rw [List.length_cons, hlen], ?_, ?_⟩
    · exact List.forall_mem_cons.mpr ⟨.inl rfl, hown⟩
    · rw [List.foldlM_cons, step_eq_some_iff.mpr (.lock i _ _ hi hk hfree), Option.bind_eq_bind,
        Option.bind_some, hrun, hp, hp', State.goOn, Function.update_idem, if_pos rfl,
        if_neg (by decide), hfree]
  | @access m v v' l f r hk hrest ih =>
    obtain ⟨hp, hp'⟩ := P.phase_access _ _ hk
    obtain ⟨es, hlen, hown, hrun⟩ := ih
      (s := { s.goOn i (f s.shared).2 with shared := (f s.shared).1 })
      (hu ▸ Function.update_self ..) (by rw [hu]) (fun _ ↦ hin hp)
      (fun hb ↦ by rw [hp'] at hb; cases hb)
    refine ⟨.step i :: es, by rw [List.length_cons, hlen], ?_, ?_⟩
    · exact List.forall_mem_cons.mpr ⟨.inl rfl, hown⟩
    · rw [List.foldlM_cons, step_eq_some_iff.mpr (.access i _ _ hi hk), Option.bind_eq_bind,
        Option.bind_some, hrun, hp, hp', State.goOn, Function.update_idem]
  | @unlock m v v' l l' r hk hrest ih =>
    obtain ⟨hp, hp'⟩ := P.phase_unlock _ _ hk
    obtain ⟨es, hlen, hown, hrun⟩ := ih (s := { s.goOn i l' with owner := none })
      (Function.update_self ..) hu (fun hb ↦ by rw [hp'] at hb; cases hb) (fun _ ↦ rfl)
    refine ⟨.step i :: es, by rw [List.length_cons, hlen], ?_, ?_⟩
    · exact List.forall_mem_cons.mpr ⟨.inl rfl, hown⟩
    · rw [List.foldlM_cons, step_eq_some_iff.mpr (.unlock i _ _ hi hk), Option.bind_eq_bind,
        Option.bind_some, hrun, hp, hp', State.goOn, Function.update_idem, if_neg (by decide),
        if_pos rfl]

/-- A call goes on to its end, if nobody else holds the lock. -/
theorem Linear.exists_finish (h : P.Linear exec bound s t) (hi : s.call i = some k)
    (hown : s.owner = none ∨ s.owner = some i) :
    ∃ (es : List (Event ι ω ρ)) (u' : σ), es.length ≤ bound + 1 ∧
      (∀ e ∈ es, ∀ j a, e ≠ .call j a) ∧
      es.foldlM P.step s = some ⟨u', none, Function.update s.call i none⟩ := by
  obtain ⟨n, hn, u', r, halone⟩ := h.exists_alone hi
  have hiff : s.owner = some i ↔ P.phase k = .inside := by
    rw [h.mutex i, hi]
    simp
  have hbefore : P.phase k = .before → s.owner = none := by
    intro hp
    refine hown.resolve_right fun ho ↦ ?_
    rw [hiff.mp ho] at hp
    cases hp
  obtain ⟨es, hlen, hes, hrun⟩ := halone.exists_run hi rfl hiff.mpr hbefore
  refine ⟨es, u', by omega, ?_, ?_⟩
  · rintro e he j a rfl
    rcases hes _ he with h | h <;> cases h
  · rw [hrun]
    split
    · rfl
    · rename_i hp
      rw [hown.resolve_right (mt hiff.mp hp)]

end Program

/-- **No call is in the way of another one for ever.**  From every state that can come about, a call
in progress can be brought to its end, and it takes no more than the rest of two calls. -/
theorem exists_completion {P : Program σ ι ω κ ρ} {exec : σ → ι → ω → σ × ρ} {bound : ℕ}
    (himp : P.Implements exec bound) {u : σ} {es : List (Event ι ω ρ)} {s : State σ ι κ}
    (hrun : es.foldlM P.step (.init u) = some s) (i : ι) :
    ∃ (more : List (Event ι ω ρ)) (s' : State σ ι κ), more.length ≤ 2 * (bound + 1) ∧
      (∀ e ∈ more, ∀ j a, e ≠ .call j a) ∧ more.foldlM P.step s = some s' ∧ s'.call i = none := by
  obtain ⟨es', t, -, -, h⟩ := linearizable himp hrun
  cases hi : s.call i with
  | none => exact ⟨[], s, Nat.zero_le _, fun e he ↦ (by cases he), rfl, hi⟩
  | some k =>
    by_cases hown : s.owner = none ∨ s.owner = some i
    · obtain ⟨more, u', hlen, hmore, hfin⟩ := h.exists_finish hi hown
      exact ⟨more, _, by omega, hmore, hfin, Function.update_self ..⟩
    · rw [not_or] at hown
      obtain ⟨j, hj⟩ := Option.ne_none_iff_exists'.mp hown.1
      obtain ⟨l, hl, -⟩ := (h.mutex j).mp hj
      obtain ⟨first, v, hlen, hfirst, hfin⟩ := h.exists_finish hl (.inr hj)
      obtain ⟨es'', t', -, -, h'⟩ := h.run himp hfin
      have hne : i ≠ j := fun heq ↦ hown.2 (heq ▸ hj)
      have hi' : Function.update s.call j none i = some k := by
        rw [Function.update_of_ne hne, hi]
      obtain ⟨rest, v', hlen', hrest, hfin'⟩ := h'.exists_finish hi' (.inl rfl)
      refine ⟨first ++ rest, ⟨v', none, Function.update (Function.update s.call j none) i none⟩,
        ?_, ?_, ?_, Function.update_self ..⟩
      · rw [List.length_append]
        omega
      · intro e he
        rcases List.mem_append.mp he with he | he
        · exact hfirst e he
        · exact hrest e he
      · exact Run.foldlM_append_eq_some.mpr ⟨_, hfin, hfin'⟩

/-! ## Atomic calls on another representation of the state -/

/-- If two ways of doing the calls agree about the results, as long as their states correspond, a
run of one is a run of the other. -/
theorem atomicStep_simulation {τ : Type u} {exec : σ → ι → ω → σ × ρ} {exec' : τ → ι → ω → τ × ρ}
    {R : σ → τ → Prop} (hexec : ∀ u v i a, R u v →
      R (exec u i a).1 (exec' v i a).1 ∧ (exec u i a).2 = (exec' v i a).2)
    {s s' : AtomicState σ ι ω ρ} {v : τ} {es : List (Event ι ω ρ)}
    (hrun : es.foldlM (atomicStep exec) s = some s') (hR : R s.shared v) :
    ∃ v', es.foldlM (atomicStep exec') ⟨v, s.slot⟩ = some ⟨v', s'.slot⟩ ∧ R s'.shared v' := by
  induction es generalizing s v with
  | nil =>
    rw [List.foldlM_nil, Option.pure_def, Option.some_inj] at hrun
    subst hrun
    exact ⟨v, rfl, hR⟩
  | cons e es ih =>
    obtain ⟨m, hm, hrest⟩ := Run.foldlM_cons_eq_some.mp hrun
    suffices hstep : ∃ v₁, atomicStep exec' ⟨v, s.slot⟩ e = some ⟨v₁, m.slot⟩ ∧ R m.shared v₁ by
      obtain ⟨v₁, hv₁, hR₁⟩ := hstep
      obtain ⟨v', hv', hR'⟩ := ih hrest hR₁
      exact ⟨v', Run.foldlM_cons_eq_some.mpr ⟨_, hv₁, hv'⟩, hR'⟩
    cases e with
    | call i a =>
      rw [atomicStep] at hm ⊢
      split at hm
      · rename_i hi
        cases hm
        exact ⟨v, by simp only [hi]; rfl, hR⟩
      · cases hm
    | step i =>
      rw [atomicStep] at hm ⊢
      split at hm
      · rename_i a hi
        cases hm
        obtain ⟨hnext, hres⟩ := hexec s.shared v i a hR
        exact ⟨_, by simp only [hi, AtomicState.goOn, hres], hnext⟩
      · cases hm
    | ret i r =>
      rw [atomicStep] at hm ⊢
      split at hm
      · rename_i r' hi
        obtain ⟨rfl, rfl⟩ := Option.ite_some_none_eq_some.mp hm
        exact ⟨v, by simp only [hi, if_true]; rfl, hR⟩
      · cases hm

end Monitor
