import Mathlib.Data.List.Basic
import Mathlib.Data.List.Induction
import Mathlib.Order.RelClasses

/-!
# Runs of a state machine, and the invariant rules

A machine here is a step function.  Two shapes are enough for everything in this development:

* `σ → α → σ`, where an action can always be taken; its runs are `List.foldl`;
* `σ → α → Option σ`, where an action may be impossible in a state; its runs are `List.foldlM`,
  and a run exists when the fold is `some`.

`Run.Along step P s as` says that every action of the run `as` from `s` meets `P` in the state it
is taken from.  That is how a property of *every step* of a run is written down, and it is
decidable, so a concrete run can be checked by evaluation.

The rules are the usual ones: what one step keeps, a whole run keeps.  Those of `Run.Leads` are
about what can still be reached.
-/

set_option autoImplicit false

namespace Run

universe u v

variable {σ : Type u} {α : Type v}

/-! ## Total machines -/

/-- Every action of the run from `s` meets `P` in the state it is taken from. -/
def Along (step : σ → α → σ) (P : σ → α → Prop) : σ → List α → Prop
  | _, [] => True
  | s, a :: as => P s a ∧ Along step P (step s a) as

instance Along.decidable (step : σ → α → σ) (P : σ → α → Prop) [∀ s a, Decidable (P s a)] :
    (s : σ) → (as : List α) → Decidable (Along step P s as)
  | _, [] => inferInstanceAs (Decidable True)
  | s, a :: as =>
    have := Along.decidable step P (step s a) as
    inferInstanceAs (Decidable (P s a ∧ Along step P (step s a) as))

variable {step : σ → α → σ} {P Q : σ → α → Prop}

theorem Along.append {s : σ} {as bs : List α} (h : Along step P s (as ++ bs)) :
    Along step P s as ∧ Along step P (as.foldl step s) bs := by
  induction as generalizing s with
  | nil => exact ⟨trivial, h⟩
  | cons a as ih =>
    obtain ⟨hp, hrest⟩ := h
    exact ⟨⟨hp, (ih hrest).1⟩, (ih hrest).2⟩

theorem Along.of_forall {s : σ} {as : List α} (h : ∀ a ∈ as, ∀ s, P s a) : Along step P s as := by
  induction as generalizing s with
  | nil => trivial
  | cons a as ih =>
    exact ⟨h a List.mem_cons_self s, ih fun b hb ↦ h b (List.mem_cons_of_mem a hb)⟩

/-- **The invariant rule**: what every step meeting `P` keeps, a run meeting `P` keeps. -/
theorem Along.invariant {I : σ → Prop} (hstep : ∀ s a, I s → P s a → I (step s a)) {s : σ}
    {as : List α} (h : Along step P s as) (hs : I s) : I (as.foldl step s) := by
  induction as generalizing s with
  | nil => exact hs
  | cons a as ih => exact ih h.2 (hstep s a hs h.1)

/-- **The simulation rule**: a relation to the states of a second machine that every step meeting
`P` keeps is kept by a run meeting `P`. -/
theorem Along.simulation {τ : Type*} {step' : τ → α → τ} {R : σ → τ → Prop}
    (hstep : ∀ s t a, R s t → P s a → R (step s a) (step' t a)) {s : σ} {t : τ} {as : List α}
    (h : Along step P s as) (hs : R s t) : R (as.foldl step s) (as.foldl step' t) := by
  induction as generalizing s t with
  | nil => exact hs
  | cons a as ih => exact ih h.2 (hstep s t a hs h.1)

/-! ## Partial machines -/

/-- The invariant rule for a machine whose actions may be impossible. -/
theorem foldlM_invariant {step : σ → α → Option σ} {I : σ → Prop}
    (hstep : ∀ s a s', I s → step s a = some s' → I s') {s s' : σ} {as : List α}
    (h : as.foldlM step s = some s') (hs : I s) : I s' := by
  induction as generalizing s with
  | nil =>
    rw [List.foldlM_nil, Option.pure_def, Option.some_inj] at h
    exact h ▸ hs
  | cons a as ih =>
    rw [List.foldlM_cons, Option.bind_eq_bind, Option.bind_eq_some_iff] at h
    obtain ⟨m, hm, hrest⟩ := h
    exact ih hrest (hstep s a m hs hm)

/-- The invariant rule when something is known of every action of the run. -/
theorem foldlM_invariant_of_forall {step : σ → α → Option σ} {I : σ → Prop} {A : α → Prop}
    (hstep : ∀ s a s', A a → I s → step s a = some s' → I s') {s s' : σ} {as : List α}
    (hA : ∀ a ∈ as, A a) (h : as.foldlM step s = some s') (hs : I s) : I s' := by
  induction as generalizing s with
  | nil =>
    rw [List.foldlM_nil, Option.pure_def, Option.some_inj] at h
    exact h ▸ hs
  | cons a as ih =>
    rw [List.foldlM_cons, Option.bind_eq_bind, Option.bind_eq_some_iff] at h
    obtain ⟨m, hm, hrest⟩ := h
    exact ih (fun b hb ↦ hA b (List.mem_cons_of_mem a hb)) hrest
      (hstep s a m (hA a List.mem_cons_self) hs hm)

/-- **The variant rule**: if every step makes a number smaller, there are not more steps than it
says in the beginning. -/
theorem foldlM_variant {step : σ → α → Option σ} {I : σ → Prop} {A : α → Prop} (μ : σ → ℕ)
    (hstep : ∀ s a s', A a → I s → step s a = some s' → I s' ∧ μ s' < μ s) {s s' : σ}
    {as : List α} (hA : ∀ a ∈ as, A a) (h : as.foldlM step s = some s') (hs : I s) :
    I s' ∧ as.length + μ s' ≤ μ s := by
  induction as generalizing s with
  | nil =>
    rw [List.foldlM_nil, Option.pure_def, Option.some_inj] at h
    subst h
    exact ⟨hs, by simp⟩
  | cons a as ih =>
    rw [List.foldlM_cons, Option.bind_eq_bind, Option.bind_eq_some_iff] at h
    obtain ⟨m, hm, hrest⟩ := h
    obtain ⟨hI, hlt⟩ := hstep s a m (hA a List.mem_cons_self) hs hm
    obtain ⟨hI', hle⟩ := ih (fun b hb ↦ hA b (List.mem_cons_of_mem a hb)) hrest hI
    refine ⟨hI', ?_⟩
    rw [List.length_cons]
    omega

/-- The variant rule when only some of the actions count: if these make the number smaller and the
others do not make it larger, a run has no more of them than it says in the beginning. -/
theorem foldlM_countP {step : σ → α → Option σ} {I : σ → Prop} (μ : σ → ℕ) (p : α → Bool)
    (hstep : ∀ s a s', I s → step s a = some s' → I s' ∧ μ s' + (if p a then 1 else 0) ≤ μ s)
    {s s' : σ} {as : List α} (h : as.foldlM step s = some s') (hs : I s) :
    I s' ∧ as.countP p + μ s' ≤ μ s := by
  induction as generalizing s with
  | nil =>
    rw [List.foldlM_nil, Option.pure_def, Option.some_inj] at h
    subst h
    exact ⟨hs, by simp⟩
  | cons a as ih =>
    rw [List.foldlM_cons, Option.bind_eq_bind, Option.bind_eq_some_iff] at h
    obtain ⟨m, hm, hrest⟩ := h
    obtain ⟨hI, hle⟩ := hstep s a m hs hm
    obtain ⟨hI', hle'⟩ := ih hrest hI
    refine ⟨hI', ?_⟩
    rw [List.countP_cons]
    omega

/-- **The simulation rule with a trace**: if every step can be matched by steps of a second machine
of which `visible` lets the same be seen, so can every run. -/
theorem foldlM_trace_simulation {τ : Type*} {step : σ → α → Option σ} {step' : τ → α → Option τ}
    {R : σ → τ → Prop} {visible : α → Bool}
    (hstep : ∀ s t a s', R s t → step s a = some s' → ∃ (bs : List α) (t' : τ),
      bs.foldlM step' t = some t' ∧ bs.filter visible = [a].filter visible ∧ R s' t')
    {s s' : σ} {t : τ} {as : List α} (h : as.foldlM step s = some s') (hs : R s t) :
    ∃ (bs : List α) (t' : τ), bs.foldlM step' t = some t' ∧
      bs.filter visible = as.filter visible ∧ R s' t' := by
  induction as generalizing s t with
  | nil =>
    rw [List.foldlM_nil, Option.pure_def, Option.some_inj] at h
    exact ⟨[], t, rfl, rfl, h ▸ hs⟩
  | cons a as ih =>
    rw [List.foldlM_cons, Option.bind_eq_bind, Option.bind_eq_some_iff] at h
    obtain ⟨m, hm, hrest⟩ := h
    obtain ⟨bs, u, hbs, hvis, hu⟩ := hstep s t a m hs hm
    obtain ⟨cs, t', hcs, hvis', ht'⟩ := ih hrest hu
    refine ⟨bs ++ cs, t', ?_, ?_, ht'⟩
    · rw [List.foldlM_append, hbs]
      exact hcs
    · rw [List.filter_append, hvis, hvis', ← List.filter_append, List.singleton_append]

/-- **The refinement rule**: if every step of a machine is a step of a coarser one, or none at all,
every run of the first is a run of the second. -/
theorem foldlM_stutter {τ β : Type*} {step : σ → α → Option σ} {step' : τ → β → Option τ}
    (f : σ → τ) {I : σ → Prop} (hstep : ∀ s a s', I s → step s a = some s' →
      I s' ∧ (f s' = f s ∨ ∃ b, step' (f s) b = some (f s')))
    {s s' : σ} {as : List α} (h : as.foldlM step s = some s') (hs : I s) :
    ∃ bs : List β, bs.foldlM step' (f s) = some (f s') := by
  induction as generalizing s with
  | nil =>
    rw [List.foldlM_nil, Option.pure_def, Option.some_inj] at h
    exact ⟨[], by rw [h]; rfl⟩
  | cons a as ih =>
    rw [List.foldlM_cons, Option.bind_eq_bind, Option.bind_eq_some_iff] at h
    obtain ⟨m, hm, hrest⟩ := h
    obtain ⟨hI, hmatch⟩ := hstep s a m hs hm
    obtain ⟨bs, hbs⟩ := ih hrest hI
    rcases hmatch with heq | ⟨b, hb⟩
    · exact ⟨bs, heq ▸ hbs⟩
    · refine ⟨b :: bs, ?_⟩
      rw [List.foldlM_cons, hb]
      exact hbs

/-- The refinement rule when the action says which step of the coarser machine it is. -/
theorem foldlM_filterMap {τ β : Type*} {step : σ → α → Option σ} {step' : τ → β → Option τ}
    (f : σ → τ) (g : α → Option β)
    (hstep : ∀ s a s', step s a = some s' →
      (g a = none ∧ f s' = f s) ∨ ∃ b, g a = some b ∧ step' (f s) b = some (f s'))
    {s s' : σ} {as : List α} (h : as.foldlM step s = some s') :
    (as.filterMap g).foldlM step' (f s) = some (f s') := by
  induction as generalizing s with
  | nil =>
    rw [List.foldlM_nil, Option.pure_def, Option.some_inj] at h
    rw [h]
    rfl
  | cons a as ih =>
    rw [List.foldlM_cons, Option.bind_eq_bind, Option.bind_eq_some_iff] at h
    obtain ⟨m, hm, hrest⟩ := h
    rcases hstep s a m hm with ⟨hnone, heq⟩ | ⟨b, hsome, hb⟩
    · rw [List.filterMap_cons_none hnone, ← heq]
      exact ih hrest
    · rw [List.filterMap_cons_some hsome, List.foldlM_cons, hb]
      exact ih hrest

/-- The machine in which only the actions that meet `P` are possible. -/
def restrict (step : σ → α → Option σ) (P : σ → α → Bool) (s : σ) (a : α) : Option σ :=
  if P s a then step s a else none

theorem restrict_eq_some {step : σ → α → Option σ} {P : σ → α → Bool} {s s' : σ} {a : α} :
    restrict step P s a = some s' ↔ P s a = true ∧ step s a = some s' := by
  rw [restrict, Option.ite_none_right_eq_some]

theorem foldlM_append_eq_some {step : σ → α → Option σ} {s s' : σ} {as bs : List α} :
    (as ++ bs).foldlM step s = some s' ↔
      ∃ m, as.foldlM step s = some m ∧ bs.foldlM step m = some s' := by
  rw [List.foldlM_append, Option.bind_eq_bind, Option.bind_eq_some_iff]

theorem foldlM_cons_eq_some {step : σ → α → Option σ} {s s' : σ} {a : α} {as : List α} :
    (a :: as).foldlM step s = some s' ↔ ∃ m, step s a = some m ∧ as.foldlM step m = some s' := by
  rw [List.foldlM_cons, Option.bind_eq_bind, Option.bind_eq_some_iff]

/-- A run of the restricted machine is a run each of whose actions meets the condition. -/
theorem foldlM_restrict_eq_some {step : σ → α → Option σ} {P : σ → α → Bool} {s s' : σ}
    {as : List α} : as.foldlM (restrict step P) s = some s' ↔
      as.foldlM step s = some s' ∧
        ∀ pre a t t', pre ++ [a] <+: as → pre.foldlM step s = some t → step t a = some t' →
          P t a = true := by
  induction as generalizing s with
  | nil =>
    refine ⟨fun h ↦ ⟨h, ?_⟩, And.left⟩
    intro pre a t t' hpre
    exact absurd (List.prefix_nil.mp hpre) (by simp)
  | cons b bs ih =>
    simp only [foldlM_cons_eq_some, restrict_eq_some]
    constructor
    · rintro ⟨m, ⟨hP, hstep⟩, hrest⟩
      obtain ⟨hrun, hall⟩ := ih.mp hrest
      refine ⟨⟨m, hstep, hrun⟩, ?_⟩
      intro pre a t t' hpre ht ha
      cases pre with
      | nil =>
        obtain ⟨rfl, -⟩ := List.cons_prefix_cons.mp hpre
        obtain rfl : s = t := Option.some.inj ht
        exact hP
      | cons c cs =>
        obtain ⟨rfl, hcs⟩ := List.cons_prefix_cons.mp hpre
        obtain ⟨m', hm', ht⟩ := foldlM_cons_eq_some.mp ht
        obtain rfl : m = m' := Option.some.inj (hstep.symm.trans hm')
        exact hall cs a t t' hcs ht ha
    · rintro ⟨⟨m, hstep, hrun⟩, hall⟩
      refine ⟨m, ⟨hall [] b s m (by simp) rfl hstep, hstep⟩, ih.mpr ⟨hrun, ?_⟩⟩
      intro pre a t t' hpre ht ha
      exact hall (b :: pre) a t t' (List.cons_prefix_cons.mpr ⟨rfl, hpre⟩)
        (foldlM_cons_eq_some.mpr ⟨m, hstep, ht⟩) ha

/-- So is every beginning of it. -/
theorem foldlM_restrict_prefix {step : σ → α → Option σ} {P : σ → α → Bool} {s s' t : σ}
    {as pre : List α} (h : as.foldlM (restrict step P) s = some s') (hpre : pre <+: as)
    (ht : pre.foldlM step s = some t) : pre.foldlM (restrict step P) s = some t := by
  refine foldlM_restrict_eq_some.mpr ⟨ht, ?_⟩
  intro pre' a u u' hpre' hu ha
  exact (foldlM_restrict_eq_some.mp h).2 pre' a u u' (hpre'.trans hpre) hu ha

/-- To show that every action meets the condition, those before it may be assumed to. -/
theorem foldlM_restrict_of_forall {step : σ → α → Option σ} {P : σ → α → Bool} {s s' : σ}
    {as : List α} (h : as.foldlM step s = some s')
    (hall : ∀ pre a t t', pre ++ [a] <+: as → pre.foldlM (restrict step P) s = some t →
      step t a = some t' → P t a = true) : as.foldlM (restrict step P) s = some s' := by
  induction as using List.reverseRecOn generalizing s' with
  | nil => exact h
  | append_singleton as a ih =>
    obtain ⟨m, hm, ha⟩ := foldlM_append_eq_some.mp h
    obtain ⟨m', hstep, hm'⟩ := foldlM_cons_eq_some.mp ha
    have hpre := ih hm fun pre b t t' hpre ↦
      hall pre b t t' (hpre.trans (List.prefix_append as [a]))
    refine foldlM_append_eq_some.mpr ⟨m, hpre, foldlM_cons_eq_some.mpr ⟨m', ?_, hm'⟩⟩
    exact restrict_eq_some.mpr ⟨hall as a m m' (List.prefix_refl _) hpre hstep, hstep⟩

/-- A weaker condition allows more. -/
theorem foldlM_restrict_mono {step : σ → α → Option σ} {P Q : σ → α → Bool} {s s' : σ}
    {as : List α} (hPQ : ∀ s a, P s a = true → Q s a = true)
    (h : as.foldlM (restrict step P) s = some s') : as.foldlM (restrict step Q) s = some s' := by
  obtain ⟨hrun, hall⟩ := foldlM_restrict_eq_some.mp h
  refine foldlM_restrict_eq_some.mpr ⟨hrun, ?_⟩
  intro pre a t t' hpre ht ha
  exact hPQ t a (hall pre a t t' hpre ht ha)

/-- The machine that keeps a record of what happens beside its state. -/
def recording {γ : Type*} (step : σ → α → Option σ) (record : σ → γ → α → γ) (s : σ × γ) (a : α) :
    Option (σ × γ) :=
  (step s.1 a).map fun s' ↦ (s', record s.1 s.2 a)

theorem recording_eq_some {γ : Type*} {step : σ → α → Option σ} {record : σ → γ → α → γ}
    {s s' : σ × γ} {a : α} : recording step record s a = some s' ↔
      step s.1 a = some s'.1 ∧ s'.2 = record s.1 s.2 a := by
  rw [recording, Option.map_eq_some_iff]
  constructor
  · rintro ⟨t, ht, rfl⟩
    exact ⟨ht, rfl⟩
  · rintro ⟨ht, hrec⟩
    exact ⟨s'.1, ht, by rw [← hrec]⟩

/-- Keeping a record prevents nothing. -/
theorem exists_recording {γ : Type*} {step : σ → α → Option σ} (record : σ → γ → α → γ) {s s' : σ}
    {as : List α} (h : as.foldlM step s = some s') (g : γ) :
    ∃ g', as.foldlM (recording step record) (s, g) = some (s', g') := by
  induction as generalizing s g with
  | nil =>
    rw [List.foldlM_nil, Option.pure_def, Option.some_inj] at h
    exact ⟨g, by rw [List.foldlM_nil, h, Option.pure_def]⟩
  | cons a as ih =>
    rw [List.foldlM_cons, Option.bind_eq_bind, Option.bind_eq_some_iff] at h
    obtain ⟨m, hm, hrest⟩ := h
    obtain ⟨g', hg'⟩ := ih hrest (record s g a)
    refine ⟨g', ?_⟩
    rw [List.foldlM_cons, Option.bind_eq_bind, Option.bind_eq_some_iff]
    exact ⟨_, recording_eq_some.mpr ⟨hm, rfl⟩, hg'⟩

/-- A run with a record is a run. -/
theorem foldlM_of_recording {γ : Type*} {step : σ → α → Option σ} {record : σ → γ → α → γ}
    {s s' : σ × γ} {as : List α} (h : as.foldlM (recording step record) s = some s') :
    as.foldlM step s.1 = some s'.1 := by
  induction as generalizing s with
  | nil =>
    rw [List.foldlM_nil, Option.pure_def, Option.some_inj] at h
    rw [List.foldlM_nil, h, Option.pure_def]
  | cons a as ih =>
    rw [List.foldlM_cons, Option.bind_eq_bind, Option.bind_eq_some_iff] at h ⊢
    obtain ⟨m, hm, hrest⟩ := h
    exact ⟨m.1, (recording_eq_some.mp hm).1, ih hrest⟩

/-! ## Where a run can lead -/

/-- Some run goes from `s` to `t`. -/
def Leads (step : σ → α → Option σ) (s t : σ) : Prop := ∃ as : List α, as.foldlM step s = some t

namespace Leads

variable {step : σ → α → Option σ} {s t u : σ} {I : σ → Prop}

theorem refl (s : σ) : Leads step s s := ⟨[], rfl⟩

theorem single {a : α} (h : step s a = some t) : Leads step s t :=
  ⟨[a], foldlM_cons_eq_some.mpr ⟨t, h, rfl⟩⟩

theorem trans (h : Leads step s t) (h' : Leads step t u) : Leads step s u := by
  obtain ⟨as, has⟩ := h
  obtain ⟨bs, hbs⟩ := h'
  exact ⟨as ++ bs, foldlM_append_eq_some.mpr ⟨t, has, hbs⟩⟩

/-- **The rank rule**: a goal can be reached if, wherever it has not been, some step lowers a rank
that cannot be lowered for ever. -/
theorem of_rank {ρ : Type*} [LT ρ] [WellFoundedLT ρ] {G : σ → Prop} (rank : σ → ρ)
    (hstep : ∀ s, I s → ¬G s → ∃ a s', step s a = some s' ∧ I s' ∧ rank s' < rank s) (hs : I s) :
    ∃ t, Leads step s t ∧ I t ∧ G t := by
  induction hr : rank s using WellFoundedLT.induction generalizing s with
  | ind r ih =>
    by_cases hG : G s
    · exact ⟨s, refl s, hs, hG⟩
    · obtain ⟨a, s', ha, hs', hlt⟩ := hstep s hs hG
      obtain ⟨t, ht, hIt, hGt⟩ := ih (rank s') (hr ▸ hlt) hs' rfl
      exact ⟨t, (single ha).trans ht, hIt, hGt⟩

/-- **One after another**: what can be brought about for each of some numbers without undoing it for
the others can be brought about for all. -/
theorem forall_lt {p : ℕ → σ → Prop} {n : ℕ} (hone : ∀ s, I s → ∀ i < n, ∃ t, Leads step s t ∧
    I t ∧ p i t ∧ ∀ j, p j s → p j t) (hs : I s) : ∃ t, Leads step s t ∧ I t ∧ ∀ i < n, p i t := by
  induction n with
  | zero => exact ⟨s, refl s, hs, fun i hi ↦ absurd hi (Nat.not_lt_zero i)⟩
  | succ n ih =>
    obtain ⟨t, ht, hIt, hpt⟩ := ih fun s hs i hi ↦ hone s hs i (Nat.lt_succ_of_lt hi)
    obtain ⟨u, hu, hIu, hpu, hkeep⟩ := hone t hIt n (Nat.lt_succ_self n)
    refine ⟨u, ht.trans hu, hIu, fun i hi ↦ ?_⟩
    rcases Nat.lt_succ_iff_lt_or_eq.mp hi with hlt | rfl
    · exact hkeep i (hpt i hlt)
    · exact hpu

end Leads

end Run
