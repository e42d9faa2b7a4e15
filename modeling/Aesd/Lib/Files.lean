import Mathlib.Logic.Function.Basic
import Mathlib.Order.Basic

/-!
# Descriptor tables

The kernel keeps for each process a table that says what each of its descriptors refers to.  Here it
is a function to `Option ρ`, for resources of a type `ρ`, and its changes are `Function.update`s.
What is peculiar to it is the rule by which a new descriptor is chosen: it is the lowest that is
free.  So descriptors can be predicted: what is opened after everything opened before has been
closed again gets the same one (`close_open`), and it is above the standard descriptors if and only
if these are taken (`Lowest.le_iff`).

A library may have a descriptor of its own, which it opens, closes and opens again when it likes.
`Aside` says that but for this one a table is a given one.  What the process itself has open is not
touched by that (`Aside.eq_of_open`, `Kept`), and it can go on opening and closing.
-/

set_option autoImplicit false

namespace Files

universe u

variable {ρ : Type u} {t fds : ℕ → Option ρ} {n k : ℕ} {r : ρ} {own : Option ℕ}

/-- The lowest descriptor that is free. -/
def Lowest (t : ℕ → Option ρ) (n : ℕ) : Prop := t n = none ∧ ∀ m < n, t m ≠ none

instance Lowest.decidable (t : ℕ → Option ρ) (n : ℕ) : Decidable (Lowest t n) :=
  inferInstanceAs (Decidable (t n = none ∧ ∀ m < n, t m ≠ none))

/-- It is not one of the first ones if these are taken. -/
theorem Lowest.le_iff (h : Lowest t n) : k ≤ n ↔ ∀ m < k, t m ≠ none := by
  constructor
  · exact fun hle m hm ↦ h.2 m (Nat.lt_of_lt_of_le hm hle)
  · intro hall
    by_contra hlt
    exact hall n (Nat.lt_of_not_le hlt) h.1

/-- What has been opened is closed again. -/
theorem close_open (h : t n = none) (r : ρ) :
    Function.update (Function.update t n (some r)) n none = t := by
  rw [Function.update_idem, ← h, Function.update_eq_self]

/-! ## A descriptor aside -/

/-- A descriptor is closed, if there is one. -/
def close (t : ℕ → Option ρ) : Option ℕ → ℕ → Option ρ
  | none => t
  | some n => Function.update t n none

/-- The table with one entry more, or none. -/
def extend (t : ℕ → Option ρ) (r : ρ) : Option ℕ → ℕ → Option ρ
  | none => t
  | some n => Function.update t n (some r)

theorem close_of_ne (h : own ≠ some n) : close fds own n = fds n := by
  cases own with
  | none => rfl
  | some m =>
    refine Function.update_of_ne ?_ ..
    rintro rfl
    exact h rfl

theorem extend_of_ne (h : own ≠ some n) : extend t r own n = t n := by
  cases own with
  | none => rfl
  | some m =>
    refine Function.update_of_ne ?_ ..
    rintro rfl
    exact h rfl

/-- The table is `t`, and aside from it the own descriptor, if there is one, refers to `r`. -/
structure Aside (t : ℕ → Option ρ) (r : ρ) (own : Option ℕ) (fds : ℕ → Option ρ) : Prop where
  /-- In `t` it is free. -/
  free : ∀ n, own = some n → t n = none
  /-- There is nothing else. -/
  eq : fds = extend t r own

theorem aside_none : Aside t r none t := ⟨by simp, rfl⟩

/-- What is open in `t` is open. -/
theorem Aside.eq_of_open (h : Aside t r own fds) (hopen : t n ≠ none) :
    fds n = t n ∧ own ≠ some n := by
  have hne : own ≠ some n := fun hown ↦ hopen (h.free n hown)
  refine ⟨?_, hne⟩
  rw [h.eq]
  exact extend_of_ne hne

/-- What is free is free in `t`, and is not the own descriptor. -/
theorem Aside.free_of_free (h : Aside t r own fds) (hn : fds n = none) :
    t n = none ∧ own ≠ some n := by
  refine ⟨by_contra fun hopen ↦ ?_, ?_⟩
  · obtain ⟨heq, -⟩ := h.eq_of_open hopen
    exact hopen (heq.symm.trans hn)
  · rintro rfl
    rw [h.eq, extend, Function.update_self] at hn
    exact absurd hn (by simp)

/-- The own descriptor is closed. -/
theorem Aside.close_eq (h : Aside t r own fds) : close fds own = t := by
  rw [h.eq]
  cases own with
  | none => rfl
  | some n => exact close_open (h.free n rfl) r

/-- It is opened, after it has been closed. -/
theorem Aside.reopen (h : Aside t r own fds) (hk : Lowest (close fds own) k) :
    Aside t r (some k) (Function.update (close fds own) k (some r)) := by
  rw [h.close_eq] at hk ⊢
  refine ⟨?_, rfl⟩
  rintro n ⟨⟩
  exact hk.1

/-- Another one is closed. -/
theorem Aside.close_other (h : Aside t r own fds) (hne : own ≠ some n) :
    Aside (Function.update t n none) r own (Function.update fds n none) := by
  cases own with
  | none => exact ⟨by simp, congrArg (Function.update · n none) h.eq⟩
  | some m =>
    have hmn : m ≠ n := fun heq ↦ hne (congrArg some heq)
    refine ⟨?_, ?_⟩
    · rintro k ⟨⟩
      rw [Function.update_of_ne hmn]
      exact h.free m rfl
    · rw [h.eq, extend, extend, Function.update_comm hmn.symm]

/-! ## What stays -/

/-- A descriptor refers to `r`, and it is not the own one. -/
def Kept (fds : ℕ → Option ρ) (own : Option ℕ) (n : ℕ) (r : ρ) : Prop :=
  fds n = some r ∧ own ≠ some n

theorem Kept.close (h : Kept fds own n r) : Kept (close fds own) none n r :=
  ⟨(close_of_ne h.2).trans h.1, by simp⟩

theorem Kept.reopen (h : Kept fds own n r) (hk : Lowest (Files.close fds own) k) (r' : ρ) :
    Kept (Function.update (Files.close fds own) k (some r')) (some k) n r := by
  have hne : k ≠ n := by
    rintro rfl
    exact absurd (hk.1.symm.trans h.close.1) (by simp)
  exact ⟨(Function.update_of_ne hne.symm ..).trans h.close.1, fun hkn ↦ hne (Option.some.inj hkn)⟩

end Files
