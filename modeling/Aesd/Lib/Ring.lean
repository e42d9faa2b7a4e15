import Mathlib.Data.List.DropRight
import Mathlib.Data.List.Rotate
import Mathlib.Logic.Function.Basic

/-!
# A ring of slots and the history written through it

Items are written one after another into `n` slots, item number `k` into slot `k % n`, so a new
item overwrites the one written `n` items before it.  `Ring.Tracks n empty slots hist` says that
`slots` is what the history `hist` leaves behind: each of the last `n` items is in its slot, and a
slot no item has reached yet still holds `empty`.

`Tracks.push` is the one step, and two facts are read off: `Tracks.overwritten`, what the next
write is going to destroy, and `Tracks.map_range_eq`, which walks the slots from the oldest item on
and finds the last `n` items of the history in order.  `map_range_add_mod` compares such a walk with
one from slot `0` on.
-/

set_option autoImplicit false

namespace Ring

universe u

variable {α : Type u} {n : ℕ} {empty : α} {slots : ℕ → α} {hist : List α}

/-- `slots` holds the last `n` items of `hist`, item `k` in slot `k % n`. -/
structure Tracks (n : ℕ) (empty : α) (slots : ℕ → α) (hist : List α) : Prop where
  /-- Each of the last `n` items is still in its slot. -/
  recent : ∀ k a, hist[k]? = some a → hist.length ≤ k + n → slots (k % n) = a
  /-- A slot that was never written is as it was in the beginning. -/
  unused : ∀ i, i < n → hist.length ≤ i → slots i = empty

theorem Tracks.nil (n : ℕ) (empty : α) : Tracks n empty (fun _ ↦ empty) [] :=
  ⟨fun k a h ↦ by simp at h, fun _ _ _ ↦ rfl⟩

private theorem mod_ne_mod_of_lt {k m n : ℕ} (hkm : k < m) (hmk : m < k + n) : k % n ≠ m % n := by
  intro h
  have hdvd : n ∣ m - k := Nat.dvd_of_mod_eq_zero (Nat.sub_mod_eq_zero_of_mod_eq h.symm)
  have hle := Nat.le_of_dvd (by omega) hdvd
  omega

/-- **One more item.**  It goes to slot `hist.length % n` and nothing else changes. -/
theorem Tracks.push (h : Tracks n empty slots hist) (a : α) :
    Tracks n empty (Function.update slots (hist.length % n) a) (hist ++ [a]) := by
  constructor
  · intro k b hk hlen
    rw [List.length_append, List.length_singleton] at hlen
    rcases Nat.lt_trichotomy k hist.length with hlt | heq | hgt
    · rw [List.getElem?_append_left hlt] at hk
      rw [Function.update_of_ne (mod_ne_mod_of_lt hlt (by omega))]
      exact h.recent k b hk (by omega)
    · subst heq
      rw [List.getElem?_concat_length, Option.some_inj] at hk
      rw [Function.update_self, hk]
    · rw [List.getElem?_eq_none (by simp; omega)] at hk
      exact absurd hk (by simp)
  · intro i hi hlen
    rw [List.length_append, List.length_singleton] at hlen
    have hne : i ≠ hist.length % n := by
      rw [Nat.mod_eq_of_lt (by omega)]; omega
    rw [Function.update_of_ne hne]
    exact h.unused i hi (by omega)

/-- What the next write overwrites: the oldest of the last `n` items, or an unused slot. -/
theorem Tracks.overwritten (hn : 0 < n) (h : Tracks n empty slots hist) :
    slots (hist.length % n) =
      if hist.length < n then empty else (hist[hist.length - n]?).getD empty := by
  split
  · rename_i hlt
    rw [Nat.mod_eq_of_lt hlt]
    exact h.unused _ hlt le_rfl
  · rename_i hge
    have hk : hist.length - n < hist.length := by omega
    have hmod : hist.length % n = (hist.length - n) % n := by
      conv_lhs => rw [show hist.length = hist.length - n + n by omega, Nat.add_mod_right]
    rw [hmod, List.getElem?_eq_getElem hk, Option.getD_some]
    exact h.recent _ _ (List.getElem?_eq_getElem hk) (by omega)

/-- The slot of the oldest item still present. -/
def start (n len : ℕ) : ℕ := if len < n then 0 else len % n

theorem Tracks.slot_start_add (h : Tracks n empty slots hist) {i : ℕ} {a : α}
    (hi : (hist.rtake n)[i]? = some a) : slots ((start n hist.length + i) % n) = a := by
  rw [List.rtake, List.getElem?_drop] at hi
  have hlt : hist.length - n + i < hist.length := (List.getElem?_eq_some_iff.mp hi).1
  have hmod : (start n hist.length + i) % n = (hist.length - n + i) % n := by
    rw [start]
    split
    · rw [show hist.length - n = 0 by omega]
    · conv_lhs => rw [Nat.mod_add_mod, show hist.length + i = hist.length - n + i + n by omega,
        Nat.add_mod_right]
  rw [hmod]
  exact h.recent _ _ hi (by omega)

/-- **What a slot holds**: nothing yet, or one of the last `n` items, the one whose place in the
walk from the oldest item leads to this slot. -/
theorem Tracks.slot_cases (h : Tracks n empty slots hist) {i : ℕ} (hi : i < n) :
    slots i = empty ∨
      ∃ j, (hist.rtake n)[j]? = some (slots i) ∧ (start n hist.length + j) % n = i := by
  have hlen : (hist.rtake n).length = min hist.length n := by
    rw [List.rtake, List.length_drop]; omega
  by_cases hle : hist.length ≤ i
  · exact .inl (h.unused i hi hle)
  refine .inr ?_
  obtain ⟨j, hj, hslot⟩ : ∃ j, j < min hist.length n ∧ (start n hist.length + j) % n = i := by
    rw [start]
    split
    · exact ⟨i, by omega, by rw [Nat.zero_add, Nat.mod_eq_of_lt hi]⟩
    · have hmod : hist.length % n < n := Nat.mod_lt _ (by omega)
      refine ⟨(i + n - hist.length % n) % n, ?_, ?_⟩
      · rw [Nat.min_eq_right (by omega)]
        exact Nat.mod_lt _ (by omega)
      · rw [Nat.add_mod_mod, show hist.length % n + (i + n - hist.length % n) = i + n by omega,
          Nat.add_mod_right, Nat.mod_eq_of_lt hi]
  have hget := List.getElem?_eq_getElem (hlen ▸ hj)
  refine ⟨j, ?_, hslot⟩
  rw [← hslot, h.slot_start_add hget, hget]

/-- **The walk from the oldest item finds the last `n` items, oldest first.** -/
theorem Tracks.map_range_eq (h : Tracks n empty slots hist) :
    (List.range (min hist.length n)).map (fun i ↦ slots ((start n hist.length + i) % n)) =
      hist.rtake n := by
  have hlen : (hist.rtake n).length = min hist.length n := by
    rw [List.rtake, List.length_drop]; omega
  refine List.ext_getElem (by simp [hlen]) ?_
  intro i h1 h2
  rw [List.getElem_map, List.getElem_range]
  exact h.slot_start_add (List.getElem?_eq_getElem h2)

/-- Walking all the slots from slot `k` on is walking them from slot `0` on, rotated. -/
theorem map_range_add_mod {β : Type*} (f : ℕ → β) (k n : ℕ) :
    (List.range n).map (fun i ↦ f ((k + i) % n)) = ((List.range n).map f).rotate k := by
  refine List.ext_getElem (by simp) ?_
  intro i h1 h2
  simp [List.getElem_rotate, Nat.add_comm]

end Ring
