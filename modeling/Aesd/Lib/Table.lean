import Mathlib.Data.List.Basic

/-!
# Tables

A list serves as a table whose entries are numbered from `0`: new entries go to the end, and an
entry is replaced with `List.set`.  An entry of the table after such a change is an old one or the
one that was put there, and what only depends on a part of the entries that has not been changed is
the same.
-/

set_option autoImplicit false

namespace Table

universe u v

variable {α : Type u} {β : Type v} {l : List α} {i j : ℕ} {a b : α}

/-! ## New entries -/

theorem of_concat (h : (l ++ [a])[i]? = some b) : l[i]? = some b ∨ (i = l.length ∧ b = a) := by
  rcases Nat.lt_or_ge i l.length with hlt | hge
  · rw [List.getElem?_append_left hlt] at h
    exact .inl h
  · rw [List.getElem?_append_right hge] at h
    obtain ⟨hlt, heq⟩ := List.getElem?_eq_some_iff.mp h
    rw [List.length_singleton] at hlt
    exact .inr ⟨by omega, by simpa using heq.symm⟩

theorem concat_of (h : l[i]? = some b) (a : α) : (l ++ [a])[i]? = some b := by
  rw [List.getElem?_append_left (List.getElem?_eq_some_iff.mp h).1, h]

/-! ## Replaced entries -/

theorem of_set (h : (l.set i a)[j]? = some b) : (j = i ∧ b = a) ∨ (j ≠ i ∧ l[j]? = some b) := by
  rw [List.getElem?_set] at h
  split at h
  · rename_i he
    split at h
    · exact .inl ⟨he.symm, (Option.some.inj h).symm⟩
    · exact absurd h (by simp)
  · rename_i hne
    exact .inr ⟨Ne.symm hne, h⟩

theorem set_self (h : l[i]? = some b) (a : α) : (l.set i a)[i]? = some a := by
  rw [List.getElem?_set_self (List.getElem?_eq_some_iff.mp h).1]

/-- What is the same for the new entry is the same for the whole table. -/
theorem map_set {f : α → β} (h : l[i]? = some b) (hf : f a = f b) :
    (l.set i a).map f = l.map f := by
  refine List.ext_getElem? ?_
  intro j
  rw [List.getElem?_map, List.getElem?_map, List.getElem?_set]
  split
  · rename_i he
    subst he
    rw [if_pos (List.getElem?_eq_some_iff.mp h).1, h, Option.map_some, Option.map_some, hf]
  · rfl

/-- What holds of all entries and of the new one still holds of all. -/
theorem forall_set {P : α → Prop} (h : ∀ b ∈ l, P b) (ha : P a) : ∀ b ∈ l.set i a, P b := by
  intro b hb
  rcases List.mem_or_eq_of_mem_set hb with hb | rfl
  · exact h b hb
  · exact ha

end Table
