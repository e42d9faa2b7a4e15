import Mathlib.Algebra.BigOperators.Group.List.Basic
import Mathlib.Algebra.Order.Ring.Nat
import Mathlib.Data.List.DropRight
import Mathlib.Data.List.Infix

/-!
# Positions in a concatenation

A list of blocks read end to end is one long sequence, and a position in that sequence is a block
together with an offset inside it.  `Concat.locate` finds the two, from the sizes of the blocks
alone, by walking the blocks and subtracting sizes as it goes; `locate_eq_some_iff` and
`locate_eq_none_iff` say exactly what it finds.  `drop_flatten_of_locate` is what a reader needs:
what is left of the concatenation from that position on starts with what is left of the block.

The last section is about the final `n` items of a sequence (`List.rtake`): how they change when
one more arrives, and, when they are blocks, where their concatenation sits inside the whole one.
-/

set_option autoImplicit false

namespace Concat

universe u

variable {α : Type u}

/-! ## Finding a position -/

/-- The block that position `p` falls in, and the offset inside that block, for blocks of the given
sizes laid end to end. -/
def locate : List ℕ → ℕ → Option (ℕ × ℕ)
  | [], _ => none
  | n :: ns, p => if p < n then some (0, p) else (locate ns (p - n)).map fun q ↦ (q.1 + 1, q.2)

/-- A position is found exactly when it lies inside the concatenation. -/
theorem locate_eq_none_iff {ns : List ℕ} {p : ℕ} : locate ns p = none ↔ ns.sum ≤ p := by
  induction ns generalizing p with
  | nil => simp [locate]
  | cons n ns ih =>
    rw [locate, List.sum_cons]
    split
    · rename_i h; simp; omega
    · rw [Option.map_eq_none_iff, ih]; omega

/-- **What is found**: the block whose predecessors, together with the offset, make up the
position. -/
theorem locate_eq_some_iff {ns : List ℕ} {p k b : ℕ} :
    locate ns p = some (k, b) ↔ ∃ n, ns[k]? = some n ∧ b < n ∧ (ns.take k).sum + b = p := by
  induction ns generalizing p k with
  | nil => simp [locate]
  | cons n ns ih =>
    rw [locate]
    split
    · rename_i h
      cases k with
      | zero =>
        simp only [Option.some_inj, Prod.mk.injEq, List.getElem?_cons_zero, List.take_zero,
          List.sum_nil]
        constructor
        · rintro ⟨-, rfl⟩; exact ⟨n, rfl, h, by omega⟩
        · rintro ⟨m, rfl, hb, hp⟩; exact ⟨trivial, by omega⟩
      | succ k =>
        simp only [Option.some_inj, Prod.mk.injEq, List.take_succ_cons, List.sum_cons]
        constructor
        · rintro ⟨h0, -⟩; exact absurd h0 (by omega)
        · rintro ⟨m, -, -, hp⟩; omega
    · rename_i h
      cases k with
      | zero =>
        simp only [Option.map_eq_some_iff, Prod.mk.injEq, List.getElem?_cons_zero, List.take_zero,
          List.sum_nil]
        constructor
        · rintro ⟨q, -, hq, -⟩; omega
        · rintro ⟨m, hm, hb, hp⟩; cases hm; omega
      | succ k =>
        have hiff := @ih (p - n) k
        simp only [Option.map_eq_some_iff, Prod.mk.injEq, List.getElem?_cons_succ,
          List.take_succ_cons, List.sum_cons]
        constructor
        · rintro ⟨⟨k', b'⟩, hq, hk, rfl⟩
          obtain rfl : k' = k := by simpa using hk
          obtain ⟨m, hm, hb, hp⟩ := hiff.mp hq
          exact ⟨m, hm, hb, by omega⟩
        · rintro ⟨m, hm, hb, hp⟩
          exact ⟨(k, b), hiff.mpr ⟨m, hm, hb, by omega⟩, rfl, rfl⟩

/-- **Reading on from a position**: first the rest of its block, then the blocks after it. -/
theorem drop_flatten_of_locate {ls : List (List α)} {p k b : ℕ}
    (h : locate (ls.map List.length) p = some (k, b)) :
    ∃ l, ls[k]? = some l ∧ b < l.length ∧
      ls.flatten.drop p = l.drop b ++ (ls.drop (k + 1)).flatten := by
  obtain ⟨n, hn, hb, hp⟩ := locate_eq_some_iff.mp h
  rw [List.getElem?_map, Option.map_eq_some_iff] at hn
  obtain ⟨l, hl, rfl⟩ := hn
  refine ⟨l, hl, hb, ?_⟩
  have hsplit : ls = ls.take k ++ l :: ls.drop (k + 1) := by
    obtain ⟨hk, rfl⟩ := List.getElem?_eq_some_iff.mp hl
    rw [← List.drop_eq_getElem_cons hk, List.take_append_drop]
  have hlen : (ls.take k).flatten.length = ((ls.map List.length).take k).sum := by
    rw [List.length_flatten, List.map_take]
  calc ls.flatten.drop p
      = ((ls.take k).flatten ++ (l ++ (ls.drop (k + 1)).flatten)).drop
          ((ls.take k).flatten.length + b) := by
        rw [hlen, hp]; conv_lhs => rw [hsplit]
        rw [List.flatten_append, List.flatten_cons]
    _ = l.drop b ++ (ls.drop (k + 1)).flatten := by
        rw [List.drop_length_add_append, List.drop_append_of_le_length hb.le]

/-- The element `b` of block `k`, by its position in the whole. -/
theorem getElem?_flatten_add {ls : List (List α)} {k b : ℕ} {l : List α} (hl : ls[k]? = some l)
    (hb : b < l.length) : ls.flatten[(ls.take k).flatten.length + b]? = l[b]? := by
  have hloc : locate (ls.map List.length) ((ls.take k).flatten.length + b) = some (k, b) := by
    refine locate_eq_some_iff.mpr ⟨l.length, by rw [List.getElem?_map, hl]; rfl, hb, ?_⟩
    rw [← List.map_take, List.length_flatten]
  obtain ⟨l', hl', -, hdrop⟩ := drop_flatten_of_locate hloc
  obtain rfl : l' = l := Option.some.inj (hl'.symm.trans hl)
  have hne : l'.drop b ≠ [] := by
    rw [Ne, List.drop_eq_nil_iff]
    omega
  rw [← List.head?_drop, hdrop, List.head?_append_of_ne_nil _ hne, List.head?_drop]

/-- Blocks in front shift the position, and the index of the block it falls in. -/
theorem locate_append (ns ms : List ℕ) (p : ℕ) :
    locate (ns ++ ms) (ns.sum + p) = (locate ms p).map fun q ↦ (ns.length + q.1, q.2) := by
  induction ns with
  | nil => simp
  | cons n ns ih =>
    rw [List.cons_append, locate, if_neg (by rw [List.sum_cons]; omega), List.sum_cons,
      show n + ns.sum + p - n = ns.sum + p by omega, ih, Option.map_map, List.length_cons]
    congr 1
    funext q
    rw [Function.comp_apply, Prod.mk.injEq]
    exact ⟨by omega, rfl⟩

theorem length_flatten_take_mono {j k : ℕ} (h : j ≤ k) (ls : List (List α)) :
    (ls.take j).flatten.length ≤ (ls.take k).flatten.length :=
  (List.take_prefix_take_left h).flatten.length_le

/-- What is left of the block that position `p` falls in. -/
def restAt : List (List α) → ℕ → List α
  | [], _ => []
  | l :: ls, p => if p < l.length then l.drop p else restAt ls (p - l.length)

/-- It is what the position found says. -/
theorem restAt_eq (ls : List (List α)) (p : ℕ) :
    restAt ls p = match locate (ls.map List.length) p with
      | none => []
      | some (k, b) => ((ls[k]?).getD []).drop b := by
  induction ls generalizing p with
  | nil => rfl
  | cons l ls ih =>
    rw [restAt, List.map_cons, locate]
    split
    · rfl
    · rw [ih]
      cases locate (ls.map List.length) (p - l.length) with
      | none => rfl
      | some q => rfl

/-- **A stretch that stays inside the block it starts in crosses no boundary.** -/
theorem boundary_of_locate {ls : List (List α)} {p k b n : ℕ} {l : List α}
    (h : locate (ls.map List.length) p = some (k, b)) (hl : ls[k]? = some l)
    (hn : b + n ≤ l.length) (j : ℕ) :
    (ls.take j).flatten.length ≤ p ∨ p + n ≤ (ls.take j).flatten.length := by
  obtain ⟨-, -, -, hp⟩ := locate_eq_some_iff.mp h
  rw [← List.map_take, ← List.length_flatten] at hp
  rcases Nat.lt_or_ge k j with hkj | hjk
  · right
    have hmono := length_flatten_take_mono hkj ls
    rw [List.take_add_one, hl, Option.toList_some, List.flatten_append, List.length_append,
      List.flatten_singleton] at hmono
    omega
  · left
    have hmono := length_flatten_take_mono hjk ls
    omega

/-! ## The final items -/

theorem length_rtake (n : ℕ) (l : List α) : (l.rtake n).length = min l.length n := by
  rw [List.rtake, List.length_drop]
  omega

theorem rtake_of_length_le {n : ℕ} {l : List α} (h : l.length ≤ n) : l.rtake n = l := by
  rw [List.rtake, Nat.sub_eq_zero_of_le h, List.drop_zero]

theorem map_rtake {β : Type*} (f : α → β) (n : ℕ) (l : List α) :
    (l.rtake n).map f = (l.map f).rtake n := by
  rw [List.rtake, List.rtake, List.map_drop, List.length_map]

theorem rtake_rtake {m n : ℕ} (h : n ≤ m) (l : List α) : (l.rtake m).rtake n = l.rtake n := by
  rw [List.rtake, length_rtake, List.rtake, List.rtake, List.drop_drop]
  congr 1
  omega

/-- The final `n + 1` items are the one before the final `n`, and those. -/
theorem rtake_succ_of_lt {n : ℕ} {l : List α} (h : n < l.length) :
    ∃ a, l[l.length - (n + 1)]? = some a ∧ l.rtake (n + 1) = a :: l.rtake n := by
  have hlt : l.length - (n + 1) < l.length := by omega
  refine ⟨l[l.length - (n + 1)], List.getElem?_eq_getElem hlt, ?_⟩
  rw [List.rtake, List.drop_eq_getElem_cons hlt, List.rtake]
  congr 2
  omega

theorem mem_of_mem_rtake {n : ℕ} {l : List α} {a : α} (h : a ∈ l.rtake n) : a ∈ l :=
  List.mem_of_mem_drop h

/-- The blocks before the final `n`. -/
def evicted (n : ℕ) (ls : List (List α)) : List (List α) := ls.take (ls.length - n)

theorem evicted_append_rtake (n : ℕ) (ls : List (List α)) : evicted n ls ++ ls.rtake n = ls :=
  List.take_append_drop _ _

theorem getElem?_length_evicted_add (n k : ℕ) (ls : List (List α)) :
    ls[(evicted n ls).length + k]? = (ls.rtake n)[k]? := by
  rw [List.rtake, List.getElem?_drop, evicted, List.length_take, Nat.min_eq_left (Nat.sub_le ..)]

theorem evicted_prefix {n : ℕ} {ls ms : List (List α)} (h : ls <+: ms) :
    evicted n ls <+: evicted n ms := by
  obtain ⟨rest, rfl⟩ := h
  rw [evicted, evicted, List.take_append, List.length_append]
  refine (List.take_prefix_take_left (by omega)).trans (List.prefix_append ..)

end Concat
