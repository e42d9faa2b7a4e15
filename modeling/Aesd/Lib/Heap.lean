import Mathlib.Data.List.Basic
import Mathlib.Logic.Function.Basic

/-!
# A heap of blocks

A `Heap β` maps pointers to the contents of the live block there.  A pointer is the identity of a
block rather than a machine address: it is handed out once and never again, so a block that is
freed twice shows up as such even if an allocator would have reused its address.  Pointer `0` is
the null pointer; that it is never live, and that no block is live that was not handed out, are
fields of the structure.

A block goes away in two ways: its owner frees it, which is recorded in `Heap.frees`, or it is
released because its contents have moved to another block.  Either way, a pointer that is not live
at that moment is recorded in `Heap.badFrees`, so "nothing is ever freed twice" is the statement
that this list stays empty.  `Heap.freeAll` frees a list of pointers in order, and
`badFrees_freeAll` says when that is harmless: the non-null ones have to be live and pairwise
distinct.  `Heap.Accounted` is what a heap keeps whose blocks are only ever freed while they are
live: every block that has been handed out is live or has been freed exactly once.  `Heap.Single` is
the special case of a user who has one block at a time.

The last section has the two edits of a block of cells that are needed: writing a run of cells
into it (`Block.splice`) and changing its length (`Block.resize`).
-/

set_option autoImplicit false

universe u

/-- Live blocks with contents in `β`, by pointer. -/
structure Heap (β : Type u) where
  /-- The pointer the next block will get. -/
  next : ℕ
  /-- The contents of the live blocks. -/
  block : ℕ → Option β
  /-- The pointers freed so far, the latest first. -/
  frees : List ℕ
  /-- The pointers that were freed or released while they were not live. -/
  badFrees : List ℕ
  /-- The null pointer is not live. -/
  block_null : block 0 = none
  /-- A pointer that was not handed out yet is not live. -/
  block_fresh : ∀ p, next ≤ p → block p = none
  /-- The null pointer is never handed out. -/
  next_pos : 0 < next

namespace Heap

variable {β : Type u}

/-- The heap with no blocks. -/
def empty : Heap β where
  next := 1
  block _ := none
  frees := []
  badFrees := []
  block_null := rfl
  block_fresh _ _ := rfl
  next_pos := Nat.one_pos

@[simp] theorem block_empty (p : ℕ) : (empty : Heap β).block p = none := rfl

@[simp] theorem badFrees_empty : (empty : Heap β).badFrees = [] := rfl

/-- A block that is live has been handed out. -/
theorem lt_next {h : Heap β} {p : ℕ} {b : β} (hp : h.block p = some b) : p < h.next := by
  by_contra hge
  rw [h.block_fresh p (Nat.le_of_not_lt hge)] at hp
  exact absurd hp (by simp)

theorem ne_null {h : Heap β} {p : ℕ} {b : β} (hp : h.block p = some b) : p ≠ 0 := by
  rintro rfl
  rw [h.block_null] at hp
  exact absurd hp (by simp)

/-! ## The operations -/

/-- A new block with contents `b`, at pointer `h.next`. -/
def alloc (h : Heap β) (b : β) : Heap β where
  next := h.next + 1
  block := Function.update h.block h.next (some b)
  frees := h.frees
  badFrees := h.badFrees
  block_null := by
    rw [Function.update_of_ne (Nat.ne_of_lt h.next_pos)]
    exact h.block_null
  block_fresh p hp := by
    rw [Function.update_of_ne (by omega)]
    exact h.block_fresh p (by omega)
  next_pos := Nat.succ_pos _

/-- New contents for the block at `p`, if it is live. -/
def put (h : Heap β) (p : ℕ) (b : β) : Heap β where
  next := h.next
  block q := if q = p then (h.block p).map fun _ ↦ b else h.block q
  frees := h.frees
  badFrees := h.badFrees
  block_null := by
    split
    · rename_i he; rw [← he, h.block_null, Option.map_none]
    · exact h.block_null
  block_fresh q hq := by
    split
    · rename_i he; rw [← he, h.block_fresh q hq, Option.map_none]
    · exact h.block_fresh q hq
  next_pos := h.next_pos

/-- The block at `p` goes away; the null pointer is ignored. -/
def release (h : Heap β) (p : ℕ) : Heap β where
  next := h.next
  block := Function.update h.block p none
  frees := h.frees
  badFrees := if p = 0 ∨ (h.block p).isSome then h.badFrees else p :: h.badFrees
  block_null := by
    by_cases hp : 0 = p
    · rw [hp, Function.update_self]
    · rw [Function.update_of_ne hp]; exact h.block_null
  block_fresh q hq := by
    by_cases hp : q = p
    · rw [hp, Function.update_self]
    · rw [Function.update_of_ne hp]; exact h.block_fresh q hq
  next_pos := h.next_pos

/-- The owner frees the block at `p`; the null pointer is ignored. -/
def free (h : Heap β) (p : ℕ) : Heap β :=
  { h.release p with frees := if p = 0 then h.frees else p :: h.frees }

@[simp] theorem block_alloc (h : Heap β) (b : β) (q : ℕ) :
    (h.alloc b).block q = if q = h.next then some b else h.block q :=
  Function.update_apply ..

@[simp] theorem block_put (h : Heap β) (p : ℕ) (b : β) (q : ℕ) :
    (h.put p b).block q = if q = p then (h.block p).map fun _ ↦ b else h.block q := rfl

@[simp] theorem block_release (h : Heap β) (p q : ℕ) :
    (h.release p).block q = if q = p then none else h.block q :=
  Function.update_apply ..

@[simp] theorem block_free (h : Heap β) (p q : ℕ) :
    (h.free p).block q = if q = p then none else h.block q :=
  Function.update_apply ..

@[simp] theorem badFrees_alloc (h : Heap β) (b : β) : (h.alloc b).badFrees = h.badFrees := rfl

@[simp] theorem badFrees_put (h : Heap β) (p : ℕ) (b : β) :
    (h.put p b).badFrees = h.badFrees := rfl

theorem badFrees_release {h : Heap β} {p : ℕ} (hp : p = 0 ∨ (h.block p).isSome) :
    (h.release p).badFrees = h.badFrees := if_pos hp

theorem badFrees_free {h : Heap β} {p : ℕ} (hp : p = 0 ∨ (h.block p).isSome) :
    (h.free p).badFrees = h.badFrees := if_pos hp

theorem frees_free {h : Heap β} {p : ℕ} (hp : p ≠ 0) : (h.free p).frees = p :: h.frees := if_neg hp

/-- Freeing the null pointer does nothing. -/
theorem free_null (h : Heap β) : h.free 0 = h := by
  have hblock : Function.update h.block 0 none = h.block := by
    conv_lhs => rw [← h.block_null, Function.update_eq_self]
  simp only [free, release, hblock, if_true, true_or]

/-! ## Freeing many blocks -/

/-- Free the pointers of a list, in order. -/
def freeAll (h : Heap β) (ps : List ℕ) : Heap β := ps.foldl free h

@[simp] theorem block_freeAll (h : Heap β) (ps : List ℕ) (q : ℕ) :
    (h.freeAll ps).block q = if q ∈ ps then none else h.block q := by
  induction ps generalizing h with
  | nil => simp [freeAll]
  | cons p ps ih =>
    have hstep := ih (h.free p)
    rw [freeAll] at hstep ⊢
    rw [List.foldl_cons, hstep, block_free]
    by_cases hmem : q ∈ ps
    · simp [hmem]
    · by_cases hq : q = p <;> simp [hq, hmem]

/-- **Freeing live, pairwise distinct blocks frees nothing twice.**  Null pointers may occur among
them, any number of times. -/
theorem badFrees_freeAll {h : Heap β} {ps : List ℕ}
    (hlive : ∀ p ∈ ps, p ≠ 0 → (h.block p).isSome)
    (hdist : ps.Pairwise fun p q ↦ p ≠ 0 → p ≠ q) : (h.freeAll ps).badFrees = h.badFrees := by
  induction ps generalizing h with
  | nil => rfl
  | cons p ps ih =>
    obtain ⟨hp, hps⟩ := List.pairwise_cons.mp hdist
    rw [freeAll, List.foldl_cons]
    have hfirst : (h.free p).badFrees = h.badFrees :=
      badFrees_free ((eq_or_ne p 0).imp_right (hlive p List.mem_cons_self))
    refine (ih ?_ hps).trans hfirst
    intro q hq hq0
    have hne : q ≠ p := by
      rintro rfl
      exact hp q hq hq0 rfl
    rw [block_free, if_neg hne]
    exact hlive q (List.mem_cons_of_mem p hq) hq0

/-! ## Accounts -/

/-- Every block that has been handed out is live or has been freed, once. -/
def Accounted (h : Heap β) : Prop :=
  ∀ p, p ≠ 0 → h.frees.count p = if p < h.next ∧ h.block p = none then 1 else 0

theorem accounted_empty : (empty : Heap β).Accounted := by
  intro p hp
  have hne : ¬p < 1 := by omega
  simp [empty, hne]

theorem Accounted.alloc {h : Heap β} (ha : h.Accounted) (b : β) : (h.alloc b).Accounted := by
  intro p hp
  have hcount : (h.alloc b).frees.count p = _ := ha p hp
  rw [hcount, block_alloc]
  by_cases he : p = h.next
  · simp [he]
  · have hlt : p < (h.alloc b).next ↔ p < h.next := by
      change p < h.next + 1 ↔ _
      omega
    simp only [if_neg he, hlt]

theorem Accounted.put {h : Heap β} (ha : h.Accounted) (p : ℕ) (b : β) : (h.put p b).Accounted := by
  intro q hq
  have hcount : (h.put p b).frees.count q = _ := ha q hq
  have hnext : (h.put p b).next = h.next := rfl
  have hdead : (h.put p b).block q = none ↔ h.block q = none := by
    rw [block_put]
    split
    · rename_i he
      rw [he, Option.map_eq_none_iff]
    · exact Iff.rfl
  simp only [hcount, hnext, hdead]

/-- A live block may be freed. -/
theorem Accounted.free {h : Heap β} (ha : h.Accounted) {p : ℕ} {b : β} (hp : h.block p = some b) :
    (h.free p).Accounted := by
  intro q hq
  have hnext : (h.free p).next = h.next := rfl
  rw [frees_free (ne_null hp), block_free, hnext, List.count_cons, ha q hq]
  by_cases he : q = p
  · subst he
    simp [hp, lt_next hp]
  · simp [he, Ne.symm he]

/-- A pointer that has been handed out and is dead has been freed once. -/
theorem Accounted.count_of_dead {h : Heap β} (ha : h.Accounted) {p : ℕ} (h0 : p ≠ 0)
    (hlt : p < h.next) (hdead : h.block p = none) : h.frees.count p = 1 := by
  rw [ha p h0, if_pos ⟨hlt, hdead⟩]

/-- No pointer has been freed twice. -/
theorem Accounted.count_le {h : Heap β} (ha : h.Accounted) {p : ℕ} (h0 : p ≠ 0) :
    h.frees.count p ≤ 1 := by
  rw [ha p h0]
  split <;> omega

/-! ## One block at a time -/

/-- The heap has one live block, `held`, or none, and is in order otherwise. -/
structure Single (h : Heap β) (held : Option ℕ) : Prop where
  /-- Nothing else is live. -/
  live : ∀ p, (h.block p).isSome ↔ held = some p
  /-- Every other block has been freed once. -/
  accounted : h.Accounted
  /-- No dead block has been freed. -/
  badFrees : h.badFrees = []

theorem single_empty : (empty : Heap β).Single none where
  live p := by simp
  accounted := accounted_empty
  badFrees := rfl

theorem Single.block_eq_none {h : Heap β} (hs : h.Single none) (p : ℕ) : h.block p = none := by
  rw [← Option.not_isSome_iff_eq_none, hs.live]
  exact nofun

theorem Single.isSome {h : Heap β} {p : ℕ} (hs : h.Single (some p)) : (h.block p).isSome :=
  (hs.live p).mpr rfl

theorem Single.ne_null {h : Heap β} {p : ℕ} (hs : h.Single (some p)) : p ≠ 0 := by
  obtain ⟨b, hb⟩ := Option.isSome_iff_exists.mp hs.isSome
  exact Heap.ne_null hb

theorem Single.alloc {h : Heap β} (hs : h.Single none) (b : β) :
    (h.alloc b).Single (some h.next) where
  live p := by
    rw [block_alloc, hs.block_eq_none p, Option.some_inj]
    split
    · rename_i he
      simp [he]
    · rename_i hne
      simp [Ne.symm hne]
  accounted := hs.accounted.alloc b
  badFrees := hs.badFrees

theorem Single.free {h : Heap β} {p : ℕ} (hs : h.Single (some p)) : (h.free p).Single none := by
  obtain ⟨b, hb⟩ := Option.isSome_iff_exists.mp hs.isSome
  refine ⟨fun q ↦ ?_, hs.accounted.free hb, ?_⟩
  · rw [block_free]
    split
    · simp
    · rename_i hne
      rw [hs.live, Option.some_inj]
      simp [Ne.symm hne]
  · rw [badFrees_free (.inr hs.isSome), hs.badFrees]

end Heap

/-! ## Blocks of cells -/

namespace Block

variable {α : Type u}

/-- Write `bs` into the block, starting at cell `off`. -/
def splice (blk : List α) (off : ℕ) (bs : List α) : List α :=
  blk.take off ++ (bs ++ blk.drop (off + bs.length))

theorem length_splice {blk : List α} {off : ℕ} {bs : List α} (h : off + bs.length ≤ blk.length) :
    (splice blk off bs).length = blk.length := by
  simp only [splice, List.length_append, List.length_take, List.length_drop]
  omega

/-- What was stored is found where it was put. -/
theorem getElem?_splice {blk bs : List α} {off i : ℕ} (h : off ≤ blk.length) (hi : i < bs.length) :
    (splice blk off bs)[off + i]? = bs[i]? := by
  have hlen : (blk.take off).length = off := by rw [List.length_take]; omega
  rw [splice, List.getElem?_append_right (by omega), hlen, Nat.add_sub_cancel_left,
    List.getElem?_append_left hi]

/-- The cells before the ones written are as they were. -/
theorem take_splice {blk : List α} {off k : ℕ} (bs : List α) (hk : k ≤ off)
    (h : off ≤ blk.length) : (splice blk off bs).take k = blk.take k := by
  rw [splice, List.take_append_of_le_length (by rw [List.length_take]; omega), List.take_take,
    Nat.min_eq_left hk]

/-- Up to the last cell written: the old cells, then the new ones. -/
theorem take_splice_add {blk : List α} {off : ℕ} (bs : List α) (h : off ≤ blk.length) :
    (splice blk off bs).take (off + bs.length) = blk.take off ++ bs := by
  have hlen : (blk.take off).length = off := by rw [List.length_take]; omega
  rw [splice, List.take_append, hlen, Nat.add_sub_cancel_left, List.take_left,
    List.take_of_length_le (by omega)]

/-- The block with `n` cells: those it has, then what `fill` puts into the new ones. -/
def resize (blk : List α) (n : ℕ) (fill : ℕ → α) : List α :=
  blk.take n ++ (List.range' blk.length (n - blk.length)).map fill

@[simp] theorem length_resize (blk : List α) (n : ℕ) (fill : ℕ → α) :
    (resize blk n fill).length = n := by
  simp only [resize, List.length_append, List.length_take, List.length_map, List.length_range']
  omega

/-- Growing a block keeps the cells it has. -/
theorem take_resize {blk : List α} {n k : ℕ} (fill : ℕ → α) (hk : k ≤ blk.length) (hn : k ≤ n) :
    (resize blk n fill).take k = blk.take k := by
  rw [resize, List.take_append_of_le_length (by rw [List.length_take]; omega), List.take_take,
    Nat.min_eq_left hn]

end Block
