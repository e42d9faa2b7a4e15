import Mathlib.Data.List.Nodup
import Mathlib.Logic.Function.Basic

/-!
# Singly linked lists in memory

A node is a pointer of some type `π`, and `next : π → Option π` is what the memory has in the link
of each: nothing where there is no node, and `null` at the end of a list.  `Seg null next p xs q`
says that following the links from `p` goes through the nodes `xs` and arrives at `q`; a whole list
is a segment that arrives at `null`.

A segment is determined by where it starts, so a whole list has no node twice (`Seg.nodup`).  The
operations are changes of one link, and what they do to the list is said by one lemma each:
`Seg.insertHead`, `Seg.removeHead` and `Seg.removeAfter`.  `Seg.update_of_notMem` is the frame rule:
a link outside of a segment is none of its business.
-/

set_option autoImplicit false

namespace SList

universe u

variable {π : Type u} {null : π} {next : π → Option π}

/-- Following the links from `p` goes through the nodes `xs` and arrives at `q`. -/
def Seg (null : π) (next : π → Option π) : π → List π → π → Prop
  | p, [], q => p = q
  | p, x :: xs, q => p = x ∧ x ≠ null ∧ ∃ r, next x = some r ∧ Seg null next r xs q

@[simp] theorem seg_nil {p q : π} : Seg null next p [] q ↔ p = q := Iff.rfl

@[simp] theorem seg_cons {p x q : π} {xs : List π} : Seg null next p (x :: xs) q ↔
    p = x ∧ x ≠ null ∧ ∃ r, next x = some r ∧ Seg null next r xs q := Iff.rfl

theorem seg_append {p q : π} {xs ys : List π} : Seg null next p (xs ++ ys) q ↔
    ∃ r, Seg null next p xs r ∧ Seg null next r ys q := by
  induction xs generalizing p with
  | nil => simp
  | cons x xs ih =>
    simp only [List.cons_append, seg_cons, ih]
    constructor
    · rintro ⟨rfl, hne, r, hr, m, hm, hq⟩
      exact ⟨m, ⟨rfl, hne, r, hr, hm⟩, hq⟩
    · rintro ⟨m, ⟨rfl, hne, r, hr, hm⟩, hq⟩
      exact ⟨rfl, hne, r, hr, m, hm, hq⟩

/-- A whole list that starts at `null` is empty. -/
theorem Seg.eq_nil {xs : List π} (h : Seg null next null xs null) : xs = [] := by
  cases xs with
  | nil => rfl
  | cons x xs => exact absurd h.1.symm h.2.1

/-- A whole list that does not start at `null` starts with a node. -/
theorem Seg.exists_cons {p : π} {xs : List π} (h : Seg null next p xs null) (hp : p ≠ null) :
    ∃ ys r, xs = p :: ys ∧ next p = some r ∧ Seg null next r ys null := by
  cases xs with
  | nil => exact absurd h hp
  | cons x xs =>
    obtain ⟨rfl, -, r, hr, hseg⟩ := h
    exact ⟨xs, r, rfl, hr, hseg⟩

/-- Two whole lists that start at the same node are the same. -/
theorem Seg.unique {p : π} {xs ys : List π} (hx : Seg null next p xs null)
    (hy : Seg null next p ys null) : xs = ys := by
  induction xs generalizing p ys with
  | nil =>
    rw [seg_nil] at hx
    exact (Seg.eq_nil (hx ▸ hy)).symm
  | cons x xs ih =>
    obtain ⟨rfl, hne, r, hr, hseg⟩ := hx
    obtain ⟨zs, r', rfl, hr', hseg'⟩ := hy.exists_cons hne
    obtain rfl : r = r' := Option.some.inj (hr.symm.trans hr')
    rw [ih hseg hseg']

/-- A whole list has no node twice: the rest of it after either occurrence would be the same. -/
theorem Seg.nodup {p : π} {xs : List π} (h : Seg null next p xs null) : xs.Nodup := by
  induction xs generalizing p with
  | nil => exact List.nodup_nil
  | cons x xs ih =>
    have hwhole := h
    obtain ⟨rfl, hne, r, hr, hseg⟩ := h
    refine List.nodup_cons.mpr ⟨?_, ih hseg⟩
    intro hmem
    obtain ⟨as, bs, rfl⟩ := List.append_of_mem hmem
    obtain ⟨m, -, hm⟩ := seg_append.mp hseg
    obtain rfl : m = p := hm.1
    have heq := congrArg List.length (hwhole.unique hm)
    simp only [List.length_cons, List.length_append] at heq
    omega

theorem Seg.ne_null {p q : π} {xs : List π} (h : Seg null next p xs q) {x : π} (hx : x ∈ xs) :
    x ≠ null := by
  induction xs generalizing p with
  | nil => exact absurd hx List.not_mem_nil
  | cons y ys ih =>
    obtain ⟨-, hne, r, -, hseg⟩ := h
    rcases List.mem_cons.mp hx with rfl | hx
    · exact hne
    · exact ih hseg hx

/-- Every node has a link. -/
theorem Seg.exists_link {p q : π} {xs : List π} (h : Seg null next p xs q) {x : π} (hx : x ∈ xs) :
    ∃ r, next x = some r := by
  induction xs generalizing p with
  | nil => exact absurd hx List.not_mem_nil
  | cons y ys ih =>
    obtain ⟨-, -, r, hr, hseg⟩ := h
    rcases List.mem_cons.mp hx with rfl | hx
    · exact ⟨r, hr⟩
    · exact ih hseg hx

/-- The link in the middle of a list. -/
theorem Seg.link_mid {p q c : π} {xs ys : List π} (h : Seg null next p (xs ++ c :: ys) q) :
    ∃ r, next c = some r ∧ Seg null next r ys q := by
  obtain ⟨m, -, rfl, -, r, hr, hys⟩ := seg_append.mp h
  exact ⟨r, hr, hys⟩

/-- Only the links of its own nodes matter. -/
theorem Seg.congr {next' : π → Option π} {p q : π} {xs : List π} (h : Seg null next p xs q)
    (heq : ∀ x ∈ xs, next' x = next x) : Seg null next' p xs q := by
  induction xs generalizing p with
  | nil => exact h
  | cons x xs ih =>
    obtain ⟨rfl, hne, r, hr, hseg⟩ := h
    refine ⟨rfl, hne, r, (heq p List.mem_cons_self).trans hr, ih hseg ?_⟩
    intro y hy
    exact heq y (List.mem_cons_of_mem p hy)

/-- The list without its first node begins where its link points. -/
theorem Seg.removeHead {p a : π} {xs : List π} (h : Seg null next p (a :: xs) null) :
    ∃ r, next a = some r ∧ Seg null next r xs null := h.2.2

variable [DecidableEq π]

/-- A link outside of a segment can change. -/
theorem Seg.update_of_notMem {p q a : π} {xs : List π} (h : Seg null next p xs q) (ha : a ∉ xs)
    (r : Option π) : Seg null (Function.update next a r) p xs q := by
  refine h.congr ?_
  intro x hx
  have hxa : x ≠ a := fun he ↦ ha (he ▸ hx)
  exact Function.update_of_ne hxa r next

/-- The link of a new node is made to point at the first one. -/
theorem Seg.insertHead {p a : π} {xs : List π} (h : Seg null next p xs null) (hne : a ≠ null)
    (ha : a ∉ xs) : Seg null (Function.update next a (some p)) a (a :: xs) null :=
  ⟨rfl, hne, p, Function.update_self .., h.update_of_notMem ha _⟩

/-- The link of a node is made to point where that of the following node points. -/
theorem Seg.removeAfter {p c a r : π} {xs ys : List π}
    (h : Seg null next p (xs ++ c :: a :: ys) null) (hr : next a = some r) :
    Seg null (Function.update next c (some r)) p (xs ++ c :: ys) null := by
  have hnodup := h.nodup
  rw [List.nodup_append, List.nodup_cons, List.nodup_cons] at hnodup
  obtain ⟨-, ⟨hc, -⟩, hxs⟩ := hnodup
  obtain ⟨m, hm, hrest⟩ := seg_append.mp h
  obtain ⟨rfl, hne, r₁, -, -, -, r₂, hr₂, hys⟩ := hrest
  obtain rfl : r = r₂ := Option.some.inj (hr.symm.trans hr₂)
  refine seg_append.mpr ⟨m, hm.update_of_notMem ?_ _, rfl, hne, r, Function.update_self .., ?_⟩
  · intro hmem
    exact hxs m hmem m List.mem_cons_self rfl
  · exact hys.update_of_notMem (fun hmem ↦ hc (List.mem_cons_of_mem a hmem)) _

end SList
