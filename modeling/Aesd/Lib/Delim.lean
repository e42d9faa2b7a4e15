import Mathlib.Data.List.Basic
import Mathlib.Data.List.Induction

/-!
# Records assembled from chunks

Chunks of cells arrive one after another and are assembled into records: a record is complete when
a chunk says so, and until then its cells are pending.  `Delim.Log` is the state of that — the
records completed so far, in order, and the pending cells — and `Log.append` is the step.

The case that matters is the one where a chunk closes a record exactly when its own last cell is a
delimiter.  Then the records can be read off the chunks without running anything:
`Delim.Grouped` cuts a sequence of chunks into maximal runs in which only the last chunk ends in a
delimiter, `exists_grouped` says that it can always be done, and `foldl_add_of_grouped` says
that the log holds one record per run.

Then there is reading a record back: `Delim.firstRecord` is what comes up to and including the first
delimiter.  The last section is about the index of the first delimiter.
-/

set_option autoImplicit false

namespace Delim

universe u

variable {α : Type u}

/-- Does the chunk end in a delimiter? -/
def ends (isEnd : α → Bool) (c : List α) : Bool := c.getLast?.any isEnd

theorem ends_append {isEnd : α → Bool} (p : List α) {c : List α} (h : c ≠ []) :
    ends isEnd (p ++ c) = ends isEnd c := by
  rw [ends, ends, List.getLast?_append_of_ne_nil _ h]

theorem ends_of_none {isEnd : α → Bool} {c : List α} (h : ∀ a ∈ c, isEnd a = false) :
    ends isEnd c = false := by
  rw [ends]
  cases hlast : c.getLast? with
  | none => rfl
  | some a => exact h a (List.mem_of_getLast? hlast)

/-- For a chunk with at least one cell, the last cell of what is pending after it decides. -/
theorem isEnd_getLastD (isEnd : α → Bool) {c : List α} (h : c ≠ []) (x : α) :
    isEnd (c.getLastD x) = ends isEnd c := by
  rw [ends, List.getLastD_eq_getLast?, List.getLast?_eq_some_getLast h]
  rfl

/-! ## The log -/

/-- The records completed so far, and the cells of the unfinished one. -/
structure Log (α : Type u) where
  /-- The completed records, oldest first. -/
  completed : List (List α)
  /-- The cells of the record that is not complete yet. -/
  pending : List α

/-- One more chunk; `fin` says whether it completes the record. -/
def Log.append (s : Log α) (c : List α) (fin : Bool) : Log α :=
  if fin then ⟨s.completed ++ [s.pending ++ c], []⟩ else ⟨s.completed, s.pending ++ c⟩

/-- All the cells that ever arrived, in order. -/
def Log.cells (s : Log α) : List α := s.completed.flatten ++ s.pending

/-- **Nothing is lost or reordered**: a chunk is added at the end. -/
theorem Log.cells_append (s : Log α) (c : List α) (fin : Bool) :
    (s.append c fin).cells = s.cells ++ c := by
  cases fin <;> simp [Log.append, Log.cells]

/-! ## Cutting a sequence of chunks into runs -/

variable (isEnd : α → Bool)

/-- `cs` is the runs followed by the unfinished run `rest`; in a run only the last chunk ends in a
delimiter, and in `rest` none does. -/
structure Grouped (cs : List (List α)) (runs : List (List (List α))) (rest : List (List α)) :
    Prop where
  /-- The runs and the rest are the chunks, in order. -/
  concat : runs.flatten ++ rest = cs
  /-- Only the last chunk of a run ends in a delimiter. -/
  closed : ∀ r ∈ runs, ∃ init last, r = init ++ [last] ∧ (∀ c ∈ init, ends isEnd c = false) ∧
    ends isEnd last = true
  /-- No chunk of the unfinished run ends in a delimiter. -/
  opened : ∀ c ∈ rest, ends isEnd c = false

/-- Every sequence of chunks can be cut up. -/
theorem exists_grouped (cs : List (List α)) : ∃ runs rest, Grouped isEnd cs runs rest := by
  induction cs using List.reverseRecOn with
  | nil => exact ⟨[], [], rfl, by simp, by simp⟩
  | append_singleton cs c ih =>
    obtain ⟨runs, rest, hconcat, hclosed, hopened⟩ := ih
    cases hc : ends isEnd c with
    | true =>
      refine ⟨runs ++ [rest ++ [c]], [], by simp [← hconcat], ?_, by simp⟩
      intro r hr
      rcases List.mem_append.mp hr with hr | hr
      · exact hclosed r hr
      · exact ⟨rest, c, List.mem_singleton.mp hr, hopened, hc⟩
    | false =>
      refine ⟨runs, rest ++ [c], by simp [← hconcat], hclosed, ?_⟩
      intro d hd
      rcases List.mem_append.mp hd with hd | hd
      · exact hopened d hd
      · rw [List.mem_singleton.mp hd, hc]

/-- The step of a log whose records are closed by the chunks themselves. -/
def Log.add (s : Log α) (c : List α) : Log α := s.append c (ends isEnd c)

variable {isEnd}

/-- Chunks that do not end in a delimiter only pile up. -/
theorem foldl_add_of_opened (s : Log α) {cs : List (List α)}
    (h : ∀ c ∈ cs, ends isEnd c = false) :
    cs.foldl (Log.add isEnd) s = ⟨s.completed, s.pending ++ cs.flatten⟩ := by
  induction cs generalizing s with
  | nil => simp
  | cons c cs ih =>
    rw [List.foldl_cons, ih _ fun d hd ↦ h d (List.mem_cons_of_mem c hd), Log.add,
      h c List.mem_cons_self]
    simp [Log.append]

/-- **The log of a sequence of chunks**: one record per run, and the unfinished run pending. -/
theorem foldl_add_of_grouped {cs : List (List α)} {runs : List (List (List α))}
    {rest : List (List α)} (h : Grouped isEnd cs runs rest) {s : Log α} (hs : s.pending = []) :
    cs.foldl (Log.add isEnd) s = ⟨s.completed ++ runs.map List.flatten, rest.flatten⟩ := by
  obtain ⟨rfl, hclosed, hopened⟩ := h
  rw [List.foldl_append]
  induction runs generalizing s with
  | nil => simp [foldl_add_of_opened s hopened, hs]
  | cons r runs ih =>
    obtain ⟨init, last, rfl, hinit, hlast⟩ := hclosed r List.mem_cons_self
    have hrun : (init ++ [last]).foldl (Log.add isEnd) s =
        ⟨s.completed ++ [(init ++ [last]).flatten], []⟩ := by
      rw [List.foldl_append, foldl_add_of_opened s hinit, List.foldl_cons, List.foldl_nil, Log.add,
        hlast, hs]
      simp [Log.append]
    rw [List.flatten_cons, List.foldl_append, hrun,
      ih rfl fun r' hr' ↦ hclosed r' (List.mem_cons_of_mem _ hr')]
    simp

/-! ## Logs on top of each other, and other cells -/

@[simp] theorem Log.add_nil (s : Log α) : s.add isEnd [] = s := by
  simp [Log.add, Log.append, ends]

/-- A chunk may arrive in pieces, as long as a piece that is not the last one does not end in a
delimiter. -/
theorem Log.add_add (s : Log α) {a : List α} (h : ends isEnd a = false) (b : List α) :
    (s.add isEnd a).add isEnd b = s.add isEnd (a ++ b) := by
  rcases List.eq_nil_or_concat b with rfl | ⟨init, last, rfl⟩
  · simp
  · have hne : init.concat last ≠ [] := by simp
    rw [Log.add, Log.add, Log.add, h, ends_append a hne]
    cases ends isEnd (init.concat last) <;> simp [Log.append]

/-- The log with earlier records before it. -/
def Log.after (s : Log α) (rs : List (List α)) : Log α := ⟨rs ++ s.completed, s.pending⟩

theorem Log.add_after (s : Log α) (rs : List (List α)) (c : List α) :
    (s.after rs).add isEnd c = (s.add isEnd c).after rs := by
  rw [Log.add, Log.add, Log.append, Log.append]
  split <;> simp [Log.after]

/-- The same log with other cells. -/
def Log.map {β : Type*} (f : β → α) (s : Log β) : Log α :=
  ⟨s.completed.map (List.map f), s.pending.map f⟩

theorem ends_map {β : Type*} (f : β → α) (c : List β) :
    ends isEnd (c.map f) = ends (fun b ↦ isEnd (f b)) c := by
  rw [ends, ends, List.getLast?_map, Option.any_map]

theorem Log.map_add {β : Type*} (f : β → α) (s : Log β) (c : List β) :
    (s.map f).add isEnd (c.map f) = (s.add (fun b ↦ isEnd (f b)) c).map f := by
  rw [Log.add, Log.add, Log.append, Log.append, ends_map]
  split <;> simp [Log.map]

/-! ## The first record of a sequence -/

variable (isEnd) in
/-- The cells up to and including the first delimiter; all of them if there is none. -/
def firstRecord : List α → List α
  | [] => []
  | a :: as => if isEnd a then [a] else a :: firstRecord as

theorem firstRecord_prefix (as : List α) : firstRecord isEnd as <+: as := by
  induction as with
  | nil => exact List.prefix_refl _
  | cons a as ih =>
    rw [firstRecord]
    split
    · exact ⟨as, rfl⟩
    · exact List.prefix_cons_inj a |>.mpr ih

theorem firstRecord_ne_nil {as : List α} (h : as ≠ []) : firstRecord isEnd as ≠ [] := by
  cases as with
  | nil => exact absurd rfl h
  | cons a as =>
    rw [firstRecord]
    split <;> simp

theorem firstRecord_append_of_none {as : List α} (h : ∀ a ∈ as, isEnd a = false) (bs : List α) :
    firstRecord isEnd (as ++ bs) = as ++ firstRecord isEnd bs := by
  induction as with
  | nil => rfl
  | cons a as ih =>
    rw [List.cons_append, firstRecord, h a List.mem_cons_self,
      ih fun b hb ↦ h b (List.mem_cons_of_mem a hb)]
    rfl

theorem firstRecord_of_none {as : List α} (h : ∀ a ∈ as, isEnd a = false) :
    firstRecord isEnd as = as := by
  simpa [firstRecord] using firstRecord_append_of_none h []

/-- With a delimiter in sight, what follows does not matter. -/
theorem firstRecord_append_of_exists {as : List α} (h : ∃ a ∈ as, isEnd a = true) (bs : List α) :
    firstRecord isEnd (as ++ bs) = firstRecord isEnd as := by
  induction as with
  | nil => obtain ⟨a, ha, -⟩ := h; cases ha
  | cons a as ih =>
    rw [List.cons_append, firstRecord, firstRecord]
    split
    · rfl
    · rename_i hna
      rw [ih]
      obtain ⟨b, hb, hend⟩ := h
      rcases List.mem_cons.mp hb with rfl | hb
      · exact absurd hend hna
      · exact ⟨b, hb, hend⟩

/-- **Its only delimiter is its last cell.** -/
theorem firstRecord_of_exists {as : List α} (h : ∃ a ∈ as, isEnd a = true) :
    ∃ init last, firstRecord isEnd as = init ++ [last] ∧ (∀ a ∈ init, isEnd a = false) ∧
      isEnd last = true := by
  induction as with
  | nil => obtain ⟨a, ha, -⟩ := h; cases ha
  | cons a as ih =>
    rw [firstRecord]
    cases ha : isEnd a with
    | true => exact ⟨[], a, by simp, by simp, ha⟩
    | false =>
      obtain ⟨init, last, heq, hinit, hlast⟩ := ih (by simpa [ha] using h)
      refine ⟨a :: init, last, by simp [heq], ?_, hlast⟩
      intro b hb
      rcases List.mem_cons.mp hb with rfl | hb
      · exact ha
      · exact hinit b hb

/-! ## The index of the first delimiter -/

/-- A run of cells ends at a cell that does not belong to it. -/
theorem length_takeWhile_le {p : α → Bool} {as : List α} {i : ℕ} {a : α} (h : as[i]? = some a)
    (ha : p a = false) : (as.takeWhile p).length ≤ i := by
  induction as generalizing i with
  | nil => exact Nat.zero_le _
  | cons b as ih =>
    rw [List.takeWhile_cons]
    split
    · rename_i hb
      cases i with
      | zero =>
        obtain rfl : b = a := by simpa using h
        exact absurd (hb.symm.trans ha) (by simp)
      | succ i => exact Nat.succ_le_succ (ih (by simpa using h))
    · exact Nat.zero_le _

theorem findIdx?_append_cons {as bs : List α} {a : α} (has : ∀ b ∈ as, isEnd b = false)
    (ha : isEnd a = true) : (as ++ a :: bs).findIdx? isEnd = some as.length := by
  have hnone : as.findIdx? isEnd = none := List.findIdx?_eq_none_iff.mpr has
  rw [List.findIdx?_append, hnone, List.findIdx?_cons, if_pos ha]
  simp

/-- It cuts the list in two. -/
theorem exists_of_findIdx? {as : List α} {k : ℕ} (h : as.findIdx? isEnd = some k) :
    ∃ xs a ys, as = xs ++ a :: ys ∧ (∀ b ∈ xs, isEnd b = false) ∧ isEnd a = true ∧
      xs.length = k := by
  induction as generalizing k with
  | nil => exact absurd h (by simp)
  | cons a as ih =>
    rw [List.findIdx?_cons] at h
    split at h
    · rename_i ha
      exact ⟨[], a, as, rfl, by simp, ha, Option.some.inj h⟩
    · rename_i ha
      obtain ⟨j, hj, rfl⟩ := Option.map_eq_some_iff.mp h
      obtain ⟨xs, b, ys, rfl, hxs, hb, rfl⟩ := ih hj
      refine ⟨a :: xs, b, ys, rfl, ?_, hb, rfl⟩
      intro c hc
      rcases List.mem_cons.mp hc with rfl | hc
      · simpa using ha
      · exact hxs c hc

end Delim
