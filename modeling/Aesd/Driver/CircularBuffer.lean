import Aesd.Lib.Concat
import Aesd.Lib.Ring

/-!
# The circular buffer

`aesd-circular-buffer.c`: an array of ten entries, an index where the next one goes, an index of
the oldest one, and a flag that says the array has filled up.  The definitions follow the C code;
the two `uint8_t` indices are natural numbers with the increment taken modulo `2 ^ 8`, and a
pointer to an entry is the index of its slot.

`Built b hist` says that `b` is what `aesd_circular_buffer_init` followed by adding the entries
`hist` in order leaves behind: it is `Ring.Tracks` for the array, and the values of the three
other fields in terms of the number of entries added.  The two operations are then read through
it.

* `Built.addEntry`: adding an entry extends the history, and what is returned is the pointer of the
  entry written ten entries earlier, or null.
* `Built.entries_eq`: walking the slots from `out_offs` finds the last ten entries, oldest first.
* `findEntryOffsetForFpos_eq`: the lookup is `Concat.locate` on the sizes along that walk.

The two sections at the end follow whole sequences of additions from the empty buffer: what the
lookup finds then, with its `size_t` arithmetic and its out parameter (`lookup_addEntries`), and
what pointers the additions have returned (`addEntries_returns`).
-/

set_option autoImplicit false

namespace Aesd

/-- `AESDCHAR_MAX_WRITE_OPERATIONS_SUPPORTED`: the number of slots. -/
def maxWriteOperationsSupported : ℕ := 10

/-- `struct aesd_buffer_entry`. -/
structure AesdBufferEntry where
  /-- The block the bytes are in. -/
  buffptr : ℕ
  /-- The number of bytes. -/
  size : ℕ
  deriving DecidableEq, Repr

/-- `struct aesd_circular_buffer`. -/
structure AesdCircularBuffer where
  /-- The slots. -/
  entry : ℕ → AesdBufferEntry
  /-- The slot the next entry goes to. -/
  inOffs : ℕ
  /-- The slot of the oldest entry. -/
  outOffs : ℕ
  /-- All the slots are in use. -/
  full : Bool

namespace AesdCircularBuffer

/-- `aesd_circular_buffer_init`: everything zero. -/
def init : AesdCircularBuffer := ⟨fun _ ↦ ⟨0, 0⟩, 0, 0, false⟩

/-- The number of entries `aesd_circular_buffer_find_entry_offset_for_fpos` looks at. -/
def entryCount (b : AesdCircularBuffer) : ℕ :=
  if b.full then maxWriteOperationsSupported else b.inOffs

/-- The loop of `aesd_circular_buffer_find_entry_offset_for_fpos`, at index `i` with the given
number of iterations left. -/
def findLoop (b : AesdCircularBuffer) : ℕ → ℕ → ℕ → Option (ℕ × ℕ)
  | 0, _, _ => none
  | left + 1, i, charOffset =>
    let slot := (b.outOffs + i) % maxWriteOperationsSupported
    if charOffset < (b.entry slot).size then some (slot, charOffset)
    else b.findLoop left (i + 1) (charOffset - (b.entry slot).size)

/-- `aesd_circular_buffer_find_entry_offset_for_fpos`: the slot and `*entry_offset_byte_rtn`, or
nothing. -/
def findEntryOffsetForFpos (b : AesdCircularBuffer) (charOffset : ℕ) : Option (ℕ × ℕ) :=
  b.findLoop b.entryCount 0 charOffset

/-- `aesd_circular_buffer_add_entry`: the buffer afterwards, and the pointer returned. -/
def addEntry (b : AesdCircularBuffer) (addEntry : AesdBufferEntry) : AesdCircularBuffer × ℕ :=
  let rptr := (b.entry b.inOffs).buffptr
  let entry := Function.update b.entry b.inOffs addEntry
  let bumped := (b.inOffs + 1) % 2 ^ 8
  let full := b.full || bumped == maxWriteOperationsSupported
  let inOffs := if bumped = maxWriteOperationsSupported then 0 else bumped
  let outOffs := if full then inOffs else b.outOffs
  (⟨entry, inOffs, outOffs, full⟩, rptr)

/-- The entries in the order the lookup walks them. -/
def entries (b : AesdCircularBuffer) : List AesdBufferEntry :=
  (List.range b.entryCount).map fun i ↦ b.entry ((b.outOffs + i) % maxWriteOperationsSupported)

/-! ## The lookup -/

theorem findLoop_eq (b : AesdCircularBuffer) (left i charOffset : ℕ) :
    b.findLoop left i charOffset =
      (Concat.locate ((List.range' i left).map fun j ↦
          (b.entry ((b.outOffs + j) % maxWriteOperationsSupported)).size) charOffset).map
        fun q ↦ ((b.outOffs + (i + q.1)) % maxWriteOperationsSupported, q.2) := by
  induction left generalizing i charOffset with
  | zero => rfl
  | succ left ih =>
    rw [findLoop, List.range'_succ, List.map_cons, Concat.locate]
    split
    · rfl
    · rw [ih, Option.map_map]
      congr 1
      funext q
      simp only [Function.comp_apply, Prod.mk.injEq, and_true]
      congr 1
      omega

/-- **The lookup finds a position in the concatenation of the entries.** -/
theorem findEntryOffsetForFpos_eq (b : AesdCircularBuffer) (charOffset : ℕ) :
    b.findEntryOffsetForFpos charOffset =
      (Concat.locate (b.entries.map AesdBufferEntry.size) charOffset).map
        fun q ↦ ((b.outOffs + q.1) % maxWriteOperationsSupported, q.2) := by
  rw [findEntryOffsetForFpos, findLoop_eq, entries, List.map_map, List.range_eq_range']
  simp only [Nat.zero_add]
  rfl

/-- The slot the lookup names is the entry at that place of the walk. -/
theorem entry_of_entries_getElem? {b : AesdCircularBuffer} {k : ℕ} {e : AesdBufferEntry}
    (h : b.entries[k]? = some e) :
    b.entry ((b.outOffs + k) % maxWriteOperationsSupported) = e := by
  rw [entries, List.getElem?_map, Option.map_eq_some_iff] at h
  obtain ⟨i, hi, rfl⟩ := h
  obtain ⟨hk, rfl⟩ := List.getElem?_eq_some_iff.mp hi
  rw [List.getElem_range]

/-! ## What adding entries builds -/

/-- `b` is the buffer after the entries `hist` have been added, in order, to an empty one. -/
structure Built (b : AesdCircularBuffer) (hist : List AesdBufferEntry) : Prop where
  /-- The slots hold the last ten entries. -/
  tracks : Ring.Tracks maxWriteOperationsSupported ⟨0, 0⟩ b.entry hist
  /-- The next slot follows from the number of entries. -/
  inOffs : b.inOffs = hist.length % maxWriteOperationsSupported
  /-- The oldest slot follows from the number of entries. -/
  outOffs : b.outOffs = Ring.start maxWriteOperationsSupported hist.length
  /-- The buffer is full from the tenth entry on. -/
  full : b.full = decide (maxWriteOperationsSupported ≤ hist.length)

theorem built_init : init.Built [] := ⟨.nil _ _, rfl, rfl, rfl⟩

variable {b : AesdCircularBuffer} {hist : List AesdBufferEntry}

/-- **Adding an entry extends the history.** -/
theorem Built.addEntry (h : b.Built hist) (e : AesdBufferEntry) :
    (b.addEntry e).1.Built (hist ++ [e]) := by
  have hin : b.inOffs = hist.length % 10 := h.inOffs
  have hout : b.outOffs = if hist.length < 10 then 0 else hist.length % 10 := h.outOffs
  have hfull : b.full = decide (10 ≤ hist.length) := h.full
  have hlen : (hist ++ [e]).length = hist.length + 1 := by simp
  refine ⟨?_, ?_, ?_, ?_⟩
  · have := h.tracks.push e
    rwa [← h.inOffs] at this
  · show (if (b.inOffs + 1) % 2 ^ 8 = 10 then 0 else (b.inOffs + 1) % 2 ^ 8) =
      (hist ++ [e]).length % 10
    rw [hlen]
    split <;> omega
  · show (if (b.full || (b.inOffs + 1) % 2 ^ 8 == 10) = true then
        if (b.inOffs + 1) % 2 ^ 8 = 10 then 0 else (b.inOffs + 1) % 2 ^ 8 else b.outOffs) =
      if (hist ++ [e]).length < 10 then 0 else (hist ++ [e]).length % 10
    rw [hlen, hfull, hout]
    simp only [Bool.or_eq_true, decide_eq_true_eq, beq_iff_eq]
    split_ifs <;> omega
  · show (b.full || (b.inOffs + 1) % 2 ^ 8 == 10) = decide (10 ≤ (hist ++ [e]).length)
    rw [hlen, hfull, Bool.eq_iff_iff, Bool.or_eq_true, beq_iff_eq, decide_eq_true_eq,
      decide_eq_true_eq]
    omega

/-- **What adding an entry returns**: the pointer of the entry it displaces, if there is one. -/
theorem Built.addEntry_snd (h : b.Built hist) (e : AesdBufferEntry) :
    (b.addEntry e).2 =
      if hist.length < maxWriteOperationsSupported then 0
      else ((hist[hist.length - maxWriteOperationsSupported]?).getD ⟨0, 0⟩).buffptr := by
  have hslot := h.tracks.overwritten (by decide)
  rw [← h.inOffs] at hslot
  simp only [AesdCircularBuffer.addEntry, hslot]
  split <;> rfl

theorem Built.entryCount_eq (h : b.Built hist) :
    b.entryCount = min hist.length maxWriteOperationsSupported := by
  rw [entryCount, h.full, h.inOffs]
  show (if decide (10 ≤ hist.length) = true then 10 else hist.length % 10) = min hist.length 10
  simp only [decide_eq_true_eq]
  split <;> omega

/-- **The walk finds the last ten entries, oldest first.** -/
theorem Built.entries_eq (h : b.Built hist) :
    b.entries = hist.rtake maxWriteOperationsSupported := by
  rw [entries, h.entryCount_eq, h.outOffs]
  exact h.tracks.map_range_eq

/-- The slot the `k`-th of the stored entries was written to. -/
theorem Built.slot_eq (h : b.Built hist) (k : ℕ) :
    (b.outOffs + k) % maxWriteOperationsSupported =
      (hist.length - maxWriteOperationsSupported + k) % maxWriteOperationsSupported := by
  rw [h.outOffs, Ring.start]
  split
  · rename_i hlt
    rw [Nat.sub_eq_zero_of_le hlt.le]
  · rename_i hge
    have hge' : 10 ≤ hist.length := Nat.le_of_not_lt hge
    show (hist.length % 10 + k) % 10 = (hist.length - 10 + k) % 10
    omega

/-! ## Adding entries one after another -/

/-- The buffer after some entries have been added, and the pointers returned. -/
def addEntries (b : AesdCircularBuffer) : List AesdBufferEntry → AesdCircularBuffer × List ℕ
  | [] => (b, [])
  | e :: es =>
    let rest := (b.addEntry e).1.addEntries es
    (rest.1, (b.addEntry e).2 :: rest.2)

theorem addEntries_concat (b : AesdCircularBuffer) (es : List AesdBufferEntry)
    (e : AesdBufferEntry) :
    b.addEntries (es ++ [e]) =
      (((b.addEntries es).1.addEntry e).1,
        (b.addEntries es).2 ++ [((b.addEntries es).1.addEntry e).2]) := by
  induction es generalizing b with
  | nil => rfl
  | cons e' es ih =>
    rw [List.cons_append, addEntries, addEntries, ih]
    rfl

/-- **The buffer is built by the entries added to it.** -/
theorem built_addEntries (es : List AesdBufferEntry) : (init.addEntries es).1.Built es := by
  induction es using List.reverseRecOn with
  | nil => exact built_init
  | append_singleton es e ih =>
    rw [addEntries_concat]
    exact ih.addEntry e

theorem addEntries_snd (es : List AesdBufferEntry) :
    (init.addEntries es).2 =
      List.replicate (min es.length maxWriteOperationsSupported) 0 ++
        (es.map AesdBufferEntry.buffptr).take (es.length - maxWriteOperationsSupported) := by
  induction es using List.reverseRecOn with
  | nil => rfl
  | append_singleton es e ih =>
    rw [addEntries_concat]
    show (init.addEntries es).2 ++ [_] = _
    rw [ih, (built_addEntries es).addEntry_snd, List.length_append, List.length_singleton,
      List.append_assoc]
    split
    · rename_i hlt
      -- still room: one more null pointer, and no entry has been displaced
      rw [Nat.sub_eq_zero_of_le hlt.le, Nat.sub_eq_zero_of_le hlt, Nat.min_eq_left hlt.le,
        Nat.min_eq_left hlt, List.take_zero, List.take_zero, List.nil_append, List.append_nil,
        List.replicate_succ']
    · rename_i hge
      -- full: the pointer of the oldest entry follows those of the entries before it
      have hlt : es.length - maxWriteOperationsSupported < es.length := by
        have : 0 < maxWriteOperationsSupported := by decide
        omega
      rw [Nat.min_eq_right (by omega), Nat.min_eq_right (by omega), List.map_append,
        show es.length + 1 - maxWriteOperationsSupported =
          es.length - maxWriteOperationsSupported + 1 by omega,
        List.take_append_of_le_length (by rw [List.length_map]; omega), List.take_add_one,
        List.getElem?_map, List.getElem?_eq_getElem hlt]
      rfl

/-- **Any number of additions to an empty buffer.**  The pointers returned are null as long as there
was room, and then those of the entries added ten additions earlier, in order.  The indices follow
from the number of entries, so that a slot number is below ten and a counter never wraps around; the
slots not reached yet are as they were. -/
theorem addEntries_returns (es : List AesdBufferEntry) :
    let b := (init.addEntries es).1
    (init.addEntries es).2 =
        List.replicate (min es.length maxWriteOperationsSupported) 0 ++
          (es.map AesdBufferEntry.buffptr).take (es.length - maxWriteOperationsSupported) ∧
      b.inOffs = es.length % maxWriteOperationsSupported ∧
      b.inOffs < maxWriteOperationsSupported ∧ b.outOffs < maxWriteOperationsSupported ∧
      (b.inOffs + 1) % 2 ^ 8 = b.inOffs + 1 ∧
      (b.full = true ↔ maxWriteOperationsSupported ≤ es.length) ∧
      b.outOffs = (if b.full then b.inOffs else 0) ∧
      ∀ i, i < maxWriteOperationsSupported → es.length ≤ i → b.entry i = ⟨0, 0⟩ := by
  intro b
  have h : b.Built es := built_addEntries es
  have hin : b.inOffs = es.length % 10 := h.inOffs
  have hlt : b.inOffs < maxWriteOperationsSupported := hin ▸ Nat.mod_lt _ (by decide)
  have hfull : b.full = true ↔ maxWriteOperationsSupported ≤ es.length := by
    rw [h.full, decide_eq_true_eq]
  have hout : b.outOffs = if b.full then b.inOffs else 0 := by
    rw [h.outOffs, Ring.start, h.inOffs]
    simp only [hfull]
    split_ifs <;> omega
  refine ⟨addEntries_snd es, h.inOffs, hlt, ?_, ?_, hfull, hout, h.tracks.unused⟩
  · rw [hout]
    split
    · exact hlt
    · decide
  · exact Nat.mod_eq_of_lt (by omega)

/-! ## The lookup with its out parameter -/

end AesdCircularBuffer

/-- Subtraction of `size_t` values. -/
def sizeSub (a b : ℕ) : ℕ := (a + 2 ^ 64 - b) % 2 ^ 64

theorem sizeSub_of_le {a b : ℕ} (h : b ≤ a) (ha : a < 2 ^ 64) : sizeSub a b = a - b := by
  rw [sizeSub, show a + 2 ^ 64 - b = a - b + 2 ^ 64 by omega, Nat.add_mod_right,
    Nat.mod_eq_of_lt (by omega)]

/-- What a call of `aesd_circular_buffer_find_entry_offset_for_fpos` leaves. -/
structure Lookup where
  /-- The slot of the entry returned, or nothing for `NULL`. -/
  entry : Option ℕ
  /-- `*entry_offset_byte_rtn`. -/
  rtn : ℕ
  /-- The operands of the subtractions that were made. -/
  subs : List (ℕ × ℕ)
  deriving DecidableEq, Repr

namespace AesdCircularBuffer

/-- The loop of `aesd_circular_buffer_find_entry_offset_for_fpos` again, in `size_t` arithmetic and
with the out parameter, which holds `rtn` before the call. -/
def lookupLoop (b : AesdCircularBuffer) (rtn : ℕ) : ℕ → ℕ → ℕ → Lookup
  | 0, _, _ => ⟨none, rtn, []⟩
  | left + 1, i, charOffset =>
    let slot := (b.outOffs + i) % maxWriteOperationsSupported
    let size := (b.entry slot).size
    if charOffset < size then ⟨some slot, charOffset, []⟩
    else
      let rest := b.lookupLoop rtn left (i + 1) (sizeSub charOffset size)
      { rest with subs := (charOffset, size) :: rest.subs }

/-- `aesd_circular_buffer_find_entry_offset_for_fpos`, in `size_t` arithmetic and with the out
parameter. -/
def lookup (b : AesdCircularBuffer) (charOffset rtn : ℕ) : Lookup :=
  b.lookupLoop rtn b.entryCount 0 charOffset

/-- The slot and the out parameter are those of the lookup on numbers, and no subtraction goes below
zero. -/
theorem lookupLoop_eq (b : AesdCircularBuffer) (rtn left i : ℕ) {charOffset : ℕ}
    (h : charOffset < 2 ^ 64) :
    (b.lookupLoop rtn left i charOffset).entry = (b.findLoop left i charOffset).map Prod.fst ∧
      (b.lookupLoop rtn left i charOffset).rtn =
        ((b.findLoop left i charOffset).map Prod.snd).getD rtn ∧
      ∀ p ∈ (b.lookupLoop rtn left i charOffset).subs, p.2 ≤ p.1 ∧ sizeSub p.1 p.2 = p.1 - p.2 := by
  induction left generalizing i charOffset with
  | zero => exact ⟨rfl, rfl, by simp [lookupLoop]⟩
  | succ left ih =>
    rw [lookupLoop, findLoop]
    dsimp only
    split
    · exact ⟨rfl, rfl, by simp⟩
    · rename_i hge
      have hsub := sizeSub_of_le (Nat.le_of_not_lt hge) h
      have hlt := lt_of_le_of_lt
        (Nat.sub_le charOffset (b.entry ((b.outOffs + i) % maxWriteOperationsSupported)).size) h
      obtain ⟨hentry, hrtn, hsubs⟩ := ih (i + 1) hlt
      rw [hsub]
      refine ⟨hentry, hrtn, ?_⟩
      intro p hp
      rcases List.mem_cons.mp hp with rfl | hp
      · exact ⟨Nat.le_of_not_lt hge, hsub⟩
      · exact hsubs p hp

/-- **What the lookup finds** after any entries have been added to an empty buffer.  `char_offset`
and the sizes are `size_t` values, and `rtn` is what `*entry_offset_byte_rtn` was before.

* The slot of the `k`-th of the last ten entries is returned, with an offset inside that entry,
  exactly when the sizes of the entries before it and the offset add up to `char_offset`.
* `NULL` is returned exactly when `char_offset` is not less than all the sizes together, and then
  the out parameter is left alone.
* No subtraction wraps around. -/
theorem lookup_addEntries (es : List AesdBufferEntry) (charOffset rtn : ℕ)
    (hoff : charOffset < 2 ^ 64) :
    let b := (init.addEntries es).1
    let stored := es.rtake maxWriteOperationsSupported
    (∀ slot off, (b.lookup charOffset rtn).entry = some slot ∧ (b.lookup charOffset rtn).rtn = off ↔
      ∃ k e, stored[k]? = some e ∧ b.entry slot = e ∧
        slot = (es.length - maxWriteOperationsSupported + k) % maxWriteOperationsSupported ∧
        ((stored.take k).map AesdBufferEntry.size).sum + off = charOffset ∧ off < e.size) ∧
    ((b.lookup charOffset rtn).entry = none ↔
      (stored.map AesdBufferEntry.size).sum ≤ charOffset) ∧
    ((b.lookup charOffset rtn).entry = none → (b.lookup charOffset rtn).rtn = rtn) ∧
    ∀ p ∈ (b.lookup charOffset rtn).subs, p.2 ≤ p.1 ∧ sizeSub p.1 p.2 = p.1 - p.2 := by
  intro b stored
  have h : b.Built es := built_addEntries es
  obtain ⟨hentry, hrtn, hsubs⟩ := b.lookupLoop_eq rtn b.entryCount 0 hoff
  have hfind : b.findLoop b.entryCount 0 charOffset =
      (Concat.locate (stored.map AesdBufferEntry.size) charOffset).map
        fun q ↦ ((b.outOffs + q.1) % maxWriteOperationsSupported, q.2) := by
    rw [← findEntryOffsetForFpos, findEntryOffsetForFpos_eq, h.entries_eq]
  rw [hfind, Option.map_map] at hentry hrtn
  refine ⟨?_, ?_, ?_, hsubs⟩
  · intro slot off
    rw [lookup, hentry, hrtn]
    constructor
    · rintro ⟨hslot, hoff⟩
      obtain ⟨⟨k, o⟩, hloc, rfl⟩ := Option.map_eq_some_iff.mp hslot
      rw [hloc] at hoff
      obtain rfl : o = off := hoff
      obtain ⟨n, hn, ho, hsum⟩ := Concat.locate_eq_some_iff.mp hloc
      rw [List.getElem?_map, Option.map_eq_some_iff] at hn
      obtain ⟨e, he, rfl⟩ := hn
      refine ⟨k, e, he, ?_, h.slot_eq k, by rwa [List.map_take], ho⟩
      exact entry_of_entries_getElem? (by rw [h.entries_eq]; exact he)
    · rintro ⟨k, e, he, -, rfl, hsum, ho⟩
      have hloc : Concat.locate (stored.map AesdBufferEntry.size) charOffset = some (k, off) := by
        refine Concat.locate_eq_some_iff.mpr ⟨e.size, ?_, ho, by rwa [← List.map_take]⟩
        rw [List.getElem?_map, he, Option.map_some]
      rw [hloc]
      exact ⟨by rw [← h.slot_eq k]; rfl, rfl⟩
  · rw [lookup, hentry, Option.map_eq_none_iff, Concat.locate_eq_none_iff]
  · intro hnone
    rw [lookup, hentry, Option.map_eq_none_iff] at hnone
    rw [lookup, hrtn, hnone]
    rfl

/-- Twelve entries of three bytes, so that the ring has wrapped: position `4` is byte `1` of the
fourth entry, in slot `3`. -/
theorem lookup_addEntries_twelve :
    let b := (init.addEntries ((List.range 12).map fun i ↦ ⟨i + 1, 3⟩)).1
    (b.lookup 4 99).entry = some 3 ∧ (b.lookup 4 99).rtn = 1 :=
  ((lookup_addEntries ((List.range 12).map fun i ↦ ⟨i + 1, 3⟩) 4 99 (by decide)).1 3 1).mpr
    ⟨1, ⟨4, 3⟩, by decide +kernel, by decide +kernel, by decide, by decide +kernel, by decide⟩

end AesdCircularBuffer

end Aesd
