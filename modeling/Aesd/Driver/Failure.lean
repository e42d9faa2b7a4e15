import Aesd.Driver.Commands

/-!
# Writes that fail

A write can be interrupted, run out of memory or fail to copy the user's bytes, and it then returns
a negative value.  Callers take that to mean that nothing was written.  `failed_write_keeps` is how
far they are right: the pending bytes, the stored commands and the file positions are as before,
except after a `krealloc_array` that fails while bytes are pending.  There `tmp_buff_ptr` is
overwritten with `NULL` while `tmp_buff_size` keeps its value, so the pending bytes are gone and
the next write extends bytes that nobody wrote.

As long as that does not happen, every byte the device holds comes from a write that succeeded, and
none of them is out of order: the contents are a suffix of the bytes of those writes.
-/

set_option autoImplicit false

namespace Aesd

/-- The bytes of the calls that succeed, in order. -/
def acceptedBytes : Sys → List WriteCall → List Byte
  | _, [] => []
  | t, c :: cs => (if 0 ≤ t.writeRet c then c.buf else []) ++ acceptedBytes (t.write c) cs

/-- What a failed write has to leave alone. -/
structure SameState (t u : Sys) : Prop where
  /-- The pending bytes. -/
  pending : u.dev.pending = t.dev.pending
  /-- Their number. -/
  tmpBuffSize : u.dev.tmpBuffSize = t.dev.tmpBuffSize
  /-- The stored commands. -/
  stored : u.dev.stored = t.dev.stored
  /-- Every file position. -/
  fPos : u.fPos = t.fPos

variable {t : Sys} {s : Delim.Log Byte}

/-- Losing the pending bytes is a failure. -/
theorem Refines.writeRet_of_losesPending {c : WriteCall} (h : Refines t.dev s)
    (hl : LosesPending t.dev c) :
    t.writeRet c < 0 ∧ (t.write c).dev = { t.dev with tmpBuffPtr := 0 } := by
  obtain ⟨hist, ho⟩ := h.owned
  rw [Sys.writeRet, Sys.write]
  rcases AesdDev.aesdWrite_cases ho c.env (t.fPos c.file) c.buf with ⟨hi, -⟩ | ⟨-, -, heq⟩ |
    ⟨-, ha, -⟩
  · rw [hl.1] at hi; cases hi
  · rw [heq]
    exact ⟨by show -ENOMEM < 0; decide, rfl⟩
  · exact absurd hl.2.1 ha

/-- A call succeeds when the kernel lets it, and only then. -/
theorem Refines.writeRet_nonneg_iff (h : Refines t.dev s) (c : WriteCall) :
    0 ≤ t.writeRet c ↔ c.Succeeds := by
  by_cases hc : c.Succeeds
  · have hret : t.writeRet c = c.buf.length :=
      congrArg Prod.snd (h.aesdWrite hc (t.fPos c.file)).2
    exact iff_of_true (by omega) hc
  · have hret : t.writeRet c < 0 := by
      by_cases hl : LosesPending t.dev c
      · exact (h.writeRet_of_losesPending hl).1
      · exact (h.aesdWrite_of_fails hc hl (t.fPos c.file)).2.2
    exact iff_of_false (by omega) hc

/-- **One failed call.**  The state stays exactly when the pending bytes are not lost. -/
theorem Refines.sameState_iff {c : WriteCall} (h : Refines t.dev s) (hret : t.writeRet c < 0) :
    SameState t (t.write c) ↔ ¬LosesPending t.dev c := by
  have hc : ¬c.Succeeds := fun hc ↦ by
    have := (h.writeRet_nonneg_iff c).mpr hc
    omega
  constructor
  · rintro hsame hl
    have hgone := (h.writeRet_of_losesPending hl).2
    have hlen : t.dev.pending.length = t.dev.tmpBuffSize := by
      rw [h.pending, h.tmpBuffSize_eq]
    have hempty : (t.write c).dev.pending = [] := by
      rw [hgone, AesdDev.pending, AesdDev.bytes_zero, Heap.block_null, Option.getD_none,
        List.take_nil]
    rw [← hsame.pending, hempty, List.length_nil] at hlen
    exact hl.2.2 hlen.symm
  · intro hl
    obtain ⟨hr, hpos, -⟩ := h.aesdWrite_of_fails hc hl (t.fPos c.file)
    refine ⟨hr.pending.trans h.pending.symm, ?_, hr.stored.trans h.stored.symm, ?_⟩
    · exact hr.tmpBuffSize_eq.trans h.tmpBuffSize_eq.symm
    · rw [Sys.fPos_write, hpos, Function.update_eq_self]

/-- The log of a run holds the bytes of the calls that succeeded. -/
theorem Refines.cells_run {cs : List WriteCall} (h : Refines t.dev s)
    (hrun : Run.Along Sys.write (fun t c ↦ ¬LosesPending t.dev c) t cs) :
    (cs.foldl specWrite s).cells = s.cells ++ acceptedBytes t cs := by
  induction cs generalizing t s with
  | nil => rw [List.foldl_nil, acceptedBytes, List.append_nil]
  | cons c cs ih =>
    obtain ⟨hl, hrest⟩ := hrun
    rw [List.foldl_cons, ih (h.write hl) hrest, acceptedBytes, ← List.append_assoc]
    congr 1
    by_cases hc : c.Succeeds
    · rw [if_pos ((h.writeRet_nonneg_iff c).mpr hc), specWrite_of_succeeds hc,
        Delim.Log.cells_append]
    · rw [if_neg (mt (h.writeRet_nonneg_iff c).mp hc), specWrite, if_neg hc, List.append_nil]

/-- What the device holds is a suffix of what the log does. -/
theorem Refines.contents_suffix (h : Refines t.dev s) :
    t.dev.stored.flatten ++ t.dev.pending <:+ s.cells := by
  refine ⟨(Concat.evicted maxWriteOperationsSupported s.completed).flatten, ?_⟩
  rw [h.stored, h.pending, Delim.Log.cells, ← List.append_assoc, ← List.flatten_append,
    Concat.evicted_append_rtake]

/-- **What failed writes leave behind.**  In every state reached from a fresh device by writes that
succeed or fail in any way except by a failed `krealloc_array` with bytes pending, a call that
returns a negative value leaves the state alone exactly when it does not lose the pending bytes that
way itself; and the stored commands and the pending bytes are the final part of the bytes of the
calls that succeeded. -/
theorem failed_write_keeps (cs : List WriteCall)
    (hrun : Run.Along Sys.write (fun t c ↦ ¬LosesPending t.dev c) .init cs) :
    (∀ c, (cs.foldl Sys.write .init).writeRet c < 0 →
      (SameState (cs.foldl Sys.write .init) ((cs.foldl Sys.write .init).write c) ↔
        ¬LosesPending (cs.foldl Sys.write .init).dev c)) ∧
    (cs.foldl Sys.write .init).dev.stored.flatten ++ (cs.foldl Sys.write .init).dev.pending <:+
      acceptedBytes .init cs := by
  have hr := (refines_init).run (t := .init) hrun
  refine ⟨fun c hret ↦ hr.sameState_iff hret, ?_⟩
  have hcells := (refines_init).cells_run (t := .init) hrun
  rw [show (⟨[], []⟩ : Delim.Log Byte).cells = [] from rfl, List.nil_append] at hcells
  exact hcells ▸ hr.contents_suffix

/-- A write `"a"`, one that cannot copy its bytes, and a third that finds no memory: the second
leaves the state alone, the third does not. -/
theorem failed_write_keeps_after_fault :
    SameState ([WriteCall.plain 0 [97]].foldl Sys.write .init)
        (([WriteCall.plain 0 [97]].foldl Sys.write .init).write
          ⟨0, [98], false, .inPlace, fun _ ↦ 0, 1, 0⟩) ∧
      ¬SameState ([WriteCall.plain 0 [97]].foldl Sys.write .init)
        (([WriteCall.plain 0 [97]].foldl Sys.write .init).write
          ⟨0, [98], false, .null, fun _ ↦ 0, 0, 0⟩) := by
  have hkeep := (failed_write_keeps [.plain 0 [97]] (by decide +kernel)).1
  refine ⟨(hkeep _ (by decide +kernel)).mpr (by decide +kernel), ?_⟩
  intro hsame
  exact (hkeep _ (by decide +kernel)).mp hsame (by decide +kernel)

/-- After `"ab"` is pending, a write of `"c"` finds no memory and fails; the next write, of `"d\n"`,
succeeds and completes a command whose first two bytes are whatever the new block contained. -/
theorem failed_write_loses_pending :
    let ab : Sys := Sys.init.write (.plain 0 [97, 98])
    let c : WriteCall := ⟨0, [99], false, .null, fun _ ↦ 0, 0, 0⟩
    let d : WriteCall := ⟨0, [100, 10], false, .fresh, fun _ ↦ 88, 0, 0⟩
    ab.writeRet c < 0 ∧ ¬SameState ab (ab.write c) ∧
      ((ab.write c).write d).dev.stored = [[88, 88, 100, 10]] ∧
      acceptedBytes .init [.plain 0 [97, 98], c, d] = [97, 98, 100, 10] := by
  refine ⟨by decide +kernel, ?_, by decide +kernel, by decide +kernel⟩
  intro hsame
  exact absurd hsame.pending (by decide +kernel)

end Aesd
