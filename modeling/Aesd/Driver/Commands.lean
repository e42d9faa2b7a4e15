import Aesd.Driver.Write
import Aesd.Lib.Delim
import Aesd.Lib.Run

/-!
# The device as a log of commands

What the device is for: bytes written to it, through any file, are assembled into commands, a
command ends with the write whose last byte is a newline, and the last ten commands are kept.  That
is a `Delim.Log` of bytes, and `specWrite` is its step; `Refines d s` says that the device `d` is in
the state `s` of that log.

`Refines.write` is the simulation: a call that succeeds appends its bytes to the log and a call that
fails leaves the log alone — as long as no call loses the pending bytes, which is what
`LosesPending` is about.

From a fresh device, and with every call succeeding on at least one byte, the state of the log can
be read off the list of writes, cut into runs; that is `write_run_stores`.
-/

set_option autoImplicit false

namespace Aesd

/-- The call gets the lock, the memory and the bytes. -/
def WriteCall.Succeeds (c : WriteCall) : Prop :=
  c.env.interrupted = false ∧ c.env.alloc ≠ .null ∧ min c.env.missing c.buf.length = 0

instance (c : WriteCall) : Decidable c.Succeeds := inferInstanceAs (Decidable (_ ∧ _))

/-- A call about which the kernel decides nothing unusual: every allocation is a new block. -/
def WriteCall.plain (file : ℕ) (buf : List Byte) : WriteCall :=
  ⟨file, buf, false, .fresh, fun _ ↦ 0, 0, 0⟩

/-- The call makes `krealloc_array` fail while bytes are pending. -/
def LosesPending (d : AesdDev) (c : WriteCall) : Prop :=
  c.env.interrupted = false ∧ c.env.alloc = .null ∧ d.tmpBuffSize ≠ 0

instance (d : AesdDev) (c : WriteCall) : Decidable (LosesPending d c) :=
  inferInstanceAs (Decidable (_ ∧ _))

theorem Sys.fPos_write (t : Sys) (c : WriteCall) : (t.write c).fPos =
    Function.update t.fPos c.file (t.dev.aesdWrite c.env (t.fPos c.file) c.buf).2.1 := rfl

/-- What a write means: its bytes are appended to the pending ones, and if the last pending byte is
a newline they are a command.  With nothing pending at all, the stray byte is looked at. -/
def specWrite (s : Delim.Log Byte) (c : WriteCall) : Delim.Log Byte :=
  if c.Succeeds then s.append c.buf (isNewline ((s.pending ++ c.buf).getLastD c.env.stray)) else s

theorem specWrite_of_succeeds {c : WriteCall} (hc : c.Succeeds) (s : Delim.Log Byte) :
    specWrite s c = s.append c.buf (isNewline ((s.pending ++ c.buf).getLastD c.env.stray)) :=
  if_pos hc

/-- The device `d` is in the state `s`. -/
structure Refines (d : AesdDev) (s : Delim.Log Byte) : Prop where
  /-- The device satisfies its invariant. -/
  owned : ∃ hist, d.Owned hist
  /-- The pending bytes have their block. -/
  intact : d.Intact
  /-- The last ten commands are stored. -/
  stored : d.stored = s.completed.rtake maxWriteOperationsSupported
  /-- The pending bytes are those of the unfinished command. -/
  pending : d.pending = s.pending

theorem refines_init : Refines .init ⟨[], []⟩ :=
  ⟨⟨_, AesdDev.owned_init⟩, .inl rfl, rfl, rfl⟩

variable {d : AesdDev} {s : Delim.Log Byte}

theorem Refines.tmpBuffSize_eq (h : Refines d s) : d.tmpBuffSize = s.pending.length := by
  obtain ⟨hist, ho⟩ := h.owned
  rw [← ho.length_pending h.intact, h.pending]

/-- The device after storing a command. -/
theorem Refines.commit {g : AesdDev} {p : List Byte} (h : Refines g ⟨s.completed, p⟩)
    (hp : g.tmpBuffPtr ≠ 0) : Refines g.commit ⟨s.completed ++ [p], []⟩ := by
  obtain ⟨hist, ho⟩ := h.owned
  refine ⟨⟨_, ho.commit hp⟩, .inl rfl, ?_, AesdDev.pending_of_size_eq_zero rfl⟩
  rw [ho.stored_commit hp, h.stored, h.pending, Concat.rtake_rtake AesdDev.maxOlder_le]
  exact (List.rtake_concat_succ _ _ _).symm

/-- Replacing the pending block changes the pending bytes and nothing else. -/
theorem Refines.repointed {g : AesdDev} {p : List Byte} (h : Refines d s) (hr : d.Repointed g p) :
    Refines g ⟨s.completed, p⟩ := by
  obtain ⟨hist, ho⟩ := h.owned
  exact ⟨⟨hist, hr.owned ho⟩, .inr hr.ptr_ne_zero, (hr.stored_eq ho).trans h.stored,
    hr.pending_eq⟩

/-- **A call that succeeds** appends its bytes and returns their number. -/
theorem Refines.aesdWrite {c : WriteCall} (h : Refines d s) (hc : c.Succeeds) (fPos : ℕ) :
    Refines (d.aesdWrite c.env fPos c.buf).1 (specWrite s c) ∧
      (d.aesdWrite c.env fPos c.buf).2 = (fPos + c.buf.length, (c.buf.length : ℤ)) := by
  rw [specWrite_of_succeeds hc]
  obtain ⟨hint, halloc, hmin⟩ := hc
  obtain ⟨hist, ho⟩ := h.owned
  rcases AesdDev.aesdWrite_cases ho c.env fPos c.buf with ⟨hi, -⟩ | ⟨-, ha, -⟩ |
    ⟨-, -, base, g, -, hbase, ⟨hm, -, -⟩ | ⟨-, hr, heq⟩⟩
  · rw [hint] at hi; cases hi
  · exact absurd ha halloc
  · exact absurd hmin hm
  · rw [hbase h.intact, h.pending] at hr heq
    have hg := h.repointed hr
    refine ⟨?_, by rw [heq]⟩
    rw [heq, Delim.Log.append, isNewline]
    by_cases hnl : (s.pending ++ c.buf).getLastD c.env.stray = newline
    · rw [if_pos hnl, if_pos (beq_iff_eq.mpr hnl)]
      exact hg.commit hr.ptr_ne_zero
    · rw [if_neg hnl, if_neg (mt beq_iff_eq.mp hnl)]
      exact hg

/-- **A call that fails** without losing the pending bytes leaves the state alone. -/
theorem Refines.aesdWrite_of_fails {c : WriteCall} (h : Refines d s) (hc : ¬c.Succeeds)
    (hl : ¬LosesPending d c) (fPos : ℕ) :
    Refines (d.aesdWrite c.env fPos c.buf).1 s ∧ (d.aesdWrite c.env fPos c.buf).2.1 = fPos ∧
      (d.aesdWrite c.env fPos c.buf).2.2 < 0 := by
  obtain ⟨hist, ho⟩ := h.owned
  rcases AesdDev.aesdWrite_cases ho c.env fPos c.buf with ⟨-, heq⟩ | ⟨hint, ha, heq⟩ |
    ⟨hint, ha, base, g, -, hbase, ⟨hm, hr, heq⟩ | ⟨hm, -, -⟩⟩
  · rw [heq]
    exact ⟨h, rfl, by show -ERESTARTSYS < 0; decide⟩
  · have h0 : d.tmpBuffSize = 0 := by
      by_contra h0
      exact hl ⟨hint, ha, h0⟩
    rw [heq]
    refine ⟨⟨⟨hist, ho.forget⟩, .inl h0, h.stored, ?_⟩, rfl, by show -ENOMEM < 0; decide⟩
    rw [← h.pending, AesdDev.pending_of_size_eq_zero h0]
    exact AesdDev.pending_of_size_eq_zero h0
  · rw [hbase h.intact, h.pending] at hr
    rw [heq]
    exact ⟨h.repointed hr, rfl, by show -EFAULT < 0; decide⟩
  · exact absurd ⟨hint, ha, hm⟩ hc

/-- **One call, either way.** -/
theorem Refines.write {t : Sys} {c : WriteCall} (h : Refines t.dev s)
    (hl : ¬LosesPending t.dev c) : Refines (t.write c).dev (specWrite s c) := by
  by_cases hc : c.Succeeds
  · exact (h.aesdWrite hc (t.fPos c.file)).1
  · rw [specWrite, if_neg hc]
    exact (h.aesdWrite_of_fails hc hl (t.fPos c.file)).1

theorem WriteCall.Succeeds.not_losesPending {c : WriteCall} (hc : c.Succeeds) (d : AesdDev) :
    ¬LosesPending d c := fun hl ↦ hc.2.1 hl.2.1

/-- **A run in which no call loses the pending bytes.** -/
theorem Refines.run {t : Sys} {cs : List WriteCall} (h : Refines t.dev s)
    (hrun : Run.Along Sys.write (fun t c ↦ ¬LosesPending t.dev c) t cs) :
    Refines (cs.foldl Sys.write t).dev (cs.foldl specWrite s) :=
  hrun.simulation (R := fun t s ↦ Refines t.dev s) (fun _ _ _ h hl ↦ h.write hl) h

/-- A run of calls that all succeed. -/
theorem Refines.run_of_succeeds {t : Sys} {cs : List WriteCall} (h : Refines t.dev s)
    (hok : ∀ c ∈ cs, c.Succeeds) : Refines (cs.foldl Sys.write t).dev (cs.foldl specWrite s) :=
  h.run (.of_forall fun c hc t ↦ (hok c hc).not_losesPending t.dev)

/-! ## From a fresh device -/

/-- A call that succeeds on at least one byte closes the command exactly when its own last byte is
a newline. -/
theorem specWrite_of_ne_nil {c : WriteCall} (hc : c.Succeeds) (hne : c.buf ≠ []) :
    specWrite s c = s.add isNewline c.buf := by
  have hne' : s.pending ++ c.buf ≠ [] := List.append_ne_nil_of_right_ne_nil _ hne
  rw [specWrite_of_succeeds hc, Delim.Log.add, Delim.isEnd_getLastD isNewline hne',
    Delim.ends_append _ hne]

theorem foldl_specWrite {cs : List WriteCall} (hok : ∀ c ∈ cs, c.Succeeds ∧ c.buf ≠ []) :
    cs.foldl specWrite s = (cs.map WriteCall.buf).foldl (Delim.Log.add isNewline) s := by
  induction cs generalizing s with
  | nil => rfl
  | cons c cs ih =>
    obtain ⟨hc, hne⟩ := hok c List.mem_cons_self
    rw [List.foldl_cons, specWrite_of_ne_nil hc hne, ih fun c' hc' ↦
      hok c' (List.mem_cons_of_mem c hc'), List.map_cons, List.foldl_cons]

/-- The bytes of a run end the way its last write does. -/
theorem getLast?_flatten_of_closed {r : List (List Byte)}
    (h : ∃ init last, r = init ++ [last] ∧ (∀ c ∈ init, Delim.ends isNewline c = false) ∧
      Delim.ends isNewline last = true) : r.flatten.getLast? = some newline := by
  obtain ⟨init, last, rfl, -, hlast⟩ := h
  rw [Delim.ends] at hlast
  cases hl : last.getLast? with
  | none => rw [hl] at hlast; cases hlast
  | some b =>
    rw [hl, Option.any_some, isNewline, beq_iff_eq] at hlast
    rw [List.flatten_append, List.flatten_singleton, List.getLast?_append, hl, hlast]
    rfl

/-- No write of the unfinished run ends in a newline, so neither do its bytes. -/
theorem getLast?_flatten_of_opened {r : List (List Byte)} (hne : ∀ c ∈ r, c ≠ [])
    (h : ∀ c ∈ r, Delim.ends isNewline c = false) : r.flatten.getLast? ≠ some newline := by
  rcases List.eq_nil_or_concat r with rfl | ⟨init, last, rfl⟩
  · simp
  · have hlast := h last (by simp)
    have hn : last ≠ [] := hne last (by simp)
    rw [Delim.ends, List.getLast?_eq_some_getLast hn, Option.any_some] at hlast
    rw [List.concat_eq_append, List.flatten_append, List.flatten_singleton, List.getLast?_append,
      List.getLast?_eq_some_getLast hn, Option.some_or, Ne, Option.some_inj]
    rintro heq
    rw [heq] at hlast
    cases hlast

/-- **The state of the device after any sequence of writes.**  Every write succeeds and carries at
least one byte; the files they go through do not matter.  Cut the writes into maximal runs in which
only the last one ends in a newline: the device stores the last ten completed runs, oldest first,
each as the concatenation of its writes, and the unfinished run is pending.  Every call returns the
count it was given. -/
theorem write_run_stores (cs : List WriteCall) (hok : ∀ c ∈ cs, c.Succeeds ∧ c.buf ≠ []) :
    (∃ runs rest, Delim.Grouped isNewline (cs.map WriteCall.buf) runs rest) ∧
    (∀ runs rest, Delim.Grouped isNewline (cs.map WriteCall.buf) runs rest →
      (cs.foldl Sys.write .init).dev.stored =
          (runs.map List.flatten).rtake maxWriteOperationsSupported ∧
        (cs.foldl Sys.write .init).dev.pending = rest.flatten ∧
        (cs.foldl Sys.write .init).dev.tmpBuffSize = rest.flatten.length) ∧
    (∀ cmd ∈ (cs.foldl Sys.write .init).dev.stored, cmd ≠ [] ∧ cmd.getLast? = some newline) ∧
    (cs.foldl Sys.write .init).dev.pending.getLast? ≠ some newline ∧
    ∀ before c after, cs = before ++ c :: after →
      (before.foldl Sys.write .init).writeRet c = c.buf.length := by
  have hspec : ∀ runs rest, Delim.Grouped isNewline (cs.map WriteCall.buf) runs rest →
      Refines (cs.foldl Sys.write .init).dev ⟨runs.map List.flatten, rest.flatten⟩ := by
    intro runs rest hg
    have hr := (refines_init).run_of_succeeds (t := .init) fun c hc ↦ (hok c hc).1
    rw [foldl_specWrite hok, Delim.foldl_add_of_grouped hg rfl] at hr
    simpa using hr
  obtain ⟨runs, rest, hg⟩ := Delim.exists_grouped isNewline (cs.map WriteCall.buf)
  have hr := hspec runs rest hg
  refine ⟨⟨runs, rest, hg⟩, ?_, ?_, ?_, ?_⟩
  · intro runs' rest' hg'
    have hr' := hspec runs' rest' hg'
    exact ⟨hr'.stored, hr'.pending, hr'.tmpBuffSize_eq⟩
  · intro cmd hcmd
    rw [hr.stored] at hcmd
    obtain ⟨r, hrun, rfl⟩ := List.mem_map.mp (Concat.mem_of_mem_rtake hcmd)
    have hlast := getLast?_flatten_of_closed (hg.closed r hrun)
    refine ⟨?_, hlast⟩
    rintro hnil
    rw [hnil] at hlast
    exact absurd hlast (by simp)
  · rw [hr.pending]
    refine getLast?_flatten_of_opened (fun b hb ↦ ?_) hg.opened
    have hmem : b ∈ cs.map WriteCall.buf := hg.concat ▸ List.mem_append_right _ hb
    obtain ⟨c, hc, rfl⟩ := List.mem_map.mp hmem
    exact (hok c hc).2
  · rintro before c after rfl
    have hb := (refines_init).run_of_succeeds (t := .init) fun c hc ↦
      (hok c (List.mem_append_left _ hc)).1
    exact congrArg Prod.snd
      (hb.aesdWrite (hok c (by simp)).1 ((before.foldl Sys.write .init).fPos c.file)).2

/-- Three writes through two files: `"a"`, `"b\n"` and `"c"`. -/
theorem write_run_stores_abc :
    ([WriteCall.plain 0 [97], .plain 1 [98, 10], .plain 0 [99]].foldl Sys.write .init).dev.stored =
        [[97, 98, 10]] ∧
      ([WriteCall.plain 0 [97], .plain 1 [98, 10], .plain 0 [99]].foldl Sys.write
        .init).dev.pending = [99] := by
  have hg : Delim.Grouped isNewline
      ([WriteCall.plain 0 [97], .plain 1 [98, 10], .plain 0 [99]].map WriteCall.buf)
      [[[97], [98, 10]]] [[99]] := by
    refine ⟨rfl, ?_, by decide⟩
    intro r hr
    exact ⟨[[97]], [98, 10], List.mem_singleton.mp hr, by decide, by decide⟩
  obtain ⟨hstored, hpending, -⟩ :=
    (write_run_stores [.plain 0 [97], .plain 1 [98, 10], .plain 0 [99]] (by decide)).2.1 _ _ hg
  exact ⟨hstored, hpending⟩

end Aesd
