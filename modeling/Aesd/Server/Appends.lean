import Aesd.Driver.Ownership
import Aesd.Driver.Seek
import Aesd.Server.Progress

/-!
# Lines are stored one after another

The clients of this module send streams whose first line is complete and not too long.  Then the
serial log is simple: it holds the lines of the clients that sent no control command, in the order
in which they took the mutex, one command each (`serial_of_complete`).  With `Turns` this says what
the device holds at any time and what every client receives; `lines_stored_in_turn` puts it
together.
-/

set_option autoImplicit false

namespace Aesd

variable {ι : Type} {seek : FixedSizeLlseek}

/-! ## Complete lines -/

/-- The first line of the stream is complete, and not too long to be read. -/
def HasLine (s : List Byte) : Prop := ∃ b ∈ s.take maxLine, b = newline

theorem HasLine.completeLine {s : List Byte} (h : HasLine s) : CompleteLine (firstLine s) := by
  obtain ⟨b, hb, rfl⟩ := h
  exact completeLine_firstLine ⟨newline, List.mem_of_mem_take hb, by decide⟩

theorem HasLine.not_tooLong {s : List Byte} (h : HasLine s) : ¬TooLong s := by
  rintro ⟨buf, rest, rfl, hnone, hlen⟩
  obtain ⟨b, hb, rfl⟩ := h
  rw [← hlen, List.take_left] at hb
  have hnl := hnone newline hb
  revert hnl
  decide

theorem CompleteLine.ends_eq {line : List Byte} (h : CompleteLine line) :
    Delim.ends isNewline line = true := by
  obtain ⟨init, rfl, -⟩ := h
  rw [Delim.ends, List.getLast?_concat]
  rfl

theorem CompleteLine.ne_nil {line : List Byte} (h : CompleteLine line) : line ≠ [] := by
  obtain ⟨init, rfl, -⟩ := h
  simp

/-- The lines of the clients in a list that sent no control command. -/
def ordinaryLines (stream : ι → List Byte) (order : List ι) : List (List Byte) :=
  (order.filter fun i ↦ Ordinary (stream i)).map fun i ↦ firstLine (stream i)

theorem ordinaryLines_concat (stream : ι → List Byte) (order : List ι) {i : ι}
    (h : Ordinary (stream i)) :
    ordinaryLines stream (order ++ [i]) = ordinaryLines stream order ++ [firstLine (stream i)] := by
  simp [ordinaryLines, h]

/-- **The serial log of complete lines**: each is a command. -/
theorem serial_of_complete {stream : ι → List Byte}
    (h : ∀ i, CompleteLine (firstLine (stream i))) (order : List ι) :
    serial stream order =
      ⟨(order.filter fun i ↦ Ordinary (stream i)).map fun i ↦ tag i (firstLine (stream i)),
        []⟩ := by
  induction order using List.reverseRecOn with
  | nil => rfl
  | append_singleton order i ih =>
    rw [serial_concat, ih, appendedLine]
    by_cases ho : Ordinary (stream i)
    · rw [if_pos ho, Delim.Log.add, ends_tag, (h i).ends_eq]
      simp [Delim.Log.append, ho]
    · rw [if_neg ho]
      simp [tag, ho]

theorem onDevice_serial {stream : ι → List Byte} (h : ∀ i, CompleteLine (firstLine (stream i)))
    (base : List (List Byte)) (order : List ι) :
    onDevice base (serial stream order) = ⟨base ++ ordinaryLines stream order, []⟩ := by
  rw [serial_of_complete h]
  simp [onDevice, Delim.Log.map, Delim.Log.after, ordinaryLines, tag, Function.comp_def]

/-- Such a line in part is pending. -/
theorem onDevice_part {stream : ι → List Byte} (h : ∀ i, CompleteLine (firstLine (stream i)))
    (base : List (List Byte)) (order : List ι) (i : ι) {a : List Byte}
    (ha : Delim.ends isNewline a = false) :
    onDevice base ((serial stream order).add endsLine (tag i a)) =
      ⟨base ++ ordinaryLines stream order, a⟩ := by
  rw [onDevice_add, onDevice_serial h, Delim.Log.add, ha]
  simp [Delim.Log.append]

/-- What can be read after the turn of a client ends with its line. -/
theorem suffix_of_ordinary (base : List (List Byte)) {stream : ι → List Byte} (pre : List ι) {i : ι}
    (h : Ordinary (stream i)) : firstLine (stream i) <:+
      ((base ++ ordinaryLines stream (pre ++ [i])).rtake maxWriteOperationsSupported).flatten := by
  rw [ordinaryLines_concat stream pre h, ← List.append_assoc, maxWriteOperationsSupported,
    List.rtake_concat_succ, List.flatten_append, List.flatten_singleton]
  exact List.suffix_append ..

/-! ## Any device without pending bytes -/

theorem AesdDev.Owned.length_stored_le {d : AesdDev} {hist : List AesdBufferEntry}
    (h : d.Owned hist) : d.stored.length ≤ maxWriteOperationsSupported := by
  rw [h.stored_eq, List.length_map, Concat.length_rtake]
  exact Nat.min_le_right ..

/-- A device that has been written to and has nothing pending. -/
theorem refines_of_no_pending {cs : List WriteCall}
    (h : (cs.foldl Sys.write .init).dev.tmpBuffSize = 0) :
    Refines (cs.foldl Sys.write .init).dev ⟨(cs.foldl Sys.write .init).dev.stored, []⟩ := by
  obtain ⟨hist, ho⟩ := owned_run cs
  exact ⟨⟨hist, ho⟩, .inl h, (Concat.rtake_of_length_le ho.length_stored_le).symm,
    AesdDev.pending_of_size_eq_zero h⟩

/-! ## What the device holds -/

section Run

variable {base : List (List Byte)} {stream : ι → List Byte}
  {w w' : DeviceWorld seek ι} {log : Delim.Log (Tagged ι)}

/-- With the mutex free. -/
theorem Turns.stored_free (h : Turns base stream w log)
    (hline : ∀ i, CompleteLine (firstLine (stream i))) (hfree : w.owner = none) :
    w.dev.stored = (base ++ ordinaryLines stream w.order).rtake maxWriteOperationsSupported ∧
      w.dev.pending = [] := by
  have hdev := h.device
  rw [h.log_free hfree, onDevice_serial hline] at hdev
  exact ⟨hdev.stored, hdev.pending⟩

/-- While a client holds the mutex. -/
theorem Turns.stored_taken (h : Turns base stream w log)
    (hline : ∀ i, CompleteLine (firstLine (stream i))) {i : ι} (hown : w.owner = some (.inl i)) :
    ∃ pre, w.order = pre ++ [i] ∧
      (((w.client i).written = appendedLine (stream i) ∧
          w.dev.stored =
            (base ++ ordinaryLines stream w.order).rtake maxWriteOperationsSupported ∧
          w.dev.pending = []) ∨
        (Ordinary (stream i) ∧ (w.client i).written <+: firstLine (stream i) ∧
          (w.client i).written ≠ firstLine (stream i) ∧
          w.dev.stored = (base ++ ordinaryLines stream pre).rtake maxWriteOperationsSupported ∧
          w.dev.pending = (w.client i).written)) := by
  obtain ⟨pre, hord⟩ := h.last i hown
  have hdev := h.device
  rw [h.log_taken i pre hown hord] at hdev
  refine ⟨pre, hord, ?_⟩
  rcases (h.clients i).written_cases ((h.mutex i).mpr hown) with hall | ⟨ho, b, hb, hpart⟩
  · left
    rw [hall, ← serial_concat, ← hord, onDevice_serial hline] at hdev
    exact ⟨hall, hdev.stored, hdev.pending⟩
  · right
    rw [onDevice_part hline base pre i (ends_of_lineOf hpart hb)] at hdev
    refine ⟨ho, ⟨b, hpart.eq⟩, fun heq ↦ hb ?_, hdev.stored, hdev.pending⟩
    have hsame := hpart.eq
    rw [heq] at hsame
    exact List.append_right_eq_self.mp hsame

variable [DecidableEq ι]

/-- Only the lines that are not control lines change the device. -/
theorem Turns.flush_of_dev_ne (h : Turns base stream w log) {l : DeviceLabel seek ι}
    (hl : Run.restrict World.step AllSucceed w l = some w') (hne : w'.dev ≠ w.dev) :
    ∃ i n env, l = .flush i n env ∧ w.owner = some (.inl i) ∧ Ordinary (stream i) := by
  obtain ⟨-, hstep⟩ := Run.restrict_eq_some.mp hl
  cases World.step_cases hstep with
  | timerRet j | timerLock j | timerUnlock j | timerFlush j => exact j.elim
  | ret | lock | unlock | fill | seek => exact absurd rfl hne
  | flush i n env file hpc =>
    refine ⟨i, n, env, rfl, (h.mutex i).mp ?_, ((h.clients i).writing hpc).2.1⟩
    rcases hpc with hpc | hpc <;> rw [hpc] <;> rfl

/-- **Every interleaving of client threads**, in the device build, with all I/O and all allocations
succeeding and nothing pending at the start: each client sends a stream whose first line is complete
and at most `maxLine` bytes long.  `order` is the order in which the threads took the mutex.

* With the mutex free, the device holds what it held before, followed by the lines that are not
  control lines, in that order, each as one command, of which the last ten are kept; nothing is
  pending.
* While a thread holds the mutex the same is true, or it has written a part of its line: that part
  is pending, and the lines before it are stored.
* No thread takes the mutex twice.
* A thread that has given the mutex back is in the order; if its line was not a control line, its
  client has been sent what was stored at that point of the order, which ends with its own line.
* An event that changes the device writes a line that is not a control line, and its thread holds
  the mutex.
* Whatever has happened, it can go on so that a given thread has returned. -/
theorem lines_stored_in_turn (seek : FixedSizeLlseek) (cs : List WriteCall)
    (hpending : (cs.foldl Sys.write .init).dev.tmpBuffSize = 0) (stream : ι → List Byte)
    (errno : ι → ℤ) (hline : ∀ i, HasLine (stream i))
    (ls : List (DeviceLabel seek ι)) (w : DeviceWorld seek ι)
    (hrun : ls.foldlM (Run.restrict World.step AllSucceed) (World.init (charDevice seek (ι ⊕ Empty))
      (cs.foldl Sys.write .init).dev stream errno) = some w) :
    (w.owner = none →
      w.dev.stored = ((cs.foldl Sys.write .init).dev.stored ++
          ordinaryLines stream w.order).rtake maxWriteOperationsSupported ∧
        w.dev.pending = []) ∧
    (∀ i, w.owner = some (.inl i) → ∃ pre, w.order = pre ++ [i] ∧
      (((w.client i).written = appendedLine (stream i) ∧
          w.dev.stored = ((cs.foldl Sys.write .init).dev.stored ++
            ordinaryLines stream w.order).rtake maxWriteOperationsSupported ∧
          w.dev.pending = []) ∨
        (Ordinary (stream i) ∧ (w.client i).written <+: firstLine (stream i) ∧
          (w.client i).written ≠ firstLine (stream i) ∧
          w.dev.stored = ((cs.foldl Sys.write .init).dev.stored ++
            ordinaryLines stream pre).rtake maxWriteOperationsSupported ∧
          w.dev.pending = (w.client i).written))) ∧
    w.order.Nodup ∧
    (∀ i, (w.client i).thread.pc.leaving = true → ∃ pre post, w.order = pre ++ i :: post ∧
      (Ordinary (stream i) →
        (w.client i).got = (((cs.foldl Sys.write .init).dev.stored ++
            ordinaryLines stream (pre ++ [i])).rtake maxWriteOperationsSupported).flatten ∧
          firstLine (stream i) <:+ (w.client i).got)) ∧
    (∀ l w', Run.restrict World.step AllSucceed w l = some w' → w'.dev ≠ w.dev →
      ∃ i n env, l = .flush i n env ∧ w.owner = some (.inl i) ∧ Ordinary (stream i)) ∧
    ∀ i, ∃ (ls' : List (DeviceLabel seek ι)) (w' : DeviceWorld seek ι),
      ls'.foldlM (Run.restrict World.step AllSucceed) w = some w' ∧
        (w'.client i).thread.pc = .done := by
  have hcomplete : ∀ i, CompleteLine (firstLine (stream i)) := fun i ↦ (hline i).completeLine
  obtain ⟨log, hlog⟩ := Run.exists_recording World.record hrun ⟨[], []⟩
  have h : Turns (cs.foldl Sys.write .init).dev.stored stream w log :=
    (turns_init (refines_of_no_pending hpending) errno).run hlog
  refine ⟨h.stored_free hcomplete, fun i ↦ h.stored_taken hcomplete, h.nodup, ?_,
    fun l w' ↦ h.flush_of_dev_ne, ?_⟩
  · intro i hleave
    obtain ⟨-, pre, post, hord, hgot⟩ := (h.leaving i hleave).resolve_left (hline i).not_tooLong
    refine ⟨pre, post, hord, ?_⟩
    intro ho
    rw [hgot ho, contentAfter, onDevice_serial hcomplete]
    exact ⟨rfl, suffix_of_ordinary _ pre ho⟩
  · intro i
    obtain ⟨ls', w', log', hrun', hdone⟩ := h.serve i
    exact ⟨ls', w', Run.foldlM_of_recording hrun', hdone⟩

end Run

/-! ## Two clients -/

/-- Two clients send `"a\n"` and `"b\n"`. -/
def twoStreams (i : Bool) : List Byte := if i then [98, 10] else [97, 10]

/-- Both lines have been read before the first is written, in two pieces. -/
def twoClients : List (DeviceLabel fixedSizeLlseek Bool) :=
  let plain : WriteEnv := (WriteCall.plain 0 []).env
  let begin (i : Bool) (line : List Byte) : List (DeviceLabel fixedSizeLlseek Bool) :=
    [.ret i .ok, .ret i (.bytes line), .ret i .ok, .ret i .ok]
  let line (i : Bool) (l : List Byte) : List (DeviceLabel fixedSizeLlseek Bool) :=
    [.fill i 512 ⟨false, 0⟩, .ret i (.bytes l), .ret i (.count 1), .ret i (.count 1)]
  let finish (i : Bool) : List (DeviceLabel fixedSizeLlseek Bool) :=
    [.fill i 512 ⟨false, 0⟩, .ret i (.bytes []), .ret i .ok, .ret i .ok, .ret i .ok, .ret i .ok,
      .ret i .ok, .ret i .ok]
  begin true [98, 10] ++ begin false [97, 10] ++
    [.ret false .ok, .flush false 1 plain, .ret false (.count 2), .flush false 1 plain,
      .ret false .ok, .ret false .ok] ++
    line false [122, 10] ++ line false [97, 10] ++ finish false ++
    [.ret true .ok, .ret true (.count 2), .flush true 2 plain, .ret true .ok, .ret true .ok] ++
    line true [122, 10] ++ line true [97, 10] ++ line true [98, 10] ++ finish true

theorem hasLine_twoStreams (i : Bool) : HasLine (twoStreams i) := by
  have hall : (twoStreams i).take maxLine = twoStreams i :=
    List.take_of_length_le (by cases i <;> decide)
  rw [HasLine, hall]
  cases i <;> exact ⟨newline, by decide, rfl⟩

/-- On a device that holds `"z\n"`. -/
theorem lines_stored_in_turn_two :
    ∃ w, twoClients.foldlM (Run.restrict World.step AllSucceed)
        (World.init (charDevice fixedSizeLlseek (Bool ⊕ Empty))
          ([WriteCall.plain 0 [122, 10]].foldl Sys.write .init).dev twoStreams fun _ ↦ 0) = some w ∧
      w.dev.stored = [[122, 10], [97, 10], [98, 10]] ∧
      (w.client false).got = [122, 10, 97, 10] := by
  have hrun : (twoClients.foldlM (Run.restrict World.step AllSucceed)
      (World.init (charDevice fixedSizeLlseek (Bool ⊕ Empty))
        ([WriteCall.plain 0 [122, 10]].foldl Sys.write .init).dev twoStreams fun _ ↦ 0)).map
      (fun w ↦ (w.owner, w.order, (w.client false).thread.pc)) =
      some (none, [false, true], .done) := by decide +kernel
  obtain ⟨w, hw, hfacts⟩ := Option.map_eq_some_iff.mp hrun
  obtain ⟨howner, hfacts⟩ := Prod.mk.inj hfacts
  obtain ⟨horder, hpc⟩ := Prod.mk.inj hfacts
  obtain ⟨hfree, -, -, hserved, -⟩ := lines_stored_in_turn fixedSizeLlseek
    [WriteCall.plain 0 [122, 10]] (by decide +kernel) twoStreams (fun _ ↦ 0) hasLine_twoStreams
    twoClients w hw
  refine ⟨w, hw, ?_, ?_⟩
  · rw [(hfree howner).1, horder]
    decide +kernel
  · obtain ⟨pre, post, hord, hgot⟩ := hserved false (by rw [hpc]; rfl)
    have hsplit : [] ++ false :: [true] = pre ++ false :: post := horder.symm.trans hord
    obtain ⟨rfl, -⟩ := (List.append_cons_inj_of_notMem (by decide) (by decide)).mp hsplit
    rw [(hgot (by decide)).1]
    decide +kernel

end Aesd
