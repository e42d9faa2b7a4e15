import Aesd.Server.Appends

/-!
# Whose bytes are in a command

The log of a run says of every byte which client wrote it, so "no command mixes the bytes of two
clients" can be said: all the bytes of a command have the same tag (`Unmixed`).

It is not always so.  When a stream ends before its first newline, `readline_from_socket` returns
what there is, `sock_thread_func` appends it as if it were a line, and it stays pending in the
device until the line of another client completes the command.  `isolation_iff` says when this
cannot happen: nobody sends such a stream, or nobody sends a line that would complete it.
-/

set_option autoImplicit false

namespace Aesd

variable {ι : Type} {seek : FixedSizeLlseek}

/-- Every command of the log comes from one client. -/
def Unmixed (cmds : List (List (Tagged ι))) : Prop := ∀ cmd ∈ cmds, ∃ i, ∀ b ∈ cmd, b.1 = i

theorem unmixed_nil : Unmixed ([] : List (List (Tagged ι))) := fun cmd hcmd ↦ by cases hcmd

theorem eq_of_tag {i k : ι} {bs : List Byte} (hne : bs ≠ []) (h : ∀ b ∈ tag i bs, b.1 = k) :
    i = k := by
  obtain ⟨x, hx⟩ := List.exists_mem_of_ne_nil bs hne
  exact h (i, x) (List.mem_map_of_mem hx)

/-! ## Lines and streams -/

theorem parseCtrlLine_of_none {s : List Byte} (h : ∀ b ∈ s, isNewline b = false) :
    parseCtrlLine s = none := by
  have hlast : (s[s.length - 1]? != some newline) = true := by
    rw [bne_iff_ne]
    intro hsome
    have hmem := h newline (List.mem_of_getElem? hsome)
    revert hmem
    decide
  rw [parseCtrlLine]
  dsimp only
  rw [hlast, Bool.or_true, if_pos rfl]

/-- What a client appends whose stream ends too early is its stream. -/
theorem Truncated.appendedLine_eq {s : List Byte} (h : Truncated s) : appendedLine s = s := by
  have hfirst : firstLine s = s := Delim.firstRecord_of_none h.2.1
  have ho : Ordinary s := by
    show parseCtrlLine (firstLine s) = none
    rw [hfirst]
    exact parseCtrlLine_of_none h.2.1
  rw [appendedLine, if_pos ho, hfirst]

theorem Truncated.not_tooLong {s : List Byte} (h : Truncated s) : ¬TooLong s := by
  rintro ⟨buf, rest, rfl, -, hlen⟩
  have hlt := h.2.2
  rw [List.length_append] at hlt
  omega

theorem Truncated.not_hasLine {s : List Byte} (h : Truncated s) : ¬HasLine s := by
  rintro ⟨b, hb, rfl⟩
  have hnl := h.2.1 newline (List.mem_of_mem_take hb)
  revert hnl
  decide

theorem LineOf.hasLine {s line : List Byte} (h : LineOf s line) (hc : CompleteLine line) :
    HasLine s := by
  have hpre : line <+: s := h.eq ▸ Delim.firstRecord_prefix s
  obtain ⟨init, hline, -⟩ := hc
  refine ⟨newline, ?_, rfl⟩
  refine (hpre.take maxLine).subset ?_
  rw [List.take_of_length_le h.length_le, hline]
  exact List.mem_append_right _ List.mem_cons_self

/-- A line that has been read is complete, or does not end in a newline. -/
theorem LineOf.cases {s line : List Byte} (h : LineOf s line) :
    CompleteLine line ∨ Delim.ends isNewline line = false :=
  h.complete_or.imp_right fun ⟨heq, hnone, _⟩ ↦ Delim.ends_of_none (heq ▸ hnone)

theorem ends_appendedLine {s : List Byte} (h : LineOf s (firstLine s))
    (hno : ¬(HasLine s ∧ Ordinary s)) : Delim.ends isNewline (appendedLine s) = false := by
  rw [appendedLine]
  split
  · rename_i ho
    exact h.cases.resolve_left fun hc ↦ hno ⟨h.hasLine hc, ho⟩
  · rfl

/-! ## The serial log -/

/-- Adding to an unmixed log in which nothing is pending. -/
theorem Unmixed.add {log : Delim.Log (Tagged ι)} (h : Unmixed log.completed)
    (hp : log.pending = []) (i : ι) (bs : List Byte) :
    Unmixed (log.add endsLine (tag i bs)).completed := by
  rw [Delim.Log.add, Delim.Log.append]
  split
  · intro cmd hcmd
    rcases List.mem_append.mp hcmd with hcmd | hcmd
    · exact h cmd hcmd
    · refine ⟨i, ?_⟩
      intro b hb
      rw [List.mem_singleton.mp hcmd, hp, List.nil_append] at hb
      obtain ⟨-, -, rfl⟩ := List.mem_map.mp hb
      rfl
  · exact h

/-- If no stream ends too early, nothing is ever left pending. -/
theorem unmixed_serial {stream : ι → List Byte} {order : List ι}
    (hread : ∀ i ∈ order, LineOf (stream i) (firstLine (stream i)))
    (h : ∀ i, ¬Truncated (stream i)) :
    Unmixed (serial stream order).completed ∧ (serial stream order).pending = [] := by
  induction order using List.reverseRecOn with
  | nil => exact ⟨unmixed_nil, rfl⟩
  | append_singleton order i ih =>
    obtain ⟨hun, hpend⟩ := ih fun j hj ↦ hread j (List.mem_append_left _ hj)
    rw [serial_concat]
    refine ⟨hun.add hpend i _, ?_⟩
    by_cases hnil : appendedLine (stream i) = []
    · rw [hnil]
      exact (congrArg Delim.Log.pending (Delim.Log.add_nil _)).trans hpend
    · have hi := hread i (List.mem_append_right _ List.mem_cons_self)
      have ho : Ordinary (stream i) := by
        by_contra ho
        exact hnil (if_neg ho)
      rw [appendedLine, if_pos ho] at hnil ⊢
      rw [Delim.Log.add, ends_tag, (hi.completeLine (h i) hnil).ends_eq]
      rfl

/-- If nobody sends a complete line that is not a control line, no command is completed. -/
theorem completed_serial {stream : ι → List Byte} {order : List ι}
    (hread : ∀ i ∈ order, LineOf (stream i) (firstLine (stream i)))
    (h : ∀ i, ¬(HasLine (stream i) ∧ Ordinary (stream i))) :
    (serial stream order).completed = [] := by
  induction order using List.reverseRecOn with
  | nil => rfl
  | append_singleton order i ih =>
    have hi := hread i (List.mem_append_right _ List.mem_cons_self)
    rw [serial_concat, Delim.Log.add, ends_tag, ends_appendedLine hi (h i)]
    exact ih fun j hj ↦ hread j (List.mem_append_left _ hj)

/-! ## Every run -/

section Run

variable {base : List (List Byte)} {stream : ι → List Byte} {w w' : DeviceWorld seek ι}
  {log log' : Delim.Log (Tagged ι)}

/-- The streams cannot get mixed up. -/
def Isolated (stream : ι → List Byte) : Prop :=
  (∀ i, ¬Truncated (stream i)) ∨ ∀ i, ¬(HasLine (stream i) ∧ Ordinary (stream i))

theorem Turns.unmixed (h : Turns base stream w log) (hs : Isolated stream) :
    Unmixed log.completed := by
  rcases w.owner_cases with hown | ⟨i, hown⟩
  · rw [h.log_free hown]
    rcases hs with hs | hs
    · exact (unmixed_serial h.line_of hs).1
    · rw [completed_serial h.line_of hs]
      exact unmixed_nil
  · obtain ⟨pre, hord⟩ := h.last i hown
    have hread : ∀ j ∈ pre, LineOf (stream j) (firstLine (stream j)) := fun j hj ↦
      h.line_of j (hord ▸ List.mem_append_left _ hj)
    rw [h.log_taken i pre hown hord]
    rcases hs with hs | hs
    · obtain ⟨hun, hpend⟩ := unmixed_serial hread hs
      exact hun.add hpend i _
    · have hends : Delim.ends isNewline (w.client i).written = false := by
        rcases (h.clients i).written_cases ((h.mutex i).mpr hown) with hall | ⟨-, b, hb, hpart⟩
        · rw [hall]
          exact ends_appendedLine (h.line_of i (hord ▸ List.mem_append_right _ List.mem_cons_self))
            (hs i)
        · exact ends_of_lineOf hpart hb
      have hnone : ((serial stream pre).add endsLine (tag i (w.client i).written)).completed =
          [] := by
        rw [Delim.Log.add, ends_tag, hends]
        exact completed_serial hread hs
      rw [hnone]
      exact unmixed_nil

variable [DecidableEq ι]

/-- After a client whose stream ended too early, the next line completes a command of both. -/
theorem exists_mixed (seek : FixedSizeLlseek) (errno : ι → ℤ) {i j : ι} (hi : Truncated (stream i))
    (hj : HasLine (stream j)) (hjo : Ordinary (stream j)) :
    ∃ (ls : List (DeviceLabel seek ι)) (w : DeviceWorld seek ι),
      ls.foldlM World.succeed
        (World.init (charDevice seek (ι ⊕ Empty)) .init stream errno, ⟨[], []⟩) =
        some (w, ⟨[tag i (stream i) ++ tag j (firstLine (stream j))], []⟩) := by
  have h₀ : Turns [] stream (World.init (charDevice seek (ι ⊕ Empty)) .init stream errno)
      ⟨[], []⟩ :=
    turns_init refines_init errno
  obtain ⟨ls₁, w₁, log₁, hrun₁, hdone₁, hfree₁, hord₁⟩ := h₀.finish i (.inl rfl)
  have h₁ := h₀.run hrun₁
  have hmem₁ : i ∈ w₁.order := by
    obtain ⟨-, pre, post, hord, -⟩ :=
      (h₁.leaving i (by rw [hdone₁]; rfl)).resolve_left hi.not_tooLong
    simp [hord]
  have hone : w₁.order = [i] := hord₁.resolve_left fun hnil ↦ by
    rw [hnil] at hmem₁
    cases hmem₁
  obtain ⟨ls₂, w₂, log₂, hrun₂, hdone₂, hfree₂, hord₂⟩ := h₁.finish j (.inl hfree₁)
  have h₂ := h₁.run hrun₂
  have hmem₂ : j ∈ w₂.order := by
    obtain ⟨-, pre, post, hord, -⟩ :=
      (h₂.leaving j (by rw [hdone₂]; rfl)).resolve_left hj.not_tooLong
    simp [hord]
  have hne : j ≠ i := by
    rintro rfl
    exact hi.not_hasLine hj
  have htwo : w₂.order = [i] ++ [j] := by
    rw [hone] at hord₂
    refine hord₂.resolve_left fun hsame ↦ hne ?_
    rw [hsame] at hmem₂
    exact List.mem_singleton.mp hmem₂
  refine ⟨ls₁ ++ ls₂, w₂, ?_⟩
  rw [foldlM_succeed_append hrun₁ hrun₂, h₂.log_free hfree₂, htwo, serial_concat]
  have hfirst : serial stream [i] = ⟨[], tag i (stream i)⟩ := by
    show (⟨[], []⟩ : Delim.Log (Tagged ι)).add endsLine (tag i (appendedLine (stream i))) = _
    rw [hi.appendedLine_eq, Delim.Log.add, ends_tag, Delim.ends_of_none hi.2.1]
    rfl
  rw [hfirst, appendedLine, if_pos hjo, Delim.Log.add, ends_tag, hj.completeLine.ends_eq]
  rfl

/-- **When the bytes of clients are kept apart.**  The streams are arbitrary, the device is fresh
and every call succeeds.

In every run, the commands stored in the device are the last ten of those of the log that says who
wrote what.  And in every run each of them comes from one client, if and only if no stream ends,
with at least one byte, before a newline, or no stream has a complete first line that is not a
control line. -/
theorem isolation_iff (seek : FixedSizeLlseek) (stream : ι → List Byte) (errno : ι → ℤ) :
    (∀ (ls : List (DeviceLabel seek ι)) (w : DeviceWorld seek ι) (log : Delim.Log (Tagged ι)),
      ls.foldlM World.succeed
        (World.init (charDevice seek (ι ⊕ Empty)) .init stream errno, ⟨[], []⟩) =
        some (w, log) →
      w.dev.stored =
        (log.completed.rtake maxWriteOperationsSupported).map (List.map Prod.snd)) ∧
    ((∀ (ls : List (DeviceLabel seek ι)) (w : DeviceWorld seek ι) (log : Delim.Log (Tagged ι)),
      ls.foldlM World.succeed
        (World.init (charDevice seek (ι ⊕ Empty)) .init stream errno, ⟨[], []⟩) =
        some (w, log) →
      Unmixed (log.completed.rtake maxWriteOperationsSupported)) ↔ Isolated stream) := by
  have h₀ : Turns [] stream (World.init (charDevice seek (ι ⊕ Empty)) .init stream errno)
      ⟨[], []⟩ :=
    turns_init refines_init errno
  refine ⟨?_, ?_, ?_⟩
  · intro ls w log hrun
    rw [(h₀.run hrun).dev_stored, Concat.map_rtake]
    rfl
  · intro hall
    by_contra hs
    rw [Isolated, not_or, not_forall_not, not_forall_not] at hs
    obtain ⟨⟨i, hi⟩, j, hj, hjo⟩ := hs
    obtain ⟨ls, w, hrun⟩ := exists_mixed seek errno hi hj hjo
    obtain ⟨k, hk⟩ := hall ls w _ hrun _ List.mem_cons_self
    have hik : i = k := eq_of_tag hi.1 fun b hb ↦ hk b (List.mem_append_left _ hb)
    have hjk : j = k :=
      eq_of_tag hj.completeLine.ne_nil fun b hb ↦ hk b (List.mem_append_right _ hb)
    rw [hik, ← hjk] at hi
    exact hi.not_hasLine hj
  · intro hs ls w log hrun cmd hcmd
    exact (h₀.run hrun).unmixed hs cmd (Concat.mem_of_mem_rtake hcmd)

end Run

/-! ## A stream that ends too early -/

/-- One client sends `"a"` and closes its socket, the other sends `"b\n"`. -/
def earlyEnd (i : Bool) : List Byte := if i then [98, 10] else [97]

/-- They are served one after the other. -/
def afterEarlyEnd : List (DeviceLabel fixedSizeLlseek Bool) :=
  let plain : WriteEnv := (WriteCall.plain 0 []).env
  [.ret false .ok, .ret false (.bytes [97]), .ret false (.bytes []), .ret false .ok, .ret false .ok,
    .ret false (.count 1), .flush false 1 plain, .ret false .ok, .ret false .ok,
    .fill false 512 ⟨false, 0⟩, .ret false (.bytes []), .ret false .ok, .ret false .ok,
    .ret true .ok, .ret true (.bytes [98, 10]), .ret true .ok, .ret true .ok, .ret true .ok,
    .ret true (.count 2), .flush true 2 plain]

/-- The device stores `"ab\n"`, of which one client has sent the first byte and the other the
rest. -/
theorem stored_mixes_clients :
    ∃ w log, afterEarlyEnd.foldlM World.succeed
        (World.init (charDevice fixedSizeLlseek (Bool ⊕ Empty)) .init earlyEnd fun _ ↦ 0,
          ⟨[], []⟩) = some (w, log) ∧
      w.dev.stored = [[97, 98, 10]] ∧
      log.completed = [[(false, 97), (true, 98), (true, 10)]] ∧
      ¬Unmixed (log.completed.rtake maxWriteOperationsSupported) := by
  have hrun : (afterEarlyEnd.foldlM World.succeed
      (World.init (charDevice fixedSizeLlseek (Bool ⊕ Empty)) .init earlyEnd fun _ ↦ 0,
        ⟨[], []⟩)).map (fun x ↦ (x.1.dev.stored, x.2.completed)) =
      some ([[97, 98, 10]], [[(false, 97), (true, 98), (true, 10)]]) := by decide +kernel
  obtain ⟨⟨w, log⟩, hx, hfacts⟩ := Option.map_eq_some_iff.mp hrun
  obtain ⟨hstored, hlog⟩ := Prod.mk.inj hfacts
  refine ⟨w, log, hx, hstored, hlog, ?_⟩
  intro hun
  have hlog' : log.completed = [[(false, 97), (true, 98), (true, 10)]] := hlog
  rw [hlog'] at hun
  obtain ⟨k, hk⟩ := hun _ List.mem_cons_self
  have hfalse := hk (false, 97) (by decide)
  have htrue := hk (true, 98) (by decide)
  exact Bool.false_ne_true (hfalse.trans htrue.symm)

end Aesd
