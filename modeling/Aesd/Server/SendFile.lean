import Aesd.Server.SockThread

/-!
# Sending the file

`send_file` reads the file line by line and sends each line in a loop, since `send` may take only
part of what it is given.  `Sending` is a thread in that function, beside the file and the socket:
`getline` returns the next line of what is left of the file, and `send` takes any number of bytes up
to what it is given, or fails.

As long as no `send` fails, what the socket has taken, the rest of the line and the rest of the file
make up the file at any time (`Sends`).  Every step makes `Sending.left` smaller, so the function
returns, and then the socket has taken all of it (`sendFile_complete`).

A failing `send` is not noticed.  Its result `-1` is subtracted from `bytes_left` and added to
`offset`, and the loop goes on one byte too early in the line, or before its beginning.
`keepsPlace_iff` says that the loop keeps its place exactly if no `send` fails.
-/

set_option autoImplicit false

namespace Aesd

/-- A thread in `send_file`, with the file and the socket. -/
structure Sending where
  /-- The thread. -/
  thread : SockThread
  /-- What `getline` has not returned yet. -/
  rest : List Byte
  /-- The bytes of the lines that the socket has taken. -/
  accepted : List Byte
  /-- How many bytes of the current line the socket has taken. -/
  lineSent : ℕ

namespace Sending

/-- `send_file` is called by a thread, and `content` is the file from its current position on. -/
def init (t : SockThread) (content : List Byte) : Sending where
  thread := { t with pc := .getline, sendLine := [], bytesLeft := 0, sendOffset := 0 }
  rest := content
  accepted := []
  lineSent := 0

/-- What the next call can come back with.  `getline` returns the next line, `[]` at the end of the
file; `send` takes some of the bytes, or fails with an error number. -/
def CanReturn (u : Sending) : Outcome → Prop
  | .bytes bs => u.thread.pc = .getline ∧ bs = Delim.firstRecord isNewline u.rest
  | .count n => u.thread.pc = .send ∧ 1 ≤ n ∧ n ≤ u.thread.bytesLeft
  | .fail e => u.thread.pc = .send ∧ e ≠ 0
  | .ok => u.thread.pc = .freeGetline
  | .short _ _ => False

instance (u : Sending) : (o : Outcome) → Decidable (u.CanReturn o)
  | .bytes _ => inferInstanceAs (Decidable (_ ∧ _))
  | .count _ => inferInstanceAs (Decidable (_ ∧ _))
  | .fail _ => inferInstanceAs (Decidable (_ ∧ _))
  | .ok => inferInstanceAs (Decidable (_ = _))
  | .short _ _ => inferInstanceAs (Decidable False)

/-- The file and the socket after a call. -/
def after (u : Sending) (t : SockThread) : Outcome → Sending
  | .bytes bs => ⟨t, u.rest.drop bs.length, u.accepted, if bs = [] then u.lineSent else 0⟩
  | .count n =>
    ⟨t, u.rest, u.accepted ++ (u.thread.sendLine.drop u.thread.sendOffset).take n, u.lineSent + n⟩
  | _ => ⟨t, u.rest, u.accepted, u.lineSent⟩

/-- One call. -/
def step (build : Build) (u : Sending) (o : Outcome) : Option Sending :=
  if u.CanReturn o then (u.thread.step build o).map fun t ↦ u.after t o else none

/-- Any number of calls. -/
def run (build : Build) (t : SockThread) (content : List Byte) (os : List Outcome) :
    Option Sending :=
  os.foldlM (step build) (init t content)

/-- `send_file` has returned. -/
def Returned (u : Sending) : Prop := u.thread.pc = .unlock

/-- What `send_file` returns. -/
def result (u : Sending) : Bool := u.thread.errno == 0

/-- The position in the line is the number of bytes that have been sent of it, and as many are left
as there are behind it. -/
def InPlace (u : Sending) : Prop :=
  u.thread.pc = .getline ∨ u.thread.pc = .send →
    u.thread.sendOffset + u.thread.bytesLeft = u.thread.sendLine.length ∧
      u.thread.sendOffset = u.lineSent

/-- The function goes on: it has returned, or its next call can return, and it takes whatever that
returns. -/
def GoesOn (build : Build) (u : Sending) : Prop :=
  (u.Returned ∨ ∃ o, u.CanReturn o) ∧ ∀ o, u.CanReturn o → (u.step build o).isSome = true

/-- How many more calls there can be, if no `send` fails. -/
def left (u : Sending) : ℕ :=
  2 * u.rest.length + u.thread.bytesLeft +
    match u.thread.pc with
    | .getline => 2
    | .send => 2
    | .freeGetline => 1
    | _ => 0

/-! ## While no `send` fails -/

/-- What holds while no `send` fails. -/
structure Sends (content : List Byte) (u : Sending) : Prop where
  /-- Where the thread is. -/
  pc : u.thread.pc = .getline ∨ u.thread.pc = .send ∨ u.thread.pc = .freeGetline ∨ u.Returned
  /-- The rest of the line is behind the position. -/
  count : u.thread.sendOffset + u.thread.bytesLeft = u.thread.sendLine.length
  /-- The position is what has been sent. -/
  sent : u.thread.sendOffset = u.lineSent
  /-- What has been sent, the rest of the line and the rest of the file are the file. -/
  bytes : u.accepted ++ u.thread.sendLine.drop u.thread.sendOffset ++ u.rest = content
  /-- There is something to send exactly in the inner loop. -/
  more : u.thread.pc = .send ↔ 0 < u.thread.bytesLeft
  /-- The loops have ended with the file. -/
  ended : u.thread.pc = .freeGetline ∨ u.Returned → u.rest = []

theorem sends_init (t : SockThread) (content : List Byte) : (init t content).Sends content where
  pc := .inl rfl
  count := rfl
  sent := rfl
  bytes := rfl
  more := by simp [init]
  ended h := by simp [init, Returned] at h

theorem Sends.inPlace {content : List Byte} {u : Sending} (h : u.Sends content) : u.InPlace :=
  fun _ ↦ ⟨h.count, h.sent⟩

theorem step_eq_some {build : Build} {u u' : Sending} {o : Outcome} :
    u.step build o = some u' ↔
      u.CanReturn o ∧ ∃ t, u.thread.step build o = some t ∧ u.after t o = u' := by
  rw [step, Option.ite_none_right_eq_some, Option.map_eq_some_iff]

/-- Before `getline` the line has been sent. -/
theorem Sends.line_sent {content : List Byte} {u : Sending} (h : u.Sends content)
    (hpc : u.thread.pc ≠ .send) :
    u.thread.bytesLeft = 0 ∧ u.thread.sendLine.drop u.thread.sendOffset = [] := by
  have hleft : u.thread.bytesLeft = 0 := Nat.eq_zero_of_not_pos (mt h.more.mpr hpc)
  have hcount := h.count
  exact ⟨hleft, List.drop_eq_nil_of_le (by omega)⟩

/-- At the end nothing is missing. -/
theorem Sends.accepted_eq {content : List Byte} {u : Sending} (h : u.Sends content)
    (hret : u.Returned) : u.accepted = content := by
  obtain ⟨-, hall⟩ := h.line_sent (by rw [hret]; decide)
  rw [← h.bytes, hall, h.ended (.inr hret), List.append_nil, List.append_nil]

/-- `getline` has returned a line, or the file has ended. -/
theorem Sends.getline {content : List Byte} {u u' : Sending} (h : u.Sends content) {build : Build}
    {bs : List Byte} (hstep : u.step build (.bytes bs) = some u') :
    u'.Sends content ∧ u'.left < u.left := by
  obtain ⟨⟨hpc, hbs⟩, t, ht, rfl⟩ := step_eq_some.mp hstep
  obtain ⟨hleft, hall⟩ := h.line_sent (by rw [hpc]; decide)
  have hbytes := h.bytes
  rw [hall, List.append_nil] at hbytes
  have hrest : bs ++ u.rest.drop bs.length = u.rest :=
    hbs ▸ List.prefix_iff_eq_append.mp (Delim.firstRecord_prefix u.rest)
  simp only [SockThread.step, hpc] at ht
  split at ht <;> obtain rfl := Option.some.inj ht
  · rename_i hnil
    have hend : u.rest = [] := by
      by_contra hne
      exact Delim.firstRecord_ne_nil hne (hbs.symm.trans hnil)
    refine ⟨⟨.inr (.inr (.inl rfl)), h.count, ?_, ?_, ?_, ?_⟩, ?_⟩
    · show u.thread.sendOffset = if bs = [] then u.lineSent else 0
      rw [if_pos hnil, h.sent]
    · show u.accepted ++ u.thread.sendLine.drop u.thread.sendOffset ++ u.rest.drop bs.length = _
      rw [hall, List.append_nil, hend, List.drop_nil, ← hbytes, hend]
    · simp [after, hleft]
    · intro _
      show u.rest.drop bs.length = []
      rw [hend, List.drop_nil]
    · simp [left, after, hpc, hend]
  · rename_i hne
    have hpos := List.length_pos_of_ne_nil hne
    refine ⟨⟨.inr (.inl rfl), Nat.zero_add _, ?_, ?_, ?_, ?_⟩, ?_⟩
    · show 0 = if bs = [] then u.lineSent else 0
      rw [if_neg hne]
    · show u.accepted ++ bs.drop 0 ++ u.rest.drop bs.length = content
      rw [List.drop_zero, List.append_assoc, hrest, hbytes]
    · simp [after, hpos]
    · simp [after, Returned]
    · have hlen := congrArg List.length hrest
      rw [List.length_append] at hlen
      simp only [left, after, hpc]
      omega

/-- `send` has taken some of the line. -/
theorem Sends.send {content : List Byte} {u u' : Sending} (h : u.Sends content) {build : Build}
    {n : ℕ} (hstep : u.step build (.count n) = some u') :
    u'.Sends content ∧ u'.left < u.left := by
  obtain ⟨⟨hpc, hpos, hle⟩, t, ht, rfl⟩ := step_eq_some.mp hstep
  have hcount := h.count
  simp only [SockThread.step, hpc, if_pos (And.intro hpos hle),
    SockThread.advance_eq (t := u.thread) (n := n) (by omega)] at ht
  obtain rfl := Option.some.inj ht
  have hctl := SockThread.control_sendLoop u.thread (u.thread.bytesLeft - n)
    (u.thread.sendOffset + n)
  have hmore : (u.thread.sendLoop (u.thread.bytesLeft - n) (u.thread.sendOffset + n)).pc = .send ↔
      0 < u.thread.bytesLeft - n := by
    simp only [SockThread.sendLoop]
    split <;> simp_all
  refine ⟨⟨?_, ?_, ?_, ?_, hmore, ?_⟩, ?_⟩
  · exact hctl.elim (fun hsend ↦ .inr (.inl hsend)) .inl
  · show u.thread.sendOffset + n + (u.thread.bytesLeft - n) = u.thread.sendLine.length
    omega
  · show u.thread.sendOffset + n = u.lineSent + n
    rw [h.sent]
  · show u.accepted ++ (u.thread.sendLine.drop u.thread.sendOffset).take n ++
      u.thread.sendLine.drop (u.thread.sendOffset + n) ++ u.rest = content
    rw [← List.drop_drop, List.append_assoc u.accepted, List.take_append_drop, h.bytes]
  · rintro (hend | hend)
    · rcases hctl with hctl | hctl <;> exact absurd (hctl.symm.trans hend) (by decide)
    · rcases hctl with hctl | hctl <;> exact absurd (hctl.symm.trans hend) (by decide)
  · have hleft : (u.thread.sendLoop (u.thread.bytesLeft - n)
        (u.thread.sendOffset + n)).bytesLeft = u.thread.bytesLeft - n := rfl
    simp only [left, after, hpc]
    rcases hctl with hctl | hctl <;> simp only [hctl, hleft] <;> omega

/-- **One call**, if it is not a failing `send`. -/
theorem Sends.step {content : List Byte} {u u' : Sending} (h : u.Sends content) {build : Build}
    {o : Outcome} (ho : ∀ e, o ≠ .fail e) (hstep : u.step build o = some u') :
    u'.Sends content ∧ u'.left < u.left := by
  cases o with
  | bytes bs => exact h.getline hstep
  | count n => exact h.send hstep
  | fail e => exact absurd rfl (ho e)
  | short n e => exact (step_eq_some.mp hstep).1.elim
  | ok =>
    obtain ⟨hpc, t, ht, rfl⟩ := step_eq_some.mp hstep
    replace hpc : u.thread.pc = .freeGetline := hpc
    simp only [SockThread.step, hpc] at ht
    obtain rfl := Option.some.inj ht
    obtain ⟨hleft, -⟩ := h.line_sent (by rw [hpc]; decide)
    refine ⟨⟨.inr (.inr (.inr rfl)), h.count, h.sent, h.bytes, ?_, fun _ ↦ h.ended (.inl hpc)⟩, ?_⟩
    · simp [after, hleft]
    · simp [left, after, hpc]

/-- **Any number of calls.** -/
theorem run_sends {build : Build} {t : SockThread} {content : List Byte} {os : List Outcome}
    {u : Sending} (h : run build t content os = some u) (hos : ∀ e, Outcome.fail e ∉ os) :
    u.Sends content ∧ os.length + u.left ≤ 2 * content.length + 2 := by
  refine Run.foldlM_variant (A := fun o ↦ ∀ e, o ≠ .fail e) left ?_ ?_ h (sends_init t content)
  · intro u o u' ho hu hstep
    exact hu.step ho hstep
  · rintro o ho e rfl
    exact hos e ho

/-- The loops never get stuck. -/
theorem Sends.goesOn {content : List Byte} {u : Sending} (h : u.Sends content) (build : Build) :
    u.GoesOn build := by
  constructor
  · rcases h.pc with hpc | hpc | hpc | hpc
    · exact .inr ⟨.bytes _, hpc, rfl⟩
    · exact .inr ⟨.count 1, hpc, le_rfl, h.more.mp hpc⟩
    · exact .inr ⟨.ok, hpc⟩
    · exact .inl hpc
  · intro o ho
    rw [Sending.step, if_pos ho, Option.isSome_map]
    cases o with
    | bytes bs =>
      simp only [SockThread.step, ho.1]
      split <;> rfl
    | count n => simp only [SockThread.step, ho.1, if_pos ho.2, Option.isSome_some]
    | fail e => simp only [SockThread.step, ho.1, Option.isSome_some]
    | ok =>
      replace ho : u.thread.pc = .freeGetline := ho
      simp only [SockThread.step, ho, Option.isSome_some]
    | short n e => exact ho.elim

end Sending

/-- **Sending succeeds**, however `send` cuts the lines into pieces.  If none of them fails:

* there have been at most two calls for each byte of the file, and two;
* the function has returned, or goes on, whatever its next call returns;
* what the socket has taken, the rest of the line and the rest of the file are the file;
* when the function has returned, the socket has taken all of the file. -/
theorem sendFile_complete (build : Build) (t : SockThread) (content : List Byte)
    (os : List Outcome) (u : Sending) (hrun : Sending.run build t content os = some u)
    (hos : ∀ e, Outcome.fail e ∉ os) :
    os.length ≤ 2 * content.length + 2 ∧ u.GoesOn build ∧
      u.accepted ++ u.thread.sendLine.drop u.thread.sendOffset ++ u.rest = content ∧
      (u.Returned → u.accepted = content) := by
  obtain ⟨hsends, hlen⟩ := Sending.run_sends hrun hos
  exact ⟨by omega, hsends.goesOn build, hsends.bytes, hsends.accepted_eq⟩

/-- The file `"a\n"`, sent in two pieces. -/
theorem sendFile_complete_ab : ∃ u, Sending.run .file (.init 0) [97, 10]
    [.bytes [97, 10], .count 1, .count 1, .bytes [], .ok] = some u ∧ u.accepted = [97, 10] := by
  have hrun : ((Sending.run .file (.init 0) [97, 10]
      [.bytes [97, 10], .count 1, .count 1, .bytes [], .ok]).map fun u ↦ u.thread.pc) =
        some .unlock := by decide +kernel
  obtain ⟨u, hu, hpc⟩ := Option.map_eq_some_iff.mp hrun
  exact ⟨u, hu, (sendFile_complete _ _ _ _ u hu (by simp)).2.2.2 hpc⟩

namespace Sending

/-! ## When a `send` fails -/

/-- A call leaves a place behind in every run that makes it. -/
theorem exists_of_mem {build : Build} {t : SockThread} {content : List Byte} {os : List Outcome}
    {u : Sending} (h : run build t content os = some u) {o : Outcome} (ho : o ∈ os) :
    ∃ pre post v w, os = pre ++ o :: post ∧ run build t content pre = some v ∧
      v.step build o = some w ∧ post.foldlM (step build) w = some u := by
  obtain ⟨pre, post, rfl⟩ := List.append_of_mem ho
  obtain ⟨v, hv, hrest⟩ := Run.foldlM_append_eq_some.mp h
  obtain ⟨w, hw, hpost⟩ := Run.foldlM_cons_eq_some.mp hrest
  exact ⟨pre, post, v, w, rfl, hv, hw, hpost⟩

/-- The loop is then one byte too early in the line, or before its beginning. -/
theorem not_inPlace_of_fail {build : Build} {u u' : Sending} {e : ℤ} (h : u.InPlace)
    (hstep : u.step build (.fail e) = some u') : ¬u'.InPlace := by
  obtain ⟨⟨hpc, -⟩, t, ht, rfl⟩ := step_eq_some.mp hstep
  simp only [SockThread.step, hpc] at ht
  obtain rfl := Option.some.inj ht
  obtain ⟨-, hsent⟩ := h (.inr hpc)
  intro hplace
  have hctl := SockThread.control_sendLoop u.thread (sizeT (u.thread.bytesLeft + 1))
    (sizeT (u.thread.sendOffset - 1))
  obtain ⟨-, hwrong⟩ := hplace hctl.symm
  replace hwrong : sizeT (u.thread.sendOffset - 1) = u.lineSent := hwrong
  rw [← hsent, sizeT] at hwrong
  omega

/-- An error number stays. -/
theorem step_errno_ne_zero {build : Build} {u u' : Sending} {o : Outcome}
    (h : u.thread.errno ≠ 0 ∨ ∃ e, o = .fail e) (hstep : u.step build o = some u') :
    u'.thread.errno ≠ 0 := by
  obtain ⟨hcan, t, ht, rfl⟩ := step_eq_some.mp hstep
  cases o with
  | fail e =>
    simp only [SockThread.step, hcan.1] at ht
    obtain rfl := Option.some.inj ht
    exact hcan.2
  | bytes bs =>
    simp only [SockThread.step, hcan.1] at ht
    split at ht <;> obtain rfl := Option.some.inj ht <;> exact h.resolve_right (by simp)
  | count n =>
    simp only [SockThread.step, hcan.1, if_pos hcan.2] at ht
    obtain rfl := Option.some.inj ht
    exact h.resolve_right (by simp)
  | ok =>
    replace hcan : u.thread.pc = .freeGetline := hcan
    simp only [SockThread.step, hcan] at ht
    obtain rfl := Option.some.inj ht
    exact h.resolve_right (by simp)
  | short n e => exact hcan.elim

/-- **A failing `send` is reported**, if the function returns at all. -/
theorem result_of_fail {build : Build} {t : SockThread} {content : List Byte} {os : List Outcome}
    {u : Sending} (h : run build t content os = some u) {e : ℤ} (he : .fail e ∈ os) :
    u.result = false := by
  obtain ⟨pre, post, v, w, -, -, hw, hpost⟩ := exists_of_mem h he
  have herr : u.thread.errno ≠ 0 :=
    Run.foldlM_invariant (I := fun u ↦ u.thread.errno ≠ 0)
      (fun _ _ _ hs hstep ↦ step_errno_ne_zero (.inl hs) hstep) hpost
      (step_errno_ne_zero (.inr ⟨e, rfl⟩) hw)
  exact beq_false_of_ne herr

/-- **The loops keep their place**: every call of `send` is for the rest of the line, the function
comes to an end, and after a failing `send` it returns `false`. -/
structure KeepsPlace (build : Build) (t : SockThread) (content : List Byte) (os : List Outcome) :
    Prop where
  /-- The position is right, all the way, and the function goes on. -/
  inPlace : ∀ pre u, pre <+: os → run build t content pre = some u → u.InPlace ∧ u.GoesOn build
  /-- The number of calls is bounded. -/
  ends : os.length ≤ 2 * content.length + 2
  /-- A failure is reported. -/
  reports : ∀ u e, run build t content os = some u → .fail e ∈ os → u.Returned → u.result = false

/-- **When the loops keep their place**: exactly when no `send` fails. -/
theorem keepsPlace_iff (build : Build) (t : SockThread) (content : List Byte) (os : List Outcome)
    (u : Sending) (hrun : run build t content os = some u) :
    KeepsPlace build t content os ↔ ∀ e, Outcome.fail e ∉ os := by
  constructor
  · intro hkeeps e he
    obtain ⟨pre, post, v, w, rfl, hv, hw, -⟩ := exists_of_mem hrun he
    have hnext : run build t content (pre ++ [.fail e]) = some w :=
      Run.foldlM_append_eq_some.mpr ⟨v, hv, Run.foldlM_cons_eq_some.mpr ⟨w, hw, rfl⟩⟩
    have hbefore := (hkeeps.inPlace pre v (List.prefix_append ..) hv).1
    have hafter := (hkeeps.inPlace (pre ++ [.fail e]) w ⟨post, by simp⟩ hnext).1
    exact not_inPlace_of_fail hbefore hw hafter
  · intro hos
    refine ⟨?_, ?_, fun _ _ h he _ ↦ result_of_fail h he⟩
    · intro pre v hpre hv
      obtain ⟨hsends, -⟩ := run_sends hv fun e he ↦ hos e (hpre.subset he)
      exact ⟨hsends.inPlace, hsends.goesOn build⟩
    · have hlen := (run_sends hrun hos).2
      omega

/-- The file `"a\n"`, sent in two pieces. -/
theorem keepsPlace_iff_ab :
    KeepsPlace .file (.init 0) [97, 10] [.bytes [97, 10], .count 1, .count 1, .bytes [], .ok] := by
  have hrun : (run .file (.init 0) [97, 10]
      [.bytes [97, 10], .count 1, .count 1, .bytes [], .ok]).isSome = true := by decide +kernel
  obtain ⟨u, hu⟩ := Option.isSome_iff_exists.mp hrun
  exact (keepsPlace_iff _ _ _ _ u hu).mpr (by simp)

/-- The file `"a\n"`, and the connection has been reset: `send` is to go on with three bytes from an
offset of `2 ^ 64 - 1` on. -/
theorem send_before_line : ∃ u, run .file (.init 0) [97, 10] [.bytes [97, 10], .fail 104] = some u ∧
    u.thread.call = some (.send (2 ^ 64 - 1) 3) ∧
    ¬KeepsPlace .file (.init 0) [97, 10] [.bytes [97, 10], .fail 104] := by
  have hrun : (run .file (.init 0) [97, 10] [.bytes [97, 10], .fail 104]).map (fun u ↦
      (u.thread.call, u.thread.pc, u.thread.sendOffset, u.lineSent)) =
        some (some (.send (2 ^ 64 - 1) 3), .send, 2 ^ 64 - 1, 0) := by decide +kernel
  obtain ⟨u, hu, hfacts⟩ := Option.map_eq_some_iff.mp hrun
  simp only [Prod.mk.injEq] at hfacts
  obtain ⟨hcall, hpc, hoff, hsent⟩ := hfacts
  refine ⟨u, hu, hcall, ?_⟩
  intro hkeeps
  obtain ⟨-, hplace⟩ := (hkeeps.inPlace _ u (List.prefix_refl _) hu).1 (.inr hpc)
  rw [hoff, hsent] at hplace
  exact absurd hplace (by decide)

end Sending

end Aesd
