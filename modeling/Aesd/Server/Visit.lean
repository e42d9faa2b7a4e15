import Aesd.Server.Events
import Aesd.Server.ReadLine

/-!
# A client's visit

What is known about one client wherever its thread is, in the device build and when nothing fails.
`Client.At content s c` says it for a client that sends the stream `s`; `content` is what can be
read from the device, and only matters while the client holds the mutex.

Before the mutex the thread reads its line.  Then it writes it: what has been written and what is
still buffered make up the line.  Then it reads the device, which nobody changes meanwhile, so what
the client has been sent and what is buffered for it make up the beginning of the content
(`Client.Walk`), and in the end all of it.  `Client.At.proceeds` is the step.
-/

set_option autoImplicit false

namespace Aesd

/-! ## Three stages -/

/-- The thread has not taken the mutex yet. -/
def Pc.waiting : Pc → Bool
  | .malloc | .recv | .realloc | .freeBuf | .printf | .fopenAppend | .lock => true
  | _ => false

/-- The thread holds the mutex. -/
def Pc.critical : Pc → Bool
  | .fwrite | .fcloseAppend | .fopenRead | .ioctl | .getline | .send | .freeGetline | .unlock =>
    true
  | _ => false

/-- The thread has given the mutex back, or does without it. -/
def Pc.leaving : Pc → Bool
  | .fclose | .free | .close | .finish | .done => true
  | _ => false

/-- The line is not a control line. -/
def Ordinary (s : List Byte) : Prop := parseCtrlLine (firstLine s) = none

instance (s : List Byte) : Decidable (Ordinary s) := inferInstanceAs (Decidable (_ = none))

/-- What the thread appends to the file: its line, or nothing for a control line. -/
def appendedLine (s : List Byte) : List Byte := if Ordinary s then firstLine s else []

/-- The line of the stream `s` has been read, and looked at. -/
structure Known (s line : List Byte) (seekTo : Option AesdSeekto) : Prop where
  /-- It is the line of the stream. -/
  line_of : LineOf s line
  /-- `parse_ctrl_line` has been asked. -/
  parsed : seekTo = parseCtrlLine (firstLine s)

theorem Known.isSome_iff {s line : List Byte} {seekTo : Option AesdSeekto}
    (h : Known s line seekTo) :
    seekTo.isSome = true ↔ ¬Ordinary s := by
  rw [h.parsed, Ordinary, Option.isSome_iff_ne_none]

theorem Known.appendedLine_eq {s line : List Byte} {seekTo : Option AesdSeekto}
    (h : Known s line seekTo) : appendedLine s = if seekTo.isSome then [] else line := by
  by_cases ho : Ordinary s
  · rw [appendedLine, if_pos ho, if_neg (mt h.isSome_iff.mp (not_not_intro ho)), h.line_of.eq]
  · rw [appendedLine, if_neg ho, if_pos (h.isSome_iff.mpr ho)]

/-- The client has been sent the beginning of the content, `rest` and the buffer come next. -/
structure Client.Walk (content : List Byte) (c : Client) (rest : List Byte) : Prop where
  /-- Up to the file position. -/
  bytes : c.got ++ rest ++ c.rbuf = content.take c.fPos
  /-- The file position is inside. -/
  inside : c.fPos ≤ content.length
  /-- At the end of the file it is at the end. -/
  atEnd : c.eof = true → c.fPos = content.length

/-- What is known about a client, by the call it makes next. -/
def Client.At (content s : List Byte) (c : Client) : Prop :=
  match c.thread.pc with
  | .malloc | .recv => c.thread.Reading s c.input ∧ c.written = [] ∧ c.got = []
  | .realloc =>
    (c.thread.Reading s c.input ∨ c.thread.Overflow s) ∧ c.written = [] ∧ c.got = []
  | .freeBuf => TooLong s
  | .printf => LineOf s c.thread.line ∧ c.written = [] ∧ c.got = []
  | .fopenAppend => Known s c.thread.line c.thread.seekTo ∧ Ordinary s ∧ c.written = [] ∧ c.got = []
  | .lock => Known s c.thread.line c.thread.seekTo ∧ c.written = [] ∧ c.got = []
  | .fwrite | .fcloseAppend => Known s c.thread.line c.thread.seekTo ∧ Ordinary s ∧
      c.written ++ c.out = c.thread.line ∧ c.got = []
  | .fopenRead =>
    Known s c.thread.line c.thread.seekTo ∧ c.written = appendedLine s ∧ c.got = []
  | .ioctl =>
    Known s c.thread.line c.thread.seekTo ∧ c.written = appendedLine s ∧ ¬Ordinary s
  | .getline => c.written = appendedLine s ∧ (Ordinary s → c.Walk content [])
  | .send => c.written = appendedLine s ∧
      c.thread.bytesLeft + c.thread.sendOffset = c.thread.sendLine.length ∧
      0 < c.thread.bytesLeft ∧
      (Ordinary s → c.Walk content (c.thread.sendLine.drop c.thread.sendOffset))
  | .freeGetline | .unlock => c.written = appendedLine s ∧ (Ordinary s → c.got = content)
  | .fclose | .free | .close | .finish | .done => True

namespace Client

variable {content s : List Byte} {c c' : Client}

/-- Without the mutex the content does not matter. -/
theorem At.of_not_critical (h : c.At content s) (hc : c.thread.pc.critical = false)
    (content' : List Byte) : c.At content' s := by
  rw [At] at h ⊢
  cases hpc : c.thread.pc <;> simp only [hpc] at h ⊢ <;>
    first | exact h | (rw [hpc] at hc; cases hc)

/-- What is known about a client that is writing its line. -/
theorem At.writing (h : c.At content s)
    (hpc : c.thread.pc = .fwrite ∨ c.thread.pc = .fcloseAppend) :
    Known s c.thread.line c.thread.seekTo ∧ Ordinary s ∧ c.written ++ c.out = c.thread.line ∧
      c.got = [] := by
  rcases hpc with hpc | hpc <;> simpa only [At, hpc] using h

/-- Who holds the mutex has written its line, or a part of it that is not all. -/
theorem At.written_cases (h : c.At content s)
    (hc : c.thread.pc.critical = true) :
    c.written = appendedLine s ∨
      (Ordinary s ∧ ∃ b, b ≠ [] ∧ LineOf s (c.written ++ b)) := by
  by_cases hpc : c.thread.pc = .fwrite ∨ c.thread.pc = .fcloseAppend
  · obtain ⟨hknown, ho, hline, -⟩ := h.writing hpc
    by_cases hout : c.out = []
    · left
      rw [hout, List.append_nil] at hline
      rw [appendedLine, if_pos ho, hline, hknown.line_of.eq]
    · exact .inr ⟨ho, c.out, hout, hline ▸ hknown.line_of⟩
  · left
    rw [not_or] at hpc
    cases hpc' : c.thread.pc <;> simp only [hpc', Pc.critical, reduceCtorEq] at hc <;>
      simp only [At, hpc'] at h
    case fwrite => exact absurd hpc' hpc.1
    case fcloseAppend => exact absurd hpc' hpc.2
    case fopenRead => exact h.2.1
    case ioctl => exact h.2.1
    case getline => exact h.1
    case send => exact h.1
    case freeGetline => exact h.1
    case unlock => exact h.1

/-! ## Walking along the content -/

theorem walk_nil (c : Client) (hgot : c.got = []) (hpos : c.fPos = 0) (hbuf : c.rbuf = [])
    (heof : c.eof = false) : c.Walk content [] := by
  refine ⟨?_, ?_, ?_⟩
  · rw [hgot, hbuf, hpos, List.take_zero]
    rfl
  · rw [hpos]
    exact Nat.zero_le _
  · intro h
    rw [heof] at h
    exact absurd h (by simp)

/-- `getline` has found the end of the file: all has been sent. -/
theorem Walk.got_eq (h : c.Walk content []) (hready : c.lineReady [] = true) : c.got = content := by
  rw [lineReady] at hready
  split at hready
  · rename_i hany
    obtain ⟨init, last, heq, -⟩ := Delim.firstRecord_of_exists (List.any_eq_true.mp hany)
    rw [heq] at hready
    simp at hready
  · rw [Bool.and_eq_true, beq_iff_eq] at hready
    have hbytes := h.bytes
    rwa [← hready.2, List.append_nil, List.append_nil, h.atEnd hready.1, List.take_length] at hbytes

/-- A line that `getline` can return is at the beginning of the buffer. -/
theorem prefix_of_lineReady {bs : List Byte} (hready : c.lineReady bs = true) : bs <+: c.rbuf := by
  rw [lineReady] at hready
  split at hready
  · rw [beq_iff_eq.mp hready]
    exact Delim.firstRecord_prefix _
  · rw [Bool.and_eq_true, beq_iff_eq] at hready
    rw [hready.2]

theorem Walk.getline (h : c.Walk content []) {bs : List Byte} (hready : c.lineReady bs = true)
    (t : SockThread) : { c with thread := t, rbuf := c.rbuf.drop bs.length }.Walk content bs := by
  obtain ⟨rest, hrest⟩ := prefix_of_lineReady hready
  refine ⟨?_, h.inside, h.atEnd⟩
  show c.got ++ bs ++ c.rbuf.drop bs.length = content.take c.fPos
  rw [← h.bytes, ← hrest, List.drop_left]
  simp

theorem Walk.send {line : List Byte} {off : ℕ} (h : c.Walk content (line.drop off)) (n : ℕ)
    (t : SockThread) :
    { c with thread := t, got := c.got ++ (line.drop off).take n }.Walk content
      (line.drop (off + n)) := by
  refine ⟨?_, h.inside, h.atEnd⟩
  show c.got ++ (line.drop off).take n ++ line.drop (off + n) ++ c.rbuf = content.take c.fPos
  rw [← h.bytes, List.append_assoc c.got, ← List.drop_drop, List.take_append_drop]

/-- The stream is filled with what comes next. -/
theorem Walk.fill (h : c.Walk content []) {data : List Byte} {pos : ℕ}
    (hdata : data <+: content.drop c.fPos) (hpos : pos = c.fPos + data.length)
    (hend : data = [] → content.length ≤ c.fPos) :
    { c with fPos := pos, rbuf := c.rbuf ++ data, eof := data.isEmpty }.Walk content [] := by
  have hlen := hdata.length_le
  rw [List.length_drop] at hlen
  have hin := h.inside
  refine ⟨?_, ?_, ?_⟩
  · show c.got ++ [] ++ (c.rbuf ++ data) = content.take pos
    rw [hpos, List.take_add, ← List.append_assoc, h.bytes, ← List.prefix_iff_eq_take.mp hdata]
  · show pos ≤ content.length
    omega
  · intro heof
    rw [List.isEmpty_iff] at heof
    have hend' := hend heof
    show pos = content.length
    rw [hpos, heof]
    simp only [List.length_nil]
    omega

/-! ## One call -/

/-- The line is there, and looked at. -/
theorem At.lineRead (t : SockThread) {line : List Byte} (hline : LineOf s line)
    (hwritten : c.written = []) (hgot : c.got = []) {input : List Byte} :
    { c with thread := t.lineRead .device line, input := input }.At content s := by
  have hknown : Known s line (parseCtrlLine line) := ⟨hline, by rw [hline.eq]⟩
  rcases SockThread.control_lineRead .device t line with ⟨hopen, hsome⟩ | ⟨hlock, -⟩
  · simp only [At, hopen]
    refine ⟨hknown, by_contra fun ho ↦ ?_, hwritten, hgot⟩
    exact absurd (hknown.isSome_iff.mpr ho) (Bool.eq_false_iff.mp hsome)
  · simp only [At, hlock]
    exact ⟨hknown, hwritten, hgot⟩

/-- A `recv`. -/
theorem At.recv (h : c.At content s) (hpc : c.thread.pc = .recv) {bs rest : List Byte}
    (hin : c.input = bs ++ rest) (hend : bs = [] → c.input = [])
    (hlen : bs.length ≤ c.thread.recvSize) :
    { c with thread := c.thread.received .device bs, input := rest }.At content s := by
  simp only [At, hpc] at h
  obtain ⟨hread, hwritten, hgot⟩ := h
  rcases hread.received hpc .device hin hend hlen with ⟨line, heq | heq, hline⟩ |
    ⟨hpc', hread', -⟩ | ⟨hpc', -, hread'⟩
  · rw [heq]
    exact At.lineRead c.thread hline hwritten hgot
  · simp only [At, heq, SockThread.lineEnded]
    exact ⟨hline, hwritten, hgot⟩
  · simp only [At, hpc']
    exact ⟨hread', hwritten, hgot⟩
  · simp only [At, hpc']
    exact ⟨hread', hwritten, hgot⟩

/-- A `send`: there is more to send, or the next line is wanted. -/
theorem At.send (h : c.At content s) (hpc : c.thread.pc = .send) {n : ℕ}
    (hle : n ≤ c.thread.bytesLeft) :
    { c with
      thread := c.thread.sendLoop (c.thread.bytesLeft - n) (c.thread.advance n)
      got := c.got ++ (c.thread.sendLine.drop c.thread.sendOffset).take n }.At content s := by
  simp only [At, hpc] at h
  obtain ⟨hwritten, hcount, -, hwalk⟩ := h
  rw [SockThread.advance_eq (by omega)]
  by_cases hmore : c.thread.bytesLeft - n > 0
  · have hpc' : (c.thread.sendLoop (c.thread.bytesLeft - n) (c.thread.sendOffset + n)).pc = .send :=
      if_pos hmore
    simp only [At, hpc']
    refine ⟨hwritten, ?_, hmore, fun ho ↦ (hwalk ho).send n _⟩
    show c.thread.bytesLeft - n + (c.thread.sendOffset + n) = c.thread.sendLine.length
    omega
  · have hpc' : (c.thread.sendLoop (c.thread.bytesLeft - n) (c.thread.sendOffset + n)).pc =
        .getline := if_neg hmore
    simp only [At, hpc']
    refine ⟨hwritten, ?_⟩
    intro ho
    have hall : c.thread.sendLine.drop (c.thread.sendOffset + n) = [] :=
      List.drop_eq_nil_of_le (by omega)
    rw [← hall]
    exact (hwalk ho).send n _

/-- **One call** keeps what is known. -/
theorem At.proceeds (h : c.At content s) (hp : c.Proceeds .device c') : c'.At content s := by
  cases hp with
  | recv bs rest hpc hin hend hlen => exact h.recv hpc hin hend hlen
  | send n hpc hpos hle => exact h.send hpc hle
  | malloc hpc =>
    simp only [At, hpc] at h ⊢
    obtain ⟨hread, hrest⟩ := h
    exact ⟨⟨hread.bytes, hread.noEnd, hread.offset, hread.bufsize, hread.room⟩, hrest⟩
  | realloc hpc hsize =>
    simp only [At, hpc] at h ⊢
    obtain ⟨hread | hover, hrest⟩ := h
    · exact ⟨⟨hread.bytes, hread.noEnd, hread.offset, hread.bufsize, hread.room⟩, hrest⟩
    · rw [hover.bufsize] at hsize
      exact absurd hsize (Nat.not_lt.mpr le_sizeT_overflow)
  | giveUp e hpc hsize =>
    simp only [At, hpc] at h ⊢
    obtain ⟨hread | hover, -⟩ := h
    · exact absurd hsize (Nat.not_le.mpr hread.sizeT_bufsize_lt)
    · exact hover.tooLong
  | freeBuf hpc => simp only [At]
  | printf hpc =>
    simp only [At, hpc] at h
    obtain ⟨hline, hwritten, hgot⟩ := h
    exact At.lineRead c.thread hline hwritten hgot
  | fopenAppend hpc =>
    simp only [At, hpc] at h ⊢
    exact ⟨h.1, h.2.2⟩
  | fwrite hpc =>
    simp only [At, hpc] at h ⊢
    exact h
  | fcloseAppend hpc hout =>
    simp only [At, hpc] at h ⊢
    obtain ⟨hknown, ho, hline, hgot⟩ := h
    rw [hout, List.append_nil] at hline
    exact ⟨hknown, by rw [hline, appendedLine, if_pos ho, hknown.line_of.eq], hgot⟩
  | fopenRead hpc =>
    simp only [At, hpc] at h
    obtain ⟨hknown, hwritten, hgot⟩ := h
    by_cases hsome : c.thread.seekTo.isSome = true
    · simp only [At, if_pos hsome]
      exact ⟨hknown, hwritten, hknown.isSome_iff.mp hsome⟩
    · simp only [At, if_neg hsome]
      exact ⟨hwritten, fun _ ↦ walk_nil _ hgot rfl rfl rfl⟩
  | getlineEnd hpc hready =>
    simp only [At, hpc] at h ⊢
    exact ⟨h.1, fun ho ↦ (h.2 ho).got_eq hready⟩
  | getline bs hpc hne hready =>
    simp only [At, hpc] at h ⊢
    exact ⟨h.1, Nat.add_zero _, List.length_pos_iff.mpr hne, fun ho ↦ (h.2 ho).getline hready _⟩
  | freeGetline e hpc =>
    simp only [At, hpc] at h ⊢
    exact h
  | fclose hpc => simp only [At]
  | free hpc => simp only [At]
  | close hpc => simp only [At]
  | finish hpc => simp only [At]

/-- Taking the mutex. -/
theorem At.locked (h : c.At content s) (hpc : c.thread.pc = .lock) (content' : List Byte) :
    c.locked.At content' s := by
  simp only [At, hpc] at h
  obtain ⟨hknown, hwritten, hgot⟩ := h
  rw [Client.locked]
  by_cases hsome : c.thread.seekTo.isSome = true
  · simp only [At, if_pos hsome]
    exact ⟨hknown, by rw [hknown.appendedLine_eq, if_pos hsome, hwritten], hgot⟩
  · simp only [At, if_neg hsome, if_true]
    refine ⟨hknown, by_contra fun ho ↦ hsome (hknown.isSome_iff.mpr ho), ?_, hgot⟩
    rw [hwritten, List.nil_append]

/-! ## What a call leaves alone -/

/-- The mutex is neither taken nor given back. -/
theorem Proceeds.critical_eq {build : Build} (hp : c.Proceeds build c') :
    c'.thread.pc.critical = c.thread.pc.critical := by
  cases hp with
  | recv bs rest hpc hin hend hlen =>
    obtain ⟨-, (h | h | h) | ⟨h, -⟩ | ⟨h, -⟩⟩ :=
      SockThread.control_received build c.thread hpc bs <;>
      simp only [h, hpc, Pc.critical]
  | printf hpc =>
    rcases SockThread.control_lineRead build c.thread c.thread.line with ⟨h, -⟩ | ⟨h, -⟩ <;>
      simp only [h, hpc, Pc.critical]
  | send n hpc hpos hle =>
    rcases SockThread.control_sendLoop c.thread (c.thread.bytesLeft - n) (c.thread.advance n)
      with h | h <;> simp only [h, hpc, Pc.critical]
  | fopenRead hpc =>
    simp only [hpc]
    split <;> rfl
  | _ => simp only [Pc.critical, *]

/-- Nobody starts anew. -/
theorem Proceeds.waiting_of {build : Build} (hp : c.Proceeds build c')
    (h : c'.thread.pc.waiting = true) : c.thread.pc.waiting = true := by
  cases hp with
  | send n hpc hpos hle =>
    rcases SockThread.control_sendLoop c.thread (c.thread.bytesLeft - n) (c.thread.advance n)
      with h' | h' <;> simp only [h', Pc.waiting, reduceCtorEq] at h
  | fopenRead hpc =>
    dsimp only at h
    split at h <;> cases h
  | _ => simp_all only [Pc.waiting, reduceCtorEq]

/-- Nothing is written to the file. -/
theorem Proceeds.written_eq {build : Build} (hp : c.Proceeds build c') :
    c'.written = c.written := by
  cases hp <;> rfl

/-- A client that is leaving was leaving, or has given up. -/
theorem Proceeds.leaving_of {build : Build} (hp : c.Proceeds build c')
    (h : c'.thread.pc.leaving = true) :
    c.thread.pc = .freeBuf ∨ (c.thread.pc.leaving = true ∧ c'.got = c.got) := by
  cases hp with
  | recv bs rest hpc hin hend hlen =>
    obtain ⟨-, (h' | h' | h') | ⟨h', -⟩ | ⟨h', -⟩⟩ :=
      SockThread.control_received build c.thread hpc bs <;>
      simp only [h', Pc.leaving, reduceCtorEq] at h
  | printf hpc =>
    rcases SockThread.control_lineRead build c.thread c.thread.line with ⟨h', -⟩ | ⟨h', -⟩ <;>
      simp only [h', Pc.leaving, reduceCtorEq] at h
  | send n hpc hpos hle =>
    rcases SockThread.control_sendLoop c.thread (c.thread.bytesLeft - n) (c.thread.advance n)
      with h' | h' <;> simp only [h', Pc.leaving, reduceCtorEq] at h
  | fopenRead hpc =>
    dsimp only at h
    split at h <;> cases h
  | freeBuf hpc => exact .inl hpc
  | fclose hpc => exact .inr ⟨by rw [hpc]; rfl, rfl⟩
  | free hpc => exact .inr ⟨by rw [hpc]; rfl, rfl⟩
  | close hpc => exact .inr ⟨by rw [hpc]; rfl, rfl⟩
  | finish hpc => exact .inr ⟨by rw [hpc]; rfl, rfl⟩
  | _ => cases h

end Client

end Aesd
