import Aesd.Server.Timestamps

/-!
# Turns in the file

The build without the device again.  A line goes to a regular file, a client is sent all of the
file, and every firing of the timer adds a timestamp, which may get into the middle of a line.

Here nothing is assumed about the timer: its calls may fail, and it may write when it does not hold
the mutex.  Of the clients' bytes enough remains true.  They are in the file line by line in the
order in which the threads took the mutex, and a client is sent a prefix of the file, with the
lines of those before it and its own, and no other.  `FileTurns` is the invariant; a client
that reads while the file grows is what `Client.Follows` is about.
-/

set_option autoImplicit false

namespace Aesd

variable {ι τ : Type}

/-! ## Whose bytes -/

/-- Does the byte come from a client? -/
def fromClient (x : (ι ⊕ τ) × Byte) : Bool := x.1.isLeft

/-- Does the byte come from this firing of the timer? -/
def fromTimer [DecidableEq τ] (j : τ) (x : (ι ⊕ τ) × Byte) : Bool :=
  match x.1 with
  | .inl _ => false
  | .inr k => decide (k = j)

/-- The lines of some clients, one after another. -/
def linesOf (τ : Type) (stream : ι → List Byte) (order : List ι) : List ((ι ⊕ τ) × Byte) :=
  order.flatMap fun i ↦ bytesOf (.inl i) (firstLine (stream i))

theorem linesOf_concat (stream : ι → List Byte) (order : List ι) (i : ι) :
    linesOf τ stream (order ++ [i]) =
      linesOf τ stream order ++ bytesOf (.inl i) (firstLine (stream i)) := by
  simp [linesOf]

theorem filter_bytesOf_of_true {p : (ι ⊕ τ) × Byte → Bool} {who : ι ⊕ τ}
    (h : ∀ b, p (who, b) = true) (bs : List Byte) :
    (bytesOf who bs).filter p = bytesOf who bs := by
  refine List.filter_eq_self.mpr ?_
  intro x hx
  obtain ⟨b, -, rfl⟩ := List.mem_map.mp hx
  exact h b

theorem filter_bytesOf_of_false {p : (ι ⊕ τ) × Byte → Bool} {who : ι ⊕ τ}
    (h : ∀ b, p (who, b) = false) (bs : List Byte) : (bytesOf who bs).filter p = [] := by
  refine List.filter_eq_nil_iff.mpr ?_
  intro x hx
  obtain ⟨b, -, rfl⟩ := List.mem_map.mp hx
  rw [h b]
  exact Bool.false_ne_true

/-- What a timer adds is not seen among the bytes of the clients. -/
theorem filter_fromClient_timer (added : List ((ι ⊕ τ) × Byte)) (j : τ) (bs : List Byte) :
    (added ++ bytesOf (.inr j) bs).filter fromClient = added.filter fromClient := by
  rw [List.filter_append, filter_bytesOf_of_false fun _ ↦ rfl, List.append_nil]

theorem filter_fromClient_client (added : List ((ι ⊕ τ) × Byte)) (i : ι) (bs : List Byte) :
    (added ++ bytesOf (.inl i) bs).filter fromClient =
      added.filter fromClient ++ bytesOf (.inl i) bs := by
  rw [List.filter_append, filter_bytesOf_of_true fun _ ↦ rfl]

/-! ## Reading a file that grows -/

/-- The client is reading the file.  `seen` is how much of what has been added it is going to read:
all of it, unless it has come to the end already. -/
structure Client.Follows (file added seen : List ((ι ⊕ τ) × Byte)) (c : Client)
    (rest : List Byte) : Prop where
  /-- It is the first of it. -/
  initial : seen <+: added
  /-- No client has written since. -/
  clients : seen.filter fromClient = added.filter fromClient
  /-- This is what the client reads. -/
  walk : c.Walk ((file ++ seen).map Prod.snd) rest
  /-- Before the end has been reached it is all. -/
  all : c.eof = false → seen = added

/-- The client has been sent a prefix of the file, and no client has written since. -/
def Client.Read (file added : List ((ι ⊕ τ) × Byte)) (c : Client) : Prop :=
  ∃ seen, seen <+: added ∧ seen.filter fromClient = added.filter fromClient ∧
    c.got = (file ++ seen).map Prod.snd

/-- What is known about a client in this build, by the call it makes next. -/
def Client.AtFile (file added : List ((ι ⊕ τ) × Byte)) (s : List Byte) (c : Client) : Prop :=
  match c.thread.pc with
  | .malloc | .recv => c.thread.Reading s c.input ∧ c.got = []
  | .realloc => (c.thread.Reading s c.input ∨ c.thread.Overflow s) ∧ c.got = []
  | .freeBuf => TooLong s
  | .printf | .fopenAppend | .lock | .fwrite | .fcloseAppend | .fopenRead =>
    LineOf s c.thread.line ∧ c.got = []
  | .ioctl => False
  | .getline => LineOf s c.thread.line ∧ ∃ seen, c.Follows file added seen []
  | .send => LineOf s c.thread.line ∧
      c.thread.bytesLeft + c.thread.sendOffset = c.thread.sendLine.length ∧
      ∃ seen, c.Follows file added seen (c.thread.sendLine.drop c.thread.sendOffset)
  | .freeGetline | .unlock => LineOf s c.thread.line ∧ c.Read file added
  | .fclose | .free | .close | .finish | .done => True

namespace Client

variable {file added seen : List ((ι ⊕ τ) × Byte)} {s : List Byte} {c c' : Client}

/-- Before the end has been reached, the file may grow. -/
theorem Walk.append {content rest : List Byte} (h : c.Walk content rest) (heof : c.eof = false)
    (more : List Byte) : c.Walk (content ++ more) rest := by
  refine ⟨?_, ?_, ?_⟩
  · rw [h.bytes, List.take_append_of_le_length h.inside]
  · rw [List.length_append]
    exact h.inside.trans (Nat.le_add_right ..)
  · intro hend
    rw [heof] at hend
    exact absurd hend Bool.false_ne_true

/-- A timer adds something. -/
theorem Follows.timer {rest : List Byte} (h : c.Follows file added seen rest) (j : τ)
    (bs : List Byte) : ∃ seen, c.Follows file (added ++ bytesOf (.inr j) bs) seen rest := by
  cases heof : c.eof with
  | true =>
    refine ⟨seen, h.initial.trans (List.prefix_append ..), ?_, h.walk, fun hno ↦ ?_⟩
    · rw [filter_fromClient_timer, h.clients]
    · rw [heof] at hno
      exact absurd hno.symm Bool.false_ne_true
  | false =>
    refine ⟨added ++ bytesOf (.inr j) bs, List.prefix_refl _, rfl, ?_, fun _ ↦ rfl⟩
    obtain rfl := h.all heof
    rw [← List.append_assoc, List.map_append]
    exact h.walk.append heof _

/-- The stream is filled. -/
theorem Follows.fill (h : c.Follows file added seen []) (heof : c.eof = false) {count : ℕ}
    (hpos : 0 < count) {data : List Byte}
    (hdata : data = (((file ++ added).map Prod.snd).drop c.fPos).take count) :
    { c with fPos := c.fPos + data.length, rbuf := c.rbuf ++ data, eof := data.isEmpty }.Follows
      file added added [] := by
  obtain rfl := h.all heof
  refine ⟨h.initial, rfl, h.walk.fill (hdata ▸ List.take_prefix ..) rfl ?_, fun _ ↦ rfl⟩
  intro hnil
  rw [hdata, List.take_eq_nil_iff] at hnil
  exact List.drop_eq_nil_iff.mp (hnil.resolve_left hpos.ne')

/-- Without the mutex the file does not matter. -/
theorem AtFile.of_not_critical (h : c.AtFile file added s) (hc : c.thread.pc.critical = false)
    (added' : List ((ι ⊕ τ) × Byte)) : c.AtFile file added' s := by
  rw [AtFile] at h ⊢
  cases hpc : c.thread.pc <;> simp only [hpc] at h ⊢ <;>
    first | exact h | (rw [hpc] at hc; exact absurd hc (by decide))

theorem AtFile.timer (h : c.AtFile file added s) (j : τ) (bs : List Byte) :
    c.AtFile file (added ++ bytesOf (.inr j) bs) s := by
  by_cases hc : c.thread.pc.critical = true
  swap
  · exact h.of_not_critical (Bool.eq_false_iff.mpr hc) _
  rw [AtFile] at h ⊢
  cases hpc : c.thread.pc <;> simp only [hpc] at h ⊢ <;> try exact h
  case getline =>
    obtain ⟨hline, seen, hf⟩ := h
    exact ⟨hline, hf.timer j bs⟩
  case send =>
    obtain ⟨hline, hcount, seen, hf⟩ := h
    exact ⟨hline, hcount, hf.timer j bs⟩
  all_goals
    obtain ⟨hline, seen, hpre, hclients, hgot⟩ := h
    exact ⟨hline, seen, hpre.trans (List.prefix_append ..),
      by rw [filter_fromClient_timer, hclients], hgot⟩

/-! ## One call -/

/-- The line is there; it is no control line in this build. -/
theorem AtFile.lineRead (t : SockThread) {line : List Byte} (hline : LineOf s line)
    (hgot : c.got = []) {input : List Byte} :
    { c with thread := t.lineRead .file line, input := input }.AtFile file added s := ⟨hline, hgot⟩

/-- A `recv`. -/
theorem AtFile.recv (h : c.AtFile file added s) (hpc : c.thread.pc = .recv) {bs rest : List Byte}
    (hin : c.input = bs ++ rest) (hend : bs = [] → c.input = [])
    (hlen : bs.length ≤ c.thread.recvSize) :
    { c with thread := c.thread.received .file bs, input := rest }.AtFile file added s := by
  simp only [AtFile, hpc] at h
  obtain ⟨hread, hgot⟩ := h
  rcases hread.received hpc .file hin hend hlen with ⟨line, heq | heq, hline⟩ |
    ⟨hpc', hread', -⟩ | ⟨hpc', -, hread'⟩
  · rw [heq]
    exact AtFile.lineRead c.thread hline hgot
  · simp only [AtFile, heq, SockThread.lineEnded]
    exact ⟨hline, hgot⟩
  · simp only [AtFile, hpc']
    exact ⟨hread', hgot⟩
  · simp only [AtFile, hpc']
    exact ⟨hread', hgot⟩

theorem Follows.send {line : List Byte} {off : ℕ} (h : c.Follows file added seen (line.drop off))
    (n : ℕ) (t : SockThread) :
    { c with thread := t, got := c.got ++ (line.drop off).take n }.Follows file added seen
      (line.drop (off + n)) :=
  ⟨h.initial, h.clients, h.walk.send n t, h.all⟩

/-- A `send`. -/
theorem AtFile.send (h : c.AtFile file added s) (hpc : c.thread.pc = .send) {n : ℕ}
    (hle : n ≤ c.thread.bytesLeft) :
    { c with
      thread := c.thread.sendLoop (c.thread.bytesLeft - n) (c.thread.advance n)
      got := c.got ++ (c.thread.sendLine.drop c.thread.sendOffset).take n }.AtFile
        file added s := by
  simp only [AtFile, hpc] at h
  obtain ⟨hline, hcount, seen, hf⟩ := h
  rw [SockThread.advance_eq (by omega)]
  by_cases hmore : c.thread.bytesLeft - n > 0
  · have hpc' : (c.thread.sendLoop (c.thread.bytesLeft - n) (c.thread.sendOffset + n)).pc = .send :=
      if_pos hmore
    simp only [AtFile, hpc']
    refine ⟨hline, ?_, seen, hf.send n _⟩
    show c.thread.bytesLeft - n + (c.thread.sendOffset + n) = c.thread.sendLine.length
    omega
  · have hpc' : (c.thread.sendLoop (c.thread.bytesLeft - n) (c.thread.sendOffset + n)).pc =
        .getline := if_neg hmore
    have hall : c.thread.sendLine.drop (c.thread.sendOffset + n) = [] :=
      List.drop_eq_nil_of_le (by omega)
    simp only [AtFile, hpc']
    exact ⟨hline, seen, hall ▸ hf.send n _⟩

/-- **One call** keeps what is known. -/
theorem AtFile.proceeds (h : c.AtFile file added s) (hplain : c.thread.seekTo = none)
    (hp : c.Proceeds .file c') : c'.AtFile file added s := by
  cases hp with
  | recv bs rest hpc hin hend hlen => exact h.recv hpc hin hend hlen
  | send n hpc hpos hle => exact h.send hpc hle
  | malloc hpc =>
    simp only [AtFile, hpc] at h ⊢
    obtain ⟨hread, hgot⟩ := h
    exact ⟨⟨hread.bytes, hread.noEnd, hread.offset, hread.bufsize, hread.room⟩, hgot⟩
  | realloc hpc hsize =>
    simp only [AtFile, hpc] at h ⊢
    obtain ⟨hread | hover, hgot⟩ := h
    · exact ⟨⟨hread.bytes, hread.noEnd, hread.offset, hread.bufsize, hread.room⟩, hgot⟩
    · rw [hover.bufsize] at hsize
      exact absurd hsize (Nat.not_lt.mpr le_sizeT_overflow)
  | giveUp e hpc hsize =>
    simp only [AtFile, hpc] at h ⊢
    obtain ⟨hread | hover, -⟩ := h
    · exact absurd hsize (Nat.not_le.mpr hread.sizeT_bufsize_lt)
    · exact hover.tooLong
  | printf hpc =>
    simp only [AtFile, hpc] at h
    obtain ⟨hline, hgot⟩ := h
    exact AtFile.lineRead c.thread hline hgot
  | fopenAppend hpc | fwrite hpc | fcloseAppend hpc | freeGetline e hpc =>
    simp only [AtFile, hpc] at h ⊢
    exact h
  | fopenRead hpc =>
    simp only [AtFile, hpc] at h
    obtain ⟨hline, hgot⟩ := h
    simp only [AtFile, hplain, Option.isSome_none, Bool.false_eq_true, if_false]
    exact ⟨hline, added, List.prefix_refl _, rfl, walk_nil _ hgot rfl rfl rfl, fun _ ↦ rfl⟩
  | getlineEnd hpc hready =>
    simp only [AtFile, hpc] at h ⊢
    obtain ⟨hline, seen, hf⟩ := h
    exact ⟨hline, seen, hf.initial, hf.clients, hf.walk.got_eq hready⟩
  | getline bs hpc hne hready =>
    simp only [AtFile, hpc] at h ⊢
    obtain ⟨hline, seen, hf⟩ := h
    exact ⟨hline, Nat.add_zero _, seen, hf.initial, hf.clients, hf.walk.getline hready _, hf.all⟩
  | freeBuf hpc | fclose hpc | free hpc | close hpc | finish hpc => simp only [AtFile]

end Client

/-! ## A timer -/

/-- What a timer has written and what is in its buffer are the beginning of its timestamp. -/
structure Timer.Part (c : Timer) : Prop where
  /-- There is nothing before there is a timestamp. -/
  early : c.thread.pc = .fopen ∨ c.thread.pc = .lock ∨ c.thread.pc = .strftime →
    c.written = [] ∧ c.out = []
  /-- Then the buffer has what follows. -/
  part : c.written ++ c.out <+: c.thread.stamp

namespace Timer

variable {c c' : Timer} {o : Outcome}

theorem part_init : Timer.init.Part := ⟨fun _ ↦ ⟨rfl, rfl⟩, List.nil_prefix⟩

/-- Afterwards the thread is elsewhere, and only the buffer has changed. -/
theorem Part.of_out (h : c.Part) {pc : TimerPc} {out : List Byte}
    (hpc : ¬(pc = .fopen ∨ pc = .lock ∨ pc = .strftime)) (hout : out <+: c.out) :
    { c with thread := { c.thread with pc := pc }, out := out }.Part :=
  ⟨fun hearly ↦ absurd hearly hpc,
    ((List.prefix_append_right_inj _).mpr hout).trans h.part⟩

/-- **One call**, whether it succeeds or not. -/
theorem Part.ret (h : c.Part) (hret : c.ret o = some c') :
    c'.Part ∧ c'.written = c.written := by
  rw [Timer.ret] at hret
  cases hpc : c.thread.pc <;> cases o <;>
    simp only [TimerThread.step, hpc, reduceCtorEq, Option.some.injEq] at hret
  case fopen.ok =>
    subst hret
    exact ⟨⟨fun _ ↦ h.early (.inl hpc), h.part⟩, rfl⟩
  case lock.ok =>
    subst hret
    exact ⟨⟨fun _ ↦ h.early (.inr (.inl hpc)), h.part⟩, rfl⟩
  case strftime.bytes bs =>
    obtain ⟨hwritten, hout⟩ := h.early (.inr (.inr hpc))
    split at hret
    · exact absurd hret (by simp)
    rename_i t hstep
    obtain rfl := Option.some.inj hret
    refine ⟨⟨?_, by rw [hwritten]; exact List.prefix_refl _⟩, rfl⟩
    split at hstep
    · obtain rfl := Option.some.inj hstep
      exact fun hearly ↦ absurd hearly (by simp)
    · obtain ⟨-, rfl⟩ := Option.ite_some_none_eq_some.mp hstep
      exact fun hearly ↦ absurd hearly (by simp)
  case fwrite.count n =>
    split at hret
    · exact absurd hret (by simp)
    rename_i t hstep
    obtain ⟨-, rfl⟩ := Option.ite_some_none_eq_some.mp hstep
    obtain rfl := Option.some.inj hret
    exact ⟨h.of_out (by simp) (List.prefix_refl _), rfl⟩
  case fwrite.short n e =>
    split at hret
    · exact absurd hret (by simp)
    rename_i t hstep
    obtain ⟨-, rfl⟩ := Option.ite_some_none_eq_some.mp hstep
    obtain ⟨-, rfl⟩ := Option.ite_some_none_eq_some.mp hret
    exact ⟨h.of_out (by simp) (List.take_prefix ..), rfl⟩
  case fclose.ok =>
    obtain ⟨-, rfl⟩ := Option.ite_some_none_eq_some.mp hret
    exact ⟨h.of_out (by simp) (List.prefix_refl _), rfl⟩
  case fclose.fail e =>
    subst hret
    exact ⟨h.of_out (by simp) List.nil_prefix, rfl⟩
  all_goals
    subst hret
    exact ⟨h.of_out (by simp) (List.prefix_refl _), rfl⟩

/-- Bytes reach the file. -/
theorem Part.flush (h : c.Part) (hpc : c.thread.pc = .fwrite ∨ c.thread.pc = .fclose) (n : ℕ) :
    { c with out := c.out.drop n, written := c.written ++ c.out.take n }.Part := by
  refine ⟨?_, ?_⟩
  · rcases hpc with hpc | hpc <;> exact fun hearly ↦ absurd hearly (by simp [hpc])
  · show c.written ++ c.out.take n ++ c.out.drop n <+: c.thread.stamp
    rw [List.append_assoc, List.take_append_drop]
    exact h.part

end Timer

/-! ## The invariant -/

/-- The client has had its turn. -/
structure ServedFile (file : List ((ι ⊕ τ) × Byte)) (stream : ι → List Byte) (order : List ι)
    (added : List ((ι ⊕ τ) × Byte)) (i : ι) (c : Client) : Prop where
  /-- Its line has been written. -/
  written : c.written = firstLine (stream i)
  /-- It has been sent the file, with the lines up to its own. -/
  got : ∃ pre post seen, order = pre ++ i :: post ∧ seen <+: added ∧
    seen.filter fromClient = linesOf τ stream (pre ++ [i]) ∧ c.got = (file ++ seen).map Prod.snd

/-- **The clients take turns**, and the timers do as they like.  `added` has come to the file. -/
structure FileTurns [DecidableEq τ] (file : List ((ι ⊕ τ) × Byte)) (stream : ι → List Byte)
    (w : FileWorld ι τ) (added : List ((ι ⊕ τ) × Byte)) : Prop where
  /-- It stands at the end. -/
  content_eq : w.content = file ++ added
  /-- Every client is where it can be. -/
  clients : ∀ i, (w.client i).AtFile file added (stream i)
  /-- What it has written is what it should have. -/
  whole : ∀ i, (w.client i).Whole
  /-- A client that holds the mutex has taken it. -/
  mutex : ∀ i, (w.client i).thread.pc.critical = true ↔ w.owner = some (.inl i)
  /-- Who has not taken the mutex is not in the order. -/
  waiting : ∀ i, (w.client i).thread.pc.waiting = true → i ∉ w.order
  /-- No client takes it twice. -/
  nodup : w.order.Nodup
  /-- Who holds it is the last client that has taken it. -/
  last : ∀ i, w.owner = some (.inl i) → ∃ pre, w.order = pre ++ [i]
  /-- If no client holds it, all the lines are there. -/
  lines_free : (∀ i, w.owner ≠ some (.inl i)) →
    added.filter fromClient = linesOf τ stream w.order
  /-- A client that holds it may be writing. -/
  lines_taken : ∀ i pre, w.owner = some (.inl i) → w.order = pre ++ [i] →
    added.filter fromClient =
      linesOf τ stream pre ++ bytesOf (.inl i) (w.client i).written
  /-- Who leaves has given up or has been served. -/
  leaving : ∀ i, (w.client i).thread.pc.leaving = true →
    TooLong (stream i) ∨ ServedFile file stream w.order added i (w.client i)
  /-- The bytes of a timer are those it has written. -/
  stamps : ∀ j, added.filter (fromTimer j) = bytesOf (.inr j) (w.timer j).written
  /-- These are the beginning of its timestamp. -/
  timers : ∀ j, (w.timer j).Part

section Step

variable {file added : List ((ι ⊕ τ) × Byte)} {stream : ι → List Byte} {w w' : FileWorld ι τ}

theorem fileTurns_init [DecidableEq τ] (file : List ((ι ⊕ τ) × Byte)) (stream : ι → List Byte)
    (errno : ι → ℤ) :
    FileTurns file stream (World.init (regularFile (ι ⊕ τ)) file stream errno) [] where
  content_eq := (List.append_nil _).symm
  clients i := ⟨SockThread.reading_init (stream i) (errno i), rfl⟩
  whole i := ⟨rfl, fun _ ↦ rfl, fun h ↦ absurd h Bool.false_ne_true,
    fun h ↦ absurd h Bool.false_ne_true⟩
  mutex i := iff_of_false Bool.false_ne_true (by simp [World.init])
  waiting i _ := List.not_mem_nil
  nodup := List.nodup_nil
  last i h := absurd h (by simp [World.init])
  lines_free _ := rfl
  lines_taken i pre h := absurd h (by simp [World.init])
  leaving i h := absurd h Bool.false_ne_true
  stamps j := rfl
  timers j := Timer.part_init

theorem ServedFile.append {order : List ι} {i : ι} {c : Client}
    (h : ServedFile file stream order added i c) (order' : List ι)
    (added' : List ((ι ⊕ τ) × Byte)) :
    ServedFile file stream (order ++ order') (added ++ added') i c := by
  obtain ⟨hwritten, pre, post, seen, rfl, hseen, hclients, hgot⟩ := h
  exact ⟨hwritten, pre, post ++ order', seen, by simp, hseen.trans (List.prefix_append ..),
    hclients, hgot⟩

variable [DecidableEq τ]

/-- A client that holds the mutex is alone. -/
theorem FileTurns.not_critical (h : FileTurns file stream w added) {i j : ι}
    (hown : w.owner = some (.inl i)) (hne : j ≠ i) : (w.client j).thread.pc.critical = false := by
  rw [Bool.eq_false_iff]
  intro hj
  rw [(h.mutex j).mp hj, Option.some_inj, Sum.inl.injEq] at hown
  exact hne hown

/-! ## A client's steps -/

/-- A client changes that neither takes the mutex nor gives it back, and writes nothing. -/
theorem FileTurns.setClient [DecidableEq ι] (h : FileTurns file stream w added) (i : ι) {c : Client}
    (hat : c.AtFile file added (stream i)) (hwhole : c.Whole)
    (hcrit : c.thread.pc.critical = (w.client i).thread.pc.critical)
    (hwait : c.thread.pc.waiting = true → (w.client i).thread.pc.waiting = true)
    (hwritten : c.written = (w.client i).written)
    (hleave : c.thread.pc.leaving = true →
      TooLong (stream i) ∨ ServedFile file stream w.order added i c) :
    FileTurns file stream (w.setClient i c) added where
  content_eq := h.content_eq
  clients := (Function.forall_update_iff w.client fun j c ↦
    c.AtFile file added (stream j)).mpr ⟨hat, fun j _ ↦ h.clients j⟩
  whole := (Function.forall_update_iff w.client fun _ c ↦ c.Whole).mpr
    ⟨hwhole, fun j _ ↦ h.whole j⟩
  mutex := (Function.forall_update_iff w.client fun j c ↦
    c.thread.pc.critical = true ↔ w.owner = some (.inl j)).mpr
      ⟨by rw [hcrit, h.mutex i], fun j _ ↦ h.mutex j⟩
  waiting := (Function.forall_update_iff w.client fun j c ↦
    c.thread.pc.waiting = true → j ∉ w.order).mpr
      ⟨fun hi ↦ h.waiting i (hwait hi), fun j _ ↦ h.waiting j⟩
  nodup := h.nodup
  last := h.last
  lines_free := h.lines_free
  lines_taken := (Function.forall_update_iff w.client fun j c ↦
    ∀ pre, w.owner = some (.inl j) → w.order = pre ++ [j] →
      added.filter fromClient = linesOf τ stream pre ++ bytesOf (.inl j) c.written).mpr
        ⟨by rw [hwritten]; exact h.lines_taken i, fun j _ ↦ h.lines_taken j⟩
  leaving := (Function.forall_update_iff w.client fun j c ↦
    c.thread.pc.leaving = true →
      TooLong (stream j) ∨ ServedFile file stream w.order added j c).mpr
        ⟨hleave, fun j _ ↦ h.leaving j⟩
  stamps := h.stamps
  timers := h.timers

theorem FileTurns.proceed [DecidableEq ι] (h : FileTurns file stream w added) {i : ι} {c : Client}
    (hp : (w.client i).Proceeds .file c) : FileTurns file stream (w.setClient i c) added := by
  refine h.setClient i ((h.clients i).proceeds (h.whole i).plain hp) ((h.whole i).proceeds hp)
    hp.critical_eq hp.waiting_of hp.written_eq ?_
  intro hleave
  rcases hp.leaving_of hleave with hpc | ⟨hleave', hgot⟩
  · have hat := h.clients i
    rw [Client.AtFile, hpc] at hat
    exact .inl hat
  · refine (h.leaving i hleave').imp_right fun hs ↦ ⟨hp.written_eq.trans hs.written, ?_⟩
    rw [hgot]
    exact hs.got

theorem FileTurns.fill [DecidableEq ι] (h : FileTurns file stream w added) {i : ι} {count : ℕ}
    {data : List Byte} (hpc : (w.client i).thread.pc = .getline) (hpos : 0 < count)
    (heof : (w.client i).eof = false)
    (hdata : data = ((w.content.map Prod.snd).drop (w.client i).fPos).take count) :
    FileTurns file stream (w.setClient i { w.client i with
      fPos := (w.client i).fPos + data.length, rbuf := (w.client i).rbuf ++ data,
      eof := data.isEmpty }) added := by
  have hat := h.clients i
  have hw := h.whole i
  rw [h.content_eq] at hdata
  refine h.setClient i ?_ ⟨hw.plain, hw.waiting, hw.writing, hw.appended⟩ rfl id rfl
    fun hleave ↦ by simp [hpc, Pc.leaving] at hleave
  simp only [Client.AtFile, hpc] at hat ⊢
  obtain ⟨hline, seen, hf⟩ := hat
  exact ⟨hline, added, hf.fill heof hpos hdata⟩

theorem FileTurns.lock [DecidableEq ι] (h : FileTurns file stream w added) {i : ι}
    (hpc : (w.client i).thread.pc = .lock) (hfree : w.owner = none) :
    FileTurns file stream ({ (w.setClient i (w.client i).locked) with
      owner := some (.inl i), order := w.order ++ [i] } : FileWorld ι τ) added where
  content_eq := h.content_eq
  clients := by
    refine (Function.forall_update_iff w.client fun j c ↦ c.AtFile file added (stream j)).mpr
      ⟨?_, fun j _ ↦ h.clients j⟩
    have hat := h.clients i
    simp only [Client.AtFile, hpc] at hat
    simp only [Client.locked, (h.whole i).plain, Client.AtFile]
    exact hat
  whole := (Function.forall_update_iff w.client fun _ c ↦ c.Whole).mpr
    ⟨(h.whole i).locked hpc, fun j _ ↦ h.whole j⟩
  mutex := by
    refine (Function.forall_update_iff w.client fun j c ↦
      c.thread.pc.critical = true ↔ some (.inl i) = some (Sum.inl j)).mpr ⟨?_, ?_⟩
    · exact iff_of_true (by simp [Client.locked, (h.whole i).plain, Pc.critical]) rfl
    · intro j hne
      rw [h.mutex j, hfree]
      simp [Ne.symm hne]
  waiting := by
    refine (Function.forall_update_iff w.client fun j c ↦
      c.thread.pc.waiting = true → j ∉ w.order ++ [i]).mpr ⟨?_, ?_⟩
    · exact fun hi ↦ absurd hi (by simp [Client.locked, (h.whole i).plain, Pc.waiting])
    · intro j hne hj
      simpa [hne] using h.waiting j hj
  nodup := by
    have hnotin : i ∉ w.order := h.waiting i (by rw [hpc]; rfl)
    exact List.nodup_append.mpr ⟨h.nodup, List.nodup_singleton i, fun a ha b hb ↦ by
      rw [List.mem_singleton.mp hb]
      exact ne_of_mem_of_not_mem ha hnotin⟩
  last j hj := by
    rw [Option.some_inj, Sum.inl.injEq] at hj
    exact ⟨w.order, by rw [hj]⟩
  lines_free hno := absurd rfl (hno i)
  lines_taken := by
    refine (Function.forall_update_iff w.client fun j c ↦
      ∀ pre, some (.inl i) = some (Sum.inl j) → w.order ++ [i] = pre ++ [j] →
        added.filter fromClient = linesOf τ stream pre ++ bytesOf (.inl j) c.written).mpr
          ⟨?_, fun j hne pre hj ↦ absurd ?_ hne⟩
    · intro pre _ hord
      obtain ⟨rfl, -⟩ := List.append_inj' hord rfl
      rw [h.lines_free (by simp [hfree]),
        show (w.client i).locked.written = [] from (h.whole i).waiting (by rw [hpc]; rfl)]
      exact (List.append_nil _).symm
    · rw [Option.some_inj, Sum.inl.injEq] at hj
      exact hj.symm
  leaving := by
    refine (Function.forall_update_iff w.client fun j c ↦ c.thread.pc.leaving = true →
      TooLong (stream j) ∨ ServedFile file stream (w.order ++ [i]) added j c).mpr ⟨?_, ?_⟩
    · exact fun hi ↦ absurd hi (by simp [Client.locked, (h.whole i).plain, Pc.leaving])
    · intro j _ hj
      refine (h.leaving j hj).imp_right fun hs ↦ ?_
      have happend := hs.append [i] []
      rwa [List.append_nil] at happend
  stamps := h.stamps
  timers := h.timers

theorem FileTurns.unlock [DecidableEq ι] (h : FileTurns file stream w added) {i : ι}
    (hpc : (w.client i).thread.pc = .unlock) (hheld : w.owner = some (.inl i)) :
    FileTurns file stream ({ (w.setClient i { w.client i with
      thread := { (w.client i).thread with pc := .fclose } }) with owner := none } :
        FileWorld ι τ) added := by
  have hat := h.clients i
  simp only [Client.AtFile, hpc] at hat
  obtain ⟨hline, seen, hseen, hclients, hgot⟩ := hat
  obtain ⟨pre, hord⟩ := h.last i hheld
  have hwritten : (w.client i).written = firstLine (stream i) :=
    ((h.whole i).appended (by rw [hpc]; rfl)).trans hline.eq
  have hlines : added.filter fromClient = linesOf τ stream w.order := by
    rw [h.lines_taken i pre hheld hord, hwritten, hord, linesOf_concat]
  refine ⟨h.content_eq, ?_, ?_, ?_, ?_, h.nodup, ?_, fun _ ↦ hlines, ?_, ?_, h.stamps, h.timers⟩
  · exact (Function.forall_update_iff w.client fun j c ↦ c.AtFile file added (stream j)).mpr
      ⟨trivial, fun j _ ↦ h.clients j⟩
  · refine (Function.forall_update_iff w.client fun _ c ↦ c.Whole).mpr ⟨?_, fun j _ ↦ h.whole j⟩
    exact ⟨(h.whole i).plain, fun hw ↦ absurd hw Bool.false_ne_true,
      fun hw ↦ absurd hw Bool.false_ne_true, fun ha ↦ absurd ha Bool.false_ne_true⟩
  · refine (Function.forall_update_iff w.client fun j c ↦
      c.thread.pc.critical = true ↔ none = some (Sum.inl j)).mpr
        ⟨iff_of_false Bool.false_ne_true (by simp), ?_⟩
    intro j hne
    rw [h.not_critical hheld hne]
    exact iff_of_false Bool.false_ne_true (by simp)
  · exact (Function.forall_update_iff w.client fun j c ↦ c.thread.pc.waiting = true →
      j ∉ w.order).mpr ⟨fun hi ↦ absurd hi Bool.false_ne_true, fun j _ ↦ h.waiting j⟩
  · exact fun j hj ↦ absurd hj (by simp)
  · exact fun j pre' hj ↦ absurd hj (by simp)
  · refine (Function.forall_update_iff w.client fun j c ↦ c.thread.pc.leaving = true →
      TooLong (stream j) ∨ ServedFile file stream w.order added j c).mpr
        ⟨fun _ ↦ .inr ⟨hwritten, pre, [], seen, hord, hseen, ?_, hgot⟩, fun j _ ↦ h.leaving j⟩
    rw [hclients, hlines, hord]

theorem FileTurns.flush [DecidableEq ι] (h : FileTurns file stream w added) {i : ι} (n : ℕ)
    (hpc : (w.client i).thread.pc = .fwrite ∨ (w.client i).thread.pc = .fcloseAppend) :
    FileTurns file stream ({ (w.setClient i { w.client i with
        out := (w.client i).out.drop n
        written := (w.client i).written ++ (w.client i).out.take n }) with
      file := w.content ++ bytesOf (.inl i) ((w.client i).out.take n) } : FileWorld ι τ)
      (added ++ bytesOf (.inl i) ((w.client i).out.take n)) := by
  have hwrite : (w.client i).thread.pc.writing = true := by
    rcases hpc with hpc | hpc <;> rw [hpc] <;> rfl
  have hown := (h.mutex i).mp (Pc.critical_of_writing hwrite)
  refine ⟨?_, ?_, ?_, ?_, ?_, h.nodup, h.last, fun hno ↦ absurd hown (hno i), ?_, ?_, ?_, h.timers⟩
  · show w.content ++ _ = _
    rw [h.content_eq, List.append_assoc]
  · refine (Function.forall_update_iff w.client fun j c ↦
      c.AtFile file (added ++ bytesOf (.inl i) ((w.client i).out.take n)) (stream j)).mpr
        ⟨?_, fun j hne ↦ (h.clients j).of_not_critical (h.not_critical hown hne) _⟩
    have hat := h.clients i
    rcases hpc with hpc | hpc <;> simp only [Client.AtFile, hpc] at hat ⊢ <;> exact hat
  · refine (Function.forall_update_iff w.client fun _ c ↦ c.Whole).mpr ⟨?_, fun j _ ↦ h.whole j⟩
    refine ⟨(h.whole i).plain, fun hw ↦ absurd hw ?_, fun _ ↦ ?_, fun ha ↦ absurd ha ?_⟩
    · rcases hpc with hpc | hpc <;> simp [hpc, Pc.waiting]
    · show (w.client i).written ++ (w.client i).out.take n ++ (w.client i).out.drop n = _
      rw [List.append_assoc, List.take_append_drop]
      exact (h.whole i).writing hwrite
    · rcases hpc with hpc | hpc <;> simp [hpc, Pc.appended]
  · exact (Function.forall_update_iff w.client fun j c ↦
      c.thread.pc.critical = true ↔ w.owner = some (.inl j)).mpr ⟨h.mutex i, fun j _ ↦ h.mutex j⟩
  · exact (Function.forall_update_iff w.client fun j c ↦ c.thread.pc.waiting = true →
      j ∉ w.order).mpr ⟨h.waiting i, fun j _ ↦ h.waiting j⟩
  · refine (Function.forall_update_iff w.client fun j c ↦ ∀ pre, w.owner = some (.inl j) →
      w.order = pre ++ [j] →
        (added ++ bytesOf (.inl i) ((w.client i).out.take n)).filter fromClient =
          linesOf τ stream pre ++ bytesOf (.inl j) c.written).mpr
            ⟨?_, fun j hne pre hj ↦ absurd ?_ hne⟩
    · intro pre _ hord
      rw [filter_fromClient_client, h.lines_taken i pre hown hord, bytesOf_append,
        List.append_assoc]
    · rw [hj, Option.some_inj, Sum.inl.injEq] at hown
      exact hown
  · refine (Function.forall_update_iff w.client fun j c ↦ c.thread.pc.leaving = true →
      TooLong (stream j) ∨ ServedFile file stream w.order
        (added ++ bytesOf (.inl i) ((w.client i).out.take n)) j c).mpr
          ⟨fun hleave ↦ absurd hleave ?_, fun j _ hj ↦ (h.leaving j hj).imp_right fun hs ↦ ?_⟩
    · rcases hpc with hpc | hpc <;> simp [hpc, Pc.leaving]
    · have happend := hs.append [] (bytesOf (.inl i) ((w.client i).out.take n))
      rwa [List.append_nil] at happend
  · intro j
    rw [List.filter_append, filter_bytesOf_of_false fun _ ↦ rfl, List.append_nil]
    exact h.stamps j

/-! ## A timer's steps -/

/-- A call of a timer returns, and it may have taken the mutex or given it back. -/
theorem FileTurns.setTimer (h : FileTurns file stream w added) {j : τ} {c : Timer} {o : Outcome}
    (hret : (w.timer j).ret o = some c) {owner : Option (ι ⊕ τ)}
    (howner : ∀ i, owner = some (.inl i) ↔ w.owner = some (.inl i)) :
    FileTurns file stream ({ (w.setTimer j c) with owner := owner } : FileWorld ι τ) added where
  content_eq := h.content_eq
  clients := h.clients
  whole := h.whole
  mutex i := (h.mutex i).trans (howner i).symm
  waiting := h.waiting
  nodup := h.nodup
  last i hi := h.last i ((howner i).mp hi)
  lines_free hno := h.lines_free fun i hi ↦ hno i ((howner i).mpr hi)
  lines_taken i pre hi := h.lines_taken i pre ((howner i).mp hi)
  leaving := h.leaving
  stamps := (Function.forall_update_iff w.timer fun k c ↦
    added.filter (fromTimer k) = bytesOf (.inr k) c.written).mpr
      ⟨by rw [((h.timers j).ret hret).2]; exact h.stamps j, fun k _ ↦ h.stamps k⟩
  timers := (Function.forall_update_iff w.timer fun _ c ↦ c.Part).mpr
    ⟨((h.timers j).ret hret).1, fun k _ ↦ h.timers k⟩

theorem FileTurns.timerFlush (h : FileTurns file stream w added) {j : τ} (n : ℕ)
    (hpc : (w.timer j).thread.pc = .fwrite ∨ (w.timer j).thread.pc = .fclose) :
    FileTurns file stream ({ (w.setTimer j { w.timer j with
        out := (w.timer j).out.drop n
        written := (w.timer j).written ++ (w.timer j).out.take n }) with
      file := w.content ++ bytesOf (.inr j) ((w.timer j).out.take n) } : FileWorld ι τ)
      (added ++ bytesOf (.inr j) ((w.timer j).out.take n)) where
  content_eq := by
    show w.content ++ _ = _
    rw [h.content_eq, List.append_assoc]
  clients i := (h.clients i).timer j _
  whole := h.whole
  mutex := h.mutex
  waiting := h.waiting
  nodup := h.nodup
  last := h.last
  lines_free hno := by
    rw [filter_fromClient_timer]
    exact h.lines_free hno
  lines_taken i pre hi hord := by
    rw [filter_fromClient_timer]
    exact h.lines_taken i pre hi hord
  leaving i hi := (h.leaving i hi).imp_right fun hs ↦ by
    have happend := hs.append [] (bytesOf (.inr j) ((w.timer j).out.take n))
    rwa [List.append_nil] at happend
  stamps := by
    refine (Function.forall_update_iff w.timer fun k c ↦
      (added ++ bytesOf (.inr j) ((w.timer j).out.take n)).filter (fromTimer k) =
        bytesOf (.inr k) c.written).mpr ⟨?_, fun k hne ↦ ?_⟩
    · rw [List.filter_append, h.stamps j, filter_bytesOf_of_true fun _ ↦ decide_eq_true rfl,
        bytesOf_append]
    · rw [List.filter_append, h.stamps k,
        filter_bytesOf_of_false fun _ ↦ decide_eq_false (Ne.symm hne), List.append_nil]
  timers := (Function.forall_update_iff w.timer fun _ c ↦ c.Part).mpr
    ⟨(h.timers j).flush hpc n, fun k _ ↦ h.timers k⟩

end Step

/-! ## Every run -/

/-- The calls of the clients succeed; those of the timers need not. -/
def ClientsSucceed (w : FileWorld ι τ) : FileLabel ι τ → Bool
  | .timerRet _ _ => true
  | l => AllSucceed w l

section Run

variable [DecidableEq ι] [DecidableEq τ] {file added : List ((ι ⊕ τ) × Byte)}
  {stream : ι → List Byte} {w w' : FileWorld ι τ} {l : FileLabel ι τ}

/-- **One event.** -/
theorem FileTurns.step (h : FileTurns file stream w added) (hgood : ClientsSucceed w l = true)
    (hs : w.Step l w') : ∃ added', FileTurns file stream w' added' := by
  cases hs with
  | ret i o c hret hlock hunlock =>
    exact ⟨added, h.proceed (proceeds_of_ret hgood hret hlock hunlock)⟩
  | lock i c hpc hret hfree =>
    rw [Client.ret_lock hpc hret]
    exact ⟨added, h.lock hpc hfree⟩
  | unlock i c hpc hret hheld =>
    simp only [Client.ret, SockThread.step, hpc, Option.some.injEq] at hret
    subst hret
    exact ⟨added, h.unlock hpc hheld⟩
  | flush i n env file' hpc hpos hle hwrite =>
    obtain rfl := Option.some.inj hwrite
    exact ⟨_, h.flush n hpc⟩
  | fill i count env data fPos hpc hpos heof hread =>
    obtain ⟨rfl, rfl⟩ := Prod.mk.inj (Option.some.inj hread)
    exact ⟨added, h.fill hpc hpos heof rfl⟩
  | seek i env t fPos o hpc hctrl =>
    rw [(h.whole i).plain] at hctrl
    exact absurd hctrl Bool.false_ne_true
  | timerRet j o c hret => exact ⟨added, h.setTimer hret fun _ ↦ Iff.rfl⟩
  | timerLock j c hpc hret hfree =>
    exact ⟨added, h.setTimer hret fun i ↦ by rw [hfree]; simp⟩
  | timerUnlock j c hpc hret hheld =>
    exact ⟨added, h.setTimer hret fun i ↦ by rw [hheld]; simp⟩
  | timerFlush j n env file' hpc hpos hle hwrite =>
    obtain rfl := Option.some.inj hwrite
    exact ⟨_, h.timerFlush n hpc⟩

/-- **Every interleaving.** -/
theorem FileTurns.run (h : FileTurns file stream w added) {ls : List (FileLabel ι τ)}
    (hrun : ls.foldlM (Run.restrict World.step ClientsSucceed) w = some w') :
    ∃ added', FileTurns file stream w' added' := by
  refine Run.foldlM_invariant (I := fun w ↦ ∃ added, FileTurns file stream w added) ?_ hrun
    ⟨added, h⟩
  rintro w l w' ⟨added, h⟩ hs
  obtain ⟨hgood, hs⟩ := Run.restrict_eq_some.mp hs
  exact h.step hgood (World.step_cases hs)

omit [DecidableEq ι] in
/-- Who holds the mutex has written the beginning of its line. -/
theorem FileTurns.written_prefix (h : FileTurns file stream w added) {i : ι}
    (hown : w.owner = some (.inl i)) : (w.client i).written <+: firstLine (stream i) := by
  have hcrit := (h.mutex i).mpr hown
  have hat := h.clients i
  have hline : LineOf (stream i) (w.client i).thread.line := by
    cases hpc : (w.client i).thread.pc <;> simp only [hpc, Pc.critical, reduceCtorEq] at hcrit <;>
      simp only [Client.AtFile, hpc] at hat <;> exact hat.1
  rw [← hline.eq]
  by_cases hwrite : (w.client i).thread.pc.writing = true
  · rw [← (h.whole i).writing hwrite]
    exact List.prefix_append ..
  · rw [(h.whole i).appended]
    cases hpc : (w.client i).thread.pc <;> simp only [hpc, Pc.critical, Pc.writing, reduceCtorEq,
      not_true_eq_false] at hcrit hwrite <;> rfl

/-- **Every interleaving of clients and timers**, when the calls of the clients succeed; the timers
may fail in any way and write at any time.  `order` is the order in which the clients' threads took
the mutex, and `added` is what has come to the file.

* The bytes of the clients in it are the lines, one after another in that order; of the thread that
  holds the mutex it may be a part of its line.
* The bytes of a firing of the timer in it are the beginning of its timestamp.
* A client whose thread has given the mutex back is in the order, unless its line was too long to be
  read.  It has been sent a prefix of the file, from the first byte on, in which there are the lines
  up to its own and no others. -/
theorem file_lines_in_turn (file : List ((ι ⊕ τ) × Byte)) (stream : ι → List Byte) (errno : ι → ℤ)
    (ls : List (FileLabel ι τ)) (w : FileWorld ι τ)
    (hrun : ls.foldlM (Run.restrict World.step ClientsSucceed)
      (World.init (regularFile (ι ⊕ τ)) file stream errno) = some w) :
    ∃ added, w.content = file ++ added ∧ w.order.Nodup ∧
      ((∀ i, w.owner ≠ some (.inl i)) → added.filter fromClient = linesOf τ stream w.order) ∧
      (∀ i, w.owner = some (.inl i) → ∃ pre, w.order = pre ++ [i] ∧
        (w.client i).written <+: firstLine (stream i) ∧
        added.filter fromClient =
          linesOf τ stream pre ++ bytesOf (.inl i) (w.client i).written) ∧
      (∀ j, (w.timer j).written <+: (w.timer j).thread.stamp ∧
        added.filter (fromTimer j) = bytesOf (.inr j) (w.timer j).written) ∧
      ∀ i, (w.client i).thread.pc.leaving = true → TooLong (stream i) ∨
        ∃ pre post seen, w.order = pre ++ i :: post ∧ seen <+: added ∧
          seen.filter fromClient = linesOf τ stream (pre ++ [i]) ∧
          (w.client i).got = (file ++ seen).map Prod.snd := by
  obtain ⟨added, h⟩ := (fileTurns_init file stream errno).run hrun
  refine ⟨added, h.content_eq, h.nodup, h.lines_free, ?_, ?_, ?_⟩
  · intro i hown
    obtain ⟨pre, hord⟩ := h.last i hown
    exact ⟨pre, hord, h.written_prefix hown, h.lines_taken i pre hown hord⟩
  · exact fun j ↦ ⟨(List.prefix_append ..).trans (h.timers j).part, h.stamps j⟩
  · exact fun i hleave ↦ (h.leaving i hleave).imp_right fun hs ↦ hs.got

end Run

/-- As in `timerInside` the timestamp gets into the line; then the client is sent the file. -/
def servedWithTimestamp : List (FileLabel Unit Unit) :=
  timerInside ++ [.ret () .ok, .ret () .ok, .fill () 512 (), .ret () (.bytes [97, 116, 10]),
    .ret () (.count 3), .ret () (.bytes [10]), .ret () (.count 1), .fill () 512 (),
    .ret () (.bytes []), .ret () .ok, .ret () .ok]

theorem file_lines_in_turn_timestamp :
    ∃ w, servedWithTimestamp.foldlM (Run.restrict World.step ClientsSucceed)
        (World.init (regularFile (Unit ⊕ Unit)) [] (fun _ ↦ [97, 10]) fun _ ↦ 0) = some w ∧
      ∃ seen : List ((Unit ⊕ Unit) × Byte), seen <+: w.content ∧
        seen.filter fromClient = [(.inl (), 97), (.inl (), 10)] ∧
        (w.client ()).got = seen.map Prod.snd := by
  have hrun : (servedWithTimestamp.foldlM (Run.restrict World.step ClientsSucceed)
      (World.init (regularFile (Unit ⊕ Unit)) [] (fun _ ↦ [97, 10]) fun _ ↦ 0)).map
      (fun w ↦ (w.order, (w.client ()).thread.pc)) = some ([()], .fclose) := by decide +kernel
  obtain ⟨w, hw, hfacts⟩ := Option.map_eq_some_iff.mp hrun
  obtain ⟨horder, hpc⟩ := Prod.mk.inj hfacts
  obtain ⟨added, hcontent, -, -, -, -, hserved⟩ :=
    file_lines_in_turn [] (fun _ ↦ [97, 10]) (fun _ ↦ 0) servedWithTimestamp w hw
  have hshort : ¬TooLong [97, 10] := SockThread.not_tooLong_of_length (by decide)
  obtain ⟨pre, post, seen, hord, hseen, hlines, hgot⟩ :=
    (hserved () (by rw [hpc]; rfl)).resolve_left hshort
  have hsplit : [] ++ () :: [] = pre ++ () :: post := horder.symm.trans hord
  obtain ⟨rfl, -⟩ := (List.append_cons_inj_of_notMem (by decide) (by decide)).mp hsplit
  refine ⟨w, hw, seen, ?_, hlines.trans (by decide), hgot⟩
  rw [hcontent]
  exact hseen

end Aesd
