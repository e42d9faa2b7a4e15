import Aesd.Driver.History
import Aesd.Server.Appends

/-!
# What the clients are answered

`Turns` says what a client is sent whose line is stored.  A client that sends a control line is sent
something too: the content of the device from where the ioctl has moved the position, or nothing
when there is no such byte in that slot.  The position is reckoned by the slots in front
(`seekPos`), so that once commands have been overwritten it need not be in the command of the slot
asked for.  Here this is followed from the socket to the driver and back: the line is
parsed, the ioctl moves the position of the stream that has just been opened, and `send_file` sends
what follows.

`reply log s` is what a client with the stream `s` is sent by a server that has nothing else to do,
when the device has got the bytes of `log`.  `answered_in_turn` says that this is what every client
is sent, with the log as it is when its turn comes — except that a client whose ioctl is refused
by the kernel is sent nothing.
-/

set_option autoImplicit false

namespace Aesd

/-! ## The reply -/

/-- What can be read from a device that has got the bytes of the log. -/
def readable (log : Delim.Log Byte) : List Byte :=
  (log.completed.rtake maxWriteOperationsSupported).flatten

/-- The position a control line leads to, if there is such a byte. -/
def askedPos (log : Delim.Log Byte) (s : List Byte) : Option ℕ :=
  (parseCtrlLine (firstLine s)).bind (seekPos log.completed)

/-- What a client is sent. -/
def reply (log : Delim.Log Byte) (s : List Byte) : List Byte :=
  if Ordinary s then readable (log.add isNewline (firstLine s))
  else match askedPos log s with
    | some p => (readable log).drop p
    | none => []

theorem reply_of_some {log : Delim.Log Byte} {s : List Byte} (hs : ¬Ordinary s) {p : ℕ}
    (hp : askedPos log s = some p) : reply log s = (readable log).drop p := by
  rw [reply, if_neg hs, hp]

theorem reply_of_none {log : Delim.Log Byte} {s : List Byte} (hs : ¬Ordinary s)
    (hp : askedPos log s = none) : reply log s = [] := by
  rw [reply, if_neg hs, hp]

/-- **While nothing has been overwritten**, a control line is answered with the rest of the content
from that byte of that command on. -/
theorem reply_of_length_le {log : Delim.Log Byte} {s : List Byte} {arg : AesdSeekto}
    (hlen : log.completed.length ≤ maxWriteOperationsSupported)
    (harg : parseCtrlLine (firstLine s) = some arg) :
    reply log s =
      if arg.writeCmdOffset < ((log.completed[arg.writeCmd]?).getD []).length then
        log.completed.flatten.drop
          ((log.completed.take arg.writeCmd).flatten.length + arg.writeCmdOffset)
      else [] := by
  have hs : ¬Ordinary s := by
    rw [Ordinary, harg]
    exact Option.some_ne_none arg
  have hasked : askedPos log s = seekPos log.completed arg := by
    rw [askedPos, harg, Option.bind_some]
  rw [seekPos_of_length_le hlen] at hasked
  by_cases hoff : arg.writeCmdOffset < ((log.completed[arg.writeCmd]?).getD []).length
  · rw [if_pos hoff] at hasked ⊢
    rw [reply_of_some hs hasked, readable, Concat.rtake_of_length_le hlen]
  · rw [if_neg hoff] at hasked ⊢
    exact reply_of_none hs hasked

namespace Client

variable {content s : List Byte} {c c' : Client} {p : ℕ}

/-! ## Walking from a position on -/

/-- The client has been sent the beginning of what follows position `p`. -/
def WalkFrom (p : ℕ) (content : List Byte) (c : Client) (rest : List Byte) : Prop :=
  p ≤ c.fPos ∧ { c with fPos := c.fPos - p }.Walk (content.drop p) rest

theorem WalkFrom.getline (h : c.WalkFrom p content []) {bs : List Byte}
    (hready : c.lineReady bs = true) (t : SockThread) :
    { c with thread := t, rbuf := c.rbuf.drop bs.length }.WalkFrom p content bs :=
  ⟨h.1, h.2.getline hready t⟩

theorem WalkFrom.send {line : List Byte} {off : ℕ} (h : c.WalkFrom p content (line.drop off))
    (n : ℕ) (t : SockThread) :
    { c with thread := t, got := c.got ++ (line.drop off).take n }.WalkFrom p content
      (line.drop (off + n)) :=
  ⟨h.1, h.2.send n t⟩

theorem WalkFrom.got_eq (h : c.WalkFrom p content []) (hready : c.lineReady [] = true) :
    c.got = content.drop p := h.2.got_eq hready

theorem WalkFrom.fill (h : c.WalkFrom p content []) {data : List Byte} {pos : ℕ}
    (hdata : data <+: content.drop c.fPos) (hpos : pos = c.fPos + data.length)
    (hend : data = [] → content.length ≤ c.fPos) :
    { c with fPos := pos, rbuf := c.rbuf ++ data, eof := data.isEmpty }.WalkFrom p content [] := by
  obtain ⟨hp, hwalk⟩ := h
  refine ⟨hp.trans (hpos ▸ Nat.le_add_right _ _), hwalk.fill ?_ ?_ ?_⟩
  · rw [List.drop_drop, Nat.add_sub_cancel' hp]
    exact hdata
  · show pos - p = c.fPos - p + data.length
    omega
  · intro hnil
    have hle := hend hnil
    rw [List.length_drop]
    show content.length - p ≤ c.fPos - p
    omega

/-- The stream has been opened, and its position has been set. -/
theorem walkFrom_of_seek (hgot : c.got = []) (hbuf : c.rbuf = []) (heof : c.eof = false) (p : ℕ)
    (t : SockThread) :
    { c with thread := t, fPos := p }.WalkFrom p content [] := by
  refine ⟨le_rfl, ?_⟩
  show { c with thread := t, fPos := p - p }.Walk (content.drop p) []
  rw [Nat.sub_self]
  exact walk_nil _ hgot rfl hbuf heof

/-! ## A client with a control line -/

/-- What is known about a client that has sent a control line, by the call it makes next; `ok` says
that its ioctl is not refused. -/
def Asks (ok : Prop) (log : Delim.Log Byte) (s : List Byte) (c : Client) : Prop :=
  match c.thread.pc with
  | .ioctl => c.got = [] ∧ c.fPos = 0 ∧ c.rbuf = [] ∧ c.eof = false
  | .getline => ∃ p, askedPos log s = some p ∧ c.WalkFrom p (readable log) []
  | .send => ∃ p, askedPos log s = some p ∧
      c.WalkFrom p (readable log) (c.thread.sendLine.drop c.thread.sendOffset)
  | .freeGetline | .unlock => c.got = reply log s ∨ (c.got = [] ∧ ¬ok)
  | _ => True

variable {ok : Prop} {log : Delim.Log Byte}

/-- Without the mutex there is nothing to know. -/
theorem asks_of_not_critical (hc : c.thread.pc.critical = false) : c.Asks ok log s := by
  rw [Asks]
  split <;> rename_i hpc <;> first | trivial | (rw [hpc] at hc; exact absurd hc (by decide))

/-- A `send` of a client with a control line. -/
theorem Asks.send (h : c.Asks ok log s) (hat : c.At content s) (hpc : c.thread.pc = .send) {n : ℕ}
    (hle : n ≤ c.thread.bytesLeft) :
    { c with
      thread := c.thread.sendLoop (c.thread.bytesLeft - n) (c.thread.advance n)
      got := c.got ++ (c.thread.sendLine.drop c.thread.sendOffset).take n }.Asks ok log s := by
  simp only [At, hpc] at hat
  simp only [Asks, hpc] at h
  obtain ⟨-, hcount, -, -⟩ := hat
  obtain ⟨p, hp, hwalk⟩ := h
  rw [SockThread.advance_eq (by omega)]
  by_cases hmore : c.thread.bytesLeft - n > 0
  · have hpc' : (c.thread.sendLoop (c.thread.bytesLeft - n) (c.thread.sendOffset + n)).pc = .send :=
      if_pos hmore
    simp only [Asks, hpc']
    exact ⟨p, hp, hwalk.send n _⟩
  · have hpc' : (c.thread.sendLoop (c.thread.bytesLeft - n) (c.thread.sendOffset + n)).pc =
        .getline := if_neg hmore
    have hall : c.thread.sendLine.drop (c.thread.sendOffset + n) = [] :=
      List.drop_eq_nil_of_le (by omega)
    simp only [Asks, hpc']
    exact ⟨p, hp, hall ▸ hwalk.send n _⟩

/-- **One call.** -/
theorem Asks.proceeds (h : c.Asks ok log s) (hs : ¬Ordinary s) (hat : c.At content s)
    (hp : c.Proceeds .device c') : c'.Asks ok log s := by
  by_cases hcrit : c.thread.pc.critical = true
  swap
  · exact asks_of_not_critical (hp.critical_eq.trans (Bool.eq_false_iff.mpr hcrit))
  cases hp with
  | send n hpc hpos hle => exact h.send hat hpc hle
  | getline bs hpc hne hready =>
    simp only [Asks, hpc] at h ⊢
    obtain ⟨p, hp, hwalk⟩ := h
    exact ⟨p, hp, hwalk.getline hready _⟩
  | getlineEnd hpc hready =>
    simp only [Asks, hpc] at h ⊢
    obtain ⟨p, hp, hwalk⟩ := h
    exact .inl ((hwalk.got_eq hready).trans (reply_of_some hs hp).symm)
  | freeGetline e hpc =>
    simp only [Asks, hpc] at h ⊢
    exact h
  | fopenRead hpc =>
    simp only [At, hpc] at hat
    obtain ⟨hknown, -, hgot⟩ := hat
    simp only [Asks, if_pos (hknown.isSome_iff.mpr hs)]
    exact ⟨hgot, trivial, trivial, trivial⟩
  | fwrite hpc | fcloseAppend hpc => simp only [Asks]
  | malloc hpc | realloc hpc | giveUp e hpc | freeBuf hpc | printf hpc | fopenAppend hpc
  | recv bs rest hpc | fclose hpc | free hpc | close hpc | finish hpc =>
    simp [hpc, Pc.critical] at hcrit

end Client

/-! ## The ioctl -/

/-- **The ioctl returns**: the position of the stream is where the file says. -/
theorem World.clientSeek_eq_some {ι τ : Type} [DecidableEq ι] [DecidableEq τ] {B : Backend (ι ⊕ τ)}
    {w w' : World B} {i : ι} {env : B.SeekEnv} (h : w.clientSeek i env = some w') :
    (w.client i).thread.pc = .ioctl ∧ ∃ arg t, (w.client i).thread.seekTo = some arg ∧
      w' = w.setClient i { w.client i with
        thread := t, fPos := (B.seekTo w.file env (w.client i).fPos arg).2 } ∧
      (((B.seekTo w.file env (w.client i).fPos arg).1 = true ∧
          t = { (w.client i).thread with pc := .getline }) ∨
        ((B.seekTo w.file env (w.client i).fPos arg).1 = false ∧
          t = { (w.client i).thread with errno := -1, lastError := -1, pc := .unlock })) := by
  rw [World.clientSeek] at h
  split at h
  swap
  · exact absurd h (by simp)
  rename_i arg hpc harg
  refine ⟨hpc, arg, ?_⟩
  dsimp only at h
  split at h
  · exact absurd h (by simp)
  · rename_i t hstep
    refine ⟨t, harg, (Option.some.inj h).symm, ?_⟩
    cases hret : (B.seekTo w.file env (w.client i).fPos arg).1 with
    | true =>
      simp only [SockThread.step, hpc, hret, if_true, Option.some.injEq] at hstep
      exact .inl ⟨rfl, hstep.symm⟩
    | false =>
      simp only [SockThread.step, hpc, hret, Bool.false_eq_true, if_false, Option.some.injEq]
        at hstep
      exact .inr ⟨rfl, hstep.symm⟩

variable {ι : Type} [DecidableEq ι] {seek : FixedSizeLlseek} {w w' : DeviceWorld seek ι}

/-! ## All the clients -/

/-- The client has been sent what it was to be sent when its turn came. -/
structure Answered (ok : Prop) (base : List (List Byte)) (stream : ι → List Byte) (order : List ι)
    (i : ι) (c : Client) : Prop where
  /-- It had a turn. -/
  turn : ∃ pre post, order = pre ++ i :: post ∧
    (c.got = reply (onDevice base (serial stream pre)) (stream i) ∨ (c.got = [] ∧ ¬ok))

/-- **The clients are answered.** -/
structure Answers (ok : ι → Prop) (base : List (List Byte)) (stream : ι → List Byte)
    (w : DeviceWorld seek ι) (log : Delim.Log (Tagged ι)) : Prop where
  /-- They take turns. -/
  turns : Turns base stream w log
  /-- The device has stored the commands of the log, and no others. -/
  stores : w.dev.Stores (onDevice base log).completed
  /-- Every client with a control line is where it can be. -/
  clients : ∀ i, ¬Ordinary (stream i) →
    (w.client i).Asks (ok i) (onDevice base log) (stream i)
  /-- Who leaves has given up or has been answered. -/
  leaving : ∀ i, ¬Ordinary (stream i) → (w.client i).thread.pc.leaving = true →
    TooLong (stream i) ∨ Answered (ok i) base stream w.order i (w.client i)

variable {ok : ι → Prop} {base : List (List Byte)} {stream : ι → List Byte}
  {log log' : Delim.Log (Tagged ι)}

omit [DecidableEq ι] in
theorem Answers.readable_eq (h : Answers ok base stream w log) :
    readable (onDevice base log) = w.dev.stored.flatten := by
  rw [readable, h.turns.dev_stored]

/-- One client changes, and neither the device nor the mutex. -/
theorem Answers.setClient (h : Answers ok base stream w log) {i : ι} {c : Client}
    (hturns : Turns base stream (w.setClient i c) log)
    (hask : ¬Ordinary (stream i) → c.Asks (ok i) (onDevice base log) (stream i))
    (hleave : ¬Ordinary (stream i) → c.thread.pc.leaving = true →
      TooLong (stream i) ∨ Answered (ok i) base stream w.order i c) :
    Answers ok base stream (w.setClient i c) log where
  turns := hturns
  stores := h.stores
  clients := (Function.forall_update_iff w.client fun j c ↦ ¬Ordinary (stream j) →
    c.Asks (ok j) (onDevice base log) (stream j)).mpr ⟨hask, fun j _ ↦ h.clients j⟩
  leaving := (Function.forall_update_iff w.client fun j c ↦ ¬Ordinary (stream j) →
    c.thread.pc.leaving = true →
      TooLong (stream j) ∨ Answered (ok j) base stream w.order j c).mpr
        ⟨hleave, fun j _ ↦ h.leaving j⟩

theorem Answers.proceed (h : Answers ok base stream w log) {i : ι} {c : Client}
    (hp : (w.client i).Proceeds .device c) : Answers ok base stream (w.setClient i c) log := by
  refine h.setClient (h.turns.proceed hp)
    (fun hs ↦ (h.clients i hs).proceeds hs (h.turns.clients i) hp) ?_
  intro hs hleave
  rcases hp.leaving_of hleave with hpc | ⟨hleave', hgot⟩
  · have hat := h.turns.clients i
    rw [Client.At, hpc] at hat
    exact .inl hat
  · refine (h.leaving i hs hleave').imp_right fun ha ↦ ⟨?_⟩
    rw [hgot]
    exact ha.turn

theorem Answers.fill (h : Answers ok base stream w log) {i : ι} {count : ℕ} {env : ReadEnv}
    (hpc : (w.client i).thread.pc = .getline) (hpos : 0 < count) (hint : env.interrupted = false)
    (hmiss : env.missing = 0) : Answers ok base stream (w.fill i count env) log := by
  refine h.setClient (h.turns.fill hpc hpos hint hmiss) ?_
    fun _ hleave ↦ by simp [hpc, Pc.leaving] at hleave
  intro hs
  have hask := h.clients i hs
  obtain ⟨hdata, hnext, hend⟩ := h.turns.device.aesdRead_stored hint hmiss (w.client i).fPos count
  rw [← h.readable_eq] at hdata hend
  simp only [Client.Asks, hpc] at hask ⊢
  obtain ⟨p, hp, hwalk⟩ := hask
  exact ⟨p, hp, hwalk.fill hdata hnext (hend hpos).mp⟩

/-- **The ioctl**: the stream is where the control line asks for, or nothing will be sent. -/
theorem Answers.ioctl (hseek : SeeksInside seek) (h : Answers ok base stream w log) {i : ι}
    {env : IoctlEnv} (hok : ok i → env.Succeeds) (hstep : w.clientSeek i env = some w') :
    Answers ok base stream w' log := by
  obtain ⟨hpc, arg, t, harg, rfl, ht⟩ := World.clientSeek_eq_some hstep
  have hat := h.turns.clients i
  simp only [Client.At, hpc] at hat
  obtain ⟨hknown, -, hctrl⟩ := hat
  refine h.setClient (h.turns.ioctl hpc (ht.imp And.right And.right)) ?_ ?_
  swap
  · intro hs hleave
    rcases ht with ⟨-, rfl⟩ | ⟨-, rfl⟩ <;> exact absurd hleave Bool.false_ne_true
  intro hs
  have hask := h.clients i hs
  simp only [Client.Asks, hpc] at hask
  obtain ⟨hgot, -, hbuf, heof⟩ := hask
  have hasked : askedPos (onDevice base log) (stream i) =
      seekPos (onDevice base log).completed arg := by
    rw [askedPos, ← hknown.parsed, harg, Option.bind_some]
  -- what the driver answers, and what the thread makes of it
  change (decide (0 ≤ (aesdIoctl seek w.dev env (w.client i).fPos aesdcharIocseekto arg).1) = true ∧
    _) ∨ (decide (0 ≤ (aesdIoctl seek w.dev env (w.client i).fPos aesdcharIocseekto arg).1) =
      false ∧ _) at ht
  rw [decide_eq_true_eq, decide_eq_false_iff_not] at ht
  show Client.Asks (ok i) _ _ { w.client i with
    thread := t, fPos := (aesdIoctl seek w.dev env (w.client i).fPos aesdcharIocseekto arg).2 }
  rcases h.stores.aesdIoctl_cases hseek env (w.client i).fPos arg with ⟨henv, e, he, heq⟩ | heq
  · rw [heq] at ht ⊢
    obtain ⟨hret, -⟩ | ⟨-, rfl⟩ := ht
    · exact absurd hret (Int.not_le.mpr he)
    · exact .inr ⟨hgot, fun hi ↦ henv (hok hi)⟩
  · cases hp : seekPos (onDevice base log).completed arg with
    | some p =>
      rw [heq, hp] at ht ⊢
      obtain ⟨-, rfl⟩ | ⟨hret, -⟩ := ht
      · exact ⟨p, hasked.trans hp, Client.walkFrom_of_seek hgot hbuf heof p _⟩
      · exact absurd (Int.le_refl 0) hret
    | none =>
      rw [heq, hp] at ht ⊢
      obtain ⟨hret, -⟩ | ⟨-, rfl⟩ := ht
      · exact absurd (show (0 : ℤ) ≤ -EINVAL from hret) (by decide)
      · exact .inl (hgot.trans (reply_of_none hs (hasked.trans hp)).symm)

/-! ## The mutex, and writing -/

omit [DecidableEq ι] in
theorem Answered.concat {P : Prop} {order : List ι} {i : ι} {c : Client}
    (h : Answered P base stream order i c) (j : ι) :
    Answered P base stream (order ++ [j]) i c := by
  obtain ⟨pre, post, rfl, hgot⟩ := h.turn
  exact ⟨pre, post ++ [j], by simp, hgot⟩

theorem Answers.lock (h : Answers ok base stream w log) {i : ι}
    (hpc : (w.client i).thread.pc = .lock) (hfree : w.owner = none) :
    Answers ok base stream (w.lock i) log where
  turns := h.turns.lock hpc hfree
  stores := h.stores
  clients := by
    refine (Function.forall_update_iff w.client fun j c ↦ ¬Ordinary (stream j) →
      c.Asks (ok j) (onDevice base log) (stream j)).mpr ⟨fun _ ↦ ?_, fun j _ ↦ h.clients j⟩
    rw [Client.locked]
    by_cases hsome : (w.client i).thread.seekTo.isSome = true
    · simp only [Client.Asks, if_pos hsome]
    · simp only [Client.Asks, if_neg hsome]
  leaving := by
    refine (Function.forall_update_iff w.client fun j c ↦ ¬Ordinary (stream j) →
      c.thread.pc.leaving = true →
        TooLong (stream j) ∨ Answered (ok j) base stream (w.order ++ [i]) j c).mpr ⟨?_, ?_⟩
    · intro _ hleave
      exact absurd hleave (by simp [(w.client i).stage_locked.2.2])
    · intro j _ hs hleave
      exact (h.leaving j hs hleave).imp_right fun ha ↦ ha.concat i

theorem Answers.unlock (h : Answers ok base stream w log) {i : ι}
    (hpc : (w.client i).thread.pc = .unlock) (hheld : w.owner = some (.inl i)) :
    Answers ok base stream (w.unlock i) log where
  turns := h.turns.unlock hpc hheld
  stores := h.stores
  clients := (Function.forall_update_iff w.client fun j c ↦ ¬Ordinary (stream j) →
    c.Asks (ok j) (onDevice base log) (stream j)).mpr ⟨fun _ ↦ trivial, fun j _ ↦ h.clients j⟩
  leaving := by
    refine (Function.forall_update_iff w.client fun j c ↦ ¬Ordinary (stream j) →
      c.thread.pc.leaving = true →
        TooLong (stream j) ∨ Answered (ok j) base stream w.order j c).mpr
          ⟨fun hs _ ↦ .inr ?_, fun j _ ↦ h.leaving j⟩
    obtain ⟨pre, hord⟩ := h.turns.last i hheld
    have hat := h.turns.clients i
    have hask := h.clients i hs
    simp only [Client.At, hpc] at hat
    simp only [Client.Asks, hpc] at hask
    -- a control line is not stored, so the log is that of the clients before
    have hlog : log = serial stream pre := by
      rw [h.turns.log_taken i pre hheld hord, hat.1, appendedLine, if_neg hs]
      exact Delim.Log.add_nil _
    rw [hlog] at hask
    exact ⟨pre, [], hord, hask⟩

theorem Answers.flush (h : Answers ok base stream w log) {i : ι} {n : ℕ} {env : WriteEnv}
    (hpc : (w.client i).thread.pc = .fwrite ∨ (w.client i).thread.pc = .fcloseAppend)
    (hpos : 0 < n) (hle : n ≤ (w.client i).out.length)
    (henv : WriteCall.Succeeds ⟨0, (w.client i).out.take n, env⟩) :
    Answers ok base stream (w.flush i n env)
      (log.add endsLine (tag i ((w.client i).out.take n))) where
  turns := h.turns.flush hpc hpos hle henv
  stores := by
    have hne : (w.client i).out.take n ≠ [] := by
      rw [← List.length_pos_iff, List.length_take]
      omega
    have hstores := h.stores.aesdWrite h.turns.device henv 0
    rw [specWrite_of_ne_nil henv hne, ← onDevice_add] at hstores
    exact hstores
  clients := by
    have hcrit : (w.client i).thread.pc.critical = true := by
      rcases hpc with hpc | hpc <;> rw [hpc] <;> rfl
    have hown := (h.turns.mutex i).mp hcrit
    refine (Function.forall_update_iff w.client fun j c ↦ ¬Ordinary (stream j) →
      c.Asks (ok j) (onDevice base (log.add endsLine (tag i ((w.client i).out.take n))))
        (stream j)).mpr
          ⟨fun _ ↦ ?_, fun j hne _ ↦ Client.asks_of_not_critical (h.turns.not_critical hown hne)⟩
    rcases hpc with hpc | hpc <;> simp only [Client.Asks, hpc]
  leaving := by
    refine (Function.forall_update_iff w.client fun j c ↦ ¬Ordinary (stream j) →
      c.thread.pc.leaving = true →
        TooLong (stream j) ∨ Answered (ok j) base stream w.order j c).mpr
          ⟨fun _ hleave ↦ ?_, fun j _ ↦ h.leaving j⟩
    rcases hpc with hpc | hpc <;> simp [hpc, Pc.leaving] at hleave

/-! ## Every run -/

/-- **One event.** -/
theorem Answers.step (hseek : SeeksInside seek) (h : Answers ok base stream w log)
    {l : DeviceLabel seek ι} (hok : ∀ i env, l = .seek i env → ok i → IoctlEnv.Succeeds env)
    (hgood : AllSucceed w l = true) (hstep : w.step l = some w') :
    Answers ok base stream w' (w.record log l) := by
  have hcases := World.step_cases hstep
  cases hcases with
  | timerRet j | timerLock j | timerUnlock j | timerFlush j => exact j.elim
  | ret i o c hret hlock hunlock => exact h.proceed (proceeds_of_ret hgood hret hlock hunlock)
  | lock i c hpc hret hfree =>
    simp only [Client.ret, SockThread.step, hpc, Option.some.injEq] at hret
    subst hret
    exact h.lock hpc hfree
  | unlock i c hpc hret hheld =>
    simp only [Client.ret, SockThread.step, hpc, Option.some.injEq] at hret
    subst hret
    exact h.unlock hpc hheld
  | flush i n env file hpc hpos hle hwrite =>
    obtain ⟨henv, rfl⟩ := Option.ite_some_none_eq_some.mp hwrite
    exact h.flush hpc hpos hle henv
  | fill i count env data fPos hpc hpos heof hread =>
    obtain ⟨⟨hint, hmiss⟩, hread⟩ := Option.ite_none_right_eq_some.mp hread
    obtain ⟨rfl, rfl⟩ := Prod.mk.inj (Option.some.inj hread)
    exact h.fill hpc hpos hint hmiss
  | seek i env => exact h.ioctl hseek (hok i env rfl) hstep

/-- **Every interleaving.** -/
theorem Answers.run (hseek : SeeksInside seek) (h : Answers ok base stream w log)
    {ls : List (DeviceLabel seek ι)}
    (hok : ∀ i env, Label.seek i env ∈ ls → ok i → IoctlEnv.Succeeds env)
    (hrun : ls.foldlM World.succeed (w, log) = some (w', log')) :
    Answers ok base stream w' log' := by
  refine Run.foldlM_invariant_of_forall (I := fun x ↦ Answers ok base stream x.1 x.2)
    (A := fun l ↦ ∀ i env, l = .seek i env → ok i → IoctlEnv.Succeeds env) ?_ ?_ hrun h
  · intro x l x' hl hx hs
    obtain ⟨hstep, hrec⟩ := Run.recording_eq_some.mp hs
    obtain ⟨hgood, hstep⟩ := Run.restrict_eq_some.mp hstep
    rw [hrec]
    exact hx.step hseek hl hgood hstep
  · rintro l hl i env rfl
    exact hok i env hl

omit [DecidableEq ι] in
/-- A device with nothing pending is the one its history says. -/
theorem refines_writes {cs : List WriteCall}
    (h : (cs.foldl Sys.write .init).dev.tmpBuffSize = 0) :
    Refines (cs.foldl Sys.write .init).dev ⟨(History.writes cs).completed, []⟩ := by
  obtain ⟨hist, ho⟩ := owned_run cs
  exact ⟨⟨hist, ho⟩, .inl h, (shows_writes cs).stores.stored,
    AesdDev.pending_of_size_eq_zero h⟩

/-- From a device with nothing pending, and with nobody having started. -/
theorem answers_of_run (hseek : SeeksInside seek) {cs : List WriteCall}
    (hpending : (cs.foldl Sys.write .init).dev.tmpBuffSize = 0) {errno : ι → ℤ}
    {ls : List (DeviceLabel seek ι)}
    (hrun : ls.foldlM (Run.restrict World.step AllSucceed) (World.init (charDevice seek (ι ⊕ Empty))
      (cs.foldl Sys.write .init).dev stream errno) = some w) :
    ∃ log, Answers (fun i ↦ ∀ env, Label.seek i env ∈ ls → IoctlEnv.Succeeds env)
      (History.writes cs).completed stream w log := by
  obtain ⟨log, hlog⟩ := Run.exists_recording World.record hrun ⟨[], []⟩
  refine ⟨log, Answers.run hseek ?_ (fun i env hl hi ↦ hi env hl) hlog⟩
  refine ⟨turns_init (refines_writes hpending) errno, ?_, fun _ _ ↦ trivial, fun _ _ hl ↦ ?_⟩
  · have hnone : onDevice (History.writes cs).completed (⟨[], []⟩ : Delim.Log (Tagged ι)) =
        ⟨(History.writes cs).completed, []⟩ := by
      simp [onDevice, Delim.Log.map, Delim.Log.after]
    rw [hnone]
    exact (shows_writes cs).stores
  · exact absurd hl Bool.false_ne_true

omit [DecidableEq ι] in
/-- What a client that leaves has written and has been sent, whatever its line is. -/
theorem Answers.served (h : Answers ok base stream w log) {i : ι}
    (hleave : (w.client i).thread.pc.leaving = true) :
    TooLong (stream i) ∨ ∃ pre post, w.order = pre ++ i :: post ∧
      (w.client i).written = appendedLine (stream i) ∧
      ((w.client i).got = reply (onDevice base (serial stream pre)) (stream i) ∨
        (w.client i).got = [] ∧ ¬Ordinary (stream i) ∧ ¬ok i) := by
  rcases h.turns.leaving i hleave with hlong | ⟨hwritten, pre, post, hord, hgot⟩
  · exact .inl hlong
  by_cases hs : Ordinary (stream i)
  · refine .inr ⟨pre, post, hord, hwritten, .inl ?_⟩
    rw [hgot hs, reply, if_pos hs, contentAfter, serial_concat, onDevice_add, appendedLine,
      if_pos hs, readable]
  · rcases h.leaving i hs hleave with hlong | ⟨pre, post, hord, hgot | ⟨hnil, hno⟩⟩
    · exact .inl hlong
    · exact .inr ⟨pre, post, hord, hwritten, .inl hgot⟩
    · exact .inr ⟨pre, post, hord, hwritten, .inr ⟨hnil, hs, hno⟩⟩

/-- **Every client is answered in its turn**, in the device build, with all I/O and all allocations
succeeding and nothing pending at the start, whatever the streams are and however the threads are
interleaved.  `order` is the order in which the threads took the mutex.

A client whose thread has given the mutex back is in the order, unless its line was too long to be
read.  What its thread has written, and what it has been sent, is what it would have been if the
clients before it in the order had been served one after another and then this one, alone.  For a
control line this means the content from `seekPos` on, which is the sizes of the slots before the
one asked for and the offset, or nothing if that slot has no such byte.  There is one exception: if
the kernel has interrupted the ioctl, or has not let it read its argument, the client may have been
sent nothing. -/
theorem answered_in_turn (seek : FixedSizeLlseek) (hseek : SeeksInside seek) (cs : List WriteCall)
    (hpending : (cs.foldl Sys.write .init).dev.tmpBuffSize = 0) (stream : ι → List Byte)
    (errno : ι → ℤ) (ls : List (DeviceLabel seek ι)) (w : DeviceWorld seek ι)
    (hrun : ls.foldlM (Run.restrict World.step AllSucceed) (World.init (charDevice seek (ι ⊕ Empty))
      (cs.foldl Sys.write .init).dev stream errno) = some w) (i : ι)
    (hleave : (w.client i).thread.pc.leaving = true) :
    TooLong (stream i) ∨ ∃ pre post, w.order = pre ++ i :: post ∧
      (w.client i).written = appendedLine (stream i) ∧
      ((w.client i).got =
          reply (onDevice (History.writes cs).completed (serial stream pre)) (stream i) ∨
        (w.client i).got = [] ∧ ¬Ordinary (stream i) ∧
          ∃ env, Label.seek i env ∈ ls ∧ ¬IoctlEnv.Succeeds env) := by
  obtain ⟨log, h⟩ := answers_of_run hseek hpending hrun
  refine (h.served hleave).imp_right ?_
  rintro ⟨pre, post, hord, hwritten, hgot | ⟨hnil, hs, hno⟩⟩
  · exact ⟨pre, post, hord, hwritten, .inl hgot⟩
  · rw [not_forall] at hno
    obtain ⟨env, hno⟩ := hno
    exact ⟨pre, post, hord, hwritten, .inr ⟨hnil, hs, env, Classical.not_imp.mp hno⟩⟩

/-- One client sends a line and the other asks for byte `1` of command `1`. -/
def lineAndControl (i : Bool) : List Byte :=
  if i then embedCtrlPref ++ [49, 44, 49, 10] else [97, 10]

/-- The line is stored first. -/
def controlAfterLine : List (DeviceLabel fixedSizeLlseek Bool) :=
  let line (i : Bool) (l : List Byte) : List (DeviceLabel fixedSizeLlseek Bool) :=
    [.fill i 512 ⟨false, 0⟩, .ret i (.bytes l), .ret i (.count 1), .ret i (.count (l.length - 1))]
  let finish (i : Bool) : List (DeviceLabel fixedSizeLlseek Bool) :=
    [.fill i 512 ⟨false, 0⟩, .ret i (.bytes []), .ret i .ok, .ret i .ok, .ret i .ok, .ret i .ok,
      .ret i .ok, .ret i .ok]
  List.flatten [
    [.ret true .ok, .ret true (.bytes (lineAndControl true)), .ret true .ok, .ret false .ok,
      .ret false (.bytes [97, 10]), .ret false .ok, .ret false .ok, .ret false .ok,
      .ret false (.count 2),
      .flush false 2 (WriteCall.plain 0 []).env, .ret false .ok, .ret false .ok],
    line false [122, 10], line false [98, 99, 10], line false [97, 10], finish false,
    [.ret true .ok, .ret true .ok, .seek true ⟨fun _ ↦ true, 0, false⟩],
    line true [99, 10], line true [97, 10], finish true]

/-- On a device that holds `"z\n"` and `"bc\n"`, the second is sent the rest of command `1` from
its byte `1` on, and the line of the first. -/
theorem answered_in_turn_control :
    ∃ w, controlAfterLine.foldlM (Run.restrict World.step AllSucceed)
        (World.init (charDevice fixedSizeLlseek (Bool ⊕ Empty))
          ([WriteCall.plain 0 [122, 10], .plain 0 [98, 99, 10]].foldl Sys.write .init).dev
          lineAndControl fun _ ↦ 0) = some w ∧
      (w.client true).got = [99, 10, 97, 10] := by
  have hrun : (controlAfterLine.foldlM (Run.restrict World.step AllSucceed)
      (World.init (charDevice fixedSizeLlseek (Bool ⊕ Empty))
        ([WriteCall.plain 0 [122, 10], .plain 0 [98, 99, 10]].foldl Sys.write .init).dev
        lineAndControl fun _ ↦ 0)).map
      (fun w ↦ (w.order, (w.client true).thread.pc, decide ((w.client true).got = []))) =
      some ([false, true], .done, false) := by decide +kernel
  obtain ⟨w, hw, hfacts⟩ := Option.map_eq_some_iff.mp hrun
  obtain ⟨horder, hfacts⟩ := Prod.mk.inj hfacts
  obtain ⟨hpc, hnil⟩ := Prod.mk.inj hfacts
  refine ⟨w, hw, ?_⟩
  have hshort : ¬TooLong (lineAndControl true) := SockThread.not_tooLong_of_length (by decide)
  obtain ⟨pre, post, hord, -, hgot | ⟨hgot, -⟩⟩ := (answered_in_turn fixedSizeLlseek
    seeksInside_fixedSizeLlseek [.plain 0 [122, 10], .plain 0 [98, 99, 10]] (by decide +kernel)
    lineAndControl (fun _ ↦ 0) controlAfterLine w hw true (by rw [hpc]; rfl)).resolve_left hshort
  · have hsplit : [false] ++ true :: [] = pre ++ true :: post := horder.symm.trans hord
    obtain ⟨rfl, -⟩ := (List.append_cons_inj_of_notMem (by decide) (by decide)).mp hsplit
    rw [hgot]
    decide +kernel
  · exact absurd hgot (of_decide_eq_false hnil)

end Aesd
