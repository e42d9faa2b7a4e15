import Mathlib.Data.Prod.Lex
import Aesd.Server.Turns

/-!
# Everybody is served

No client waits for ever because of the others: from every world that can come about, and for every
client, there is a continuation in which that client has returned (`Turns.serve`).  Whoever holds
the mutex can go on until it has given it back, and then anybody can.

The `rank` of a client is what is still ahead of it: the call it is at, and within a loop what is
left to receive, to write, to read or to send.  `Turns.exists_step` is a step that brings it down.
-/

set_option autoImplicit false

namespace Aesd

/-! ## What is ahead of a client -/

/-- The stages of a visit, counted from its end. -/
def Pc.stage : Pc → ℕ
  | .malloc => 17
  | .recv | .realloc => 16
  | .printf => 15
  | .fopenAppend => 14
  | .lock => 13
  | .fwrite => 12
  | .fcloseAppend => 11
  | .fopenRead => 10
  | .ioctl => 9
  | .getline | .send => 8
  | .freeGetline => 7
  | .unlock => 6
  | .freeBuf => 5
  | .fclose => 4
  | .free => 3
  | .close => 2
  | .finish => 1
  | .done => 0

/-- What is left to do in a loop. -/
def Client.left (content : List Byte) (c : Client) : ℕ :=
  match c.thread.pc with
  | .recv => 2 * c.input.length
  | .realloc => 2 * c.input.length + 1
  | .fcloseAppend => c.out.length
  | .getline => 3 * (content.length - c.fPos) + 2 * c.rbuf.length + if c.eof then 0 else 1
  | .send => 3 * (content.length - c.fPos) + 2 * c.rbuf.length + (if c.eof then 0 else 1) + 1
  | _ => 0

/-- What is ahead of a client. -/
def Client.rank (content : List Byte) (c : Client) : ℕ ×ₗ ℕ :=
  toLex (c.thread.pc.stage, c.left content)

namespace Client

variable {content content' s : List Byte} {c c' : Client}

theorem rank_lt_of_stage (h : c'.thread.pc.stage < c.thread.pc.stage) :
    c'.rank content' < c.rank content :=
  Prod.Lex.toLex_lt_toLex.mpr (.inl h)

theorem rank_lt_of_left (hstage : c'.thread.pc.stage = c.thread.pc.stage)
    (h : c'.left content' < c.left content) : c'.rank content' < c.rank content :=
  Prod.Lex.toLex_lt_toLex.mpr (.inr ⟨hstage, h⟩)

/-- The client can go on by itself: a call can return, with success. -/
def CanReturn (content : List Byte) (c : Client) : Prop :=
  ∃ o c', c.ret .device o = some c' ∧ c'.rank content < c.rank content ∧
    (∀ e, o = .fail e → c.thread.pc = .realloc ∧ 2 ^ 63 ≤ sizeT c.thread.bufsize) ∧
    ∀ n e, o ≠ .short n e

theorem canReturn_of_ok (h : c.ret .device .ok = some c')
    (hrank : c'.rank content < c.rank content) :
    c.CanReturn content :=
  ⟨.ok, c', h, hrank, fun _ he ↦ (by cases he), fun _ _ he ↦ (by cases he)⟩

theorem canReturn_of_bytes {bs : List Byte} (h : c.ret .device (.bytes bs) = some c')
    (hrank : c'.rank content < c.rank content) : c.CanReturn content :=
  ⟨.bytes bs, c', h, hrank, fun _ he ↦ (by cases he), fun _ _ he ↦ (by cases he)⟩

theorem canReturn_of_count {n : ℕ} (h : c.ret .device (.count n) = some c')
    (hrank : c'.rank content < c.rank content) : c.CanReturn content :=
  ⟨.count n, c', h, hrank, fun _ he ↦ (by cases he), fun _ _ he ↦ (by cases he)⟩

/-- What comes after the line has been read is further on. -/
theorem stage_lineRead (t : SockThread) (line : List Byte) {n : ℕ} (hn : 14 < n) :
    (t.lineRead .device line).pc.stage < n := by
  rcases SockThread.control_lineRead .device t line with ⟨h, -⟩ | ⟨h, -⟩ <;> rw [h] <;>
    simp only [Pc.stage] <;> omega

/-- `recv` can return with one byte, or at the end of the stream with none. -/
theorem At.canReturn_recv (h : c.At content s) (hpc : c.thread.pc = .recv) :
    c.CanReturn content := by
  simp only [At, hpc] at h
  obtain ⟨hread, -⟩ := h
  have hsize := hread.recvSize_eq.2
  have hlen : (c.input.take 1).length ≤ c.thread.recvSize := by
    rw [List.length_take]
    omega
  have hend : c.input.take 1 = [] → c.input = [] := fun hnil ↦
    (List.take_eq_nil_iff.mp hnil).resolve_left (by omega)
  have hret : c.ret .device (.bytes (c.input.take 1)) =
      some { c with thread := c.thread.received .device (c.input.take 1)
                    input := c.input.drop (c.input.take 1).length } := by
    have hpre : (c.input.take 1).isPrefixOf c.input = true :=
      List.isPrefixOf_iff_prefix.mpr (List.take_prefix ..)
    simp only [ret, SockThread.step, hpc, if_pos hlen]
    exact if_pos ⟨hpre, hend⟩
  refine canReturn_of_bytes hret ?_
  have hin : c.input = c.input.take 1 ++ c.input.drop 1 := (List.take_append_drop ..).symm
  have hless : c.input.take 1 ≠ [] →
      (c.input.drop (c.input.take 1).length).length < c.input.length := by
    intro hne
    have hpos := List.length_pos_iff.mpr hne
    rw [List.length_drop]
    rw [List.length_take] at hpos ⊢
    omega
  rcases hread.received hpc .device hin hend hlen with ⟨line, heq | heq, -⟩ | ⟨hpc', -, hne⟩ |
    ⟨hpc', hne, -⟩
  · refine rank_lt_of_stage ?_
    rw [heq, hpc]
    exact stage_lineRead _ _ (by decide)
  · exact rank_lt_of_stage (by simp [heq, hpc, SockThread.lineEnded, Pc.stage])
  · refine rank_lt_of_left ?_ ?_
    · rw [hpc', hpc]
    · rw [left, left, hpc', hpc]
      have := hless hne
      dsimp only
      omega
  · refine rank_lt_of_left ?_ ?_
    · rw [hpc', hpc]
      rfl
    · rw [left, left, hpc', hpc]
      have := hless hne
      dsimp only
      omega

/-- `reallocarray` can return, with a buffer or because it has to refuse. -/
theorem At.canReturn_realloc (h : c.At content s) (hpc : c.thread.pc = .realloc) :
    c.CanReturn content := by
  simp only [At, hpc] at h
  obtain ⟨hread | hover, -⟩ := h
  · have hret : c.ret .device .ok = some { c with thread := { c.thread with pc := .recv } } := by
      simp only [ret, SockThread.step, hpc, if_pos hread.sizeT_bufsize_lt]
    refine canReturn_of_ok hret (rank_lt_of_left ?_ ?_)
    · rw [hpc]
      rfl
    · simp only [left, hpc]
      omega
  · have hret : c.ret .device (.fail ENOMEM) =
        some { c with thread := { c.thread with errno := ENOMEM, pc := .freeBuf } } := by
      simp only [ret, SockThread.step, hpc]
    refine ⟨_, _, hret, rank_lt_of_stage (by simp [hpc, Pc.stage]), fun _ _ ↦ ⟨hpc, ?_⟩,
      fun _ _ he ↦ (by cases he)⟩
    rw [hover.bufsize]
    exact le_sizeT_overflow

/-- `send` can take everything. -/
theorem At.canReturn_send (h : c.At content s) (hpc : c.thread.pc = .send) :
    c.CanReturn content := by
  simp only [At, hpc] at h
  obtain ⟨-, -, hpos, -⟩ := h
  have hret : c.ret .device (.count c.thread.bytesLeft) = some { c with
      thread := c.thread.sendLoop 0 (c.thread.advance c.thread.bytesLeft)
      got := c.got ++ (c.thread.sendLine.drop c.thread.sendOffset).take c.thread.bytesLeft } := by
    have hok : 1 ≤ c.thread.bytesLeft ∧ c.thread.bytesLeft ≤ c.thread.bytesLeft := ⟨hpos, le_rfl⟩
    simp only [ret, SockThread.step, hpc, if_pos hok, Nat.sub_self]
  have hpc' : (c.thread.sendLoop 0 (c.thread.advance c.thread.bytesLeft)).pc = .getline := rfl
  refine canReturn_of_count hret (rank_lt_of_left ?_ ?_)
  · rw [hpc', hpc]
    rfl
  · simp only [left, hpc', hpc]
    omega

/-- `getline` can return when a line is there or the file has ended. -/
theorem canReturn_getline (hpc : c.thread.pc = .getline)
    (hready : c.rbuf.any isNewline = true ∨ c.eof = true) : c.CanReturn content := by
  obtain ⟨bs, hbs⟩ : ∃ bs, c.lineReady bs = true := by
    by_cases hany : c.rbuf.any isNewline = true
    · exact ⟨Delim.firstRecord isNewline c.rbuf, by rw [lineReady, if_pos hany, beq_self_eq_true]⟩
    · refine ⟨c.rbuf, ?_⟩
      rw [lineReady, if_neg hany, hready.resolve_left hany, beq_self_eq_true]
      rfl
  by_cases hnil : bs = []
  · subst hnil
    have hret : c.ret .device (.bytes []) =
        some { c with thread := { c.thread with pc := .freeGetline }, rbuf := c.rbuf.drop 0 } := by
      simp only [ret, SockThread.step, hpc, if_true, if_pos hbs, List.length_nil]
    exact canReturn_of_bytes hret (rank_lt_of_stage (by simp [hpc, Pc.stage]))
  · have hret : c.ret .device (.bytes bs) = some { c with
        thread := { c.thread with
          sendLine := bs, bytesLeft := bs.length, sendOffset := 0, pc := .send }
        rbuf := c.rbuf.drop bs.length } := by
      simp only [ret, SockThread.step, hpc, if_neg hnil, if_pos hbs]
    refine canReturn_of_bytes hret (rank_lt_of_left ?_ ?_)
    · rw [hpc]
      rfl
    · have hpos := List.length_pos_iff.mpr hnil
      have hle := (prefix_of_lineReady hbs).length_le
      simp only [left, hpc, List.length_drop]
      omega

/-- **A client can go on**, if it does not wait for the mutex, for the ioctl, for the file to be
read, or for its line to be written. -/
theorem At.canReturn (h : c.At content s) (hlock : c.thread.pc ≠ .lock)
    (hunlock : c.thread.pc ≠ .unlock) (hioctl : c.thread.pc ≠ .ioctl) (hdone : c.thread.pc ≠ .done)
    (hout : c.thread.pc = .fcloseAppend → c.out = [])
    (hready : c.thread.pc = .getline → c.rbuf.any isNewline = true ∨ c.eof = true) :
    c.CanReturn content := by
  cases hpc : c.thread.pc with
  | lock => exact absurd hpc hlock
  | unlock => exact absurd hpc hunlock
  | ioctl => exact absurd hpc hioctl
  | done => exact absurd hpc hdone
  | recv => exact h.canReturn_recv hpc
  | realloc => exact h.canReturn_realloc hpc
  | send => exact h.canReturn_send hpc
  | getline => exact canReturn_getline hpc (hready hpc)
  | printf =>
    have hret :
        c.ret .device .ok = some { c with thread := c.thread.lineRead .device c.thread.line } := by
      simp only [ret, SockThread.step, hpc]
    refine canReturn_of_ok hret (rank_lt_of_stage ?_)
    rw [hpc]
    exact stage_lineRead _ _ (by decide)
  | fopenRead =>
    refine canReturn_of_ok (by simp only [ret, SockThread.step, hpc]; rfl) (rank_lt_of_stage ?_)
    rw [hpc]
    dsimp only
    split <;> decide
  | fwrite =>
    have hret : c.ret .device (.count c.thread.line.length) =
        some { c with thread := { c.thread with pc := .fcloseAppend } } := by
      simp only [ret, SockThread.step, hpc, if_true]
    exact canReturn_of_count hret (rank_lt_of_stage (by simp [hpc, Pc.stage]))
  | fcloseAppend =>
    have hret :
        c.ret .device .ok = some { c with thread := { c.thread with pc := .fopenRead } } := by
      simp only [ret, SockThread.step, hpc, if_pos (hout hpc)]
    exact canReturn_of_ok hret (rank_lt_of_stage (by simp [hpc, Pc.stage]))
  | malloc | freeBuf | fopenAppend | freeGetline | fclose | free | close | finish =>
    refine canReturn_of_ok (by simp only [ret, SockThread.step, hpc]; rfl) (rank_lt_of_stage ?_)
    simp [hpc, Pc.stage]

end Client

/-! ## Somebody can go on -/

section Run

variable {ι : Type} [DecidableEq ι] {seek : FixedSizeLlseek} {base : List (List Byte)}
  {stream : ι → List Byte} {w w' : DeviceWorld seek ι} {log log' : Delim.Log (Tagged ι)}

/-- One event that brings a client closer to its end. -/
structure Advances (i : ι) (w : DeviceWorld seek ι) (log : Delim.Log (Tagged ι))
    (w' : DeviceWorld seek ι) (log' : Delim.Log (Tagged ι)) : Prop where
  /-- It is an event in which nothing fails. -/
  event : ∃ l, World.succeed (w, log) l = some (w', log')
  /-- There is less ahead. -/
  rank_lt : (w'.client i).rank w'.dev.stored.flatten < (w.client i).rank w.dev.stored.flatten
  /-- Only this client may take the mutex, or give it back. -/
  owner : w'.owner = w.owner ∨ w'.owner = none ∨ w'.owner = some (.inl i)
  /-- And so only this client enters the order. -/
  order : w'.order = w.order ∨ w'.order = w.order ++ [i]

theorem succeed_of_step {l : DeviceLabel seek ι} (hgood : AllSucceed w l = true)
    (hstep : w.step l = some w') (log : Delim.Log (Tagged ι)) :
    World.succeed (w, log) l = some (w', w.record log l) :=
  Run.recording_eq_some.mpr ⟨Run.restrict_eq_some.mpr ⟨hgood, hstep⟩, rfl⟩

theorem client_setClient (w : DeviceWorld seek ι) (i : ι) (c : Client) :
    (w.setClient i c).client i = c := Function.update_self ..

/-- A call that can return makes for an event. -/
theorem advances_of_canReturn {i : ι} (h : (w.client i).CanReturn w.dev.stored.flatten)
    (hlock : (w.client i).thread.pc ≠ .lock) (hunlock : (w.client i).thread.pc ≠ .unlock)
    (log : Delim.Log (Tagged ι)) : ∃ w' log', Advances i w log w' log' := by
  obtain ⟨o, c, hret, hrank, hfail, hshort⟩ := h
  have hgood : AllSucceed w (.ret i o) = true := by
    cases o with
    | fail e =>
      rw [AllSucceed, decide_eq_true_eq]
      exact hfail e rfl
    | short n e => exact absurd rfl (hshort n e)
    | ok | bytes bs | count n => rfl
  have hstep : w.step (.ret i o) = some (w.setClient i c) := by
    have hret' : (w.client i).ret (charDevice seek (ι ⊕ Empty)).build o = some c := hret
    rw [World.step, World.clientRet, hret']
    dsimp only
    split
    · rename_i hpc
      exact absurd hpc hlock
    · rename_i hpc
      exact absurd hpc hunlock
    · rfl
  refine ⟨w.setClient i c, _, ⟨_, succeed_of_step hgood hstep log⟩, ?_, .inl rfl, .inl rfl⟩
  rw [client_setClient]
  exact hrank

/-- The mutex is free and can be taken. -/
theorem advances_lock {i : ι} (hpc : (w.client i).thread.pc = .lock) (hfree : w.owner = none)
    (log : Delim.Log (Tagged ι)) : ∃ w' log', Advances i w log w' log' := by
  have hret : (w.client i).ret (charDevice seek (ι ⊕ Empty)).build .ok =
      some (w.client i).locked := by
    simp only [Client.ret, SockThread.step, hpc]
    rfl
  have hstep : w.step (.ret i .ok) = some (w.lock i) := by
    simp only [World.step, World.clientRet, hret, hpc, if_pos hfree]
    rfl
  refine ⟨w.lock i, _, ⟨_, succeed_of_step rfl hstep log⟩, ?_, .inr (.inr rfl), .inr rfl⟩
  refine Client.rank_lt_of_stage ?_
  rw [World.lock, hpc]
  dsimp only
  rw [client_setClient, Client.locked]
  dsimp only
  split <;> decide

/-- The mutex can be given back. -/
theorem advances_unlock {i : ι} (hpc : (w.client i).thread.pc = .unlock)
    (hheld : w.owner = some (.inl i)) (log : Delim.Log (Tagged ι)) :
    ∃ w' log', Advances i w log w' log' := by
  have hret : (w.client i).ret (charDevice seek (ι ⊕ Empty)).build .ok =
      some { w.client i with thread := { (w.client i).thread with pc := .fclose } } := by
    simp only [Client.ret, SockThread.step, hpc]
  have hstep : w.step (.ret i .ok) = some (w.unlock i) := by
    simp only [World.step, World.clientRet, hret, hpc, if_pos hheld]
    rfl
  refine ⟨w.unlock i, _, ⟨_, succeed_of_step rfl hstep log⟩, ?_, .inr (.inl rfl), .inl rfl⟩
  refine Client.rank_lt_of_stage ?_
  rw [World.unlock, hpc]
  dsimp only
  rw [client_setClient]
  simp [Pc.stage]

/-- The ioctl can return, one way or the other. -/
theorem advances_ioctl {i : ι} (hpc : (w.client i).thread.pc = .ioctl) {arg : AesdSeekto}
    (harg : (w.client i).thread.seekTo = some arg) (log : Delim.Log (Tagged ι)) :
    ∃ w' log', Advances i w log w' log' := by
  obtain ⟨t, fPos, hstep, ht⟩ : ∃ t fPos, w.step (.seek i ⟨fun _ ↦ true, 0, false⟩) =
      some (w.setClient i { w.client i with thread := t, fPos := fPos }) ∧
      (t.pc = .getline ∨ t.pc = .unlock) := by
    simp only [World.step, World.clientSeek, hpc, harg]
    split
    · rename_i hnone
      split at hnone <;> simp [SockThread.step, hpc] at hnone
    · rename_i t hsome
      refine ⟨t, _, rfl, ?_⟩
      split at hsome <;> simp only [SockThread.step, hpc, Option.some.injEq] at hsome
      · exact .inl (by rw [← hsome])
      · exact .inr (by rw [← hsome])
  refine ⟨_, _, ⟨_, succeed_of_step rfl hstep log⟩, ?_, .inl rfl, .inl rfl⟩
  refine Client.rank_lt_of_stage ?_
  rw [client_setClient, hpc]
  rcases ht with ht | ht <;> rw [ht] <;> decide

/-- The line can be written in one piece. -/
theorem advances_flush {i : ι} (hpc : (w.client i).thread.pc = .fcloseAppend)
    (hout : (w.client i).out ≠ []) (log : Delim.Log (Tagged ι)) :
    ∃ w' log', Advances i w log w' log' := by
  have hpos := List.length_pos_iff.mpr hout
  obtain ⟨env, henv⟩ : ∃ env : WriteEnv, WriteCall.Succeeds
      ⟨0, (w.client i).out.take (w.client i).out.length, env⟩ :=
    ⟨⟨false, .fresh, fun _ ↦ 0, 0, 0⟩, rfl, Alloc.noConfusion, Nat.zero_min _⟩
  have hstep : w.step (.flush i (w.client i).out.length env) =
      some (w.flush i (w.client i).out.length env) := by
    have hwrite : (charDevice seek (ι ⊕ Empty)).write w.file (.inl i) env
        ((w.client i).out.take (w.client i).out.length) =
        some (w.dev.aesdWrite env 0 ((w.client i).out.take (w.client i).out.length)).1 :=
      if_pos henv
    simp only [World.step, World.clientFlush, hwrite]
    exact if_pos ⟨.inr hpc, hpos, le_rfl⟩
  refine ⟨_, _, ⟨_, succeed_of_step rfl hstep log⟩, ?_, .inl rfl, .inl rfl⟩
  refine Client.rank_lt_of_left ?_ ?_
  · rw [World.flush]
    dsimp only
    rw [client_setClient]
  · rw [World.flush]
    dsimp only
    rw [client_setClient]
    simp only [Client.left, hpc, List.length_drop]
    omega

/-- The file can be read. -/
theorem Turns.advances_fill (h : Turns base stream w log) {i : ι}
    (hpc : (w.client i).thread.pc = .getline) (heof : (w.client i).eof = false) :
    ∃ w' log', Advances i w log w' log' := by
  obtain ⟨env, hint, hmiss⟩ : ∃ env : ReadEnv, env.interrupted = false ∧ env.missing = 0 :=
    ⟨⟨false, 0⟩, rfl, rfl⟩
  have hstep : w.step (.fill i 1 env) = some (w.fill i 1 env) := by
    have hread : (charDevice seek (ι ⊕ Empty)).read w.file env (w.client i).fPos 1 =
        some ((w.dev.aesdRead env (w.client i).fPos 1).1,
          (w.dev.aesdRead env (w.client i).fPos 1).2.1) := if_pos ⟨hint, hmiss⟩
    simp only [World.step, World.clientFill, hread]
    exact if_pos ⟨hpc, Nat.one_pos, heof⟩
  refine ⟨_, _, ⟨_, succeed_of_step rfl hstep log⟩, ?_, .inl rfl, .inl rfl⟩
  obtain ⟨hdata, hnext, -⟩ := h.device.aesdRead_stored hint hmiss (w.client i).fPos 1
  have hlen := hdata.length_le
  rw [List.length_drop] at hlen
  rw [World.fill]
  refine Client.rank_lt_of_left ?_ ?_
  · rw [client_setClient]
  · rw [client_setClient]
    simp only [Client.left, hpc, heof, hnext, List.length_append]
    show 3 * (w.dev.stored.flatten.length - _) + _ + _ < _
    by_cases hnil : (w.dev.aesdRead env (w.client i).fPos 1).1 = []
    · simp [hnil]
    · have hpos := List.length_pos_iff.mpr hnil
      have hne : (w.dev.aesdRead env (w.client i).fPos 1).1.isEmpty = false := by
        simpa using hnil
      rw [hne]
      simp only [Bool.false_eq_true, if_false]
      omega

/-- **A client can go on** unless another one holds the mutex. -/
theorem Turns.exists_step (h : Turns base stream w log) {i : ι}
    (hown : w.owner = none ∨ w.owner = some (.inl i)) (hdone : (w.client i).thread.pc ≠ .done) :
    ∃ w' log', Advances i w log w' log' := by
  have hat := h.clients i
  by_cases hlock : (w.client i).thread.pc = .lock
  · refine advances_lock hlock (hown.resolve_right ?_) log
    intro hheld
    have hcrit := (h.mutex i).mpr hheld
    rw [hlock] at hcrit
    cases hcrit
  by_cases hunlock : (w.client i).thread.pc = .unlock
  · exact advances_unlock hunlock ((h.mutex i).mp (by rw [hunlock]; rfl)) log
  by_cases hioctl : (w.client i).thread.pc = .ioctl
  · simp only [Client.At, hioctl] at hat
    obtain ⟨arg, harg⟩ := Option.isSome_iff_exists.mp (hat.1.isSome_iff.mpr hat.2.2)
    exact advances_ioctl hioctl harg log
  by_cases hflush : (w.client i).thread.pc = .fcloseAppend ∧ (w.client i).out ≠ []
  · exact advances_flush hflush.1 hflush.2 log
  by_cases hfill : (w.client i).thread.pc = .getline ∧ (w.client i).eof = false
  · exact h.advances_fill hfill.1 hfill.2
  · refine advances_of_canReturn (hat.canReturn hlock hunlock hioctl hdone
      (fun hpc ↦ by_contra fun hout ↦ hflush ⟨hpc, hout⟩) fun hpc ↦ .inr ?_) hlock hunlock log
    by_contra heof
    exact hfill ⟨hpc, Bool.eq_false_iff.mpr heof⟩

/-- **A client can finish** unless another one holds the mutex. -/
theorem Turns.finish (h : Turns base stream w log) (i : ι)
    (hown : w.owner = none ∨ w.owner = some (.inl i)) :
    ∃ (ls : List (DeviceLabel seek ι)) (w' : DeviceWorld seek ι) (log' : Delim.Log (Tagged ι)),
      ls.foldlM World.succeed (w, log) = some (w', log') ∧
      (w'.client i).thread.pc = .done ∧ w'.owner = none ∧
      (w'.order = w.order ∨ w'.order = w.order ++ [i]) := by
  induction hr : (w.client i).rank w.dev.stored.flatten using WellFoundedLT.induction
    generalizing w log with
  | ind r ih =>
    by_cases hdone : (w.client i).thread.pc = .done
    · refine ⟨[], w, log, rfl, hdone, hown.resolve_right ?_, .inl rfl⟩
      intro hheld
      have hcrit := (h.mutex i).mpr hheld
      rw [hdone] at hcrit
      cases hcrit
    · obtain ⟨w₁, log₁, ⟨l, hl⟩, hrank, howner, horder⟩ := h.exists_step hown hdone
      have hown₁ : w₁.owner = none ∨ w₁.owner = some (.inl i) := by
        rcases howner with heq | hfree | hheld
        · rw [heq]
          exact hown
        · exact .inl hfree
        · exact .inr hheld
      have h₁ := h.step (deviceStep_of_succeed hl)
      obtain ⟨ls, w', log', hrun, hdone', hfree, hord'⟩ := ih _ (hr ▸ hrank) h₁ hown₁ rfl
      refine ⟨l :: ls, w', log', ?_, hdone', hfree, ?_⟩
      · rw [List.foldlM_cons, hl]
        exact hrun
      · -- the client enters the order once at most
        have hnodup := (h₁.run hrun).nodup
        rcases horder with hord | hord <;> rw [hord] at hord'
        · exact hord'
        · refine .inr (hord'.resolve_right ?_)
          intro htwice
          rw [htwice] at hnodup
          simp [List.nodup_append] at hnodup

theorem foldlM_succeed_append {ls ls' : List (DeviceLabel seek ι)} {w₁ : DeviceWorld seek ι}
    {log₁ : Delim.Log (Tagged ι)}
    (h : ls.foldlM World.succeed (w, log) = some (w₁, log₁))
    (h' : ls'.foldlM World.succeed (w₁, log₁) = some (w', log')) :
    (ls ++ ls').foldlM World.succeed (w, log) = some (w', log') := by
  rw [List.foldlM_append, h]
  exact h'

/-- **Everybody can be served**: whatever has happened so far, it can go on so that a given client
has returned. -/
theorem Turns.serve (h : Turns base stream w log) (i : ι) :
    ∃ (ls : List (DeviceLabel seek ι)) (w' : DeviceWorld seek ι) (log' : Delim.Log (Tagged ι)),
      ls.foldlM World.succeed (w, log) = some (w', log') ∧
      (w'.client i).thread.pc = .done := by
  rcases w.owner_cases with hown | ⟨j, hown⟩
  · obtain ⟨ls, w', log', hrun, hdone, -⟩ := h.finish i (.inl hown)
    exact ⟨ls, w', log', hrun, hdone⟩
  · obtain ⟨ls, w₁, log₁, hrun, -, hfree, -⟩ := h.finish j (.inr hown)
    obtain ⟨ls', w', log', hrun', hdone, -⟩ := (h.run hrun).finish i (.inl hfree)
    exact ⟨ls ++ ls', w', log', foldlM_succeed_append hrun hrun', hdone⟩

end Run

end Aesd
