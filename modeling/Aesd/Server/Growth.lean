import Aesd.Server.Protocol
import Aesd.Server.ReadLine

/-!
# How far the buffer grows

`bufsize` and `offset` of `readline_from_socket` are of type `int`, and how far they grow is up to
the client.  `SizesFit` says of an execution that they never leave the range of that type, and that
there is room in the buffer before every `recv`.

It is so until a client has sent `2 ^ 30` bytes without a newline.  Then the buffer is full and its
size is doubled to `2 ^ 31`, which is no `int` any more.  `reallocarray` is asked for the negative
size that comes out of it, taken for a huge one, and refuses; so the function does return `NULL`,
but by way of an overflow.  `sizesFit_iff` says that this is the only case.
-/

set_option autoImplicit false

namespace Aesd

/-- The range of `int`. -/
def IsInt (n : ℤ) : Prop := -2 ^ 31 ≤ n ∧ n < 2 ^ 31

namespace SockThread

/-! ## What is to be true -/

/-- The additions and the doubling that the outcome leads to stay in the range of `int`. -/
def Exact (t : SockThread) (o : Outcome) : Prop :=
  ∀ bs, t.pc = .recv → o = .bytes bs → bs ≠ [] → (∀ b ∈ bs, isNewline b = false) →
    IsInt (t.offset + bs.length) ∧
      (t.offset + bs.length = t.bufsize → IsInt (t.bufsize * 2))

/-- The buffer has room, and the number of bytes to ask for is an `int`. -/
structure HasRoom (t : SockThread) : Prop where
  /-- The size is positive. -/
  bufsize_pos : 0 < t.bufsize
  /-- The next byte has a place. -/
  offset_lt : t.pc = .recv → 0 ≤ t.offset ∧ t.offset < t.bufsize ∧ IsInt (t.bufsize - t.offset)

/-- Nothing has been called that is done with a line. -/
def NoLine (tr : List Event) : Prop := ∀ e ∈ tr, e.1 ≠ .mutexLock ∧ ∀ mode, e.1 ≠ .fopen mode

/-- `readline_from_socket` has returned `NULL`, or frees the buffer before it does. -/
structure GivenUp (t : SockThread) (tr : List Event) : Prop where
  /-- Where the thread is. -/
  pc : t.pc = .freeBuf ∨ t.pc = .close ∨ t.pc = .finish ∨ t.pc = .done
  /-- There has been no line to go on with. -/
  noLine : NoLine tr

/-- `reallocarray` has failed. -/
def ReallocFailed (tr : List Event) : Prop := ∃ size errno, (.reallocarray size, .fail errno) ∈ tr

/-- **The sizes fit**, all along an execution, and the function gives up when the buffer cannot
grow. -/
def SizesFit (build : Build) (errno : ℤ) (os : List Outcome) : Prop :=
  ∀ pre u tr, pre <+: os → exec build errno pre = some (u, tr) →
    u.HasRoom ∧ (ReallocFailed tr → u.GivenUp tr) ∧ ∀ o, pre ++ [o] <+: os → u.Exact o

end SockThread

/-! ## Streams that are too long -/

theorem TooLong.append {s : List Byte} (h : TooLong s) (s' : List Byte) : TooLong (s ++ s') := by
  obtain ⟨buf, rest, rfl, hnone, hlen⟩ := h
  exact ⟨buf, rest ++ s', List.append_assoc .., hnone, hlen⟩

/-- A line that has been returned is one that fitted into the buffer. -/
theorem LineOf.not_tooLong {s line : List Byte} (h : LineOf s line) : ¬TooLong s := by
  rintro ⟨buf, rest, rfl, hnone, hlen⟩
  have hline : line = buf ++ firstLine rest := by
    rw [h.eq, firstLine, Delim.firstRecord_append_of_none hnone]
  rcases h.complete_or with ⟨init, hinit, hends⟩ | ⟨-, -, hshort⟩
  · have hle := h.length_le
    rw [hline, List.length_append] at hle
    have hnil : firstLine rest = [] := List.length_eq_zero_iff.mp (by omega)
    -- the newline would be in the buffer
    rw [hline, hnil, List.append_nil] at hinit
    exact absurd (hnone newline (by rw [hinit]; simp)) (by decide)
  · rw [List.length_append] at hshort
    omega

namespace SockThread

/-- While the function is reading there has been room so far. -/
theorem Reading.not_tooLong {s : List Byte} {t : SockThread} (h : t.Reading s []) :
    ¬TooLong s := by
  rintro ⟨buf, rest, heq, -, hlen⟩
  have hbuf : t.buf.length = maxLine + rest.length := by
    rw [← List.append_nil t.buf, h.bytes, heq, List.length_append, hlen]
  have hle := h.bufsize_le
  have hroom := h.room
  have hoff := h.offset
  omega

/-- More bytes are to arrive. -/
theorem Reading.more {s : List Byte} {t : SockThread} (h : t.Reading s []) (bs : List Byte) :
    t.Reading (s ++ bs) bs where
  bytes := by rw [← h.bytes, List.append_nil]
  noEnd := h.noEnd
  offset := h.offset
  bufsize := h.bufsize
  room := h.room

/-! ## The sizes along an execution -/

/-- The sizes of a thread that has received `s`. -/
inductive Sized (s : List Byte) (t : SockThread) : Prop
  /-- It is reading. -/
  | reading (hpc : t.pc = .malloc ∨ t.pc = .recv ∨ t.pc = .realloc) (h : t.Reading s [])
  /-- It has done with reading. -/
  | past (hpc : t.pc ≠ .malloc ∧ t.pc ≠ .recv ∧ t.pc ≠ .realloc) (hpos : 0 < t.bufsize)
      (hshort : ¬TooLong s)
  /-- The buffer cannot be doubled, and it gives up. -/
  | overflow (hpc : t.pc = .realloc ∨ t.pc = .freeBuf ∨ t.pc = .close ∨ t.pc = .finish ∨
      t.pc = .done) (h : t.Overflow s)

/-- Only `recv` changes the sizes. -/
theorem sizes_of_ne_recv {build : Build} {t t' : SockThread} {o : Outcome} (hpc : t.pc ≠ .recv)
    (hstep : t.step build o = some t') : t'.bufsize = t.bufsize ∧ t'.offset = t.offset := by
  cases branch_of_step hstep with
  | recv bs hp => exact absurd hp hpc
  | recvFail e hp => exact absurd hp hpc
  | _ => exact ⟨rfl, rfl⟩

/-- A thread that gives up goes on giving up. -/
theorem step_givingUp {build : Build} {t t' : SockThread} {o : Outcome}
    (hpc : t.pc = .freeBuf ∨ t.pc = .close ∨ t.pc = .finish ∨ t.pc = .done)
    (hstep : t.step build o = some t') : t'.pc = .close ∨ t'.pc = .finish ∨ t'.pc = .done := by
  cases branch_of_step hstep with
  | freeBuf hp => exact .inl rfl
  | close hp => exact .inr (.inl rfl)
  | closeFail e hp => exact .inr (.inl rfl)
  | finish hp => exact .inr (.inr rfl)
  | _ => simp_all only [reduceCtorEq, or_self]

theorem Overflow.step {s : List Byte} {build : Build} {t t' : SockThread} {o : Outcome}
    (h : t.Overflow s) (hpc : t.pc = .realloc ∨ t.pc = .freeBuf ∨ t.pc = .close ∨ t.pc = .finish ∨
      t.pc = .done) (hstep : t.step build o = some t') : Sized s t' := by
  have hne : t.pc ≠ .recv := by
    intro hrecv
    simp [hrecv] at hpc
  obtain ⟨hsize, -⟩ := sizes_of_ne_recv hne hstep
  refine .overflow ?_ ⟨h.tooLong, hsize.trans h.bufsize⟩
  rcases hpc with hpc | hpc
  · cases o <;> simp only [SockThread.step, hpc, reduceCtorEq, Option.some.injEq,
      Option.ite_none_right_eq_some] at hstep
    case ok =>
      -- no allocation of this size succeeds
      have hlt := hstep.1
      rw [h.bufsize] at hlt
      exact absurd le_sizeT_overflow (by omega)
    case fail =>
      subst hstep
      exact .inr (.inl rfl)
  · exact .inr (.inr (step_givingUp hpc hstep))

theorem Reading.bufsize_pos {s input : List Byte} {t : SockThread} (h : t.Reading s input) :
    0 < t.bufsize := by
  have hroom := h.room
  have hoff := h.offset
  omega

/-- Bytes arrive. -/
theorem Reading.sized_received {s : List Byte} {t : SockThread} (h : t.Reading s [])
    (hpc : t.pc = .recv) (build : Build) {bs : List Byte} (hlen : bs.length ≤ t.recvSize) :
    Sized (s ++ bs) (t.received build bs) := by
  rcases (h.more bs).received hpc build (List.append_nil bs).symm id hlen with
    ⟨line, heq | heq, hline⟩ | ⟨hpc', hread, -⟩ | ⟨hpc', -, hread | hover⟩
  · rw [heq]
    refine .past ?_ h.bufsize_pos hline.not_tooLong
    rcases control_lineRead build t line with ⟨hend, -⟩ | ⟨hend, -⟩ <;> rw [hend] <;> decide
  · rw [heq]
    exact .past ⟨by simp [lineEnded], by simp [lineEnded], by simp [lineEnded]⟩ h.bufsize_pos
      hline.not_tooLong
  · exact .reading (.inr (.inl hpc')) hread
  · exact .reading (.inr (.inr hpc')) hread
  · exact .overflow (.inl hpc') hover

/-- **One step.** -/
theorem Sized.step {build : Build} {t t' : SockThread} {tr : List Event} {c : Call} {o : Outcome}
    (h : Sized (receivedBytes tr) t) (hcall : t.call = some c)
    (hstep : t.step build o = some t') : Sized (receivedBytes (tr ++ [(c, o)])) t' := by
  by_cases hpc : t.pc = .recv
  · simp only [call, hpc, Option.some.injEq] at hcall
    subst hcall
    have hread : t.Reading (receivedBytes tr) [] := by
      cases h with
      | reading _ hread => exact hread
      | past hpast => exact absurd hpc hpast.2.1
      | overflow hover => simp [hpc] at hover
    cases o <;> simp only [SockThread.step, hpc, reduceCtorEq, Option.some.injEq,
      Option.ite_none_right_eq_some] at hstep
    case bytes bs =>
      obtain ⟨hlen, rfl⟩ := hstep
      rw [receivedBytes_recv]
      exact hread.sized_received hpc build hlen
    case fail e =>
      subst hstep
      have hbytes : receivedBytes (tr ++ [(.recv t.recvSize, .fail e)]) = receivedBytes tr := by
        rw [receivedBytes_concat]
        exact List.append_nil _
      rw [hbytes]
      exact .past ⟨by simp, by simp, by simp⟩ hread.bufsize_pos hread.not_tooLong
  · obtain ⟨hbytes, hbuf, hback, hmalloc, -, -⟩ := step_of_ne_recv hpc hcall hstep
    obtain ⟨hsize, hoff⟩ := sizes_of_ne_recv hpc hstep
    rw [receivedBytes_concat, hbytes, List.append_nil]
    cases h with
    | reading hat hread =>
      by_cases hgoes : t'.pc = .recv ∨ t'.pc = .realloc
      · refine .reading (.inr hgoes) ⟨by rw [hbuf, hread.bytes], by rw [hbuf]; exact hread.noEnd,
          by rw [hoff, hbuf, hread.offset], by rw [hsize]; exact hread.bufsize, ?_⟩
        rw [hoff, hsize]
        exact hread.room
      · exact .past ⟨hmalloc, not_or.mp hgoes⟩ (hsize ▸ hread.bufsize_pos) hread.not_tooLong
    | past hpast hpos hshort =>
      refine .past ⟨hmalloc, not_or.mp ?_⟩ (hsize ▸ hpos) hshort
      intro hgoes
      exact (hback hgoes).elim hpast.1 hpast.2.2
    | overflow hat hover => exact hover.step hat hstep

theorem exec_sized {build : Build} {errno : ℤ} {os : List Outcome} {t : SockThread}
    {tr : List Event} (h : exec build errno os = some (t, tr)) : Sized (receivedBytes tr) t :=
  exec_invariant (I := fun t tr ↦ Sized (receivedBytes tr) t)
    (fun _ _ _ _ _ hsized hcall hstep ↦ hsized.step hcall hstep)
    (.reading (.inl rfl) (reading_init [] errno)) h

/-! ## Giving up -/

theorem NoLine.concat {t : SockThread} {tr : List Event} {c : Call} (h : NoLine tr)
    (hpc : t.pc = .malloc ∨ t.pc = .recv ∨ t.pc = .realloc ∨ t.pc = .freeBuf ∨ t.pc = .close ∨
      t.pc = .finish ∨ t.pc = .done) (hcall : t.call = some c) (o : Outcome) :
    NoLine (tr ++ [(c, o)]) := by
  intro e he
  rcases List.mem_append.mp he with he | he
  · exact h e he
  · obtain rfl := List.mem_singleton.mp he
    rcases hpc with hpc | hpc | hpc | hpc | hpc | hpc | hpc <;>
      simp only [call, hpc, reduceCtorEq, Option.some.injEq] at hcall <;> subst hcall <;> simp

theorem pc_of_reallocarray {t : SockThread} {size : ℕ}
    (hcall : t.call = some (.reallocarray size)) : t.pc = .realloc := by
  cases hp : t.pc <;> simp [call, hp] at hcall
  rfl

/-- What is known of the line while it is being read, and after `reallocarray` has failed. -/
structure Unfinished (t : SockThread) (tr : List Event) : Prop where
  /-- There is no line while it is being read. -/
  noLine : t.pc = .malloc ∨ t.pc = .recv ∨ t.pc = .realloc → NoLine tr
  /-- There is none after the failure either. -/
  givenUp : ReallocFailed tr → t.GivenUp tr

theorem Unfinished.step {build : Build} {t t' : SockThread} {tr : List Event} {c : Call}
    {o : Outcome} (h : t.Unfinished tr) (hcall : t.call = some c)
    (hstep : t.step build o = some t') : t'.Unfinished (tr ++ [(c, o)]) where
  noLine hpc' := by
    have hpc : t.pc = .malloc ∨ t.pc = .recv ∨ t.pc = .realloc := by
      by_cases hrecv : t.pc = .recv
      · exact .inr (.inl hrecv)
      · obtain ⟨-, -, hback, hmalloc, -, -⟩ := step_of_ne_recv hrecv hcall hstep
        exact (hback (hpc'.resolve_left hmalloc)).imp_right .inr
    exact (h.noLine hpc).concat (hpc.imp_right fun h ↦ h.imp_right .inl) hcall o
  givenUp := by
    rintro ⟨size, e, hmem⟩
    rcases List.mem_append.mp hmem with hmem | hmem
    · obtain ⟨hpc, hno⟩ := h.givenUp ⟨size, e, hmem⟩
      exact ⟨.inr (step_givingUp hpc hstep), hno.concat (.inr (.inr (.inr hpc))) hcall o⟩
    · obtain ⟨rfl, rfl⟩ := Prod.mk.inj (List.mem_singleton.mp hmem)
      have hpc := pc_of_reallocarray hcall
      simp only [SockThread.step, hpc, Option.some.injEq] at hstep
      subst hstep
      exact ⟨.inl rfl, (h.noLine (.inr (.inr hpc))).concat (.inr (.inr (.inl hpc))) hcall _⟩

theorem exec_unfinished {build : Build} {errno : ℤ} {os : List Outcome} {t : SockThread}
    {tr : List Event} (h : exec build errno os = some (t, tr)) : t.Unfinished tr :=
  exec_invariant (I := Unfinished) (fun _ _ _ _ _ hun hcall hstep ↦ hun.step hcall hstep)
    ⟨fun _ ↦ by simp [NoLine], fun hfail ↦ by simp [ReallocFailed] at hfail⟩ h

/-! ## When the sizes fit -/

/-- There is room as long as the stream is not too long. -/
theorem Sized.hasRoom {s : List Byte} {t : SockThread} (h : Sized s t) (hs : ¬TooLong s) :
    t.HasRoom := by
  cases h with
  | reading hpc hread =>
    refine ⟨hread.bufsize_pos, fun _ ↦ ?_⟩
    have hle : t.bufsize ≤ 2 ^ 30 := hread.bufsize_le
    have hroom := hread.room
    have hoff := hread.offset
    rw [IsInt]
    omega
  | past hpc hpos => exact ⟨hpos, fun hrecv ↦ absurd hrecv hpc.2.1⟩
  | overflow hpc hover => exact absurd hover.tooLong hs

/-- The next bytes can be counted, and if they fill the buffer, it can be doubled. -/
theorem Sized.exact {s : List Byte} {t : SockThread} (h : Sized s t) {bs : List Byte}
    (hs : ¬TooLong (s ++ bs)) (hlen : bs.length ≤ t.recvSize) : t.Exact (.bytes bs) := by
  intro bs' hpc heq hne hnone
  obtain rfl : bs = bs' := by simpa using heq
  have hread : t.Reading s [] := by
    cases h with
    | reading _ hread => exact hread
    | past hpast => exact absurd hpc hpast.2.1
    | overflow hover => simp [hpc] at hover
  obtain ⟨hrecv, -⟩ := hread.recvSize_eq
  have hle : t.bufsize ≤ 2 ^ 30 := hread.bufsize_le
  have hroom := hread.room
  have hoff := hread.offset
  refine ⟨by rw [IsInt]; omega, ?_⟩
  intro hfull
  -- a full buffer of the largest size holds a line that is too long
  have hlt : t.bufsize ≠ 2 ^ 30 := by
    intro hmax
    refine hs ⟨t.buf ++ bs, [], ?_, ?_, ?_⟩
    · rw [List.append_nil, ← hread.bytes, List.append_nil]
    · intro b hb
      exact (List.mem_append.mp hb).elim (hread.noEnd b) (hnone b)
    · rw [List.length_append, maxLine]
      omega
  rw [IsInt]
  omega

/-- **When the sizes fit**: exactly when the bytes received do not begin with `2 ^ 30` bytes without
a newline. -/
theorem sizesFit_iff (build : Build) (errno : ℤ) (os : List Outcome) (t : SockThread)
    (tr : List Event) (hexec : exec build errno os = some (t, tr)) :
    SizesFit build errno os ↔ ¬TooLong (receivedBytes tr) := by
  constructor
  · intro hfit hlong
    obtain ⟨hroom, -⟩ := hfit os t tr (List.prefix_refl os) hexec
    have hpos := hroom.bufsize_pos
    cases exec_sized hexec with
    | reading _ hread => exact hread.not_tooLong hlong
    | past _ _ hshort => exact hshort hlong
    | overflow _ hover =>
      rw [hover.bufsize] at hpos
      exact absurd hpos (by decide)
  · intro hshort pre u tr' hpre hu
    have hbegin : ∀ {pre' u' tr''}, pre' <+: os → exec build errno pre' = some (u', tr'') →
        ¬TooLong (receivedBytes tr'') := by
      intro pre' u' tr'' hpre' hu' hlong
      obtain ⟨v, tr₁, hv, hle⟩ := exec_prefix hexec hpre'
      obtain ⟨-, rfl⟩ := Prod.mk.inj (Option.some.inj (hu'.symm.trans hv))
      obtain ⟨rest, rfl⟩ := hle
      refine hshort ?_
      rw [receivedBytes, List.flatMap_append]
      exact hlong.append _
    refine ⟨(exec_sized hu).hasRoom (hbegin hpre hu), (exec_unfinished hu).givenUp, ?_⟩
    intro o ho bs hpc hbs
    subst hbs
    obtain ⟨v, tr₁, hv, -⟩ := exec_prefix hexec ho
    obtain ⟨u', tr₂, c, hu', hcall, hstep, rfl⟩ := exec_concat_eq_some.mp hv
    obtain ⟨rfl, rfl⟩ := Prod.mk.inj (Option.some.inj (hu.symm.trans hu'))
    simp only [call, hpc, Option.some.injEq] at hcall
    subst hcall
    simp only [step, hpc, Option.ite_none_right_eq_some] at hstep
    have hnext := hbegin ho hv
    rw [receivedBytes_recv] at hnext
    exact (exec_sized hu).exact hnext hstep.1 bs hpc rfl

/-- So many `a`s. -/
def fill (n : ℕ) : List Byte := List.replicate n 97

/-- `1024` `a`s fill the buffer, which is doubled, and then the newline comes. -/
theorem sizesFit_iff_doubled :
    let os : List Outcome := [.ok, .bytes (fill buflen), .ok, .bytes [10], .ok]
    ∃ t tr, exec .device 0 os = some (t, tr) ∧ t.bufsize = 2048 ∧ t.line.length = 1025 ∧
      SizesFit .device 0 os := by
  intro os
  have hrun : (exec .device 0 os).map
      (fun s ↦ (s.1.bufsize, s.1.line.length, (firstLine (receivedBytes s.2)).length)) =
        some (2048, 1025, 1025) := by decide +kernel
  obtain ⟨⟨t, tr⟩, hexec, hfacts⟩ := Option.map_eq_some_iff.mp hrun
  simp only [Prod.mk.injEq] at hfacts
  obtain ⟨hsize, hline, hbytes⟩ := hfacts
  refine ⟨t, tr, hexec, hsize, hline, (sizesFit_iff .device 0 os t tr hexec).mpr ?_⟩
  exact not_tooLong_of_length (by rw [hbytes]; decide)

/-! ## A client that never sends a newline -/

/-- The client fills the buffer, again and again. -/
def fillRun : ℕ → List Outcome
  | 0 => [.ok] ++ [.bytes (fill buflen)]
  | k + 1 => (fillRun k ++ [.ok]) ++ [.bytes (fill (2 ^ (10 + k)))]

theorem step_fill (build : Build) {t : SockThread} (hpc : t.pc = .recv) {n : ℕ} (hn : 0 < n)
    (hsize : n ≤ t.recvSize) (hfull : int32 (t.offset + n) = t.bufsize) :
    t.step build (.bytes (fill n)) = some { t with
      buf := t.buf ++ fill n, offset := t.bufsize, bufsize := int32 (t.bufsize * 2),
      pc := .realloc } := by
  have hlen : (fill n).length = n := List.length_replicate
  have hne : fill n ≠ [] := by
    rw [← List.length_pos_iff, hlen]
    exact hn
  have hnone : ¬(fill n).any isNewline := by
    rw [Bool.not_eq_true, List.any_eq_false]
    intro b hb
    rw [List.eq_of_mem_replicate hb]
    decide
  simp only [step, hpc, hlen, if_pos hsize]
  rw [received, if_neg hne, if_neg hnone, doubleIfFull, keep, hlen, hfull, if_pos rfl]

/-- **The `k`-th time**, the buffer holds `2 ^ (10 + k)` bytes, and is to be doubled. -/
theorem exec_fillRun (build : Build) (errno : ℤ) {k : ℕ} (hk : k ≤ 20) :
    ∃ t tr, exec build errno (fillRun k) = some (t, tr) ∧ t.pc = .realloc ∧
      t.offset = ((2 ^ (10 + k) : ℕ) : ℤ) ∧ t.bufsize = int32 ((2 ^ (10 + k) : ℕ) * 2) := by
  induction k with
  | zero =>
    have hok : exec build errno [.ok] = some (readStart errno, [(.malloc buflen, .ok)]) := rfl
    have hfill := step_fill build (t := readStart errno) (n := buflen) rfl (by decide)
      (by show 1024 ≤ sizeT (int32 (1024 - 0)); decide)
      (by show int32 (0 + 1024) = 1024; decide)
    exact ⟨_, _, exec_concat_eq_some.mpr ⟨_, _, _, hok, rfl, hfill, rfl⟩, rfl, rfl, rfl⟩
  | succ k ih =>
    obtain ⟨t, tr, hexec, hpc, hoff, hsize⟩ := ih (by omega)
    have hpow : (2 ^ (10 + (k + 1)) : ℕ) = 2 ^ (10 + k) * 2 := by rw [← Nat.add_assoc, Nat.pow_succ]
    have hle : (2 ^ (10 + (k + 1)) : ℕ) ≤ 2 ^ 30 := Nat.pow_le_pow_right (by omega) (by omega)
    have hpos : 0 < 2 ^ (10 + k) := Nat.two_pow_pos _
    rw [fillRun]
    generalize 2 ^ (10 + k) = n at *
    rw [int32_of_small (by omega) (by omega)] at hsize
    have hroom : sizeT t.bufsize < 2 ^ 63 := by
      have heq := sizeT_of_small (n := t.bufsize) (by omega) (by omega)
      omega
    have hok : t.step build .ok = some { t with pc := .recv } := by
      simp only [step, hpc, if_pos hroom]
    have hcall : t.call = some (.reallocarray (sizeT t.bufsize)) := by rw [call, hpc]
    have hrecv : (recvSize { t with pc := .recv } : ℤ) = n := by
      rw [recvSize, int32_of_small (by dsimp only; omega) (by dsimp only; omega),
        sizeT_of_small (by dsimp only; omega) (by dsimp only; omega)]
      dsimp only
      omega
    have hfull : int32 (t.offset + n) = t.bufsize := by
      rw [int32_of_small (by omega) (by omega)]
      omega
    have hfill := step_fill build (t := { t with pc := .recv }) (n := n) rfl hpos (by omega) hfull
    refine ⟨_, _, exec_concat_eq_some.mpr ⟨_, _, _,
      exec_concat_eq_some.mpr ⟨_, _, _, hexec, hcall, hok, rfl⟩, rfl, hfill, rfl⟩, rfl, ?_, ?_⟩
    · show t.bufsize = _
      omega
    · show int32 (t.bufsize * 2) = _
      rw [hsize, hpow]
      push_cast
      rfl

/-- A gigabyte of `a`s: the size of the buffer becomes negative. -/
theorem bufsize_overflow : ∃ t tr, exec .device 0 (fillRun 20) = some (t, tr) ∧
    t.offset = 2 ^ 30 ∧ t.bufsize = -2 ^ 31 ∧ ¬SizesFit .device 0 (fillRun 20) := by
  obtain ⟨t, tr, hexec, -, hoff, hsize⟩ := exec_fillRun .device 0 (k := 20) le_rfl
  have hneg : t.bufsize = -2 ^ 31 := by
    rw [hsize]
    decide
  have hfull : t.offset = 2 ^ 30 := hoff.trans (by decide)
  refine ⟨t, tr, hexec, hfull, hneg, ?_⟩
  intro hfit
  obtain ⟨hroom, -⟩ := hfit _ t tr (List.prefix_refl _) hexec
  have hpos := hroom.bufsize_pos
  omega

end SockThread

end Aesd
