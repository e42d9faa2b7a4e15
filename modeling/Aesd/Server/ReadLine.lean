import Aesd.Server.SockThread

/-!
# Reading the line

What `readline_from_socket` knows while it is reading: the buffer holds the beginning of the
client's stream, without a newline in it, and has room for at least one more byte.  `Reading` says
so, and `Reading.received` is one `recv`: it ends with the first line of the stream, or reading goes
on.

The size of the buffer is a power of two.  It is doubled when the buffer is full, as an `int`, so a
line of more than `2 ^ 30` bytes makes it negative; `reallocarray` then refuses, and the thread
gives up (`Reading.overflow`).

The last section follows whole executions of `readline_from_socket`, however `recv` cuts the stream
into pieces.  `readline_delivers` says that each of them comes to an end, with the first line of the
stream if that is not too long.
-/

set_option autoImplicit false

namespace Aesd

/-- The longest line that is read. -/
def maxLine : ℕ := 2 ^ 30

/-! ## Small integers -/

theorem int32_of_small {n : ℤ} (h0 : 0 ≤ n) (h : n < 2 ^ 31) : int32 n = n := by
  rw [int32]
  exact Int.bmod_eq_of_le (by omega) (by omega)

theorem int32_overflow : int32 (2 ^ 31) = -2 ^ 31 := by decide

theorem sizeT_of_small {n : ℤ} (h0 : 0 ≤ n) (h : n < 2 ^ 64) : (sizeT n : ℤ) = n := by
  rw [sizeT, Int.emod_eq_of_lt h0 h, Int.toNat_of_nonneg h0]

theorem le_sizeT_overflow : 2 ^ 63 ≤ sizeT (-2 ^ 31) := by decide

/-! ## The lines of a stream -/

/-- Does the line end with a newline, its only one? -/
def CompleteLine (line : List Byte) : Prop :=
  ∃ init, line = init ++ [newline] ∧ ∀ b ∈ init, isNewline b = false

/-- The first line of what a client sends. -/
abbrev firstLine (s : List Byte) : List Byte := Delim.firstRecord isNewline s

theorem isNewline_iff {b : Byte} : isNewline b = true ↔ b = newline := beq_iff_eq

theorem completeLine_firstLine {s : List Byte} (h : ∃ b ∈ s, isNewline b = true) :
    CompleteLine (firstLine s) := by
  obtain ⟨init, last, heq, hinit, hlast⟩ := Delim.firstRecord_of_exists h
  exact ⟨init, by rw [firstLine, heq, isNewline_iff.mp hlast], hinit⟩

/-- The stream ends before its first line does. -/
def Truncated (s : List Byte) : Prop :=
  s ≠ [] ∧ (∀ b ∈ s, isNewline b = false) ∧ s.length < maxLine

/-- The first line of the stream is too long to be read. -/
def TooLong (s : List Byte) : Prop :=
  ∃ buf rest, s = buf ++ rest ∧ (∀ b ∈ buf, isNewline b = false) ∧ buf.length = maxLine

/-- `line` is what `readline_from_socket` returns for the stream `s`: its first line, or all of it
if there is none and the buffer did not fill up. -/
structure LineOf (s line : List Byte) : Prop where
  /-- It is the first line. -/
  eq : line = firstLine s
  /-- It is complete, or the stream has ended. -/
  complete_or : CompleteLine line ∨ (line = s ∧ (∀ b ∈ s, isNewline b = false) ∧
    s.length < maxLine)
  /-- It fitted into the buffer. -/
  length_le : line.length ≤ maxLine

theorem LineOf.completeLine {s line : List Byte} (h : LineOf s line) (hs : ¬Truncated s)
    (hne : line ≠ []) : CompleteLine line := by
  rcases h.complete_or with hc | ⟨rfl, hnone, hlen⟩
  · exact hc
  · exact absurd ⟨hne, hnone, hlen⟩ hs

namespace SockThread

/-- The thread is reading the stream `s`, of which `input` has not arrived yet. -/
structure Reading (s input : List Byte) (t : SockThread) : Prop where
  /-- The buffer holds what has arrived. -/
  bytes : t.buf ++ input = s
  /-- There is no newline in it. -/
  noEnd : ∀ b ∈ t.buf, isNewline b = false
  /-- `offset` counts it. -/
  offset : t.offset = t.buf.length
  /-- The size of the buffer is a power of two. -/
  bufsize : ∃ k ≤ 20, t.bufsize = ((2 ^ (10 + k) : ℕ) : ℤ)
  /-- There is room for more. -/
  room : t.offset < t.bufsize

/-- The buffer is full and cannot be doubled any more. -/
structure Overflow (s : List Byte) (t : SockThread) : Prop where
  /-- The line does not fit. -/
  tooLong : TooLong s
  /-- The size has become negative. -/
  bufsize : t.bufsize = -2 ^ 31

theorem reading_init (s : List Byte) (errno : ℤ) : (init errno).Reading s s where
  bytes := rfl
  noEnd b hb := by simp [init] at hb
  offset := rfl
  bufsize := ⟨0, by omega, rfl⟩
  room := by show (0 : ℤ) < buflen; decide

variable {s input : List Byte} {t : SockThread}

theorem Reading.bufsize_le (h : t.Reading s input) : t.bufsize ≤ maxLine := by
  obtain ⟨k, hk, hb⟩ := h.bufsize
  rw [hb, maxLine]
  exact_mod_cast Nat.pow_le_pow_right (by omega) (by omega)

/-- The buffer can be allocated. -/
theorem Reading.sizeT_bufsize_lt (h : t.Reading s input) : sizeT t.bufsize < 2 ^ 63 := by
  have hle : t.bufsize ≤ 2 ^ 30 := h.bufsize_le
  have hroom := h.room
  have hoff := h.offset
  have heq := sizeT_of_small (n := t.bufsize) (by omega) (by omega)
  omega

/-- `recv` is asked for as many bytes as fit, and at least one. -/
theorem Reading.recvSize_eq (h : t.Reading s input) :
    (t.recvSize : ℤ) = t.bufsize - t.offset ∧ 1 ≤ t.recvSize := by
  have hle : t.bufsize ≤ 2 ^ 30 := h.bufsize_le
  have hroom := h.room
  have hoff := h.offset
  have heq : (t.recvSize : ℤ) = t.bufsize - t.offset := by
    rw [recvSize, int32_of_small (by omega) (by omega), sizeT_of_small (by omega) (by omega)]
  exact ⟨heq, by omega⟩

/-- The buffer has become full: it is doubled, or that is no longer possible. -/
theorem Reading.overflow (h : t.Reading s input) {bs rest : List Byte} (hinput : input = bs ++ rest)
    (hbs : ∀ b ∈ bs, isNewline b = false) (hfull : (t.keep bs).offset = t.bufsize)
    (hoff : (t.keep bs).offset = (t.keep bs).buf.length) :
    (t.keep bs).doubleIfFull.pc = .realloc ∧
      ((t.keep bs).doubleIfFull.Reading s rest ∨ (t.keep bs).doubleIfFull.Overflow s) := by
  have hbytes : t.buf ++ bs ++ rest = s := by rw [List.append_assoc, ← hinput, h.bytes]
  have hnone : ∀ b ∈ t.buf ++ bs, isNewline b = false := fun b hb ↦
    (List.mem_append.mp hb).elim (h.noEnd b) (hbs b)
  obtain ⟨k, hk, hb⟩ := h.bufsize
  have hfull' : (t.keep bs).offset = (t.keep bs).bufsize := hfull
  rw [doubleIfFull, if_pos hfull']
  refine ⟨rfl, ?_⟩
  have hlen : (t.keep bs).buf.length = 2 ^ (10 + k) := by
    have : ((t.keep bs).buf.length : ℤ) = ((2 ^ (10 + k) : ℕ) : ℤ) := by rw [← hoff, hfull, hb]
    exact_mod_cast this
  have hdouble : ((2 ^ (10 + k) : ℕ) : ℤ) * 2 = ((2 ^ (10 + (k + 1)) : ℕ) : ℤ) := by
    rw [← Nat.add_assoc, Nat.pow_succ]
    push_cast
    rfl
  rcases Nat.lt_or_ge k 20 with hlt | hge
  · left
    have hsmall : (2 ^ (10 + (k + 1)) : ℕ) ≤ 2 ^ 30 := Nat.pow_le_pow_right (by omega) (by omega)
    have hsize : int32 ((t.keep bs).bufsize * 2) = ((2 ^ (10 + (k + 1)) : ℕ) : ℤ) := by
      rw [show (t.keep bs).bufsize = t.bufsize from rfl, hb, hdouble]
      exact int32_of_small (by omega) (by omega)
    refine ⟨hbytes, hnone, hoff, ⟨k + 1, by omega, hsize⟩, ?_⟩
    show (t.keep bs).offset < int32 ((t.keep bs).bufsize * 2)
    rw [hsize, hoff, hlen]
    exact_mod_cast Nat.pow_lt_pow_right (by omega) (by omega)
  · right
    obtain rfl : k = 20 := by omega
    refine ⟨⟨_, rest, hbytes.symm, hnone, hlen⟩, ?_⟩
    show int32 (t.bufsize * 2) = -2 ^ 31
    rw [hb, hdouble]
    exact int32_overflow

/-- **One `recv`.**  It completes the line, or the stream ends, or reading goes on, after doubling
the buffer if it is full. -/
theorem Reading.received (h : t.Reading s input) (hpc : t.pc = .recv) (build : Build)
    {bs rest : List Byte} (hinput : input = bs ++ rest) (hend : bs = [] → input = [])
    (hlen : bs.length ≤ t.recvSize) :
    (∃ line, (t.received build bs = t.lineRead build line ∨
      t.received build bs = t.lineEnded line) ∧ LineOf s line) ∨
    ((t.received build bs).pc = .recv ∧ (t.received build bs).Reading s rest ∧ bs ≠ []) ∨
    ((t.received build bs).pc = .realloc ∧ bs ≠ [] ∧
      ((t.received build bs).Reading s rest ∨ (t.received build bs).Overflow s)) := by
  obtain ⟨hrecv, -⟩ := h.recvSize_eq
  have hle : t.bufsize ≤ 2 ^ 30 := h.bufsize_le
  have hroom := h.room
  have hoff := h.offset
  rw [SockThread.received]
  split
  · rename_i hnil
    obtain rfl := hend hnil
    have hbuf : t.buf = s := by rw [← h.bytes, List.append_nil]
    have hnone : ∀ b ∈ s, isNewline b = false := hbuf ▸ h.noEnd
    have hlt : t.buf.length < maxLine := by
      rw [maxLine]
      omega
    exact .inl ⟨t.buf, .inl rfl, by rw [hbuf, firstLine, Delim.firstRecord_of_none hnone],
      .inr ⟨hbuf, hnone, hbuf ▸ hlt⟩, hlt.le⟩
  · rename_i hne
    split
    · rename_i hany
      obtain ⟨b, hb, hb'⟩ := List.any_eq_true.mp hany
      have hline : t.buf ++ Delim.firstRecord isNewline bs = firstLine s := by
        rw [← h.bytes, firstLine, Delim.firstRecord_append_of_none h.noEnd, hinput,
          Delim.firstRecord_append_of_exists ⟨b, hb, hb'⟩]
      have hshort : (Delim.firstRecord isNewline bs).length ≤ bs.length :=
        (Delim.firstRecord_prefix bs).length_le
      refine .inl ⟨_, .inr rfl, hline, .inl ?_, ?_⟩
      · rw [hline, ← h.bytes, hinput]
        exact completeLine_firstLine ⟨b, by simp [hb], hb'⟩
      · rw [List.length_append, maxLine]
        omega
    · rename_i hno
      have hbs : ∀ b ∈ bs, isNewline b = false := fun b hb ↦
        Bool.eq_false_iff.mpr fun hb' ↦ hno (List.any_eq_true.mpr ⟨b, hb, hb'⟩)
      have hoff' : (t.keep bs).offset = (t.keep bs).buf.length := by
        show int32 (t.offset + bs.length) = ((t.buf ++ bs).length : ℤ)
        rw [int32_of_small (by omega) (by omega), hoff, List.length_append]
        push_cast
        rfl
      right
      by_cases hfull : (t.keep bs).offset = (t.keep bs).bufsize
      · right
        obtain ⟨hre, hread⟩ := h.overflow hinput hbs hfull hoff'
        exact ⟨hre, hne, hread⟩
      · left
        rw [doubleIfFull, if_neg hfull]
        refine ⟨hpc, ⟨?_, ?_, hoff', h.bufsize, ?_⟩, hne⟩
        · show t.buf ++ bs ++ rest = s
          rw [List.append_assoc, ← hinput, h.bytes]
        · exact fun b hb ↦ (List.mem_append.mp hb).elim (h.noEnd b) (hbs b)
        · have hlt : (t.keep bs).offset ≤ t.bufsize := by
            rw [hoff']
            show ((t.buf ++ bs).length : ℤ) ≤ _
            rw [List.length_append]
            push_cast
            omega
          exact Int.lt_iff_le_and_ne.mpr ⟨hlt, hfull⟩

/-! ## All the ways to deliver a stream -/

/-- `malloc` has found a buffer: the loop of `readline_from_socket` begins. -/
def readStart (errno : ℤ) : SockThread := { init errno with pc := .recv }

/-- Can `recv` deliver `n` bytes?  Not more than are asked for and not more than there are, and none
only if none are asked for or there are none. -/
def Deliverable (t : SockThread) (input : List Byte) (n : ℕ) : Prop :=
  n ≤ t.recvSize ∧ n ≤ input.length ∧ (n = 0 → t.recvSize = 0 ∨ input = [])

instance (t : SockThread) (input : List Byte) (n : ℕ) : Decidable (t.Deliverable input n) :=
  inferInstanceAs (Decidable (_ ∧ _ ∧ (_ → _ ∨ _)))

/-- What follows `recv` in the loop or behind it: `reallocarray`, if the buffer is full, or
`printf`, if the line is complete, with this outcome. -/
def afterRecv (build : Build) (printed : Outcome) (t : SockThread) : Option SockThread :=
  match t.pc with
  | .realloc => t.step build .ok
  | .printf => t.step build printed
  | _ => some t

/-- One iteration of the loop: `recv` delivers the next `n` bytes of what has not arrived yet, and
if the buffer is full, `reallocarray` succeeds.  `printed` is the outcome of `printf`. -/
def deliver (build : Build) (printed : Outcome) (s : SockThread × List Byte) (n : ℕ) :
    Option (SockThread × List Byte) :=
  if s.1.pc = .recv ∧ s.1.Deliverable s.2 n then
    match s.1.step build (.bytes (s.2.take n)) with
    | none => none
    | some t => (t.afterRecv build printed).map fun t ↦ (t, s.2.drop n)
  else none

/-- `readline_from_socket` has returned a line. -/
def HasReturned (t : SockThread) : Prop := t.pc = .fopenAppend ∨ t.pc = .lock

theorem HasReturned.ne_recv (h : t.HasReturned) : t.pc ≠ .recv := by
  rcases h with h | h <;> rw [h] <;> decide

theorem hasReturned_lineRead (build : Build) (t : SockThread) (line : List Byte) :
    (t.lineRead build line).HasReturned :=
  (control_lineRead build t line).imp And.left And.left

/-- `printf` comes back, and the function returns the line. -/
theorem afterRecv_lineEnded (build : Build) {printed : Outcome}
    (hprinted : printed = .ok ∨ ∃ e, printed = .fail e) (t : SockThread) (line : List Byte) :
    ∃ t', (t.lineEnded line).afterRecv build printed = some t' ∧ t'.HasReturned ∧
      t'.line = line := by
  have hreturned := hasReturned_lineRead build (t.lineEnded line) line
  rcases hprinted with rfl | ⟨e, rfl⟩
  · exact ⟨_, rfl, hreturned, rfl⟩
  · exact ⟨{ ((t.lineEnded line).lineRead build line) with errno := e }, rfl, hreturned, rfl⟩

/-- A line that is short enough is not too long. -/
theorem not_tooLong_of_length {s : List Byte} (h : (firstLine s).length < maxLine) :
    ¬TooLong s := by
  rintro ⟨buf, rest, rfl, hnone, hlen⟩
  rw [firstLine, Delim.firstRecord_append_of_none hnone, List.length_append] at h
  omega

theorem Reading.of_realloc {s input : List Byte} {t : SockThread} (h : t.Reading s input)
    (pc : Pc) :
    Reading s input { t with pc := pc } := ⟨h.bytes, h.noEnd, h.offset, h.bufsize, h.room⟩

/-- **One iteration**, with a stream whose line is not too long.  Any delivery is possible; it
completes the line, or reading goes on with less to come. -/
theorem Reading.deliver {s input : List Byte} {t : SockThread} (h : t.Reading s input)
    (hpc : t.pc = .recv) (hs : ¬TooLong s) (build : Build) {printed : Outcome}
    (hprinted : printed = .ok ∨ ∃ e, printed = .fail e) {n : ℕ} (hn : t.Deliverable input n) :
    ∃ t', SockThread.deliver build printed (t, input) n = some (t', input.drop n) ∧
      ((t'.HasReturned ∧ t'.line = firstLine s) ∨
        (t'.pc = .recv ∧ t'.Reading s (input.drop n) ∧ 0 < n)) := by
  obtain ⟨-, hrecv⟩ := h.recvSize_eq
  obtain ⟨hsize, hlen, hzero⟩ := hn
  have hinput : input = input.take n ++ input.drop n := (List.take_append_drop ..).symm
  have htake : (input.take n).length = n := by rw [List.length_take]; omega
  have hend : input.take n = [] → input = [] := by
    intro hnil
    rw [hnil, List.length_nil] at htake
    exact (hzero htake.symm).resolve_left (by omega)
  have hstep : t.step build (.bytes (input.take n)) = some (t.received build (input.take n)) := by
    simp only [SockThread.step, hpc]
    exact if_pos (by rw [htake]; exact hsize)
  have hnone : input.take n ≠ [] → 0 < n := by
    intro hne
    rw [← htake]
    exact List.length_pos_of_ne_nil hne
  rw [SockThread.deliver, if_pos ⟨hpc, hsize, hlen, hzero⟩]
  simp only [hstep]
  rcases h.received hpc build hinput hend (by rw [htake]; exact hsize) with
    ⟨line, heq | heq, hline⟩ | ⟨hpc', hread, hne⟩ | ⟨hpc', hne, hread | hover⟩
  · have hafter : (t.lineRead build line).afterRecv build printed =
        some (t.lineRead build line) := by
      rcases hasReturned_lineRead build t line with hret | hret <;> rw [afterRecv, hret]
    rw [heq, hafter]
    exact ⟨_, rfl, .inl ⟨hasReturned_lineRead build t line, hline.eq⟩⟩
  · obtain ⟨t', hafter, hret, hline'⟩ := afterRecv_lineEnded build hprinted t line
    rw [heq, hafter]
    exact ⟨_, rfl, .inl ⟨hret, hline'.trans hline.eq⟩⟩
  · have hafter : (t.received build (input.take n)).afterRecv build printed =
        some (t.received build (input.take n)) := by
      rw [afterRecv, hpc']
    rw [hafter]
    exact ⟨_, rfl, .inr ⟨hpc', hread, hnone hne⟩⟩
  · have hok : (t.received build (input.take n)).afterRecv build printed =
        some { t.received build (input.take n) with pc := .recv } := by
      rw [afterRecv, hpc']
      simp only [SockThread.step, hpc', if_pos hread.sizeT_bufsize_lt]
    rw [hok]
    exact ⟨_, rfl, .inr ⟨rfl, hread.of_realloc .recv, hnone hne⟩⟩
  · exact absurd hover.tooLong hs

/-- **Any number of iterations.**  There are not more of them than bytes to come, and one. -/
theorem Reading.run {s input input' : List Byte} {t t' : SockThread} (h : t.Reading s input)
    (hpc : t.pc = .recv) (hs : ¬TooLong s) (build : Build) {printed : Outcome}
    (hprinted : printed = .ok ∨ ∃ e, printed = .fail e) {ns : List ℕ}
    (hrun : ns.foldlM (SockThread.deliver build printed) (t, input) = some (t', input')) :
    ns.length ≤ input.length + 1 ∧
      ((t'.HasReturned ∧ t'.line = firstLine s) ∨ (t'.pc = .recv ∧ t'.Reading s input')) := by
  induction ns generalizing t input with
  | nil =>
    simp only [List.foldlM_nil, Option.pure_def, Option.some.injEq, Prod.mk.injEq] at hrun
    obtain ⟨rfl, rfl⟩ := hrun
    exact ⟨Nat.zero_le _, .inr ⟨hpc, h⟩⟩
  | cons n ns ih =>
    rw [List.foldlM_cons, Option.bind_eq_bind, Option.bind_eq_some_iff] at hrun
    obtain ⟨m, hm, hrest⟩ := hrun
    have hn : t.Deliverable input n := by
      rw [SockThread.deliver] at hm
      split at hm
      · rename_i hcan
        exact hcan.2
      · exact absurd hm (by simp)
    obtain ⟨t₁, heq, hcases⟩ := h.deliver hpc hs build hprinted hn
    obtain rfl : (t₁, input.drop n) = m := Option.some.inj (heq.symm.trans hm)
    rw [List.length_cons]
    rcases hcases with ⟨hdone, hline⟩ | ⟨hpc₁, hread, hpos⟩
    · -- the function has returned: there is no further iteration
      cases ns with
      | nil =>
        simp only [List.foldlM_nil, Option.pure_def, Option.some.injEq, Prod.mk.injEq] at hrest
        obtain ⟨rfl, rfl⟩ := hrest
        exact ⟨by simp, .inl ⟨hdone, hline⟩⟩
      | cons n' ns =>
        rw [List.foldlM_cons, SockThread.deliver, if_neg fun hcan ↦ hdone.ne_recv hcan.1] at hrest
        exact absurd hrest (by simp)
    · obtain ⟨hlen, hend⟩ := ih hread hpc₁ hrest
      rw [List.length_drop] at hlen
      have hle := hn.2.1
      exact ⟨by omega, hend⟩

end SockThread

/-- The stream up to and including the first newline, or all of it. -/
def IsFirstLine (s line : List Byte) : Prop :=
  (∃ init rest, s = init ++ newline :: rest ∧ newline ∉ init ∧ line = init ++ [newline]) ∨
    (newline ∉ s ∧ line = s)

theorem isFirstLine_firstLine (s : List Byte) : IsFirstLine s (firstLine s) := by
  have hnot : ∀ {l : List Byte}, (∀ b ∈ l, isNewline b = false) → newline ∉ l := by
    intro l hl hmem
    exact absurd (hl _ hmem) (by decide)
  by_cases h : ∃ b ∈ s, isNewline b = true
  · left
    obtain ⟨init, heq, hinit⟩ := completeLine_firstLine h
    have hpre : Delim.firstRecord isNewline s <+: s := Delim.firstRecord_prefix s
    obtain ⟨rest, hrest⟩ := hpre
    refine ⟨init, rest, ?_, hnot hinit, heq⟩
    rw [← hrest, show Delim.firstRecord isNewline s = _ from heq, List.append_assoc,
      List.singleton_append]
  · right
    have hnone : ∀ b ∈ s, isNewline b = false := fun b hb ↦
      Bool.eq_false_iff.mpr fun hb' ↦ h ⟨b, hb, hb'⟩
    exact ⟨hnot hnone, Delim.firstRecord_of_none hnone⟩

/-- **Every way to deliver a stream.**  The allocations succeed, and the first newline, or the end
of the stream if there is none, is within the first `2 ^ 30 - 1` bytes; `printf` may succeed or
fail.  After any deliveries:

* there have been at most as many as there are bytes in the stream, and one;
* `readline_from_socket` has returned the stream up to and including the first newline, or all of
  it; or it calls `recv` for at least one byte, the number being `bufsize - offset`, so that none
  delivered means the end of the stream; and whatever `recv` can deliver then, it goes on. -/
theorem readline_delivers (build : Build) (errno : ℤ) (s : List Byte)
    (hs : (firstLine s).length ≤ 2 ^ 30 - 1) (printed : Outcome)
    (hprinted : printed = .ok ∨ ∃ e, printed = .fail e) (ns : List ℕ) (t : SockThread)
    (input : List Byte)
    (hrun : ns.foldlM (SockThread.deliver build printed) (.readStart errno, s) =
      some (t, input)) :
    ns.length ≤ s.length + 1 ∧
      ((t.HasReturned ∧ t.line = firstLine s ∧ IsFirstLine s t.line) ∨
        (t.pc = .recv ∧ 1 ≤ t.recvSize ∧ (t.recvSize : ℤ) = t.bufsize - t.offset ∧
          (∀ n, t.Deliverable input n → n = 0 → input = []) ∧
          ∀ n, t.Deliverable input n →
            (SockThread.deliver build printed (t, input) n).isSome = true)) := by
  have hlong : ¬TooLong s := SockThread.not_tooLong_of_length (by rw [maxLine]; omega)
  have hstart : (SockThread.readStart errno).Reading s s :=
    (SockThread.reading_init s errno).of_realloc .recv
  obtain ⟨hlen, hend⟩ := hstart.run rfl hlong build hprinted hrun
  refine ⟨hlen, ?_⟩
  rcases hend with ⟨hdone, hline⟩ | ⟨hpc, hread⟩
  · exact .inl ⟨hdone, hline, hline ▸ isFirstLine_firstLine s⟩
  · obtain ⟨heq, hone⟩ := hread.recvSize_eq
    refine .inr ⟨hpc, hone, heq, ?_, ?_⟩
    · intro n hn h0
      exact (hn.2.2 h0).resolve_left (by omega)
    · intro n hn
      obtain ⟨t', hstep, -⟩ := hread.deliver hpc hlong build hprinted hn
      rw [hstep]
      rfl

/-- `"ab\ncd"`, in pieces of one and three bytes: the second piece ends the line. -/
theorem readline_delivers_ab :
    ∃ t, [1, 3].foldlM (SockThread.deliver .device .ok) (.readStart 0, [97, 98, 10, 99, 100]) =
        some (t, [100]) ∧ t.line = [97, 98, 10] := by
  have hrun : ([1, 3].foldlM (SockThread.deliver .device .ok)
      (.readStart 0, [97, 98, 10, 99, 100])).map (fun s ↦ (s.1.pc, s.2)) =
        some (.fopenAppend, [100]) := by decide +kernel
  obtain ⟨⟨t, input⟩, hs, hfacts⟩ := Option.map_eq_some_iff.mp hrun
  obtain ⟨hpc, rfl⟩ := Prod.mk.inj hfacts
  obtain ⟨-, ⟨-, hline, -⟩ | ⟨hrecv, -⟩⟩ := readline_delivers .device 0 [97, 98, 10, 99, 100]
    (by decide) .ok (.inl rfl) [1, 3] t [100] hs
  · exact ⟨t, hs, hline⟩
  · exact absurd (hpc.symm.trans hrecv) (by decide)

end Aesd
