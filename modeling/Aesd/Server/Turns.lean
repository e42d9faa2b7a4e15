import Aesd.Server.Visit
import Aesd.Driver.Read

/-!
# The clients take turns

What the server is for, in the device build: the clients are served one after another.  `serial` is
the log when each client, in a given order, appends its line in one piece, and `contentAfter` is
what can be read then.

`Turns` is the invariant that ties a world to it, whatever the interleaving.  With `order` the list
of clients as they took the mutex, the log is the serial one for that order, except that the client
that holds the mutex may not have written all of its line yet; and a client that has been served has
received what could be read after its turn.  `Turns.step` is the step and `Turns.run` the run.
-/

set_option autoImplicit false

namespace Aesd

variable {ι : Type} {seek : FixedSizeLlseek}

/-! ## The serial log -/

/-- The log after the clients have appended their lines, one after another. -/
def serial (stream : ι → List Byte) (order : List ι) : Delim.Log (Tagged ι) :=
  order.foldl (fun log i ↦ log.add endsLine (tag i (appendedLine (stream i)))) ⟨[], []⟩

/-- The device that held the commands `base` and has got the bytes of the log. -/
def onDevice (base : List (List Byte)) (log : Delim.Log (Tagged ι)) : Delim.Log Byte :=
  (log.map Prod.snd).after base

/-- What can be read after the clients have been served in this order. -/
def contentAfter (base : List (List Byte)) (stream : ι → List Byte) (order : List ι) : List Byte :=
  ((onDevice base (serial stream order)).completed.rtake maxWriteOperationsSupported).flatten

theorem serial_concat (stream : ι → List Byte) (order : List ι) (i : ι) :
    serial stream (order ++ [i]) =
      (serial stream order).add endsLine (tag i (appendedLine (stream i))) := by
  rw [serial, List.foldl_append]
  rfl

theorem tag_append (i : ι) (as bs : List Byte) : tag i (as ++ bs) = tag i as ++ tag i bs :=
  List.map_append

theorem ends_tag (i : ι) (bs : List Byte) :
    Delim.ends endsLine (tag i bs) = Delim.ends isNewline bs := by
  rw [tag, Delim.ends_map]
  rfl

theorem onDevice_add (base : List (List Byte)) (log : Delim.Log (Tagged ι)) (i : ι)
    (bs : List Byte) :
    onDevice base (log.add endsLine (tag i bs)) = (onDevice base log).add isNewline bs := by
  have hmap : (tag i bs).map Prod.snd = bs := by simp [tag, Function.comp_def]
  rw [onDevice, onDevice, Delim.Log.add_after, ← hmap, Delim.Log.map_add, hmap]
  rfl

/-- A piece of a line that does not reach its end does not end in a newline. -/
theorem ends_of_lineOf {s a b : List Byte} (h : LineOf s (a ++ b)) (hb : b ≠ []) :
    Delim.ends isNewline a = false := by
  refine Delim.ends_of_none ?_
  intro x hx
  rcases h.complete_or with ⟨init, heq, hinit⟩ | ⟨heq, hnone, -⟩
  · have hsplit : a ++ b.dropLast = init := by
      rw [← List.dropLast_append_of_ne_nil hb, heq, List.dropLast_concat]
    exact hinit x (hsplit ▸ List.mem_append_left _ hx)
  · exact hnone x (heq ▸ List.mem_append_left b hx)

/-! ## The invariant -/

/-- The client has had its turn. -/
structure Served (base : List (List Byte)) (stream : ι → List Byte) (order : List ι) (i : ι)
    (c : Client) : Prop where
  /-- Its line has been written. -/
  written : c.written = appendedLine (stream i)
  /-- It has received what could be read after its turn. -/
  got : ∃ pre post, order = pre ++ i :: post ∧
    (Ordinary (stream i) → c.got = contentAfter base stream (pre ++ [i]))

/-- **The clients take turns.** -/
structure Turns (base : List (List Byte)) (stream : ι → List Byte) (w : DeviceWorld seek ι)
    (log : Delim.Log (Tagged ι)) : Prop where
  /-- Every client is where it can be. -/
  clients : ∀ i, (w.client i).At w.dev.stored.flatten (stream i)
  /-- The mutex is held by the client that has taken it. -/
  mutex : ∀ i, (w.client i).thread.pc.critical = true ↔ w.owner = some (.inl i)
  /-- Who has not taken the mutex is not in the order. -/
  waiting : ∀ i, (w.client i).thread.pc.waiting = true → i ∉ w.order
  /-- Nobody takes it twice. -/
  nodup : w.order.Nodup
  /-- Who holds it has taken it last. -/
  last : ∀ i, w.owner = some (.inl i) → ∃ pre, w.order = pre ++ [i]
  /-- Who has taken it has read a line. -/
  line_of : ∀ i ∈ w.order, LineOf (stream i) (firstLine (stream i))
  /-- Who leaves has given up or has been served. -/
  leaving : ∀ i, (w.client i).thread.pc.leaving = true →
    TooLong (stream i) ∨ Served base stream w.order i (w.client i)
  /-- With the mutex free the log is serial. -/
  log_free : w.owner = none → log = serial stream w.order
  /-- With the mutex taken, its owner may be writing. -/
  log_taken : ∀ i pre, w.owner = some (.inl i) → w.order = pre ++ [i] →
    log = (serial stream pre).add endsLine (tag i (w.client i).written)
  /-- The device holds the bytes of the log. -/
  device : Refines w.dev (onDevice base log)

section Run

variable {base : List (List Byte)} {stream : ι → List Byte}
  {w w' : DeviceWorld seek ι} {log log' : Delim.Log (Tagged ι)}

theorem turns_init {d : AesdDev} (h : Refines d ⟨base, []⟩) (errno : ι → ℤ) :
    Turns base stream (World.init (charDevice seek (ι ⊕ Empty)) d stream errno) ⟨[], []⟩ where
  clients i := ⟨SockThread.reading_init (stream i) (errno i), rfl, rfl⟩
  mutex i := iff_of_false (by simp [World.init, Client.init, SockThread.init, Pc.critical])
    (by simp [World.init])
  waiting i _ := List.not_mem_nil
  nodup := List.nodup_nil
  last i h := by cases h
  line_of i h := by cases h
  leaving i h := by cases h
  log_free _ := rfl
  log_taken i pre h := by cases h
  device := by
    have heq : onDevice base (⟨[], []⟩ : Delim.Log (Tagged ι)) = ⟨base, []⟩ := by
      simp [onDevice, Delim.Log.map, Delim.Log.after]
    rw [heq]
    exact h

/-- Only a client can hold the mutex. -/
theorem World.owner_cases (w : DeviceWorld seek ι) :
    w.owner = none ∨ ∃ i, w.owner = some (.inl i) := by
  cases hown : w.owner with
  | none => exact .inl rfl
  | some j =>
    cases j with
    | inl i => exact .inr ⟨i, rfl⟩
    | inr k => exact k.elim

theorem Turns.dev_stored (h : Turns base stream w log) :
    w.dev.stored = (onDevice base log).completed.rtake maxWriteOperationsSupported :=
  h.device.stored

/-- Who holds the mutex is alone. -/
theorem Turns.not_critical (h : Turns base stream w log) {i j : ι} (hown : w.owner = some (.inl i))
    (hne : j ≠ i) : (w.client j).thread.pc.critical = false := by
  rw [Bool.eq_false_iff]
  intro hj
  rw [(h.mutex j).mp hj, Option.some_inj, Sum.inl.injEq] at hown
  exact hne hown

variable [DecidableEq ι]

/-! ## Steps that change one client only -/

/-- A client changes that neither takes the mutex nor gives it back, and writes nothing. -/
theorem Turns.setClient (h : Turns base stream w log) (i : ι) {c : Client}
    (hat : c.At w.dev.stored.flatten (stream i))
    (hcrit : c.thread.pc.critical = (w.client i).thread.pc.critical)
    (hwait : c.thread.pc.waiting = true → (w.client i).thread.pc.waiting = true)
    (hwritten : c.written = (w.client i).written)
    (hleave : c.thread.pc.leaving = true →
      TooLong (stream i) ∨ Served base stream w.order i c) :
    Turns base stream (w.setClient i c) log where
  clients := (Function.forall_update_iff w.client fun j c ↦
    c.At w.dev.stored.flatten (stream j)).mpr ⟨hat, fun j _ ↦ h.clients j⟩
  mutex := (Function.forall_update_iff w.client fun j c ↦
    c.thread.pc.critical = true ↔ w.owner = some (.inl j)).mpr
      ⟨by rw [hcrit, h.mutex i], fun j _ ↦ h.mutex j⟩
  waiting := (Function.forall_update_iff w.client fun j c ↦
    c.thread.pc.waiting = true → j ∉ w.order).mpr
      ⟨fun hi ↦ h.waiting i (hwait hi), fun j _ ↦ h.waiting j⟩
  nodup := h.nodup
  last := h.last
  line_of := h.line_of
  leaving := (Function.forall_update_iff w.client fun j c ↦
    c.thread.pc.leaving = true → TooLong (stream j) ∨ Served base stream w.order j c).mpr
      ⟨hleave, fun j _ ↦ h.leaving j⟩
  log_free := h.log_free
  log_taken := (Function.forall_update_iff w.client fun j c ↦
    ∀ pre, w.owner = some (.inl j) → w.order = pre ++ [j] →
      log = (serial stream pre).add endsLine (tag j c.written)).mpr
      ⟨by rw [hwritten]; exact h.log_taken i, fun j _ ↦ h.log_taken j⟩
  device := h.device

theorem Turns.proceed (h : Turns base stream w log) {i : ι} {c : Client}
    (hp : (w.client i).Proceeds .device c) : Turns base stream (w.setClient i c) log := by
  refine h.setClient i ((h.clients i).proceeds hp) hp.critical_eq hp.waiting_of hp.written_eq
    ?_
  intro hleave
  rcases hp.leaving_of hleave with hpc | ⟨hleave', hgot⟩
  · have hat := h.clients i
    rw [Client.At, hpc] at hat
    exact .inl hat
  · refine (h.leaving i hleave').imp_right fun hs ↦ ⟨hp.written_eq.trans hs.written, ?_⟩
    rw [hgot]
    exact hs.got

theorem Turns.fill (h : Turns base stream w log) {i : ι} {count : ℕ} {env : ReadEnv}
    (hpc : (w.client i).thread.pc = .getline) (hpos : 0 < count) (hint : env.interrupted = false)
    (hmiss : env.missing = 0) : Turns base stream (w.fill i count env) log := by
  have hat := h.clients i
  refine h.setClient i ?_ rfl id rfl fun hleave ↦ by simp [hpc, Pc.leaving] at hleave
  obtain ⟨hdata, hnext, hend⟩ := h.device.aesdRead_stored hint hmiss (w.client i).fPos count
  simp only [Client.At, hpc] at hat ⊢
  exact ⟨hat.1, fun ho ↦ (hat.2 ho).fill hdata hnext (hend hpos).mp⟩

theorem Turns.ioctl (h : Turns base stream w log) {i : ι} {t : SockThread} {fPos : ℕ}
    (hpc : (w.client i).thread.pc = .ioctl)
    (ht : t = { (w.client i).thread with pc := .getline } ∨
      t = { (w.client i).thread with errno := -1, lastError := -1, pc := .unlock }) :
    Turns base stream (w.setClient i { w.client i with thread := t, fPos := fPos }) log := by
  have hat := h.clients i
  simp only [Client.At, hpc] at hat
  obtain ⟨-, hwritten, hctrl⟩ := hat
  rcases ht with rfl | rfl <;>
    exact h.setClient i ⟨hwritten, fun ho ↦ absurd ho hctrl⟩ (by rw [hpc]; rfl)
      (fun hwait ↦ by cases hwait) rfl (fun hleave ↦ by cases hleave)

/-! ## The mutex -/

/-- Whoever takes the mutex is in the middle of its visit. -/
theorem Client.stage_locked (c : Client) : c.locked.thread.pc.critical = true ∧
    c.locked.thread.pc.waiting = false ∧ c.locked.thread.pc.leaving = false := by
  rw [Client.locked]
  dsimp only
  split <;> exact ⟨rfl, rfl, rfl⟩

omit [DecidableEq ι] in
theorem Served.concat {order : List ι} {i : ι} {c : Client} (h : Served base stream order i c)
    (j : ι) : Served base stream (order ++ [j]) i c := by
  obtain ⟨hwritten, pre, post, rfl, hgot⟩ := h
  exact ⟨hwritten, pre, post ++ [j], by simp, hgot⟩

theorem Turns.lock (h : Turns base stream w log) {i : ι} (hpc : (w.client i).thread.pc = .lock)
    (hfree : w.owner = none) : Turns base stream (w.lock i) log where
  clients := (Function.forall_update_iff w.client fun j c ↦
    c.At w.dev.stored.flatten (stream j)).mpr
      ⟨(h.clients i).locked hpc _, fun j _ ↦ h.clients j⟩
  mutex := (Function.forall_update_iff w.client fun j c ↦
    c.thread.pc.critical = true ↔ some (.inl i) = some (Sum.inl j)).mpr
      ⟨iff_of_true (w.client i).stage_locked.1 rfl, fun j hne ↦ by
        rw [h.mutex j, hfree]
        simp [Ne.symm hne]⟩
  waiting := (Function.forall_update_iff w.client fun j c ↦
    c.thread.pc.waiting = true → j ∉ w.order ++ [i]).mpr
      ⟨fun hi ↦ absurd hi (by simp [(w.client i).stage_locked.2.1]), fun j hne hj ↦ by
        simpa [hne] using h.waiting j hj⟩
  nodup := by
    have hnotin : i ∉ w.order := h.waiting i (by rw [hpc]; rfl)
    show (w.order ++ [i]).Nodup
    rw [List.nodup_append]
    exact ⟨h.nodup, by simp, fun a ha b hb ↦ by
      rw [List.mem_singleton.mp hb]
      exact ne_of_mem_of_not_mem ha hnotin⟩
  last j hj := by
    rw [World.lock, Option.some_inj, Sum.inl.injEq] at hj
    exact ⟨w.order, by rw [World.lock, hj]⟩
  line_of j hj := by
    rcases List.mem_append.mp hj with hj | hj
    · exact h.line_of j hj
    · have hat := h.clients i
      simp only [Client.At, hpc] at hat
      have hline := hat.1.line_of
      rw [List.mem_singleton.mp hj, ← hline.eq]
      exact hline
  leaving := (Function.forall_update_iff w.client fun j c ↦
    c.thread.pc.leaving = true → TooLong (stream j) ∨ Served base stream (w.order ++ [i]) j c).mpr
      ⟨fun hi ↦ absurd hi (by simp [(w.client i).stage_locked.2.2]), fun j _ hj ↦
        (h.leaving j hj).imp_right fun hs ↦ hs.concat i⟩
  log_free hnone := by cases hnone
  log_taken := (Function.forall_update_iff w.client fun j c ↦
    ∀ pre, some (.inl i) = some (Sum.inl j) → w.order ++ [i] = pre ++ [j] →
      log = (serial stream pre).add endsLine (tag j c.written)).mpr <| by
    have hat := h.clients i
    simp only [Client.At, hpc] at hat
    refine ⟨?_, fun j hne pre hj ↦ absurd ?_ hne⟩
    · intro pre _ hord
      obtain ⟨rfl, -⟩ := List.append_inj' hord rfl
      rw [h.log_free hfree, show (w.client i).locked.written = [] from hat.2.1]
      exact (Delim.Log.add_nil _).symm
    · rw [Option.some_inj, Sum.inl.injEq] at hj
      exact hj.symm
  device := h.device

theorem Turns.unlock (h : Turns base stream w log) {i : ι} (hpc : (w.client i).thread.pc = .unlock)
    (hheld : w.owner = some (.inl i)) : Turns base stream (w.unlock i) log := by
  have hat := h.clients i
  simp only [Client.At, hpc] at hat
  obtain ⟨hwritten, hgot⟩ := hat
  obtain ⟨pre, hord⟩ := h.last i hheld
  have hlog : log = serial stream w.order := by
    rw [h.log_taken i pre hheld hord, hwritten, hord, serial_concat]
  refine ⟨?_, ?_, ?_, h.nodup, ?_, h.line_of, ?_, fun _ ↦ hlog, ?_,
    h.device⟩
  · exact (Function.forall_update_iff w.client fun j c ↦ c.At w.dev.stored.flatten (stream j)).mpr
      ⟨trivial, fun j _ ↦ h.clients j⟩
  · refine (Function.forall_update_iff w.client fun j c ↦
      c.thread.pc.critical = true ↔ none = some (Sum.inl j)).mpr
        ⟨iff_of_false Bool.false_ne_true (by simp), ?_⟩
    intro j hne
    rw [h.not_critical hheld hne]
    exact iff_of_false Bool.false_ne_true (by simp)
  · exact (Function.forall_update_iff w.client fun j c ↦ c.thread.pc.waiting = true →
      j ∉ w.order).mpr ⟨fun hi ↦ absurd hi Bool.false_ne_true, fun j _ ↦ h.waiting j⟩
  · intro j hj
    cases hj
  · refine (Function.forall_update_iff w.client fun j c ↦ c.thread.pc.leaving = true →
      TooLong (stream j) ∨ Served base stream w.order j c).mpr
        ⟨fun _ ↦ .inr ⟨hwritten, pre, [], hord, ?_⟩, fun j _ ↦ h.leaving j⟩
    intro ho
    rw [← hord, contentAfter, ← hlog, ← h.dev_stored]
    exact hgot ho
  · intro j pre' hj
    cases hj

/-! ## Writing -/

theorem Turns.flush (h : Turns base stream w log) {i : ι} {n : ℕ} {env : WriteEnv}
    (hpc : (w.client i).thread.pc = .fwrite ∨ (w.client i).thread.pc = .fcloseAppend)
    (hpos : 0 < n) (hle : n ≤ (w.client i).out.length)
    (henv : WriteCall.Succeeds ⟨0, (w.client i).out.take n, env⟩) :
    Turns base stream (w.flush i n env)
      (log.add endsLine (tag i ((w.client i).out.take n))) := by
  obtain ⟨hknown, ho, hline, hgot⟩ := (h.clients i).writing hpc
  have hcrit : (w.client i).thread.pc.critical = true := by
    rcases hpc with hpc | hpc <;> rw [hpc] <;> rfl
  have hown := (h.mutex i).mp hcrit
  have hne : (w.client i).out.take n ≠ [] := by
    rw [← List.length_pos_iff, List.length_take]
    omega
  refine ⟨?_, ?_, ?_, h.nodup, h.last, h.line_of, ?_, ?_, ?_, ?_⟩
  · refine (Function.forall_update_iff w.client fun j c ↦
      c.At (w.flush i n env).dev.stored.flatten (stream j)).mpr ⟨?_, fun j hne ↦
        (h.clients j).of_not_critical (h.not_critical hown hne) _⟩
    have hline' : (w.client i).written ++ (w.client i).out.take n ++ (w.client i).out.drop n =
        (w.client i).thread.line := by
      rw [List.append_assoc, List.take_append_drop, hline]
    rcases hpc with hpc | hpc <;> simp only [Client.At, hpc] <;>
      exact ⟨hknown, ho, hline', hgot⟩
  · exact (Function.forall_update_iff w.client fun j c ↦
      c.thread.pc.critical = true ↔ w.owner = some (.inl j)).mpr
        ⟨h.mutex i, fun j _ ↦ h.mutex j⟩
  · exact (Function.forall_update_iff w.client fun j c ↦ c.thread.pc.waiting = true →
      j ∉ w.order).mpr ⟨h.waiting i, fun j _ ↦ h.waiting j⟩
  · refine (Function.forall_update_iff w.client fun j c ↦ c.thread.pc.leaving = true →
      TooLong (stream j) ∨ Served base stream w.order j c).mpr ⟨?_,
        fun j _ ↦ h.leaving j⟩
    intro hleave
    rcases hpc with hpc | hpc <;> simp [hpc, Pc.leaving] at hleave
  · intro hnone
    rw [show w.owner = none from hnone] at hown
    exact absurd hown (by simp)
  · refine (Function.forall_update_iff w.client fun j c ↦ ∀ pre, w.owner = some (.inl j) →
      w.order = pre ++ [j] → log.add endsLine (tag i ((w.client i).out.take n)) =
        (serial stream pre).add endsLine (tag j c.written)).mpr
          ⟨?_, fun j hne pre hj ↦ absurd ?_ hne⟩
    · intro pre hown hord
      rw [h.log_taken i pre hown hord, Delim.Log.add_add, tag_append]
      rw [ends_tag]
      -- there is still something to write, so what has been written does not end the line
      refine ends_of_lineOf (s := stream i) (b := (w.client i).out) ?_ fun hnil ↦
        hne (by rw [hnil, List.take_nil])
      rw [hline]
      exact hknown.line_of
    · rw [hj, Option.some_inj, Sum.inl.injEq] at hown
      exact hown
  · have hwrite := (h.device.aesdWrite (c := ⟨0, (w.client i).out.take n, env⟩) henv 0).1
    rw [specWrite_of_ne_nil henv hne] at hwrite
    rw [onDevice_add]
    exact hwrite

/-! ## Every run -/

/-- **One event.** -/
theorem Turns.step (h : Turns base stream w log) (hs : DeviceStep w log w' log') :
    Turns base stream w' log' := by
  cases hs with
  | proceed i c hp => exact h.proceed hp
  | lock i hpc hfree => exact h.lock hpc hfree
  | unlock i hpc hheld => exact h.unlock hpc hheld
  | flush i n env hpc hpos hle henv => exact h.flush hpc hpos hle henv
  | fill i count env hpc hpos heof hint hmiss => exact h.fill hpc hpos hint hmiss
  | seek i t fPos hpc hctrl ht => exact h.ioctl hpc ht

/-- **Every interleaving.** -/
theorem Turns.run (h : Turns base stream w log) {ls : List (DeviceLabel seek ι)}
    (hrun : ls.foldlM World.succeed (w, log) = some (w', log')) : Turns base stream w' log' :=
  Run.foldlM_invariant (I := fun x ↦ Turns base stream x.1 x.2)
    (fun _ _ _ hx hs ↦ hx.step (deviceStep_of_succeed hs)) hrun h

end Run

end Aesd
