import Aesd.Driver.Commands

/-!
# Reading the log

Seen through the log of commands, reading is simple.  Lay all the commands ever completed end to
end; the ones no longer stored make up the first `lost s` bytes of that.  A read at file position
`p` delivers the bytes from `lost s + p` on, up to the end of the command it starts in
(`Refines.readsFrom`), and moves the position by what it delivered.

So while nothing is evicted a reader walks along the concatenation, whatever is appended in the
meantime, and when nothing is appended any more it comes to the end.  `Sys.step` interleaves reads
and writes of any number of files, and `reads_follow_log` is the account of a whole run.
-/

set_option autoImplicit false

namespace Aesd

/-- The call gets the lock and can deliver the bytes. -/
def ReadCall.Succeeds (c : ReadCall) : Prop := c.env.interrupted = false ∧ c.env.missing = 0

instance (c : ReadCall) : Decidable c.Succeeds := inferInstanceAs (Decidable (_ ∧ _))

/-- What a read returns. -/
def Sys.readRet (t : Sys) (c : ReadCall) : ℤ := (t.dev.aesdRead c.env (t.fPos c.file) c.count).2.2

/-- The number of bytes of the commands that are no longer stored. -/
def lost (s : Delim.Log Byte) : ℕ :=
  (Concat.evicted maxWriteOperationsSupported s.completed).flatten.length

/-- `data` is what a read of at most `count` bytes delivers at position `i` of the commands `ls`
laid end to end. -/
structure ReadsFrom (ls : List (List Byte)) (i count : ℕ) (data : List Byte) : Prop where
  /-- The bytes from that position on. -/
  bytes : data <+: ls.flatten.drop i
  /-- No more than were asked for. -/
  length_le : data.length ≤ count
  /-- None only if none were asked for or there are none. -/
  length_eq_zero_iff : data.length = 0 ↔ count = 0 ∨ ls.flatten.length ≤ i
  /-- The end of a command is not crossed. -/
  boundary : ∀ j, (ls.take j).flatten.length ≤ i ∨
    i + data.length ≤ (ls.take j).flatten.length

variable {d : AesdDev} {s : Delim.Log Byte} {t : Sys}

/-! ## One read -/

/-- The stored commands are found at their place among all of them. -/
theorem locate_lost (s : Delim.Log Byte) (p : ℕ) :
    Concat.locate (s.completed.map List.length) (lost s + p) =
      (Concat.locate ((s.completed.rtake maxWriteOperationsSupported).map List.length) p).map
        fun q ↦ ((Concat.evicted maxWriteOperationsSupported s.completed).length + q.1, q.2) := by
  have happ := Concat.locate_append
    ((Concat.evicted maxWriteOperationsSupported s.completed).map List.length)
    ((s.completed.rtake maxWriteOperationsSupported).map List.length) p
  rwa [← List.map_append, Concat.evicted_append_rtake, ← List.length_flatten, List.length_map]
    at happ

/-- A stretch of a stored command, as `aesd_read` copies it out. -/
theorem bytes_of_stored {e : AesdBufferEntry} {b n : ℕ} (h : b + n ≤ e.size) :
    d.bytes e.buffptr b n = ((d.bytes e.buffptr 0 e.size).drop b).take n := by
  rw [AesdDev.bytes_zero, AesdDev.bytes, List.drop_take, List.take_take,
    Nat.min_eq_left (by omega)]

/-- **What a read does**: at the end of the content nothing, else it delivers bytes of the command
the position falls in. -/
theorem AesdDev.Owned.aesdRead_cases {hist : List AesdBufferEntry} (h : d.Owned hist)
    {env : ReadEnv}
    (hint : env.interrupted = false) (hmiss : env.missing = 0) (p count : ℕ) :
    (d.stored.flatten.length ≤ p ∧ d.aesdRead env p count = ([], p, 0)) ∨
    ∃ k b l, Concat.locate (d.stored.map List.length) p = some (k, b) ∧
      d.stored[k]? = some l ∧ b < l.length ∧
      d.aesdRead env p count = ((l.drop b).take (min count (l.length - b)),
        p + min count (l.length - b), ((min count (l.length - b) : ℕ) : ℤ)) := by
  have hfind := d.buffer.findEntryOffsetForFpos_eq p
  rw [← h.map_length_stored] at hfind
  rw [AesdDev.aesdRead, if_neg (by rw [hint]; decide), hfind]
  cases hloc : Concat.locate (d.stored.map List.length) p with
  | none =>
    refine .inl ⟨?_, rfl⟩
    rw [List.length_flatten]
    exact Concat.locate_eq_none_iff.mp hloc
  | some q =>
    obtain ⟨k, b⟩ := q
    obtain ⟨l, hl, hb, -⟩ := Concat.drop_flatten_of_locate hloc
    refine .inr ⟨k, b, l, rfl, hl, hb, ?_⟩
    -- the entry in the slot found is the one whose bytes are `l`
    rw [AesdDev.stored, List.getElem?_map, Option.map_eq_some_iff] at hl
    obtain ⟨e, he, rfl⟩ := hl
    have hslot := AesdCircularBuffer.entry_of_entries_getElem? he
    have hlen : (d.bytes e.buffptr 0 e.size).length = e.size := by
      have hlens := congrArg (·[k]?) h.map_length_stored
      simpa [AesdDev.stored, he] using hlens
    have hcount : (if count > e.size - b then e.size - b else count) = min count (e.size - b) := by
      split <;> omega
    simp only [Option.map_some, hslot, hcount, hmiss, Nat.zero_min, ne_eq, not_true_eq_false,
      if_false, hlen]
    rw [bytes_of_stored (by omega)]

/-- A read delivers a stretch of the stored commands laid end to end, and moves the position by as
much; if at least one byte is asked for, it delivers none only at the end. -/
theorem AesdDev.Owned.aesdRead_stored {hist : List AesdBufferEntry} (h : d.Owned hist)
    {env : ReadEnv} (hint : env.interrupted = false) (hmiss : env.missing = 0) (p count : ℕ) :
    (d.aesdRead env p count).1 <+: d.stored.flatten.drop p ∧
      (d.aesdRead env p count).2.1 = p + (d.aesdRead env p count).1.length ∧
      (d.aesdRead env p count).2.2 = (d.aesdRead env p count).1.length ∧
      (0 < count → ((d.aesdRead env p count).1 = [] ↔ d.stored.flatten.length ≤ p)) := by
  rcases h.aesdRead_cases hint hmiss p count with ⟨hend, heq⟩ | ⟨k, b, l, hloc, hl, hb, heq⟩
  · rw [heq]
    exact ⟨List.nil_prefix, rfl, rfl, fun _ ↦ iff_of_true rfl hend⟩
  · have hlen : ((l.drop b).take (min count (l.length - b))).length = min count (l.length - b) := by
      rw [List.length_take, List.length_drop]
      omega
    have hin : p < d.stored.flatten.length := by
      rw [List.length_flatten]
      exact Nat.lt_of_not_le fun hge ↦ by simp [Concat.locate_eq_none_iff.mpr hge] at hloc
    obtain ⟨l', hl', -, hdrop⟩ := Concat.drop_flatten_of_locate hloc
    obtain rfl : l' = l := Option.some.inj (hl'.symm.trans hl)
    rw [heq, hlen, hdrop]
    refine ⟨(List.take_prefix ..).trans (List.prefix_append ..), rfl, rfl, ?_⟩
    intro hcount
    rw [← List.length_eq_zero_iff, hlen]
    omega

/-- A read of at least one byte starts with the byte at the file position, if there is one. -/
theorem AesdDev.Owned.head?_aesdRead_eq {hist : List AesdBufferEntry} (h : d.Owned hist)
    {renv : ReadEnv} (hint : renv.interrupted = false) (hmiss : renv.missing = 0)
    (p : ℕ) {count : ℕ} (hcount : 0 < count) :
    (d.aesdRead renv p count).1.head? = d.stored.flatten[p]? := by
  obtain ⟨⟨rest, hrest⟩, -, -, hnil⟩ := h.aesdRead_stored hint hmiss p count
  rcases Nat.lt_or_ge p d.stored.flatten.length with hlt | hge
  · have hne : (d.aesdRead renv p count).1 ≠ [] := fun hempty ↦
      Nat.not_le.mpr hlt ((hnil hcount).mp hempty)
    rw [← List.head?_drop, ← hrest, List.head?_append_of_ne_nil _ hne]
  · rw [(hnil hcount).mpr hge, List.getElem?_eq_none hge, List.head?_nil]

/-- Before the end, a read of at least one byte returns at least one. -/
theorem AesdDev.Owned.one_le_aesdRead {hist : List AesdBufferEntry} (h : d.Owned hist)
    {renv : ReadEnv} (hint : renv.interrupted = false) (hmiss : renv.missing = 0)
    {p count : ℕ} (hcount : 0 < count) (hlt : p < d.stored.flatten.length) :
    1 ≤ (d.aesdRead renv p count).2.2 := by
  obtain ⟨-, -, hret, hnil⟩ := h.aesdRead_stored hint hmiss p count
  have hne := mt (hnil hcount).mp (Nat.not_le.mpr hlt)
  rw [hret]
  exact_mod_cast List.length_pos_of_ne_nil hne

/-- At the end, a read returns `0`. -/
theorem AesdDev.Owned.aesdRead_end {hist : List AesdBufferEntry} (h : d.Owned hist)
    {renv : ReadEnv} (hint : renv.interrupted = false) (hmiss : renv.missing = 0)
    {p count : ℕ} (hcount : 0 < count) (hge : d.stored.flatten.length ≤ p) :
    (d.aesdRead renv p count).2.2 = 0 := by
  obtain ⟨-, -, hret, hnil⟩ := h.aesdRead_stored hint hmiss p count
  rw [hret, (hnil hcount).mpr hge]
  rfl

theorem Refines.aesdRead_stored (h : Refines d s) {env : ReadEnv} (hint : env.interrupted = false)
    (hmiss : env.missing = 0) (p count : ℕ) :
    (d.aesdRead env p count).1 <+: d.stored.flatten.drop p ∧
      (d.aesdRead env p count).2.1 = p + (d.aesdRead env p count).1.length ∧
      (0 < count → ((d.aesdRead env p count).1 = [] ↔ d.stored.flatten.length ≤ p)) := by
  obtain ⟨hist, ho⟩ := h.owned
  obtain ⟨hdata, hpos, -, hnil⟩ := ho.aesdRead_stored hint hmiss p count
  exact ⟨hdata, hpos, hnil⟩

/-- What a read does, in terms of all the commands completed so far. -/
theorem Refines.aesdRead_cases (h : Refines d s) {env : ReadEnv} (hint : env.interrupted = false)
    (hmiss : env.missing = 0) (p count : ℕ) :
    (s.completed.flatten.length ≤ lost s + p ∧ d.aesdRead env p count = ([], p, 0)) ∨
    ∃ k b l, Concat.locate (s.completed.map List.length) (lost s + p) = some (k, b) ∧
      s.completed[k]? = some l ∧ b < l.length ∧
      d.aesdRead env p count = ((l.drop b).take (min count (l.length - b)),
        p + min count (l.length - b), ((min count (l.length - b) : ℕ) : ℤ)) := by
  obtain ⟨hist, ho⟩ := h.owned
  rcases ho.aesdRead_cases hint hmiss p count with ⟨hend, heq⟩ | ⟨k, b, l, hloc, hl, hb, heq⟩
  · refine .inl ⟨?_, heq⟩
    have hsplit := congrArg (List.length ∘ List.flatten)
      (Concat.evicted_append_rtake maxWriteOperationsSupported s.completed)
    rw [Function.comp_apply, Function.comp_apply, List.flatten_append, List.length_append,
      ← h.stored] at hsplit
    rw [lost]
    omega
  · rw [h.stored] at hloc hl
    refine .inr ⟨_, b, l, by rw [locate_lost, hloc, Option.map_some], ?_, hb, heq⟩
    exact (Concat.getElem?_length_evicted_add ..).trans hl

/-- **One read**, in terms of all the commands completed so far. -/
theorem Refines.readsFrom {c : ReadCall} (h : Refines t.dev s) (hc : c.Succeeds) :
    ReadsFrom s.completed (lost s + t.fPos c.file) c.count (t.readData c) ∧
      t.readRet c = (t.readData c).length ∧
      (t.read c).fPos = Function.update t.fPos c.file (t.fPos c.file + (t.readData c).length) := by
  rw [Sys.readData, Sys.readRet, Sys.read]
  rcases h.aesdRead_cases hc.1 hc.2 (t.fPos c.file) c.count with ⟨hend, heq⟩ |
    ⟨k, b, l, hloc, hl, hb, heq⟩
  · rw [heq]
    exact ⟨⟨List.nil_prefix, Nat.zero_le _, iff_of_true rfl (.inr hend), fun j ↦ by
      have := (List.take_prefix j s.completed).flatten.length_le
      exact .inl (this.trans hend)⟩, rfl, rfl⟩
  · have hlen : ((l.drop b).take (min c.count (l.length - b))).length =
        min c.count (l.length - b) := by
      rw [List.length_take, List.length_drop]
      omega
    have hin : lost s + t.fPos c.file < s.completed.flatten.length := by
      by_contra hge
      rw [List.length_flatten, Nat.not_lt] at hge
      rw [Concat.locate_eq_none_iff.mpr hge] at hloc
      exact absurd hloc (by simp)
    rw [heq]
    refine ⟨⟨?_, ?_, ?_, ?_⟩, by rw [hlen], by rw [hlen]⟩
    · obtain ⟨l', hl', -, hdrop⟩ := Concat.drop_flatten_of_locate hloc
      obtain rfl : l' = l := Option.some.inj (hl'.symm.trans hl)
      rw [hdrop]
      exact (List.take_prefix ..).trans (List.prefix_append ..)
    · rw [hlen]
      exact Nat.min_le_left ..
    · rw [hlen]
      omega
    · rw [hlen]
      exact Concat.boundary_of_locate hloc hl (by omega)

/-! ## Reads and writes interleaved -/

/-- A call on one of the open files. -/
inductive FileOp where
  /-- `aesd_write`. -/
  | write (c : WriteCall)
  /-- `aesd_read`. -/
  | read (c : ReadCall)

/-- One call. -/
def Sys.step (t : Sys) : FileOp → Sys
  | .write c => t.write c
  | .read c => t.read c

/-- What a call does to the log: a read does nothing. -/
def specStep (s : Delim.Log Byte) : FileOp → Delim.Log Byte
  | .write c => specWrite s c
  | .read _ => s

/-- If the call is a write, it succeeds. -/
def FileOp.Writes : FileOp → Prop
  | .write c => c.Succeeds
  | .read _ => True

instance : DecidablePred FileOp.Writes
  | .write c => inferInstanceAs (Decidable c.Succeeds)
  | .read _ => inferInstanceAs (Decidable True)

/-- File `f` is only read from, and its reads succeed. -/
def FileOp.Reads (f : ℕ) : FileOp → Prop
  | .write c => c.file ≠ f
  | .read c => c.file = f → c.Succeeds

instance (f : ℕ) : DecidablePred (FileOp.Reads f)
  | .write c => inferInstanceAs (Decidable (c.file ≠ f))
  | .read c => inferInstanceAs (Decidable (c.file = f → c.Succeeds))

/-- The bytes delivered through file `f`, in order. -/
def received (f : ℕ) : Sys → List FileOp → List Byte
  | _, [] => []
  | t, .write c :: ops => received f (t.write c) ops
  | t, .read c :: ops => (if c.file = f then t.readData c else []) ++ received f (t.read c) ops

theorem Refines.step {op : FileOp} (h : Refines t.dev s) (hop : op.Writes) :
    Refines (t.step op).dev (specStep s op) := by
  cases op with
  | write c => exact h.write (hop.not_losesPending t.dev)
  | read c => exact h

theorem Refines.runOps {ops : List FileOp} (h : Refines t.dev s) (hops : ∀ op ∈ ops, op.Writes) :
    Refines (ops.foldl Sys.step t).dev (ops.foldl specStep s) := by
  induction ops generalizing t s with
  | nil => exact h
  | cons op ops ih =>
    exact ih (h.step (hops op List.mem_cons_self)) fun o ho ↦ hops o (List.mem_cons_of_mem op ho)

/-- The log only grows. -/
theorem completed_prefix_specStep (s : Delim.Log Byte) (op : FileOp) :
    s.completed <+: (specStep s op).completed := by
  cases op with
  | read c => exact List.prefix_refl _
  | write c =>
    rw [specStep, specWrite]
    split
    · rw [Delim.Log.append]
      split
      · exact List.prefix_append ..
      · exact List.prefix_refl _
    · exact List.prefix_refl _

theorem completed_prefix_run (s : Delim.Log Byte) (ops : List FileOp) :
    s.completed <+: (ops.foldl specStep s).completed := by
  induction ops generalizing s with
  | nil => exact List.prefix_refl _
  | cons op ops ih => exact (completed_prefix_specStep s op).trans (ih _)

theorem specStep_reads (s : Delim.Log Byte) (reads : List ReadCall) :
    (reads.map FileOp.read).foldl specStep s = s := by
  induction reads with
  | nil => rfl
  | cons c reads ih => exact ih

theorem lost_mono {s s' : Delim.Log Byte} (h : s.completed <+: s'.completed) :
    lost s ≤ lost s' := (Concat.evicted_prefix h).flatten.length_le

/-- Two stretches of a concatenation that follow each other make one. -/
theorem prefix_drop_append {w v a b : List Byte} {i : ℕ} (hw : w <+: v) (ha : a <+: w.drop i)
    (hb : b <+: v.drop (i + a.length)) : a ++ b <+: v.drop i := by
  obtain ⟨a', ha'⟩ := ha.trans (hw.drop i)
  rw [← List.drop_drop, ← ha', List.drop_left] at hb
  rw [← ha']
  exact List.prefix_append_right_inj a |>.mpr hb

/-- **A reader walks along the log** as long as nothing is evicted. -/
theorem Refines.received_prefix {f : ℕ} {ops : List FileOp} (h : Refines t.dev s)
    (hw : ∀ op ∈ ops, op.Writes) (hr : ∀ op ∈ ops, op.Reads f)
    (hlost : lost (ops.foldl specStep s) = lost s) :
    received f t ops <+: (ops.foldl specStep s).completed.flatten.drop (lost s + t.fPos f) ∧
      (ops.foldl Sys.step t).fPos f = t.fPos f + (received f t ops).length := by
  induction ops generalizing t s with
  | nil => exact ⟨List.nil_prefix, rfl⟩
  | cons op ops ih =>
    have hgrow := completed_prefix_run (specStep s op) ops
    have hstay : lost (specStep s op) = lost s :=
      le_antisymm ((lost_mono hgrow).trans_eq hlost)
        (lost_mono (completed_prefix_specStep s op))
    have hrest := ih (h.step (hw op List.mem_cons_self))
      (fun o ho ↦ hw o (List.mem_cons_of_mem op ho))
      (fun o ho ↦ hr o (List.mem_cons_of_mem op ho)) (hlost.trans hstay.symm)
    have hop := hr op List.mem_cons_self
    rw [List.foldl_cons, List.foldl_cons]
    rw [hstay] at hrest
    cases op with
    | write c =>
      have hpos : (t.step (.write c)).fPos f = t.fPos f := by
        rw [Sys.step, Sys.fPos_write, Function.update_of_ne (Ne.symm hop)]
      rw [hpos] at hrest
      exact hrest
    | read c =>
      rw [received]
      by_cases hf : c.file = f
      · obtain ⟨hfrom, -, hpos⟩ := h.readsFrom (hop hf)
        have hpos' : (t.step (.read c)).fPos f = t.fPos f + (t.readData c).length := by
          rw [Sys.step, hpos, hf, Function.update_self]
        rw [hpos', ← Nat.add_assoc] at hrest
        rw [if_pos hf, List.length_append, ← Nat.add_assoc]
        refine ⟨prefix_drop_append hgrow.flatten ?_ hrest.1, hrest.2⟩
        rw [← hf]
        exact hfrom.bytes
      · have hpos : (t.step (.read c)).fPos f = t.fPos f :=
          Function.update_of_ne (Ne.symm hf) ..
        rw [hpos] at hrest
        rw [if_neg hf, List.nil_append]
        exact hrest

/-- **A reader comes to the end** when nothing is written any more: after enough reads of at least
one byte it has received all that was left. -/
theorem Refines.received_all {f : ℕ} {reads : List ReadCall} (h : Refines t.dev s)
    (hr : ∀ c ∈ reads, c.file = f → c.Succeeds ∧ 0 < c.count)
    (hmany : s.completed.flatten.length - (lost s + t.fPos f) ≤
      reads.countP fun c ↦ c.file = f) :
    received f t (reads.map .read) = s.completed.flatten.drop (lost s + t.fPos f) := by
  induction reads generalizing t with
  | nil =>
    rw [List.countP_nil] at hmany
    exact (List.drop_eq_nil_of_le (by omega)).symm
  | cons c reads ih =>
    have hrest := ih (t := t.read c) h fun c' hc' ↦ hr c' (List.mem_cons_of_mem c hc')
    rw [List.map_cons, received]
    by_cases hf : c.file = f
    · obtain ⟨hc, hcount⟩ := hr c List.mem_cons_self hf
      obtain ⟨hfrom, -, hpos⟩ := h.readsFrom hc
      have hpos' : (t.read c).fPos f = t.fPos f + (t.readData c).length := by
        rw [hpos, hf, Function.update_self]
      have hsome : (t.readData c).length = 0 → s.completed.flatten.length ≤ lost s + t.fPos f := by
        intro h0
        rw [← hf]
        exact (hfrom.length_eq_zero_iff.mp h0).resolve_left hcount.ne'
      rw [List.countP_cons_of_pos (by simpa using hf)] at hmany
      rw [hpos', ← Nat.add_assoc] at hrest
      rw [if_pos hf, hrest (by omega)]
      obtain ⟨rest, hsplit⟩ := hfrom.bytes
      rw [hf] at hsplit
      rw [← List.drop_drop, ← hsplit, List.drop_left]
    · have hpos : (t.read c).fPos f = t.fPos f := Function.update_of_ne (Ne.symm hf) ..
      rw [List.countP_cons_of_neg (by simpa using hf)] at hmany
      rw [hpos] at hrest
      rw [if_neg hf, List.nil_append, hrest hmany]

/-- **The account of a run of reads and writes.**  The writes succeed; `pos` is any assignment of
positions to the open files, as reading, writing and seeking leave them.  With all the commands
completed so far laid end to end:

* a read delivers the bytes at its file position, counted from the first byte still stored, up to
  the number asked for or the end of the command, and moves its file position by as much; the device
  does not change;
* the reads of one file deliver one contiguous stretch as long as nothing is evicted, whatever else
  happens in between;
* once nothing is written any more, reads of at least one byte each deliver everything that is
  left, after which a read delivers nothing. -/
theorem reads_follow_log (ops : List FileOp) (hops : ∀ op ∈ ops, op.Writes) (pos : ℕ → ℕ) :
    let s := ops.foldl specStep ⟨[], []⟩
    let t : Sys := ⟨(ops.foldl Sys.step .init).dev, pos⟩
    (∀ c : ReadCall, c.Succeeds →
      ReadsFrom s.completed (lost s + pos c.file) c.count (t.readData c) ∧
        t.readRet c = (t.readData c).length ∧
        (t.read c).fPos = Function.update pos c.file (pos c.file + (t.readData c).length) ∧
        (t.read c).dev = t.dev) ∧
    (∀ (f : ℕ) (more : List FileOp), (∀ op ∈ more, op.Writes) → (∀ op ∈ more, op.Reads f) →
      lost (more.foldl specStep s) = lost s →
      received f t more <+: (more.foldl specStep s).completed.flatten.drop (lost s + pos f) ∧
        (more.foldl Sys.step t).fPos f = pos f + (received f t more).length) ∧
    (∀ (f : ℕ) (reads : List ReadCall), (∀ c ∈ reads, c.file = f → c.Succeeds ∧ 0 < c.count) →
      s.completed.flatten.length - (lost s + pos f) ≤ reads.countP (fun c ↦ c.file = f) →
      received f t (reads.map .read) = s.completed.flatten.drop (lost s + pos f) ∧
        ∀ c : ReadCall, c.file = f → c.Succeeds →
          ((reads.map FileOp.read).foldl Sys.step t).readData c = [] ∧
            ((reads.map FileOp.read).foldl Sys.step t).readRet c = 0) := by
  intro s t
  have h : Refines t.dev s := (refines_init).runOps (t := .init) hops
  refine ⟨?_, fun f more hw hr hlost ↦ h.received_prefix hw hr hlost,
    ?_⟩
  · intro c hc
    obtain ⟨hfrom, hret, hpos⟩ := h.readsFrom hc
    exact ⟨hfrom, hret, hpos, rfl⟩
  · intro f reads hr hmany
    have hall := h.received_all hr hmany
    refine ⟨hall, ?_⟩
    intro c hf hc
    have hw : ∀ op ∈ reads.map FileOp.read, op.Writes := by
      rintro op hop
      obtain ⟨c', -, rfl⟩ := List.mem_map.mp hop
      trivial
    have hreads : ∀ op ∈ reads.map FileOp.read, op.Reads f := by
      rintro op hop
      obtain ⟨c', hc', rfl⟩ := List.mem_map.mp hop
      exact fun hf' ↦ (hr c' hc' hf').1
    have hsame := specStep_reads s reads
    have hend := (h.received_prefix hw hreads (by rw [hsame])).2
    rw [hall, List.length_drop] at hend
    obtain ⟨hfrom, hret, -⟩ := (hsame ▸ h.runOps hw).readsFrom hc
    have hnil := hfrom.length_eq_zero_iff.mpr (.inr (by rw [hf, hend]; omega))
    exact ⟨List.length_eq_zero_iff.mp hnil, by rw [hret, hnil]; rfl⟩

/-- Eleven commands: the first is evicted, `"ab\n"` is the oldest one left.  A reader of the whole
content gets it in two-byte pieces; while another file appends, it keeps its place. -/
theorem reads_follow_log_eleven :
    let ops : List FileOp := .write (.plain 0 [120, 10]) :: .write (.plain 0 [97, 98, 10]) ::
      List.replicate 9 (.write (.plain 0 [99, 10]))
    let t : Sys := ⟨(ops.foldl Sys.step .init).dev, fun _ ↦ 0⟩
    let c : ReadCall := ⟨1, 2, false, 0⟩
    received 1 t [.read c, .write (.plain 2 [100]), .read c] <+:
        ((ops.foldl specStep ⟨[], []⟩).completed.flatten.drop 2) ∧
      received 1 t ((List.replicate 21 c).map .read) =
        (ops.foldl specStep ⟨[], []⟩).completed.flatten.drop 2 ∧
      t.readRet c = 2 := by
  intro ops t c
  obtain ⟨-, hwalk, hall⟩ := reads_follow_log ops (by decide +kernel) fun _ ↦ 0
  refine ⟨?_, ?_, by decide +kernel⟩
  · exact (hwalk 1 [.read c, .write (.plain 2 [100]), .read c] (by decide +kernel)
      (by decide +kernel) (by decide +kernel)).1
  · exact (hall 1 (List.replicate 21 c) (by decide +kernel) (by decide +kernel)).1

end Aesd
