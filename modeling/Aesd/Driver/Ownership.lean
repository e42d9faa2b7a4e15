import Aesd.Driver.Commands

/-!
# Who owns a block

A block of command data belongs to the pending pointer or to a slot of the circular buffer.  Two
things can go wrong with that.  A block can be given up twice, or while somebody still refers to it;
`blocks_freed_once` says that this never happens, whatever the kernel decides about the calls, up to
and including `aesd_cleanup_module`.  Or a block can lose its owner without being freed.  That does
happen, because `aesd_write` and `aesd_cleanup_module` take `tmp_buff_size == 0` to mean that there
is no pending block: see `Leaks`.  `blocks_all_freed` says that these are the only ways.

`Owned` of `Aesd.Driver.Write` is the invariant behind the first; `Reclaimable` is the one behind
the second.
-/

set_option autoImplicit false

namespace Aesd

/-- The pointers in the ten slots, slot by slot. -/
def slotPtrs (b : AesdCircularBuffer) : List ℕ :=
  (List.range maxWriteOperationsSupported).map fun i ↦ (b.entry i).buffptr

/-- Two pointers are different, unless both are null. -/
def Distinct (p q : ℕ) : Prop := p ≠ 0 → p ≠ q

instance (p q : ℕ) : Decidable (Distinct p q) := inferInstanceAs (Decidable (_ → _))

variable {d g : AesdDev} {hist : List AesdBufferEntry}

/-! ## The slots -/

theorem mem_keptPtrs_of_mem_slotPtrs {b : AesdCircularBuffer} (h : b.Built hist) {p : ℕ}
    (hp : p ∈ slotPtrs b) (h0 : p ≠ 0) : p ∈ keptPtrs hist := by
  obtain ⟨i, hi, rfl⟩ := List.mem_map.mp hp
  rcases h.tracks.slot_cases (List.mem_range.mp hi) with hempty | ⟨j, hj, -⟩
  · rw [hempty] at h0
    exact absurd rfl h0
  · exact List.mem_map_of_mem (List.mem_of_getElem? hj)

theorem mem_slotPtrs_of_mem_keptPtrs {b : AesdCircularBuffer} (h : b.Built hist) {p : ℕ}
    (hp : p ∈ keptPtrs hist) : p ∈ slotPtrs b := by
  obtain ⟨e, he, rfl⟩ := List.mem_map.mp hp
  rw [← h.entries_eq_kept, AesdCircularBuffer.entries] at he
  obtain ⟨i, -, rfl⟩ := List.mem_map.mp he
  exact List.mem_map_of_mem (f := fun i ↦ (b.entry i).buffptr)
    (List.mem_range.mpr (Nat.mod_lt _ (by decide)))

/-- No block is in two slots. -/
theorem pairwise_slotPtrs {b : AesdCircularBuffer} (h : b.Built hist)
    (hnd : (keptPtrs hist).Nodup) : (slotPtrs b).Pairwise Distinct := by
  refine List.pairwise_map.mpr (List.pairwise_lt_range.imp_of_mem ?_)
  intro i i' hi hi' hlt h0 heq
  rcases h.tracks.slot_cases (List.mem_range.mp hi) with hempty | ⟨j, hj, hji⟩
  · rw [hempty] at h0
    exact h0 rfl
  rcases h.tracks.slot_cases (List.mem_range.mp hi') with hempty | ⟨j', hj', hji'⟩
  · rw [heq, hempty] at h0
    exact h0 rfl
  -- the same pointer at two places of the walk makes them one place, and so one slot
  have hptr : ∀ {k : ℕ} {e : AesdBufferEntry}, (kept hist)[k]? = some e →
      (keptPtrs hist)[k]? = some e.buffptr :=
    fun hk ↦ by rw [keptPtrs, List.getElem?_map, hk, Option.map_some]
  have hsame : j = j' := by
    have hlen : j < (keptPtrs hist).length := (List.getElem?_eq_some_iff.mp (hptr hj)).1
    exact (List.getElem?_inj hlen hnd).mp ((hptr hj).trans (heq ▸ (hptr hj').symm))
  rw [← hji, ← hji', hsame] at hlt
  omega

/-- **The pointers of a device** are pairwise different and live, the pending one included. -/
theorem AesdDev.Owned.distinct_live (h : d.Owned hist) :
    (d.tmpBuffPtr :: slotPtrs d.buffer).Pairwise Distinct ∧
      ∀ p ∈ d.tmpBuffPtr :: slotPtrs d.buffer, p ≠ 0 → (d.mem.block p).isSome := by
  refine ⟨List.pairwise_cons.mpr ⟨?_, pairwise_slotPtrs h.built h.nodup⟩,
    ?_⟩
  · intro q hq h0 heq
    exact (h.pend h0).2 (heq ▸ mem_keptPtrs_of_mem_slotPtrs h.built hq (heq ▸ h0))
  · intro p hp h0
    rcases List.mem_cons.mp hp with rfl | hp
    · obtain ⟨⟨blk, hblk, -⟩, -⟩ := h.pend h0
      rw [hblk]; rfl
    · obtain ⟨e, he, rfl⟩ := List.mem_map.mp (mem_keptPtrs_of_mem_slotPtrs h.built hp h0)
      obtain ⟨blk, hblk, -⟩ := h.live e he
      rw [hblk]; rfl

/-- Every device a run of writes leaves satisfies the invariant. -/
theorem owned_run (cs : List WriteCall) : ∃ hist, (cs.foldl Sys.write .init).dev.Owned hist := by
  have hrun : Run.Along Sys.write (fun _ _ ↦ True) .init cs := .of_forall fun _ _ _ ↦ trivial
  refine hrun.invariant (I := fun t ↦ ∃ hist, t.dev.Owned hist) ?_ ⟨_, AesdDev.owned_init⟩
  rintro t c ⟨hist, h⟩ -
  exact h.aesdWrite c.env (t.fPos c.file) c.buf

/-! ## Unloading -/

/-- What `aesd_cleanup_module` frees, in order. -/
def swept (d : AesdDev) : List ℕ :=
  (if d.tmpBuffSize > 0 then [d.tmpBuffPtr] else []) ++ slotPtrs d.buffer

theorem aesdCleanupModule_eq (d : AesdDev) : aesdCleanupModule d = d.mem.freeAll (swept d) := by
  have hskip : ∀ (mem : Heap (List Byte)) (i : ℕ), (if (d.buffer.entry i).buffptr ≠ 0 then
      mem.free (d.buffer.entry i).buffptr else mem) = mem.free (d.buffer.entry i).buffptr := by
    intro mem i
    split
    · rfl
    · rename_i h0
      rw [not_not.mp h0, Heap.free_null]
  simp only [aesdCleanupModule, hskip]
  rw [Heap.freeAll, swept, List.foldl_append, slotPtrs, List.foldl_map]
  split <;> rfl

theorem swept_sublist (d : AesdDev) : (swept d).Sublist (d.tmpBuffPtr :: slotPtrs d.buffer) := by
  rw [swept]
  split
  · exact List.Sublist.refl _
  · exact List.sublist_cons_self ..

/-- Unloading frees no block twice. -/
theorem AesdDev.Owned.badFrees_cleanup (h : d.Owned hist) :
    (aesdCleanupModule d).badFrees = [] := by
  obtain ⟨hdist, hlive⟩ := h.distinct_live
  rw [aesdCleanupModule_eq, Heap.badFrees_freeAll _ (hdist.sublist (swept_sublist d)), h.badFrees]
  exact fun p hp ↦ hlive p ((swept_sublist d).subset hp)

/-! ## What a call frees -/

/-- **A call frees at most one block**: the one of the oldest command, which no slot and no pending
pointer refers to any more. -/
theorem AesdDev.Owned.frees_aesdWrite (h : d.Owned hist) (env : WriteEnv) (fPos : ℕ)
    (buf : List Byte) :
    (d.aesdWrite env fPos buf).1.mem.frees = d.mem.frees ∨
    ∃ e, d.buffer.entries.head? = some e ∧
      d.buffer.entries.length = maxWriteOperationsSupported ∧
      (d.aesdWrite env fPos buf).1.mem.frees = e.buffptr :: d.mem.frees ∧
      e.buffptr ∉ slotPtrs (d.aesdWrite env fPos buf).1.buffer := by
  rcases AesdDev.aesdWrite_cases h env fPos buf with ⟨-, heq⟩ | ⟨-, -, heq⟩ |
    ⟨-, -, base, g, -, -, ⟨-, hr, heq⟩ | ⟨-, hr, heq⟩⟩
  · exact .inl (by rw [heq])
  · exact .inl (by rw [heq])
  · exact .inl (by rw [heq]; exact hr.frees)
  · rw [heq]
    split
    swap
    · exact .inl hr.frees
    have hg := hr.owned h
    have hp := hr.ptr_ne_zero
    rcases hg.displaced ⟨g.tmpBuffPtr, g.tmpBuffSize⟩ with ⟨h0, -⟩ | ⟨a, hcons, ha⟩
    · refine .inl ?_
      simp only [AesdDev.commit, h0]
      exact hr.frees
    · obtain ⟨blk, hblk, -⟩ := hg.live a (hcons ▸ List.mem_cons_self)
      have ha0 : a.buffptr ≠ 0 := Heap.ne_null hblk
      refine .inr ⟨a, ?_, ?_, ?_, ?_⟩
      · rw [h.built.entries_eq_kept, hcons, List.head?_cons]
      · have hsnd := hg.built.addEntry_snd ⟨g.tmpBuffPtr, g.tmpBuffSize⟩
        have hfull : ¬hist.length < maxWriteOperationsSupported := by
          intro hlt
          rw [if_pos hlt, ha] at hsnd
          exact ha0 hsnd
        rw [h.built.entries_eq, Concat.length_rtake]
        omega
      · simp only [AesdDev.commit, ha]
        rw [if_pos ha0, Heap.frees_free ha0, hr.frees]
      · intro hmem
        have hkept := mem_keptPtrs_of_mem_slotPtrs (hg.commit hp).built hmem ha0
        obtain ⟨hold, hnew⟩ := hg.displaced_ne hp ⟨g.tmpBuffPtr, g.tmpBuffSize⟩
        rw [keptPtrs, AesdDev.kept_append, List.map_append, List.mem_append, List.map_singleton,
          List.mem_singleton] at hkept
        rw [ha] at hold hnew
        exact hkept.elim hold hnew

/-- **Nothing is freed twice or too early.**  After any run of writes, whatever the kernel decides
about each of them:

* no dead block has been freed, and unloading the module frees none either;
* the pending pointer and the pointers in the ten slots, where they are not null, are pairwise
  different live blocks;
* what one more write frees, if anything, is the block of the oldest of the ten commands stored
  before it, and it is in no slot afterwards. -/
theorem blocks_freed_once (cs : List WriteCall) :
    let t := cs.foldl Sys.write .init
    t.dev.mem.badFrees = [] ∧ (aesdCleanupModule t.dev).badFrees = [] ∧
    (t.dev.tmpBuffPtr :: slotPtrs t.dev.buffer).Pairwise Distinct ∧
    (∀ p ∈ t.dev.tmpBuffPtr :: slotPtrs t.dev.buffer, p ≠ 0 → (t.dev.mem.block p).isSome) ∧
    ∀ c : WriteCall, (t.write c).dev.mem.frees = t.dev.mem.frees ∨
      ∃ e, t.dev.buffer.entries.head? = some e ∧
        t.dev.buffer.entries.length = maxWriteOperationsSupported ∧
        (t.write c).dev.mem.frees = e.buffptr :: t.dev.mem.frees ∧
        e.buffptr ∉ slotPtrs (t.write c).dev.buffer := by
  intro t
  obtain ⟨hist, h⟩ := owned_run cs
  exact ⟨h.badFrees, h.badFrees_cleanup, h.distinct_live.1, h.distinct_live.2,
    fun c ↦ h.frees_aesdWrite c.env (t.fPos c.file) c.buf⟩

/-! ## Blocks without an owner -/

/-- The call leaves a block without an owner.  Either `krealloc_array` fails while bytes are
pending, and `tmp_buff_ptr` no longer names their block; or `kzalloc` finds a block but no byte gets
into it, so that it will be taken for no block at all: the copy fails, or there was nothing to copy.
The last case is saved by the byte in front of the block if that happens to be a newline. -/
def Leaks (d : AesdDev) (c : WriteCall) : Prop :=
  c.env.interrupted = false ∧
    (d.tmpBuffSize ≠ 0 ∧ c.env.alloc = .null ∨
      d.tmpBuffSize = 0 ∧ c.env.alloc ≠ .null ∧
        (min c.env.missing c.buf.length ≠ 0 ∨ c.buf = [] ∧ c.env.stray ≠ newline))

instance (d : AesdDev) (c : WriteCall) : Decidable (Leaks d c) :=
  inferInstanceAs (Decidable (_ ∧ (_ ∧ _ ∨ _ ∧ _)))

/-- Every live block is one that unloading the module frees. -/
def Reclaimable (d : AesdDev) : Prop := ∀ p, (d.mem.block p).isSome → p ∈ swept d

/-- **Unloading frees everything** exactly when every live block is within its reach. -/
theorem cleanup_frees_all_iff (d : AesdDev) :
    (∀ p, (aesdCleanupModule d).block p = none) ↔ Reclaimable d := by
  simp only [aesdCleanupModule_eq, Heap.block_freeAll]
  refine forall_congr' ?_
  intro p
  by_cases hmem : p ∈ swept d
  · simp [hmem]
  · simp [hmem]

theorem mem_swept_iff (h : d.Owned hist) {p : ℕ} (h0 : p ≠ 0) :
    p ∈ swept d ↔ (p = d.tmpBuffPtr ∧ d.tmpBuffSize ≠ 0) ∨ p ∈ keptPtrs hist := by
  have hslots : p ∈ slotPtrs d.buffer ↔ p ∈ keptPtrs hist :=
    ⟨fun hp ↦ mem_keptPtrs_of_mem_slotPtrs h.built hp h0, mem_slotPtrs_of_mem_keptPtrs h.built⟩
  rw [swept, List.mem_append, hslots]
  refine or_congr_left ?_
  split
  · rename_i hpos
    rw [List.mem_singleton]
    exact ⟨fun he ↦ ⟨he, by omega⟩, fun he ↦ he.1⟩
  · rename_i hpos
    simp only [List.not_mem_nil, false_iff, not_and, not_not]
    omega

/-- A pending block is within reach exactly when it counts as pending. -/
theorem AesdDev.Owned.tmpBuffPtr_mem_swept_iff (h : d.Owned hist) (h0 : d.tmpBuffPtr ≠ 0) :
    d.tmpBuffPtr ∈ swept d ↔ d.tmpBuffSize ≠ 0 := by
  rw [mem_swept_iff h h0, or_iff_left (h.pend h0).2, and_iff_right rfl]

theorem AesdDev.Owned.isSome_tmpBuffPtr (h : d.Owned hist) (h0 : d.tmpBuffPtr ≠ 0) :
    (d.mem.block d.tmpBuffPtr).isSome := by
  obtain ⟨⟨blk, hblk, -⟩, -⟩ := h.pend h0
  rw [hblk]
  rfl

/-- After a change of the pending block, every live block is that one or belongs to a stored
command. -/
theorem AesdDev.Repointed.live_cases {content : List Byte} (hr : d.Repointed g content)
    (h : d.Owned hist) (hrec : Reclaimable d) {p : ℕ} (hp : (g.mem.block p).isSome) :
    p = g.tmpBuffPtr ∨ p ∈ keptPtrs hist := by
  by_contra hno
  obtain ⟨hne, hkept⟩ := not_or.mp hno
  rw [hr.others p hne] at hp
  split at hp
  · exact absurd hp (by simp)
  · rename_i hold
    obtain ⟨blk, hblk⟩ := Option.isSome_iff_exists.mp hp
    exact ((mem_swept_iff h (Heap.ne_null hblk)).mp (hrec p hp)).elim hold hkept

/-- So all is well if the pending block counts as such, and only then. -/
theorem AesdDev.Repointed.reclaimable_iff {content : List Byte} (hr : d.Repointed g content)
    (h : d.Owned hist) (hrec : Reclaimable d) : Reclaimable g ↔ g.tmpBuffSize ≠ 0 := by
  have hg := hr.owned h
  have hp := hr.ptr_ne_zero
  refine ⟨fun hreach ↦ (hg.tmpBuffPtr_mem_swept_iff hp).mp (hreach _ (hg.isSome_tmpBuffPtr hp)),
    ?_⟩
  intro hsize p hlive
  obtain ⟨blk, hblk⟩ := Option.isSome_iff_exists.mp hlive
  rw [mem_swept_iff hg (Heap.ne_null hblk)]
  exact (hr.live_cases h hrec hlive).imp_left fun he ↦ ⟨he, hsize⟩

/-- Storing the command gives the pending block to a slot. -/
theorem AesdDev.Repointed.reclaimable_commit {content : List Byte} (hr : d.Repointed g content)
    (h : d.Owned hist) (hrec : Reclaimable d) : Reclaimable g.commit := by
  have hg := hr.owned h
  have hc := hg.commit hr.ptr_ne_zero
  intro p hlive
  obtain ⟨blk, hblk⟩ := Option.isSome_iff_exists.mp hlive
  rw [mem_swept_iff hc (Heap.ne_null hblk), keptPtrs, kept_append, List.map_append,
    List.mem_append, List.map_singleton, List.mem_singleton]
  right
  rw [commit_block] at hlive
  split at hlive
  · exact absurd hlive (by simp)
  rename_i hne
  rcases hr.live_cases h hrec hlive with he | he
  · exact .inr he
  left
  rcases hg.displaced ⟨g.tmpBuffPtr, g.tmpBuffSize⟩ with ⟨-, hkept⟩ | ⟨a, hkept, ha⟩
  · rwa [keptPtrs, hkept] at he
  · rw [keptPtrs, hkept, List.map_cons, List.mem_cons, ← ha] at he
    exact he.resolve_left hne

/-- **One call** keeps every live block within reach exactly when it does not leak. -/
theorem reclaimable_aesdWrite_iff (h : d.Owned hist) (hi : d.Intact) (hrec : Reclaimable d)
    (c : WriteCall) (fPos : ℕ) :
    Reclaimable (d.aesdWrite c.env fPos c.buf).1 ↔ ¬Leaks d c := by
  rcases AesdDev.aesdWrite_cases h c.env fPos c.buf with ⟨hint, heq⟩ | ⟨hint, ha, heq⟩ |
    ⟨hint, ha, base, g, hbase, -, ⟨hm, hr, heq⟩ | ⟨hm, hr, heq⟩⟩
  · rw [heq]
    exact iff_of_true hrec fun hl ↦ absurd (hint.symm.trans hl.1) (by decide)
  · rw [heq]
    by_cases h0 : d.tmpBuffSize = 0
    · refine iff_of_true ?_ ?_
      · intro p hp
        have hmem := hrec p hp
        rw [swept, if_neg (by omega)] at hmem
        rw [swept, if_neg (by show ¬d.tmpBuffSize > 0; omega)]
        exact hmem
      · intro hl
        exact hl.2.elim (fun hl ↦ hl.1 h0) fun hl ↦ hl.2.1 ha
    · have hp := hi.resolve_left h0
      refine iff_of_false ?_ (not_not.mpr ⟨hint, .inl ⟨h0, ha⟩⟩)
      intro hreach
      have hmem := (mem_swept_iff h.forget hp).mp (hreach _ (h.isSome_tmpBuffPtr hp))
      exact hmem.elim (fun hz ↦ hp hz.1) (h.pend hp).2
  · rw [heq, hr.reclaimable_iff h hrec, ← hr.length_eq, hbase]
    constructor
    · exact fun h0 hl ↦ hl.2.elim (fun hl ↦ ha hl.2) fun hl ↦ h0 hl.1
    · exact fun hl h0 ↦ hl ⟨hint, .inr ⟨h0, ha, .inl hm⟩⟩
  · rw [heq]
    split
    · rename_i hnl
      refine iff_of_true (hr.reclaimable_commit h hrec) ?_
      intro hl
      rcases hl.2 with hl | ⟨h0, -, hl⟩
      · exact ha hl.2
      · rcases hl with hl | ⟨hnil, hstray⟩
        · exact hl hm
        · rw [List.length_eq_zero_iff.mp (hbase.trans h0), hnil] at hnl
          exact hstray hnl
    · rename_i hnl
      rw [hr.reclaimable_iff h hrec, ← hr.length_eq, List.length_append, hbase]
      constructor
      · rintro hlen ⟨-, hl | ⟨h0, -, hl⟩⟩
        · exact ha hl.2
        · rcases hl with hl | ⟨hnil, -⟩
          · exact hl hm
          · rw [hnil, h0] at hlen
            exact hlen rfl
      · intro hl hlen
        obtain ⟨h0, hlen0⟩ := Nat.add_eq_zero_iff.mp hlen
        have hnil := List.length_eq_zero_iff.mp hlen0
        refine hl ⟨hint, .inr ⟨h0, ha, .inr ⟨hnil, ?_⟩⟩⟩
        rwa [List.length_eq_zero_iff.mp (hbase.trans h0), hnil] at hnl

theorem Leaks.of_losesPending {c : WriteCall} (h : LosesPending d c) : Leaks d c :=
  ⟨h.1, .inl ⟨h.2.2, h.2.1⟩⟩

/-- **A run in which no call leaks.** -/
theorem reclaimable_run {cs : List WriteCall}
    (hrun : Run.Along Sys.write (fun t c ↦ ¬Leaks t.dev c) .init cs) :
    (∃ hist, (cs.foldl Sys.write .init).dev.Owned hist) ∧
      (cs.foldl Sys.write .init).dev.Intact ∧ Reclaimable (cs.foldl Sys.write .init).dev := by
  have hinv := hrun.invariant
    (I := fun t ↦ (∃ s, Refines t.dev s) ∧ Reclaimable t.dev) ?_
    ⟨⟨_, refines_init⟩, fun p hp ↦ by cases hp⟩
  · obtain ⟨⟨s, hr⟩, hrec⟩ := hinv
    exact ⟨hr.owned, hr.intact, hrec⟩
  · rintro t c ⟨⟨s, hr⟩, hrec⟩ hl
    obtain ⟨hist, h⟩ := hr.owned
    exact ⟨⟨_, hr.write (mt Leaks.of_losesPending hl)⟩,
      (reclaimable_aesdWrite_iff h hr.intact hrec c (t.fPos c.file)).mpr hl⟩

/-- **No block is lost in a run without leaking calls.**  In every state of the run each live block
is named by the pending pointer or by a slot; unloading the module in the end leaves no live block;
and after one more call it still does so exactly if that call does not leak either. -/
theorem blocks_all_freed (cs : List WriteCall)
    (hrun : Run.Along Sys.write (fun t c ↦ ¬Leaks t.dev c) .init cs) :
    (∀ before after, cs = before ++ after → ∀ p,
      ((before.foldl Sys.write .init).dev.mem.block p).isSome →
        p = (before.foldl Sys.write .init).dev.tmpBuffPtr ∨
          p ∈ slotPtrs (before.foldl Sys.write .init).dev.buffer) ∧
    (∀ p, (aesdCleanupModule (cs.foldl Sys.write .init).dev).block p = none) ∧
    ∀ c, (∀ p, (aesdCleanupModule ((cs.foldl Sys.write .init).write c).dev).block p = none) ↔
      ¬Leaks (cs.foldl Sys.write .init).dev c := by
  obtain ⟨⟨hist, h⟩, hi, hrec⟩ := reclaimable_run hrun
  refine ⟨?_, (cleanup_frees_all_iff _).mpr hrec, ?_⟩
  · rintro before after rfl p hp
    have hmem := (reclaimable_run hrun.append.1).2.2 p hp
    exact List.mem_cons.mp ((swept_sublist _).subset hmem)
  · intro c
    rw [cleanup_frees_all_iff]
    exact reclaimable_aesdWrite_iff h hi hrec c _

/-- A command written in two pieces: nothing is left after unloading. -/
theorem blocks_all_freed_two :
    Run.Along Sys.write (fun t c ↦ ¬Leaks t.dev c) .init
        [WriteCall.plain 0 [97], .plain 0 [98, 10]] ∧
      ∀ p, (aesdCleanupModule ([WriteCall.plain 0 [97], .plain 0 [98, 10]].foldl Sys.write
        .init).dev).block p = none := by
  have hrun : Run.Along Sys.write (fun t c ↦ ¬Leaks t.dev c) .init
      [WriteCall.plain 0 [97], .plain 0 [98, 10]] := by decide +kernel
  exact ⟨hrun, (blocks_all_freed _ hrun).2.1⟩

/-- One write whose bytes cannot be copied: its block is still there after unloading. -/
theorem block_left_behind :
    (aesdCleanupModule ([(⟨0, [97], false, .fresh, fun _ ↦ 0, 1, 0⟩ : WriteCall)].foldl Sys.write
      .init).dev).block 1 = some [0, 0] := by decide +kernel

end Aesd
