import Aesd.Driver.Device

/-!
# What one write can do

`Owned d hist` is the invariant every `aesd_write` keeps, whatever the allocator and the user copy
do: the circular buffer is the one the entries `hist` have built, the entries still in it and the
pending pointer name pairwise distinct live blocks that are long enough, and nothing has been
freed twice.

`aesdWrite_cases` is the one place where `aesd_write` is taken apart.  A call is interrupted; or the
allocator fails, and `tmp_buff_ptr` is `NULL` afterwards; or the copy fails, and the pending block
has been replaced by one that starts with the same bytes; or the call succeeds, and the pending
bytes followed by the new ones are in a block, which has been handed to the circular buffer if
they end in a newline.  `Repointed` is what the last two have in common: only the pending block has
changed.

The bytes that were pending survive only if their block was still there (`Intact`).  After a failed
`krealloc_array` it is not: `tmp_buff_ptr` is `NULL` and `tmp_buff_size` is not zero.
-/

set_option autoImplicit false

namespace Aesd

/-- The entries that are still in the buffer after `hist` has been added to it. -/
abbrev kept (hist : List AesdBufferEntry) : List AesdBufferEntry :=
  hist.rtake maxWriteOperationsSupported

theorem AesdCircularBuffer.Built.entries_eq_kept {b : AesdCircularBuffer}
    {hist : List AesdBufferEntry} (h : b.Built hist) : b.entries = kept hist := h.entries_eq

/-- The pointers of those entries. -/
def keptPtrs (hist : List AesdBufferEntry) : List ℕ := (kept hist).map AesdBufferEntry.buffptr

namespace AesdDev

variable {d g : AesdDev} {hist : List AesdBufferEntry}

/-- **The invariant of the device.** -/
structure Owned (d : AesdDev) (hist : List AesdBufferEntry) : Prop where
  /-- The circular buffer holds the last ten of the entries added. -/
  built : d.buffer.Built hist
  /-- Each of them has a live block with room for a terminator. -/
  live : ∀ e ∈ kept hist, ∃ blk, d.mem.block e.buffptr = some blk ∧ e.size < blk.length
  /-- No two of them share a block. -/
  nodup : (keptPtrs hist).Nodup
  /-- The pending pointer is null or names a live block of its own. -/
  pend : d.tmpBuffPtr ≠ 0 →
    (∃ blk, d.mem.block d.tmpBuffPtr = some blk ∧ d.tmpBuffSize < blk.length) ∧
      d.tmpBuffPtr ∉ keptPtrs hist
  /-- Nothing has been freed twice. -/
  badFrees : d.mem.badFrees = []

theorem owned_init : init.Owned [] where
  built := AesdCircularBuffer.built_init
  live e he := by simp at he
  nodup := List.nodup_nil
  pend h := absurd rfl h
  badFrees := rfl

/-- If there are pending bytes, their block is there. -/
def Intact (d : AesdDev) : Prop := d.tmpBuffSize = 0 ∨ d.tmpBuffPtr ≠ 0

instance (d : AesdDev) : Decidable d.Intact := inferInstanceAs (Decidable (_ ∨ _))

theorem bytes_zero (d : AesdDev) (ptr count : ℕ) :
    d.bytes ptr 0 count = ((d.mem.block ptr).getD []).take count := by
  rw [bytes, List.drop_zero]

theorem pending_of_block {blk : List Byte} (h : d.mem.block d.tmpBuffPtr = some blk) :
    d.pending = blk.take d.tmpBuffSize := by
  rw [pending, bytes_zero, h, Option.getD_some]

theorem pending_of_size_eq_zero (h : d.tmpBuffSize = 0) : d.pending = [] := by
  rw [pending, bytes_zero, h, List.take_zero]

/-- As long as the device is intact, `tmp_buff_size` counts the pending bytes. -/
theorem Owned.length_pending (h : d.Owned hist) (hi : d.Intact) :
    d.pending.length = d.tmpBuffSize := by
  rcases hi with h0 | hp
  · rw [pending_of_size_eq_zero h0, h0, List.length_nil]
  · obtain ⟨⟨blk, hblk, hlen⟩, -⟩ := h.pend hp
    rw [pending_of_block hblk, List.length_take]
    omega

theorem Owned.stored_eq (h : d.Owned hist) :
    d.stored = (kept hist).map fun e ↦ d.bytes e.buffptr 0 e.size := by
  rw [stored, h.built.entries_eq]

/-- A stored command is as long as its entry says. -/
theorem Owned.map_length_stored (h : d.Owned hist) :
    d.stored.map List.length = d.buffer.entries.map AesdBufferEntry.size := by
  rw [h.stored_eq, h.built.entries_eq, List.map_map]
  refine List.map_congr_left ?_
  intro e he
  obtain ⟨blk, hblk, hlen⟩ := h.live e he
  rw [Function.comp_apply, bytes_zero, hblk, Option.getD_some, List.length_take]
  omega

/-! ## Changing only the pending block -/

/-- `g` is `d` with the pending block replaced by a live one that starts with `content`; the old
one, if it had bytes in it, has been taken over. -/
structure Repointed (d g : AesdDev) (content : List Byte) : Prop where
  /-- The circular buffer is the same. -/
  buffer : g.buffer = d.buffer
  /-- The pending block is the old one or a new one. -/
  ptr : g.tmpBuffPtr = d.tmpBuffPtr ∨ d.mem.block g.tmpBuffPtr = none
  /-- It is live and holds the content. -/
  block : ∃ blk, g.mem.block g.tmpBuffPtr = some blk ∧ g.tmpBuffSize < blk.length ∧
    blk.take g.tmpBuffSize = content
  /-- Every other block is as it was, except that the old one may be gone. -/
  others : ∀ q, q ≠ g.tmpBuffPtr → g.mem.block q =
    if q = d.tmpBuffPtr ∧ d.tmpBuffSize ≠ 0 then none else d.mem.block q
  /-- Nothing has been freed. -/
  frees : g.mem.frees = d.mem.frees
  /-- No dead block has been released. -/
  badFrees : g.mem.badFrees = d.mem.badFrees

theorem Repointed.ptr_ne_zero {content : List Byte} (h : d.Repointed g content) :
    g.tmpBuffPtr ≠ 0 := by
  obtain ⟨blk, hblk, -⟩ := h.block
  exact Heap.ne_null hblk

theorem Repointed.pending_eq {content : List Byte} (h : d.Repointed g content) :
    g.pending = content := by
  obtain ⟨blk, hblk, -, rfl⟩ := h.block
  exact pending_of_block hblk

/-- The block of a stored command is not touched. -/
theorem Repointed.block_of_kept {content : List Byte} (h : d.Repointed g content)
    (ho : d.Owned hist) {e : AesdBufferEntry} (he : e ∈ kept hist) :
    e.buffptr ≠ g.tmpBuffPtr ∧ g.mem.block e.buffptr = d.mem.block e.buffptr := by
  obtain ⟨blk, hblk, -⟩ := ho.live e he
  have hmem : e.buffptr ∈ keptPtrs hist := List.mem_map_of_mem he
  have hold : e.buffptr ≠ d.tmpBuffPtr := by
    intro heq
    exact (ho.pend (heq ▸ Heap.ne_null hblk)).2 (heq ▸ hmem)
  have hnew : e.buffptr ≠ g.tmpBuffPtr := by
    rintro heq
    rcases h.ptr with hp | hp
    · exact hold (heq.trans hp)
    · rw [← heq, hblk] at hp; cases hp
  exact ⟨hnew, by rw [h.others _ hnew, if_neg fun hc ↦ hold hc.1]⟩

theorem Repointed.stored_eq {content : List Byte} (h : d.Repointed g content)
    (ho : d.Owned hist) : g.stored = d.stored := by
  rw [ho.stored_eq, stored, h.buffer, ho.built.entries_eq]
  refine List.map_congr_left ?_
  intro e he
  rw [bytes, bytes, (h.block_of_kept ho he).2]

theorem Repointed.owned {content : List Byte} (h : d.Repointed g content) (ho : d.Owned hist) :
    g.Owned hist where
  built := h.buffer ▸ ho.built
  live e he := by rw [(h.block_of_kept ho he).2]; exact ho.live e he
  nodup := ho.nodup
  pend _ := by
    obtain ⟨blk, hblk, hlen, -⟩ := h.block
    refine ⟨⟨blk, hblk, hlen⟩, ?_⟩
    intro hmem
    obtain ⟨e, he, heq⟩ := List.mem_map.mp hmem
    exact (h.block_of_kept ho he).1 heq
  badFrees := h.badFrees.trans ho.badFrees

/-! ## Growing, copying, terminating -/

theorem kzalloc_of_ne_null {mem : Heap (List Byte)} {answer : Alloc} (h : answer ≠ .null)
    (size : ℕ) : kzalloc mem answer size = (mem.alloc (List.replicate size 0), mem.next) := by
  cases answer with
  | null => exact absurd rfl h
  | fresh => rfl
  | inPlace => rfl

/-- A successful `krealloc_array` resizes a live block in place or replaces whatever it was given by
a new block. -/
theorem kreallocArray_of_ne_null (mem : Heap (List Byte)) {answer : Alloc} (h : answer ≠ .null)
    (fill : ℕ → Byte) (ptr n : ℕ) :
    (∃ old, mem.block ptr = some old ∧ kreallocArray mem answer fill ptr n 1 =
        (mem.put ptr (Block.resize old n fill), ptr)) ∨
      kreallocArray mem answer fill ptr n 1 =
        ((mem.alloc (Block.resize ((mem.block ptr).getD []) n fill)).release ptr, mem.next) := by
  cases hb : mem.block ptr with
  | none =>
    right
    cases answer with
    | null => exact absurd rfl h
    | fresh => simp [kreallocArray, hb]
    | inPlace => simp [kreallocArray, hb]
  | some old =>
    cases answer with
    | null => exact absurd rfl h
    | fresh => right; simp [kreallocArray, hb]
    | inPlace => left; exact ⟨old, rfl, by simp [kreallocArray, hb]⟩

/-- `g` is `d` with room for `count` more bytes and the terminator: the pending block is now `blk`,
and it keeps the pending bytes if there was a block to keep them in. -/
structure Grown (d g : AesdDev) (count : ℕ) (blk : List Byte) : Prop where
  /-- Only the pending block has changed. -/
  repointed : d.Repointed g (blk.take d.tmpBuffSize)
  /-- The size is not touched yet. -/
  size : g.tmpBuffSize = d.tmpBuffSize
  /-- The new block. -/
  block : g.mem.block g.tmpBuffPtr = some blk
  /-- Its length. -/
  length : blk.length = d.tmpBuffSize + count + debugByte
  /-- What it keeps. -/
  keeps : d.Intact → blk.take d.tmpBuffSize = d.pending

/-- Nothing is pending, and `kzalloc` finds a block. -/
theorem grown_kzalloc (h0 : d.tmpBuffSize = 0) (count : ℕ) :
    d.Grown { d with tmpBuffPtr := d.mem.next,
                     mem := d.mem.alloc (List.replicate (count + debugByte) 0) } count
      (List.replicate (count + debugByte) 0) := by
  have hblock : (d.mem.alloc (List.replicate (count + debugByte) (0 : Byte))).block d.mem.next =
      some (List.replicate (count + debugByte) 0) := by simp
  have hlen : (List.replicate (count + debugByte) (0 : Byte)).length =
      d.tmpBuffSize + count + debugByte := by rw [List.length_replicate]; omega
  refine ⟨⟨rfl, .inr (d.mem.block_fresh _ le_rfl), ⟨_, hblock, ?_, rfl⟩, ?_, rfl, rfl⟩,
    rfl, hblock, hlen, ?_⟩
  · show d.tmpBuffSize < _
    rw [hlen, debugByte]
    omega
  · intro q hq
    rw [if_neg fun hc ↦ hc.2 h0]
    exact (d.mem.block_alloc _ q).trans (if_neg hq)
  · intro _
    rw [pending_of_size_eq_zero h0, h0, List.take_zero]

/-- The pending block is resized where it is. -/
theorem grown_put (ho : d.Owned hist) {old : List Byte} (hold : d.mem.block d.tmpBuffPtr = some old)
    (count : ℕ) (fill : ℕ → Byte) :
    d.Grown { d with mem := d.mem.put d.tmpBuffPtr
                       (Block.resize old (d.tmpBuffSize + count + debugByte) fill) } count
      (Block.resize old (d.tmpBuffSize + count + debugByte) fill) := by
  obtain ⟨⟨blk, hblk, hsize⟩, -⟩ := ho.pend (Heap.ne_null hold)
  obtain rfl : blk = old := by rw [hold] at hblk; exact (Option.some.inj hblk).symm
  have hblock : (d.mem.put d.tmpBuffPtr
      (Block.resize blk (d.tmpBuffSize + count + debugByte) fill)).block d.tmpBuffPtr =
        some (Block.resize blk (d.tmpBuffSize + count + debugByte) fill) := by simp [hold]
  refine ⟨⟨rfl, .inl rfl, ⟨_, hblock, ?_, rfl⟩, ?_, rfl, rfl⟩, rfl, hblock,
    Block.length_resize .., ?_⟩
  · show d.tmpBuffSize < _
    rw [Block.length_resize, debugByte]
    omega
  · intro q hq
    have hq' : q ≠ d.tmpBuffPtr := hq
    simp [hq']
  · intro _
    rw [pending_of_block hold, Block.take_resize _ hsize.le (by omega)]

/-- The pending block is replaced by a new one, which takes its contents over. -/
theorem grown_move (ho : d.Owned hist) (h0 : d.tmpBuffSize ≠ 0) (count : ℕ) (fill : ℕ → Byte) :
    d.Grown
      { d with tmpBuffPtr := d.mem.next,
               mem := (d.mem.alloc (Block.resize ((d.mem.block d.tmpBuffPtr).getD [])
                 (d.tmpBuffSize + count + debugByte) fill)).release d.tmpBuffPtr } count
      (Block.resize ((d.mem.block d.tmpBuffPtr).getD []) (d.tmpBuffSize + count + debugByte)
        fill) := by
  have hne : d.mem.next ≠ d.tmpBuffPtr := by
    intro heq
    obtain ⟨⟨blk, hblk, -⟩, -⟩ := ho.pend (heq ▸ d.mem.next_pos.ne')
    exact absurd (Heap.lt_next hblk) (by omega)
  set new := Block.resize ((d.mem.block d.tmpBuffPtr).getD [])
    (d.tmpBuffSize + count + debugByte) fill with hnew
  have hblock : ((d.mem.alloc new).release d.tmpBuffPtr).block d.mem.next = some new := by
    simp [hne]
  have hlen : new.length = d.tmpBuffSize + count + debugByte := Block.length_resize ..
  refine ⟨⟨rfl, .inr (d.mem.block_fresh _ le_rfl), ⟨_, hblock, ?_, rfl⟩, ?_, rfl, ?_⟩,
    rfl, hblock, hlen, ?_⟩
  · show d.tmpBuffSize < _
    rw [hlen, debugByte]
    omega
  · intro q hq
    have hq' : q ≠ d.mem.next := hq
    by_cases hqd : q = d.tmpBuffPtr <;> simp [hqd, hq', h0]
  · refine (Heap.badFrees_release ?_).trans (Heap.badFrees_alloc ..)
    rcases eq_or_ne d.tmpBuffPtr 0 with hp | hp
    · exact .inl hp
    · obtain ⟨⟨blk, hblk, -⟩, -⟩ := ho.pend hp
      exact .inr (by rw [Heap.block_alloc, if_neg (Ne.symm hne), hblk]; rfl)
  · intro hi
    obtain ⟨⟨blk, hblk, hsize⟩, -⟩ := ho.pend (hi.resolve_left h0)
    rw [pending_of_block hblk, hnew, hblk, Option.getD_some,
      Block.take_resize _ hsize.le (by omega)]

/-- **Making room**, when the allocator does not fail. -/
theorem growTmpBuff_spec (ho : d.Owned hist) {env : WriteEnv} (ha : env.alloc ≠ .null)
    (count : ℕ) : ∃ blk, d.Grown (d.growTmpBuff env count) count blk := by
  by_cases h0 : d.tmpBuffSize = 0
  · rw [growTmpBuff, if_pos h0, kzalloc_of_ne_null ha]
    exact ⟨_, grown_kzalloc h0 count⟩
  · rw [growTmpBuff, if_neg h0]
    rcases kreallocArray_of_ne_null d.mem ha env.fill d.tmpBuffPtr
      (d.tmpBuffSize + count + debugByte) with ⟨old, hold, hk⟩ | hk
    · rw [hk]
      exact ⟨_, grown_put ho hold count env.fill⟩
    · rw [hk]
      exact ⟨_, grown_move ho h0 count env.fill⟩

theorem growTmpBuff_of_null {env : WriteEnv} (ha : env.alloc = .null) (count : ℕ) :
    d.growTmpBuff env count = { d with tmpBuffPtr := 0 } := by
  rw [growTmpBuff]
  split
  · rw [ha]; rfl
  · rw [ha]; rfl

/-- Storing bytes inside the pending block, at or after the end of what counts, changes only that
block. -/
theorem Repointed.store {content : List Byte} (h : d.Repointed g content) {blk bs : List Byte}
    {off : ℕ} (hblk : g.mem.block g.tmpBuffPtr = some blk) (hoff : g.tmpBuffSize ≤ off)
    (hlen : off + bs.length ≤ blk.length) :
    d.Repointed (g.store off bs) content ∧
      (g.store off bs).mem.block (g.store off bs).tmpBuffPtr = some (Block.splice blk off bs) := by
  have hblock : (g.store off bs).mem.block (g.store off bs).tmpBuffPtr =
      some (Block.splice blk off bs) := by
    rw [AesdDev.store, hblk]
    simp [hblk]
  obtain ⟨blk', hblk', hlt, htake⟩ := h.block
  obtain rfl : blk' = blk := by rw [hblk] at hblk'; exact (Option.some.inj hblk').symm
  refine ⟨⟨h.buffer, h.ptr, ⟨_, hblock, ?_, ?_⟩, ?_, h.frees, h.badFrees⟩, hblock⟩
  · show g.tmpBuffSize < _
    rw [Block.length_splice hlen]
    exact hlt
  · show List.take g.tmpBuffSize _ = _
    rw [Block.take_splice _ hoff (by omega), htake]
  · intro q hq
    have hq' : q ≠ g.tmpBuffPtr := hq
    rw [← h.others q hq']
    simp [AesdDev.store, hq']

theorem Repointed.length_eq {content : List Byte} (h : d.Repointed g content) :
    content.length = g.tmpBuffSize := by
  obtain ⟨blk, -, hlt, rfl⟩ := h.block
  rw [List.length_take]
  omega

/-- The byte that decides whether the command is complete is the last pending one; with nothing
pending it is the stray byte. -/
theorem Repointed.lastByte_eq {content : List Byte} (h : d.Repointed g content) (env : WriteEnv) :
    g.lastByte env = content.getLastD env.stray := by
  have hlen := h.length_eq
  obtain ⟨blk, hblk, hlt, rfl⟩ := h.block
  rw [lastByte, List.getLastD_eq_getLast?, List.getLast?_eq_getElem?, hlen]
  split
  · rename_i h0
    rw [h0, List.take_zero]
    rfl
  · rename_i h0
    rw [hblk, Option.getD_some, List.getElem?_take_of_lt (by omega)]

@[simp] theorem length_copyFromUser (buf : List Byte) (missing : ℕ) :
    (copyFromUser buf missing).length = buf.length := by
  simp only [copyFromUser, List.length_append, List.length_take, List.length_replicate]
  omega

theorem copyFromUser_of_min_eq_zero {buf : List Byte} {missing : ℕ}
    (h : min missing buf.length = 0) : copyFromUser buf missing = buf := by
  rw [copyFromUser, h, List.replicate_zero, List.append_nil]
  exact List.take_of_length_le (by omega)

/-- Bytes copied in after the pending ones, and the terminator behind them. -/
theorem Grown.filled {blk buf : List Byte} (h : d.Grown g buf.length blk) :
    d.Repointed ((g.store g.tmpBuffSize buf).advance buf.length)
      (blk.take d.tmpBuffSize ++ buf) := by
  have hlen : blk.length = g.tmpBuffSize + buf.length + 1 := by rw [h.length, h.size, debugByte]
  have hroom : g.tmpBuffSize + buf.length ≤ blk.length := by omega
  obtain ⟨hr, hblk⟩ := h.repointed.store h.block le_rfl hroom
  have hlen' : (Block.splice blk g.tmpBuffSize buf).length = blk.length :=
    Block.length_splice (by omega)
  have hlonger : d.Repointed { g.store g.tmpBuffSize buf with
      tmpBuffSize := g.tmpBuffSize + buf.length } (blk.take d.tmpBuffSize ++ buf) := by
    refine ⟨hr.buffer, hr.ptr, ⟨_, hblk, ?_, ?_⟩, hr.others, hr.frees, hr.badFrees⟩
    · show g.tmpBuffSize + buf.length < _
      omega
    · show List.take (g.tmpBuffSize + buf.length) _ = _
      rw [Block.take_splice_add _ (by omega), h.size]
  refine (hlonger.store hblk le_rfl ?_).1
  show g.tmpBuffSize + buf.length + 1 ≤ _
  omega

/-! ## Handing the block over -/

/-- The number of older commands that survive when one more is stored. -/
def maxOlder : ℕ := maxWriteOperationsSupported - 1

theorem maxOlder_le : maxOlder ≤ maxWriteOperationsSupported := by decide

theorem older_sublist (hist : List AesdBufferEntry) :
    (hist.rtake maxOlder).Sublist (kept hist) := by
  rw [← Concat.rtake_rtake maxOlder_le]
  exact List.drop_sublist _ _

/-- What adding an entry displaces: nothing while there is room, else the oldest entry. -/
theorem Owned.displaced (ho : g.Owned hist) (e : AesdBufferEntry) :
    ((g.buffer.addEntry e).2 = 0 ∧ kept hist = hist.rtake maxOlder) ∨
      ∃ a, kept hist = a :: hist.rtake maxOlder ∧ (g.buffer.addEntry e).2 = a.buffptr := by
  have hold := ho.built.addEntry_snd e
  by_cases hlt : hist.length < maxWriteOperationsSupported
  · refine .inl ⟨by rw [hold, if_pos hlt], ?_⟩
    have hle : hist.length ≤ maxOlder := Nat.le_pred_of_lt hlt
    rw [kept, Concat.rtake_of_length_le hlt.le, Concat.rtake_of_length_le hle]
  · obtain ⟨a, ha, hcons⟩ := Concat.rtake_succ_of_lt (l := hist) (n := maxOlder)
      (Nat.lt_of_lt_of_le (by decide) (Nat.le_of_not_lt hlt))
    refine .inr ⟨a, hcons, ?_⟩
    rw [hold, if_neg hlt]
    exact congrArg (fun o ↦ (Option.getD o ⟨0, 0⟩).buffptr) ha

theorem kept_append (hist : List AesdBufferEntry) (e : AesdBufferEntry) :
    kept (hist ++ [e]) = hist.rtake maxOlder ++ [e] :=
  List.rtake_concat_succ hist maxOlder e

/-- The displaced block is not among the others, and is not the pending one. -/
theorem Owned.displaced_ne (ho : g.Owned hist) (hp : g.tmpBuffPtr ≠ 0) (e : AesdBufferEntry) :
    (g.buffer.addEntry e).2 ∉ (hist.rtake maxOlder).map AesdBufferEntry.buffptr ∧
      (g.buffer.addEntry e).2 ≠ g.tmpBuffPtr := by
  rcases ho.displaced e with ⟨h0, -⟩ | ⟨a, hcons, ha⟩
  · rw [h0]
    refine ⟨?_, hp.symm⟩
    intro hmem
    obtain ⟨e', he', hz⟩ := List.mem_map.mp hmem
    obtain ⟨blk, hblk, -⟩ := ho.live e' ((older_sublist hist).subset he')
    exact Heap.ne_null hblk hz
  · have hnd := ho.nodup
    have hpend := (ho.pend hp).2
    rw [keptPtrs, hcons, List.map_cons] at hnd hpend
    rw [ha]
    exact ⟨(List.nodup_cons.mp hnd).1, fun heq ↦ hpend (heq ▸ List.mem_cons_self)⟩

theorem commit_block (g : AesdDev) (q : ℕ) :
    g.commit.mem.block q =
      if q = (g.buffer.addEntry ⟨g.tmpBuffPtr, g.tmpBuffSize⟩).2 then none
      else g.mem.block q := by
  simp only [commit]
  split
  · exact Heap.block_free ..
  · rename_i h0
    split
    · rename_i hq
      rw [hq, not_not.mp h0, Heap.block_null]
    · rfl

/-- The blocks of the commands that survive, and of the new one, are not touched. -/
theorem Owned.commit_block_of_kept (ho : g.Owned hist) (hp : g.tmpBuffPtr ≠ 0)
    {e : AesdBufferEntry} (he : e ∈ kept (hist ++ [⟨g.tmpBuffPtr, g.tmpBuffSize⟩])) :
    g.commit.mem.block e.buffptr = g.mem.block e.buffptr := by
  obtain ⟨hold, hnew⟩ := ho.displaced_ne hp ⟨g.tmpBuffPtr, g.tmpBuffSize⟩
  rw [commit_block, if_neg]
  rw [kept_append, List.mem_append, List.mem_singleton] at he
  rcases he with he | rfl
  · exact fun heq ↦ hold (heq ▸ List.mem_map_of_mem he)
  · exact fun heq ↦ hnew heq.symm

/-- **Storing a command keeps the invariant.** -/
theorem Owned.commit (ho : g.Owned hist) (hp : g.tmpBuffPtr ≠ 0) :
    g.commit.Owned (hist ++ [⟨g.tmpBuffPtr, g.tmpBuffSize⟩]) where
  built := ho.built.addEntry _
  live e he := by
    rw [ho.commit_block_of_kept hp he]
    rw [kept_append, List.mem_append, List.mem_singleton] at he
    rcases he with he | rfl
    · exact ho.live e ((older_sublist hist).subset he)
    · exact (ho.pend hp).1
  nodup := by
    rw [keptPtrs, kept_append, List.map_append, List.map_singleton, List.nodup_append]
    have hsub := older_sublist hist
    refine ⟨ho.nodup.sublist (hsub.map _), List.pairwise_singleton .., ?_⟩
    rintro p hmem q hq rfl
    rw [List.mem_singleton.mp hq] at hmem
    exact (ho.pend hp).2 ((hsub.map _).subset hmem)
  pend h := absurd rfl h
  badFrees := by
    simp only [AesdDev.commit]
    split
    · rename_i h0
      refine (Heap.badFrees_free (.inr ?_)).trans ho.badFrees
      rcases ho.displaced ⟨g.tmpBuffPtr, g.tmpBuffSize⟩ with ⟨hz, -⟩ | ⟨a, hcons, ha⟩
      · exact absurd hz h0
      · obtain ⟨blk, hblk, -⟩ := ho.live a (hcons ▸ List.mem_cons_self)
        rw [ha, hblk]
        rfl
    · exact ho.badFrees

/-- **What is stored afterwards**: the last nine commands and the one that was pending. -/
theorem Owned.stored_commit (ho : g.Owned hist) (hp : g.tmpBuffPtr ≠ 0) :
    g.commit.stored = g.stored.rtake maxOlder ++ [g.pending] := by
  have hcongr : g.commit.stored = (kept (hist ++ [⟨g.tmpBuffPtr, g.tmpBuffSize⟩])).map
      fun e ↦ g.bytes e.buffptr 0 e.size := by
    rw [(ho.commit hp).stored_eq]
    refine List.map_congr_left ?_
    intro e he
    rw [bytes, bytes, ho.commit_block_of_kept hp he]
  rw [hcongr, kept_append, List.map_append, List.map_singleton, ho.stored_eq, ← Concat.map_rtake,
    Concat.rtake_rtake maxOlder_le]
  rfl

/-! ## The cases -/

/-- **Everything one `aesd_write` can do.**  `base` is what the grown block starts with: the pending
bytes, unless their block had been lost before. -/
theorem aesdWrite_cases (ho : d.Owned hist) (env : WriteEnv) (fPos : ℕ) (buf : List Byte) :
    (env.interrupted = true ∧ d.aesdWrite env fPos buf = (d, fPos, -ERESTARTSYS)) ∨
    (env.interrupted = false ∧ env.alloc = .null ∧
      d.aesdWrite env fPos buf = ({ d with tmpBuffPtr := 0 }, fPos, -ENOMEM)) ∨
    (env.interrupted = false ∧ env.alloc ≠ .null ∧ ∃ base g, base.length = d.tmpBuffSize ∧
      (d.Intact → base = d.pending) ∧
      ((min env.missing buf.length ≠ 0 ∧ d.Repointed g base ∧
          d.aesdWrite env fPos buf = (g, fPos, -EFAULT)) ∨
        (min env.missing buf.length = 0 ∧ d.Repointed g (base ++ buf) ∧
          d.aesdWrite env fPos buf =
            (if (base ++ buf).getLastD env.stray = newline then g.commit else g,
              fPos + buf.length, (buf.length : ℤ))))) := by
  cases hint : env.interrupted with
  | true => exact .inl ⟨rfl, by rw [aesdWrite, if_pos hint]⟩
  | false =>
    refine .inr ?_
    have hrun : ¬env.interrupted = true := by simp [hint]
    rw [aesdWrite, if_neg hrun]
    by_cases ha : env.alloc = .null
    · refine .inl ⟨rfl, ha, ?_⟩
      rw [growTmpBuff_of_null ha, if_pos rfl]
    · refine .inr ⟨rfl, ha, ?_⟩
      obtain ⟨blk, hg⟩ := growTmpBuff_spec ho ha buf.length
      rw [if_neg hg.repointed.ptr_ne_zero]
      by_cases hm : min env.missing buf.length = 0
      · refine ⟨blk.take d.tmpBuffSize, _, ?_, hg.keeps, .inr ⟨hm, hg.filled, ?_⟩⟩
        · rw [hg.repointed.length_eq, hg.size]
        · rw [if_neg (not_not.mpr hm), copyFromUser_of_min_eq_zero hm]
          simp only [hg.filled.lastByte_eq]
      · refine ⟨blk.take d.tmpBuffSize, _, ?_, hg.keeps, .inl ⟨hm, ?_, if_pos hm⟩⟩
        · rw [hg.repointed.length_eq, hg.size]
        · refine (hg.repointed.store hg.block le_rfl ?_).1
          rw [length_copyFromUser, hg.length, hg.size, debugByte]
          omega

/-- Losing the pending pointer keeps the invariant: a null pointer owns nothing. -/
theorem Owned.forget (ho : d.Owned hist) : AesdDev.Owned { d with tmpBuffPtr := 0 } hist :=
  ⟨ho.built, ho.live, ho.nodup, fun h ↦ absurd rfl h, ho.badFrees⟩

/-- **Every write keeps the invariant**, whatever the kernel decides: the entries added so far stay
or one more is added. -/
theorem Owned.aesdWrite (ho : d.Owned hist) (env : WriteEnv) (fPos : ℕ) (buf : List Byte) :
    ∃ hist', (d.aesdWrite env fPos buf).1.Owned hist' := by
  rcases aesdWrite_cases ho env fPos buf with ⟨-, h⟩ | ⟨-, -, h⟩ |
    ⟨-, -, base, g, -, -, ⟨-, hr, h⟩ | ⟨-, hr, h⟩⟩
  · exact ⟨hist, by rw [h]; exact ho⟩
  · exact ⟨hist, by rw [h]; exact ho.forget⟩
  · exact ⟨hist, by rw [h]; exact hr.owned ho⟩
  · rw [h]
    split
    · exact ⟨_, (hr.owned ho).commit hr.ptr_ne_zero⟩
    · exact ⟨_, hr.owned ho⟩

end AesdDev

end Aesd
