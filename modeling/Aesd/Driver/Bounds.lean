import Aesd.Driver.Ownership

/-!
# Inside the pending block

`aesd_write` copies the user's bytes into the pending block, puts a terminator behind them, prints
the block as a string, and looks at the byte in front of the terminator.  `accesses` lists the bytes
of the block it touches, in that order; `Safe` says that they are inside the block, and that the
byte looked at is the last one of a command that is not empty.

The block has been made large enough before any of this, on both allocation branches.  What can go
wrong is only the last step: after a write of no bytes with nothing pending, `tmp_buff_size - 1`
wraps around.  `accesses_safe_iff` says that this is the only case, in every state any sequence of
writes can reach.
-/

set_option autoImplicit false

namespace Aesd

/-- A stretch of the pending block. -/
structure Access where
  /-- Its first byte. -/
  off : ℕ
  /-- The number of bytes. -/
  count : ℕ
  deriving DecidableEq, Repr

/-- `strlen`; the length of everything if there is no terminator. -/
def strlen (bs : List Byte) : ℕ := (bs.takeWhile (· != 0)).length

theorem strlen_le {bs : List Byte} {i : ℕ} (h : bs[i]? = some 0) : strlen bs ≤ i :=
  Delim.length_takeWhile_le h rfl

namespace AesdDev

/-- The device when `aesd_write` looks at the last byte. -/
def terminated (d : AesdDev) (env : WriteEnv) (buf : List Byte) : AesdDev :=
  let grown := d.growTmpBuff env buf.length
  (grown.store grown.tmpBuffSize (copyFromUser buf env.missing)).advance buf.length

/-- The bytes of the pending block. -/
def pendingBlock (d : AesdDev) : List Byte := (d.mem.block d.tmpBuffPtr).getD []

/-- The call gets as far as looking at the last byte. -/
def Tests (d : AesdDev) (env : WriteEnv) (buf : List Byte) : Prop :=
  env.interrupted = false ∧ (d.growTmpBuff env buf.length).tmpBuffPtr ≠ 0 ∧
    min env.missing buf.length = 0

/-- What `aesd_write` touches of the pending block: the target of the copy, the terminator, the
string that is printed, and the byte that is looked at. -/
def accesses (d : AesdDev) (env : WriteEnv) (buf : List Byte) : List Access :=
  if env.interrupted then []
  else
    let grown := d.growTmpBuff env buf.length
    if grown.tmpBuffPtr = 0 then []
    else if min env.missing buf.length ≠ 0 then [⟨grown.tmpBuffSize, buf.length⟩]
    else
      let size := grown.tmpBuffSize + buf.length
      [⟨grown.tmpBuffSize, buf.length⟩, ⟨size, 1⟩,
        ⟨0, strlen (d.terminated env buf).pendingBlock + 1⟩, ⟨sizeSub size 1, 1⟩]

/-- Nothing outside the pending block is touched, and the byte looked at is the last one of a
command that is not empty. -/
structure Safe (d : AesdDev) (env : WriteEnv) (buf : List Byte) : Prop where
  /-- Every access is inside the block there is after making room. -/
  inside : ∀ a ∈ d.accesses env buf,
    a.off + a.count ≤ (d.growTmpBuff env buf.length).pendingBlock.length
  /-- There is room for the command and the terminator. -/
  room : d.Tests env buf →
    (d.terminated env buf).tmpBuffSize + debugByte ≤ (d.terminated env buf).pendingBlock.length
  /-- `tmp_buff_size - 1` does not go below zero. -/
  positive : d.Tests env buf → 0 < (d.terminated env buf).tmpBuffSize
  /-- It is the index of the last byte. -/
  last : d.Tests env buf →
    (d.terminated env buf).pending.getLast? = some ((d.terminated env buf).lastByte env)

variable {d g : AesdDev} {hist : List AesdBufferEntry} {env : WriteEnv} {buf blk : List Byte}

/-- Only an allocation that does not fail leaves a pointer. -/
theorem alloc_ne_null {count : ℕ} (h : (d.growTmpBuff env count).tmpBuffPtr ≠ 0) :
    env.alloc ≠ .null := by
  intro hnull
  rw [growTmpBuff_of_null hnull] at h
  exact h rfl

theorem Grown.pendingBlock_eq {count : ℕ} (h : d.Grown g count blk) : g.pendingBlock = blk := by
  rw [pendingBlock, h.block, Option.getD_some]

/-- The block after the copy and the terminator. -/
theorem Grown.pendingBlock_terminated (h : d.Grown (d.growTmpBuff env buf.length) buf.length blk)
    (hm : min env.missing buf.length = 0) :
    (d.terminated env buf).pendingBlock =
      Block.splice (Block.splice blk d.tmpBuffSize buf) (d.tmpBuffSize + buf.length) [0] := by
  set g := d.growTmpBuff env buf.length with hg
  have hroom : g.tmpBuffSize + buf.length ≤ blk.length := by
    rw [h.length, h.size]
    omega
  have hcopy := (h.repointed.store h.block le_rfl hroom).2
  rw [terminated, ← hg, copyFromUser_of_min_eq_zero hm, h.size]
  rw [h.size] at hcopy
  have hblk : (g.store d.tmpBuffSize buf).mem.block g.tmpBuffPtr =
      some (Block.splice blk d.tmpBuffSize buf) := hcopy
  simp only [pendingBlock, advance, AesdDev.store] at hblk ⊢
  simp only [hblk, h.size, Option.getD_some, Heap.block_put]
  simp

/-- The block has the terminator where the command ends. -/
theorem Grown.getElem?_terminated (h : d.Grown (d.growTmpBuff env buf.length) buf.length blk)
    (hm : min env.missing buf.length = 0) :
    (d.terminated env buf).pendingBlock.length = blk.length ∧
      (d.terminated env buf).pendingBlock[d.tmpBuffSize + buf.length]? = some 0 := by
  have hlen : (Block.splice blk d.tmpBuffSize buf).length = blk.length :=
    Block.length_splice (by rw [h.length]; omega)
  have hroom : d.tmpBuffSize + buf.length + ([0] : List Byte).length ≤
      (Block.splice blk d.tmpBuffSize buf).length := by
    rw [hlen, h.length, List.length_singleton, debugByte]
  rw [h.pendingBlock_terminated hm]
  refine ⟨(Block.length_splice hroom).trans hlen, ?_⟩
  exact Block.getElem?_splice (i := 0) (by omega) (by decide)

/-- What the call has in its hands when it looks at the last byte. -/
theorem Grown.repointed_terminated (h : d.Grown (d.growTmpBuff env buf.length) buf.length blk)
    (hm : min env.missing buf.length = 0) :
    d.Repointed (d.terminated env buf) (blk.take d.tmpBuffSize ++ buf) := by
  rw [terminated, copyFromUser_of_min_eq_zero hm]
  exact h.filled

/-- A call that does not get as far touches nothing, or only the target of the copy. -/
theorem Owned.safe_of_not_tests (ho : d.Owned hist) (hno : ¬d.Tests env buf) : d.Safe env buf := by
  refine ⟨?_, fun ht ↦ absurd ht hno, fun ht ↦ absurd ht hno, fun ht ↦ absurd ht hno⟩
  intro a ha
  simp only [accesses] at ha
  split at ha
  · simp at ha
  rename_i hint
  split at ha
  · simp at ha
  rename_i hptr
  split at ha
  · obtain rfl := List.mem_singleton.mp ha
    obtain ⟨blk, hg⟩ := growTmpBuff_spec ho (alloc_ne_null hptr) buf.length
    rw [hg.pendingBlock_eq, hg.length, hg.size]
    exact Nat.le_add_right ..
  · rename_i hm
    exact absurd ⟨by simpa using hint, hptr, not_not.mp hm⟩ hno

/-- A call that does, with a byte to look at, stays inside the block. -/
theorem Owned.safe_of_tests (ho : d.Owned hist) (ht : d.Tests env buf)
    (hpos : 0 < d.tmpBuffSize + buf.length) : d.Safe env buf := by
  obtain ⟨hint, hptr, hm⟩ := ht
  obtain ⟨blk, hg⟩ := growTmpBuff_spec ho (alloc_ne_null hptr) buf.length
  obtain ⟨hlen, hzero⟩ := hg.getElem?_terminated hm
  have hr := hg.repointed_terminated hm
  have hsize : (d.terminated env buf).tmpBuffSize = d.tmpBuffSize + buf.length := by
    rw [← hr.length_eq, List.length_append, hg.repointed.length_eq, hg.size]
  have hlength := hg.length
  refine ⟨?_, ?_, ?_, ?_⟩
  · intro a ha
    rw [accesses, if_neg (by simp [hint]), if_neg hptr, if_neg (not_not.mpr hm), hg.size] at ha
    rw [hg.pendingBlock_eq, hlength, debugByte]
    simp only [List.mem_cons, List.not_mem_nil, or_false] at ha
    rcases ha with rfl | rfl | rfl | rfl
    · show d.tmpBuffSize + buf.length ≤ _
      omega
    · show d.tmpBuffSize + buf.length + 1 ≤ _
      omega
    · have hprint := strlen_le hzero
      show 0 + (strlen (d.terminated env buf).pendingBlock + 1) ≤ _
      omega
    · have htest : sizeSub (d.tmpBuffSize + buf.length) 1 ≤ d.tmpBuffSize + buf.length - 1 := by
        rw [sizeSub, show d.tmpBuffSize + buf.length + 2 ^ 64 - 1 =
          d.tmpBuffSize + buf.length - 1 + 2 ^ 64 by omega, Nat.add_mod_right]
        exact Nat.mod_le ..
      show sizeSub (d.tmpBuffSize + buf.length) 1 + 1 ≤ _
      omega
  · intro _
    rw [hlen, hsize, hlength]
  · intro _
    rw [hsize]
    exact hpos
  · intro _
    have hne : blk.take d.tmpBuffSize ++ buf ≠ [] := by
      intro hnil
      have hlength' := hr.length_eq
      rw [hnil, hsize, List.length_nil] at hlength'
      omega
    rw [hr.pending_eq, hr.lastByte_eq, List.getLast?_eq_some_getLast hne,
      List.getLastD_eq_getLast?, List.getLast?_eq_some_getLast hne, Option.getD_some]

/-- With no byte to look at, the index is below zero. -/
theorem not_safe_of_empty (ht : d.Tests env buf) (h0 : d.tmpBuffSize = 0) (hbuf : buf = []) :
    ¬d.Safe env buf := by
  intro hsafe
  have hpos := hsafe.positive ht
  have hsize : (d.terminated env buf).tmpBuffSize = d.tmpBuffSize + buf.length := by
    simp only [terminated, advance, AesdDev.store, growTmpBuff]
    split <;> rfl
  rw [hsize, h0, hbuf] at hpos
  exact absurd hpos (by decide)

end AesdDev

/-- **When a write stays inside the pending block.**  For every state that any writes, successful or
not, have left, and for every call: exactly unless it gets the lock and a block, with nothing
pending and nothing to write. -/
theorem accesses_safe_iff (cs : List WriteCall) (c : WriteCall) :
    (cs.foldl Sys.write .init).dev.Safe c.env c.buf ↔
      ¬(c.env.interrupted = false ∧ c.env.alloc ≠ .null ∧
        (cs.foldl Sys.write .init).dev.tmpBuffSize = 0 ∧ c.buf = []) := by
  obtain ⟨hist, ho⟩ := owned_run cs
  constructor
  · rintro hsafe ⟨hint, halloc, h0, hbuf⟩
    obtain ⟨blk, hg⟩ := AesdDev.growTmpBuff_spec ho halloc c.buf.length
    exact AesdDev.not_safe_of_empty ⟨hint, hg.repointed.ptr_ne_zero, by simp [hbuf]⟩ h0 hbuf hsafe
  · intro h
    by_cases ht : (cs.foldl Sys.write .init).dev.Tests c.env c.buf
    · refine ho.safe_of_tests ht (Nat.pos_of_ne_zero ?_)
      intro hzero
      exact h ⟨ht.1, AesdDev.alloc_ne_null ht.2.1, by omega, List.length_eq_zero_iff.mp (by omega)⟩
    · exact ho.safe_of_not_tests ht

/-- A write of no bytes to a fresh device: its block has one byte, and the byte looked at is far
outside. -/
theorem empty_write_outside :
    let env : WriteEnv := ⟨false, .fresh, fun _ ↦ 0, 0, 0⟩
    (AesdDev.init.growTmpBuff env 0).pendingBlock = [0] ∧
      ⟨2 ^ 64 - 1, 1⟩ ∈ AesdDev.init.accesses env [] ∧ ¬AesdDev.init.Safe env [] := by
  intro env
  refine ⟨by decide +kernel, by decide +kernel, ?_⟩
  exact AesdDev.not_safe_of_empty ⟨rfl, by decide +kernel, rfl⟩ rfl rfl

end Aesd
