import Aesd.Driver.Calls
import Aesd.Driver.Slots

/-!
# What the device looks like from outside

A user of the device sees calls and what they return, and nothing of blocks, slots and pointers.
`History` is as much as there is to see: the commands completed so far, the bytes after the last of
them, and the position of each file.  `History.exec` says what a call does to that and what it
returns, for every answer the kernel can give, the bad ones included.

Two things in it are not what one would ask for, and both come from the source.  When the allocator
fails while bytes are pending, these are lost but still counted (`Pending.lost`), and the next write
that finds memory takes that many bytes of whatever was there for them.  And an ioctl does not count
the commands from the oldest one but in the order of the slots (`inSlots`).

`Shows.exec` is the refinement, one call at a time.  Together with `calls_linearizable` it is about
calls that overlap: `history_explains`.
-/

set_option autoImplicit false

namespace Aesd

open Monitor (Event)

/-! ## The history -/

/-- The bytes after the last command that is complete. -/
inductive Pending where
  /-- These bytes. -/
  | bytes (bs : List Byte)
  /-- So many bytes, whose block is gone. -/
  | lost (n : ℕ)

namespace Pending

/-- How many they are. -/
def size : Pending → ℕ
  | bytes bs => bs.length
  | lost n => n

/-- What a larger block starts with. -/
def start (fill : ℕ → Byte) : Pending → List Byte
  | bytes bs => bs
  | lost n => (List.range n).map fill

/-- Their block is gone. -/
def forget (p : Pending) : Pending := if p.size = 0 then .bytes [] else .lost p.size

end Pending

/-- What there is to see of the device and the open files. -/
structure History where
  /-- The commands that are complete, oldest first. -/
  completed : List (List Byte)
  /-- The bytes after them. -/
  pending : Pending
  /-- The position of each open file. -/
  pos : ℕ → ℕ

namespace History

/-- Nothing has been written, and every file is at its beginning. -/
def init : History := ⟨[], .bytes [], fun _ ↦ 0⟩

/-- The commands that can be read. -/
def stored (h : History) : List (List Byte) := h.completed.rtake maxWriteOperationsSupported

/-- Their bytes. -/
def content (h : History) : List Byte := h.stored.flatten

/-- The position of file `f` moves. -/
def moveTo (h : History) (f p : ℕ) : History := { h with pos := Function.update h.pos f p }

/-- The bytes after the last command change. -/
def setPending (h : History) (p : Pending) : History := { h with pending := p }

/-- The pending bytes are now `bs`; if they end in a newline, they are a command. -/
def close (h : History) (stray : Byte) (bs : List Byte) : History :=
  if bs.getLastD stray = newline then
    { h with completed := h.completed ++ [bs], pending := .bytes [] }
  else h.setPending (.bytes bs)

/-- `read`: the rest of the command at the file position, as far as it is asked for. -/
def read (h : History) (f count : ℕ) (env : ReadEnv) : History × CallResult :=
  if env.interrupted then (h, ⟨-ERESTARTSYS, []⟩)
  else
    let data := (Concat.restAt h.stored (h.pos f)).take count
    if min env.missing data.length ≠ 0 then
      (h, ⟨-EFAULT, data.take (data.length - env.missing)⟩)
    else (h.moveTo f (h.pos f + data.length), ⟨data.length, data⟩)

/-- `write`: the bytes come after the pending ones. -/
def write (h : History) (f : ℕ) (buf : List Byte) (env : WriteEnv) : History × CallResult :=
  if env.interrupted then (h, ⟨-ERESTARTSYS, []⟩)
  else if env.alloc = .null then (h.setPending h.pending.forget, ⟨-ENOMEM, []⟩)
  else
    let start := h.pending.start env.fill
    if min env.missing buf.length ≠ 0 then (h.setPending (.bytes start), ⟨-EFAULT, []⟩)
    else
      ((h.close env.stray (start ++ buf)).moveTo f (h.pos f + buf.length), ⟨buf.length, []⟩)

/-- `llseek`: a seek in a file as long as the content. -/
def llseek (seek : FixedSizeLlseek) (h : History) (f : ℕ) (off : ℤ) (whence : Whence)
    (interrupted : Bool) : History × CallResult :=
  if interrupted then (h, ⟨-ERESTARTSYS, []⟩)
  else
    let (retval, pos) := seek (h.pos f) off whence h.content.length
    (h.moveTo f pos, ⟨retval, []⟩)

/-- Seeking to a byte of the command in a slot, with what is in the slots before it in front. -/
def seekTo (seek : FixedSizeLlseek) (h : History) (f : ℕ) (arg : AesdSeekto) (interrupted : Bool) :
    History × CallResult :=
  if arg.writeCmd ≥ maxWriteOperationsSupported then (h, ⟨-EINVAL, []⟩)
  else if interrupted then (h, ⟨-ERESTARTSYS, []⟩)
  else if arg.writeCmdOffset ≥ (((inSlots h.completed)[arg.writeCmd]?).getD []).length then
    (h, ⟨-EINVAL, []⟩)
  else
    let offset := ((inSlots h.completed).take arg.writeCmd).flatten.length
    let (retval, pos) :=
      seek (h.pos f) ((offset + arg.writeCmdOffset : ℕ) : ℤ) .set h.content.length
    (h.moveTo f pos, ⟨if retval ≥ 0 then 0 else retval, []⟩)

/-- `ioctl`: seeking to a command, if that is what was asked for in every detail. -/
def ioctl (seek : FixedSizeLlseek) (h : History) (f cmd : ℕ) (arg : AesdSeekto) (env : IoctlEnv) :
    History × CallResult :=
  if iocType cmd ≠ aesdIocMagic ∨ iocNr cmd > aesdcharIocMaxnr then (h, ⟨-ENOTTY, []⟩)
  else if (iocDir cmd &&& iocRead ≠ 0 ∨ iocDir cmd &&& iocWrite ≠ 0) ∧
      env.accessOk (iocSize cmd) = false then (h, ⟨-EFAULT, []⟩)
  else if cmd ≠ aesdcharIocseekto then (h, ⟨-ENOTTY, []⟩)
  else if env.missing ≠ 0 then (h, ⟨-EFAULT, []⟩)
  else h.seekTo seek f arg env.interrupted

/-- **A call**, as it looks from outside. -/
def exec (seek : FixedSizeLlseek) (h : History) (f : ℕ) : FileCall → History × CallResult
  | .read count env => h.read f count env
  | .write buf env => h.write f buf env
  | .llseek off whence interrupted => h.llseek seek f off whence interrupted
  | .ioctl cmd arg env => h.ioctl seek f cmd arg env

theorem moveTo_self (h : History) (f : ℕ) : h.moveTo f (h.pos f) = h := by
  rw [moveTo, Function.update_eq_self]

end History

/-! ## The device and its history -/

/-- The bytes of the unfinished command are `p`. -/
def AesdDev.PendingIs (d : AesdDev) : Pending → Prop
  | .bytes bs => d.Intact ∧ d.pending = bs
  | .lost n => 0 < n ∧ d.tmpBuffPtr = 0 ∧ d.tmpBuffSize = n

/-- The device and the open files look like `h`. -/
structure Shows (t : Sys) (h : History) : Prop where
  /-- These are the commands that have been stored. -/
  stores : t.dev.Stores h.completed
  /-- The bytes after them. -/
  pending : t.dev.PendingIs h.pending
  /-- The file positions. -/
  fPos : t.fPos = h.pos

theorem shows_init : Shows .init .init :=
  ⟨AesdDev.stores_init, ⟨.inl rfl, rfl⟩, rfl⟩

variable {t : Sys} {h : History} {seek : FixedSizeLlseek}

/-- Moving a file does not touch the device. -/
theorem Shows.moveTo (hs : Shows t h) (f p : ℕ) : Shows (t.setPos f p) (h.moveTo f p) :=
  ⟨hs.stores, hs.pending, by rw [Sys.setPos, hs.fPos, History.moveTo]⟩

/-- A file that stays where it is. -/
theorem Shows.stay (hs : Shows t h) (f : ℕ) : Shows (t.setPos f (t.fPos f)) h := by
  rw [t.setPos_self]
  exact hs

/-- `tmp_buff_size` counts the pending bytes, lost or not. -/
theorem Shows.tmpBuffSize_eq (hs : Shows t h) : t.dev.tmpBuffSize = h.pending.size := by
  obtain ⟨hist, ho, -⟩ := hs.stores.owned
  have hp := hs.pending
  cases hpend : h.pending with
  | bytes bs =>
    rw [hpend] at hp
    rw [← ho.length_pending hp.1, hp.2, Pending.size]
  | lost n =>
    rw [hpend] at hp
    exact hp.2.2

/-! ## Writing -/

namespace AesdDev

variable {d : AesdDev} {hist : List AesdBufferEntry}

/-- What the block of the pending bytes starts with after it has been grown. -/
def startOf (d : AesdDev) (fill : ℕ → Byte) : List Byte :=
  if d.Intact then d.pending else (List.range d.tmpBuffSize).map fill

/-- If the pending bytes are lost, memory that was never written takes their place. -/
theorem take_growTmpBuff_of_lost {env : WriteEnv} (ha : env.alloc ≠ .null) (hi : ¬d.Intact)
    {count : ℕ} {blk : List Byte} (hg : d.Grown (d.growTmpBuff env count) count blk) :
    blk.take d.tmpBuffSize = (List.range d.tmpBuffSize).map env.fill := by
  obtain ⟨h0, hp⟩ := not_or.mp hi
  rw [not_not] at hp
  have hblock := hg.block
  rw [growTmpBuff, if_neg h0, hp] at hblock
  rcases kreallocArray_of_ne_null d.mem ha env.fill 0 (d.tmpBuffSize + count + debugByte) with
    ⟨old, hold, -⟩ | hk
  · rw [Heap.block_null] at hold
    cases hold
  · rw [hk, Heap.block_null, Option.getD_none] at hblock
    have hne : d.mem.next ≠ 0 := d.mem.next_pos.ne'
    have hblk : Block.resize [] (d.tmpBuffSize + count + debugByte) env.fill = blk := by
      simpa [hne] using hblock
    rw [← hblk, Block.resize, List.take_nil, List.nil_append, List.length_nil, Nat.sub_zero,
      ← List.map_take, ← List.range_eq_range', List.take_range, Nat.min_eq_left (by omega)]

end AesdDev

namespace AesdDev

variable {d : AesdDev} {hist : List AesdBufferEntry}

/-- **A write that finds memory**, with the pending bytes there or lost. -/
theorem Owned.aesdWrite_start (ho : d.Owned hist) {env : WriteEnv} (hint : env.interrupted = false)
    (ha : env.alloc ≠ .null) (fPos : ℕ) (buf : List Byte) :
    ∃ g, (min env.missing buf.length ≠ 0 ∧ d.Repointed g (d.startOf env.fill) ∧
        d.aesdWrite env fPos buf = (g, fPos, -EFAULT)) ∨
      (min env.missing buf.length = 0 ∧ d.Repointed g (d.startOf env.fill ++ buf) ∧
        d.aesdWrite env fPos buf =
          (if (d.startOf env.fill ++ buf).getLastD env.stray = newline then g.commit else g,
            fPos + buf.length, (buf.length : ℤ))) := by
  obtain ⟨blk, hg⟩ := growTmpBuff_spec ho ha buf.length
  have hstart : blk.take d.tmpBuffSize = d.startOf env.fill := by
    rw [startOf]
    split
    · rename_i hi
      exact hg.keeps hi
    · rename_i hi
      exact take_growTmpBuff_of_lost ha hi hg
  rw [← hstart, AesdDev.aesdWrite, if_neg (by rw [hint]; decide), if_neg hg.repointed.ptr_ne_zero]
  by_cases hm : min env.missing buf.length = 0
  · refine ⟨_, .inr ⟨hm, hg.filled, ?_⟩⟩
    rw [if_neg (not_not.mpr hm), copyFromUser_of_min_eq_zero hm]
    simp only [hg.filled.lastByte_eq]
  · refine ⟨_, .inl ⟨hm, ?_, if_pos hm⟩⟩
    refine (hg.repointed.store hg.block le_rfl ?_).1
    rw [length_copyFromUser, hg.length, hg.size, debugByte]
    omega

end AesdDev

/-- The block of the pending bytes starts as the history says. -/
theorem Shows.startOf_eq (hs : Shows t h) (fill : ℕ → Byte) :
    t.dev.startOf fill = h.pending.start fill := by
  have hp := hs.pending
  cases hpend : h.pending with
  | bytes bs =>
    rw [hpend] at hp
    rw [AesdDev.startOf, if_pos hp.1, hp.2, Pending.start]
  | lost n =>
    rw [hpend] at hp
    obtain ⟨hn, hptr, hsize⟩ := hp
    have hi : ¬t.dev.Intact := by
      rintro (h0 | hne)
      · omega
      · exact hne hptr
    rw [AesdDev.startOf, if_neg hi, hsize, Pending.start]

/-- The allocator fails. -/
theorem Shows.forget (hs : Shows t h) :
    Shows (t.setDev { t.dev with tmpBuffPtr := 0 }) (h.setPending h.pending.forget) := by
  obtain ⟨hist, ho, hlen⟩ := hs.stores.owned
  refine ⟨⟨⟨hist, ho.forget, hlen⟩, hs.stores.stored⟩, ?_, hs.fPos⟩
  have hsize := hs.tmpBuffSize_eq
  show AesdDev.PendingIs { t.dev with tmpBuffPtr := 0 } h.pending.forget
  rw [Pending.forget]
  split
  · rename_i h0
    rw [h0] at hsize
    exact ⟨.inl hsize, AesdDev.pending_of_size_eq_zero hsize⟩
  · rename_i h0
    exact ⟨Nat.pos_of_ne_zero h0, rfl, hsize⟩

/-- Only the pending block changes. -/
theorem Shows.repointed (hs : Shows t h) {g : AesdDev} {p : List Byte} (hr : t.dev.Repointed g p) :
    Shows (t.setDev g) (h.setPending (.bytes p)) := by
  exact ⟨hs.stores.repointed hr, ⟨.inr hr.ptr_ne_zero, hr.pending_eq⟩, hs.fPos⟩

/-- The pending bytes are a command now. -/
theorem Shows.commit (hs : Shows t h) {p : List Byte} (hp : h.pending = .bytes p)
    (hptr : t.dev.tmpBuffPtr ≠ 0) :
    Shows (t.setDev t.dev.commit)
      { h with completed := h.completed ++ [p], pending := .bytes [] } := by
  have hpend := hs.pending
  rw [hp] at hpend
  have hstores := hs.stores.commit hptr
  rw [hpend.2] at hstores
  exact ⟨hstores, ⟨.inl rfl, AesdDev.pending_of_size_eq_zero rfl⟩, hs.fPos⟩

/-- **One write.** -/
theorem Shows.write (hs : Shows t h) (f : ℕ) (buf : List Byte) (env : WriteEnv) :
    Shows (t.exec seek f (.write buf env)).1 (h.write f buf env).1 ∧
      (t.exec seek f (.write buf env)).2 = (h.write f buf env).2 := by
  obtain ⟨hist, ho, -⟩ := hs.stores.owned
  rw [Sys.exec, History.write]
  cases hint : env.interrupted with
  | true =>
    rw [AesdDev.aesdWrite, if_pos hint, if_pos rfl]
    exact ⟨hs.stay f, rfl⟩
  | false =>
    rw [if_neg (by decide)]
    by_cases ha : env.alloc = .null
    · rw [AesdDev.aesdWrite, if_neg (by rw [hint]; decide), AesdDev.growTmpBuff_of_null ha,
        if_pos rfl, if_pos ha]
      exact ⟨hs.forget.stay f, rfl⟩
    rw [if_neg ha, ← hs.fPos, ← hs.startOf_eq]
    obtain ⟨g, ⟨hm, hr, heq⟩ | ⟨hm, hr, heq⟩⟩ := ho.aesdWrite_start hint ha (t.fPos f) buf
    · rw [heq, if_pos hm]
      exact ⟨(hs.repointed hr).stay f, rfl⟩
    · rw [heq, if_neg (not_not.mpr hm)]
      refine ⟨.moveTo ?_ f _, rfl⟩
      have hg := hs.repointed hr
      rw [History.close]
      split
      · exact hg.commit rfl hr.ptr_ne_zero
      · exact hg

/-! ## Reading -/

/-- **One read.** -/
theorem Shows.read (hs : Shows t h) (f count : ℕ) (env : ReadEnv) :
    Shows (t.exec seek f (.read count env)).1 (h.read f count env).1 ∧
      (t.exec seek f (.read count env)).2 = (h.read f count env).2 := by
  obtain ⟨hist, ho, -⟩ := hs.stores.owned
  rw [Sys.exec, History.read, AesdDev.aesdRead]
  cases env.interrupted with
  | true => exact ⟨hs.stay f, rfl⟩
  | false =>
    have hfind := t.dev.buffer.findEntryOffsetForFpos_eq (t.fPos f)
    rw [← ho.map_length_stored] at hfind
    rw [if_neg (by decide), if_neg (by decide), hfind, Concat.restAt_eq, History.stored,
      ← hs.stores.stored, ← hs.fPos]
    cases hloc : Concat.locate (t.dev.stored.map List.length) (t.fPos f) with
    | none =>
      have hpos : h.moveTo f (t.fPos f + 0) = h := by
        rw [Nat.add_zero, hs.fPos, h.moveTo_self]
      simp only [Option.map_none, List.take_nil, List.length_nil, Nat.min_zero, ne_eq,
        not_true_eq_false, if_false]
      rw [hpos]
      exact ⟨hs.stay f, rfl⟩
    | some q =>
      obtain ⟨k, b⟩ := q
      obtain ⟨l, hl, hb, -⟩ := Concat.drop_flatten_of_locate hloc
      have hl' := hl
      rw [AesdDev.stored, List.getElem?_map, Option.map_eq_some_iff] at hl'
      obtain ⟨e, he, rfl⟩ := hl'
      have hslot := AesdCircularBuffer.entry_of_entries_getElem? he
      have hlen : (t.dev.bytes e.buffptr 0 e.size).length = e.size := by
        have hlens := congrArg (·[k]?) ho.map_length_stored
        simpa [AesdDev.stored, he] using hlens
      -- `count` is trimmed to what is left of the command
      have htrim : (if count > e.size - b then e.size - b else count) =
          (((t.dev.bytes e.buffptr 0 e.size).drop b).take count).length := by
        rw [List.length_take, List.length_drop, hlen]
        split <;> omega
      have hdata : t.dev.bytes e.buffptr b
          (((t.dev.bytes e.buffptr 0 e.size).drop b).take count).length =
            ((t.dev.bytes e.buffptr 0 e.size).drop b).take count := by
        rw [bytes_of_stored (by rw [List.length_take, List.length_drop, hlen]; omega),
          List.length_take, ← List.take_eq_take_min]
      dsimp only [Option.map_some]
      rw [hl, hslot, htrim, hdata, Option.getD_some]
      split
      · exact ⟨hs.stay f, rfl⟩
      · exact ⟨hs.moveTo f _, rfl⟩

/-! ## Seeking -/

/-- **One `llseek`.** -/
theorem Shows.llseek (hs : Shows t h) (f : ℕ) (off : ℤ) (whence : Whence) (interrupted : Bool) :
    Shows (t.exec seek f (.llseek off whence interrupted)).1
        (h.llseek seek f off whence interrupted).1 ∧
      (t.exec seek f (.llseek off whence interrupted)).2 =
        (h.llseek seek f off whence interrupted).2 := by
  rw [Sys.exec, aesdLlseek, History.llseek, hs.stores.getBufferSize_eq, ← hs.fPos]
  cases interrupted with
  | true => exact ⟨hs.stay f, rfl⟩
  | false => exact ⟨hs.moveTo f _, rfl⟩

/-- `aesd_adjust_file_offset`. -/
theorem Shows.seekTo (hs : Shows t h) (f : ℕ) (arg : AesdSeekto) (interrupted : Bool) :
    let w := aesdAdjustFileOffset seek t.dev interrupted (t.fPos f) arg.writeCmd arg.writeCmdOffset
    Shows (t.setPos f w.2) (h.seekTo seek f arg interrupted).1 ∧
      (⟨w.1, []⟩ : CallResult) = (h.seekTo seek f arg interrupted).2 := by
  intro w
  simp only [w]
  rw [aesdAdjustFileOffset, History.seekTo]
  by_cases hcmd : arg.writeCmd ≥ maxWriteOperationsSupported
  · rw [if_pos hcmd, if_pos hcmd]
    exact ⟨hs.stay f, rfl⟩
  rw [if_neg hcmd, if_neg hcmd]
  cases interrupted with
  | true => exact ⟨hs.stay f, rfl⟩
  | false =>
    have hlt : arg.writeCmd < maxWriteOperationsSupported := Nat.lt_of_not_le hcmd
    have hslot : (t.dev.buffer.entry arg.writeCmd).size =
        (((inSlots h.completed)[arg.writeCmd]?).getD []).length := hs.stores.slotSize_eq hlt
    rw [if_neg Bool.false_ne_true, if_neg Bool.false_ne_true, hslot]
    split
    · exact ⟨hs.stay f, rfl⟩
    · rw [foldl_size_eq_sum, hs.stores.sum_slotSize hlt.le, hs.stores.getBufferSize_eq, ← hs.fPos]
      exact ⟨hs.moveTo f _, rfl⟩

/-- **One ioctl.** -/
theorem Shows.ioctl (hs : Shows t h) (f cmd : ℕ) (arg : AesdSeekto) (env : IoctlEnv) :
    Shows (t.exec seek f (.ioctl cmd arg env)).1 (h.ioctl seek f cmd arg env).1 ∧
      (t.exec seek f (.ioctl cmd arg env)).2 = (h.ioctl seek f cmd arg env).2 := by
  rw [Sys.exec, aesdIoctl, History.ioctl]
  by_cases htype : iocType cmd ≠ aesdIocMagic
  · rw [if_pos htype, if_pos (.inl htype)]
    exact ⟨hs.stay f, rfl⟩
  by_cases hnr : iocNr cmd > aesdcharIocMaxnr
  · rw [if_neg htype, if_pos hnr, if_pos (.inr hnr)]
    exact ⟨hs.stay f, rfl⟩
  rw [if_neg htype, if_neg hnr, if_neg (not_or.mpr ⟨htype, hnr⟩)]
  by_cases hbad : (iocDir cmd &&& iocRead ≠ 0 ∨ iocDir cmd &&& iocWrite ≠ 0) ∧
      env.accessOk (iocSize cmd) = false
  · rw [if_pos hbad, if_pos hbad]
    exact ⟨hs.stay f, rfl⟩
  rw [if_neg hbad, if_neg hbad]
  by_cases hcmd : cmd = aesdcharIocseekto
  swap
  · rw [if_neg hcmd, if_pos hcmd]
    exact ⟨hs.stay f, rfl⟩
  rw [if_pos hcmd, if_neg (not_not.mpr hcmd)]
  by_cases hmiss : env.missing ≠ 0
  · rw [if_pos hmiss, if_pos hmiss]
    exact ⟨hs.stay f, rfl⟩
  · rw [if_neg hmiss, if_neg hmiss]
    exact hs.seekTo f arg env.interrupted

/-! ## Whole runs -/

/-- **One call**, of any kind and with any outcome. -/
theorem Shows.exec (hs : Shows t h) (f : ℕ) (c : FileCall) :
    Shows (t.exec seek f c).1 (h.exec seek f c).1 ∧ (t.exec seek f c).2 = (h.exec seek f c).2 := by
  cases c with
  | read count env => exact hs.read f count env
  | write buf env => exact hs.write f buf env
  | llseek off whence interrupted => exact hs.llseek f off whence interrupted
  | ioctl cmd arg env => exact hs.ioctl f cmd arg env

/-- What a run of writes leaves to see. -/
def History.writes (cs : List WriteCall) : History :=
  cs.foldl (fun h c ↦ (h.write c.file c.buf c.env).1) .init

/-- **Any writes**, whatever comes of them. -/
theorem shows_writes (cs : List WriteCall) :
    Shows (cs.foldl Sys.write .init) (History.writes cs) := by
  refine List.foldl_rel (r := Shows) shows_init ?_
  intro c _ t h hs
  have hexec : Shows (t.exec fixedSizeLlseek c.file (.write c.buf c.env)).1
      (h.write c.file c.buf c.env).1 := (hs.write c.file c.buf c.env).1
  exact hexec

/-- **What a user of the device sees.**  Any processes use a fresh device at the same time, by any
calls, with at most one in progress on each open file, with the statements of the calls interleaved
in any way and the kernel answering anything.  There is a run of the history, one step a call, in
which the same calls begin and return in the same order with the same results; and whenever nobody
holds the lock, the device stores the commands of that history, has its pending bytes, and the files
are where the history has them. -/
theorem history_explains (seek : FixedSizeLlseek) (es : List CallEvent) (w : CallState)
    (hrun : es.foldlM (fileOps seek).step (.init .init) = some w) :
    ∃ (es' : List CallEvent) (t : Monitor.AtomicState History ℕ FileCall CallResult),
      es'.foldlM (Monitor.atomicStep (History.exec seek)) (.init .init) = some t ∧
        es'.filter Event.visible = es.filter Event.visible ∧
        (∀ f, t.slot f = .idle ↔ w.call f = none) ∧ (w.owner = none → Shows w.shared t.shared) := by
  obtain ⟨es', u, hrun', hvis, hlin⟩ := Monitor.linearizable (fileOps_implements seek) hrun
  have hexec : ∀ (t : Sys) (h : History) (f : ℕ) (c : FileCall), Shows t h →
      Shows (t.exec seek f c).1 (h.exec seek f c).1 ∧ (t.exec seek f c).2 = (h.exec seek f c).2 :=
    fun _ _ f c hs ↦ hs.exec f c
  obtain ⟨h, hrun'', hshows⟩ := Monitor.atomicStep_simulation hexec hrun' shows_init
  refine ⟨es', ⟨h, u.slot⟩, hrun'', hvis, hlin.slot_eq_idle_iff, ?_⟩
  intro hfree
  exact hlin.free hfree ▸ hshows

/-- `"a"` is pending when an allocation fails; then `"b\n"` is written, and read by another process
that has been waiting.  What it gets for the `"a"` is what the new block contained. -/
def writesAfterLoss : List CallEvent :=
  List.flatten [
    [.call 0 (.write [97] (WriteCall.plain 0 []).env)], List.replicate 9 (.step 0),
    [.ret 0 ⟨1, []⟩, .call 0 (.write [98] ⟨false, .null, fun _ ↦ 0, 0, 0⟩)],
    List.replicate 4 (.step 0),
    [.ret 0 ⟨-ENOMEM, []⟩, .call 0 (.write [98, 10] ⟨false, .fresh, fun _ ↦ 88, 0, 0⟩),
      .call 1 (.read 9 ⟨false, 0⟩)],
    List.replicate 13 (.step 0), List.replicate 6 (.step 1),
    [.ret 1 ⟨3, [88, 98, 10]⟩, .ret 0 ⟨2, []⟩]]

theorem history_explains_loss :
    ∃ w, writesAfterLoss.foldlM (fileOps fixedSizeLlseek).step (.init .init) = some w ∧
      ∃ (es' : List CallEvent) (t : Monitor.AtomicState History ℕ FileCall CallResult),
        es'.foldlM (Monitor.atomicStep (History.exec fixedSizeLlseek)) (.init .init) = some t ∧
          es'.filter Event.visible = writesAfterLoss.filter Event.visible ∧
          Shows w.shared t.shared := by
  have hrun : (writesAfterLoss.foldlM (fileOps fixedSizeLlseek).step (.init .init)).map
      Monitor.State.owner = some none := by decide +kernel
  obtain ⟨w, hw, hfree⟩ := Option.map_eq_some_iff.mp hrun
  obtain ⟨es', t, hrun', hvis, -, hshows⟩ := history_explains fixedSizeLlseek writesAfterLoss w hw
  exact ⟨w, hw, es', t, hrun', hvis, hshows hfree⟩

end Aesd
