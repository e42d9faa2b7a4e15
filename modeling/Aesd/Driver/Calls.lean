import Aesd.Lib.Monitor
import Aesd.Driver.Extent

/-!
# Calls in progress

`aesd_read`, `aesd_write`, `aesd_llseek` and `aesd_ioctl` again, this time statement by statement.
Processes that have the device open call them at the same time; all that keeps the calls apart is
`lock`.  An `Activation` is a place in one of the functions with the variables that are still
needed, `Activation.next` is the statement there, and `fileOps` puts them together to a
`Monitor.Program`: nothing but the statements between `mutex_lock_interruptible` and `mutex_unlock`
uses the device or a file position.

`fileOps_implements` says that a call that is alone does what `AesdDev.aesdRead`,
`AesdDev.aesdWrite`, `aesdLlseek` and `aesdIoctl` say, whatever the kernel decides.  So calls that
are not alone look as if they were (`calls_linearizable`), and every call can be brought to its end
(`calls_complete`).

Conventions.

* A step is a statement, with the test or the jump that follows it.  A call of another function of
  the driver or of the kernel is one statement.
* A caller is an open file.  It is assumed that a file is used by one call at a time; different
  files are used at the same time.  The VFS does not see to that: it gives a call the value of
  `f_pos` and keeps what the call makes of it, so of two calls that overlap on one file both start
  from the same position.
* `aesd_ioctl` looks at its arguments before it takes the lock.
-/

set_option autoImplicit false

namespace Aesd

open Monitor (Next Phase Program Event)

/-! ## The code -/

/-- A call on an open file, with what the kernel is going to decide about it. -/
inductive FileCall where
  /-- `aesd_read`. -/
  | read (count : ℕ) (env : ReadEnv)
  /-- `aesd_write`. -/
  | write (buf : List Byte) (env : WriteEnv)
  /-- `aesd_llseek`; the flag says that `mutex_lock_interruptible` is interrupted. -/
  | llseek (off : ℤ) (whence : Whence) (interrupted : Bool)
  /-- `aesd_ioctl`. -/
  | ioctl (cmd : ℕ) (arg : AesdSeekto) (env : IoctlEnv)

/-- What a call hands back. -/
structure CallResult where
  /-- `retval`. -/
  retval : ℤ
  /-- What the user's buffer has received. -/
  data : List Byte
  deriving DecidableEq

/-- A place in one of the functions, on the file `f`. -/
inductive Activation where
  /-- `aesd_read`: `mutex_lock_interruptible`. -/
  | readLock (f count : ℕ) (env : ReadEnv)
  /-- `aesd_circular_buffer_find_entry_offset_for_fpos`. -/
  | readFind (f count : ℕ) (env : ReadEnv)
  /-- Trimming `count`. -/
  | readTrim (f count : ℕ) (env : ReadEnv) (slot entryOffsetByte : ℕ)
  /-- `copy_to_user`. -/
  | readCopy (f count : ℕ) (env : ReadEnv) (slot entryOffsetByte : ℕ)
  /-- `*f_pos += count` and `retval = count`. -/
  | readAdvance (f count : ℕ) (data : List Byte)
  /-- `aesd_write`: `mutex_lock_interruptible`. -/
  | writeLock (f : ℕ) (buf : List Byte) (env : WriteEnv)
  /-- `kzalloc` or `krealloc_array`. -/
  | writeGrow (f : ℕ) (buf : List Byte) (env : WriteEnv)
  /-- The test of `tmp_buff_ptr`. -/
  | writeCheck (f : ℕ) (buf : List Byte) (env : WriteEnv)
  /-- `copy_from_user`. -/
  | writeCopy (f : ℕ) (buf : List Byte) (env : WriteEnv)
  /-- `tmp_buff_size += count`. -/
  | writeCount (f count : ℕ) (env : WriteEnv)
  /-- `tmp_buff_ptr[tmp_buff_size] = '\0'`. -/
  | writeTerminate (f count : ℕ) (env : WriteEnv)
  /-- The test for a newline. -/
  | writeTest (f count : ℕ) (env : WriteEnv)
  /-- `aesd_circular_buffer_add_entry`. -/
  | writeAdd (f count : ℕ)
  /-- `kfree(oldbuffptr)`. -/
  | writeFree (f count oldbuffptr : ℕ)
  /-- `tmp_buff_size = 0`. -/
  | writeResetSize (f count : ℕ)
  /-- `tmp_buff_ptr = NULL`. -/
  | writeResetPtr (f count : ℕ)
  /-- `retval = count` and `*f_pos += count`. -/
  | writeAdvance (f count : ℕ)
  /-- `aesd_llseek`: `mutex_lock_interruptible`. -/
  | llseekLock (f : ℕ) (off : ℤ) (whence : Whence) (interrupted : Bool)
  /-- `get_buffer_size`. -/
  | llseekSize (f : ℕ) (off : ℤ) (whence : Whence)
  /-- `fixed_size_llseek`. -/
  | llseekSeek (f : ℕ) (off : ℤ) (whence : Whence) (buffSize : ℕ)
  /-- `aesd_ioctl`: the test of `_IOC_TYPE`. -/
  | ioctlType (f cmd : ℕ) (arg : AesdSeekto) (env : IoctlEnv)
  /-- The test of `_IOC_NR`. -/
  | ioctlNr (f cmd : ℕ) (arg : AesdSeekto) (env : IoctlEnv)
  /-- `access_ok`. -/
  | ioctlAccess (f cmd : ℕ) (arg : AesdSeekto) (env : IoctlEnv)
  /-- The `switch`, and `copy_from_user`. -/
  | ioctlCopy (f cmd : ℕ) (arg : AesdSeekto) (env : IoctlEnv)
  /-- `aesd_adjust_file_offset`: the test of `write_cmd`. -/
  | adjustCheck (f : ℕ) (arg : AesdSeekto) (interrupted : Bool)
  /-- `mutex_lock_interruptible`. -/
  | adjustLock (f : ℕ) (arg : AesdSeekto) (interrupted : Bool)
  /-- The test of `write_cmd_offset`. -/
  | adjustTest (f : ℕ) (arg : AesdSeekto)
  /-- `get_buffer_size`. -/
  | adjustSize (f : ℕ) (arg : AesdSeekto)
  /-- The loop that adds up the sizes in front. -/
  | adjustSum (f : ℕ) (arg : AesdSeekto) (buffSize : ℕ)
  /-- `fixed_size_llseek`. -/
  | adjustSeek (f offset buffSize : ℕ)
  /-- `mutex_unlock`. -/
  | unlock (result : CallResult)
  /-- `return` after `mutex_unlock`. -/
  | done (result : CallResult)
  /-- `return` without having taken the lock. -/
  | refuse (retval : ℤ)

/-- The position of file `f` moves. -/
def Sys.setPos (s : Sys) (f pos : ℕ) : Sys := { s with fPos := Function.update s.fPos f pos }

/-- The device changes. -/
def Sys.setDev (s : Sys) (d : AesdDev) : Sys := { s with dev := d }

namespace Activation

/-- `mutex_lock_interruptible`, and what follows it. -/
def lockInterruptible (interrupted : Bool) (k : Activation) : Next Sys Activation CallResult :=
  if interrupted then .own (.refuse (-ERESTARTSYS)) else .lock k

/-- The statement at a place. -/
def next (seek : FixedSizeLlseek) : Activation → Next Sys Activation CallResult
  | .readLock f count env => lockInterruptible env.interrupted (.readFind f count env)
  | .readFind f count env => .access fun s ↦
    match s.dev.buffer.findEntryOffsetForFpos (s.fPos f) with
    | none => (s, .unlock ⟨0, []⟩)
    | some (slot, entryOffsetByte) => (s, .readTrim f count env slot entryOffsetByte)
  | .readTrim f count env slot entryOffsetByte => .access fun s ↦
    let entryBytesToRead := (s.dev.buffer.entry slot).size - entryOffsetByte
    let count := if count > entryBytesToRead then entryBytesToRead else count
    (s, .readCopy f count env slot entryOffsetByte)
  | .readCopy f count env slot entryOffsetByte => .access fun s ↦
    let data := s.dev.bytes (s.dev.buffer.entry slot).buffptr entryOffsetByte count
    if min env.missing count ≠ 0 then (s, .unlock ⟨-EFAULT, data.take (count - env.missing)⟩)
    else (s, .readAdvance f count data)
  | .readAdvance f count data => .access fun s ↦
    (s.setPos f (s.fPos f + count), .unlock ⟨count, data⟩)
  | .writeLock f buf env => lockInterruptible env.interrupted (.writeGrow f buf env)
  | .writeGrow f buf env => .access fun s ↦
    (s.setDev (s.dev.growTmpBuff env buf.length), .writeCheck f buf env)
  | .writeCheck f buf env => .access fun s ↦
    if s.dev.tmpBuffPtr = 0 then (s, .unlock ⟨-ENOMEM, []⟩) else (s, .writeCopy f buf env)
  | .writeCopy f buf env => .access fun s ↦
    let s := s.setDev (s.dev.store s.dev.tmpBuffSize (copyFromUser buf env.missing))
    if min env.missing buf.length ≠ 0 then (s, .unlock ⟨-EFAULT, []⟩)
    else (s, .writeCount f buf.length env)
  | .writeCount f count env => .access fun s ↦
    (s.setDev { s.dev with tmpBuffSize := s.dev.tmpBuffSize + count }, .writeTerminate f count env)
  | .writeTerminate f count env => .access fun s ↦
    (s.setDev (s.dev.store s.dev.tmpBuffSize [0]), .writeTest f count env)
  | .writeTest f count env => .access fun s ↦
    if s.dev.lastByte env = newline then (s, .writeAdd f count) else (s, .writeAdvance f count)
  | .writeAdd f count => .access fun s ↦
    let (buffer, oldbuffptr) := s.dev.buffer.addEntry ⟨s.dev.tmpBuffPtr, s.dev.tmpBuffSize⟩
    (s.setDev { s.dev with buffer := buffer }, .writeFree f count oldbuffptr)
  | .writeFree f count oldbuffptr => .access fun s ↦
    let mem := if oldbuffptr ≠ 0 then s.dev.mem.free oldbuffptr else s.dev.mem
    (s.setDev { s.dev with mem := mem }, .writeResetSize f count)
  | .writeResetSize f count => .access fun s ↦
    (s.setDev { s.dev with tmpBuffSize := 0 }, .writeResetPtr f count)
  | .writeResetPtr f count => .access fun s ↦
    (s.setDev { s.dev with tmpBuffPtr := 0 }, .writeAdvance f count)
  | .writeAdvance f count => .access fun s ↦
    (s.setPos f (s.fPos f + count), .unlock ⟨count, []⟩)
  | .llseekLock f off whence interrupted =>
    lockInterruptible interrupted (.llseekSize f off whence)
  | .llseekSize f off whence => .access fun s ↦
    (s, .llseekSeek f off whence (getBufferSize s.dev.buffer))
  | .llseekSeek f off whence buffSize => .access fun s ↦
    let (retval, pos) := seek (s.fPos f) off whence buffSize
    (s.setPos f pos, .unlock ⟨retval, []⟩)
  | .ioctlType f cmd arg env =>
    .own (if iocType cmd ≠ aesdIocMagic then .refuse (-ENOTTY) else .ioctlNr f cmd arg env)
  | .ioctlNr f cmd arg env =>
    .own (if iocNr cmd > aesdcharIocMaxnr then .refuse (-ENOTTY) else .ioctlAccess f cmd arg env)
  | .ioctlAccess f cmd arg env =>
    .own (if (iocDir cmd &&& iocRead ≠ 0 ∨ iocDir cmd &&& iocWrite ≠ 0) ∧
        env.accessOk (iocSize cmd) = false then .refuse (-EFAULT) else .ioctlCopy f cmd arg env)
  | .ioctlCopy f cmd arg env =>
    .own (if cmd = aesdcharIocseekto then
        if env.missing ≠ 0 then .refuse (-EFAULT) else .adjustCheck f arg env.interrupted
      else .refuse (-ENOTTY))
  | .adjustCheck f arg interrupted =>
    .own (if arg.writeCmd ≥ maxWriteOperationsSupported then .refuse (-EINVAL)
      else .adjustLock f arg interrupted)
  | .adjustLock f arg interrupted => lockInterruptible interrupted (.adjustTest f arg)
  | .adjustTest f arg => .access fun s ↦
    if arg.writeCmdOffset ≥ (s.dev.buffer.entry arg.writeCmd).size then (s, .unlock ⟨-EINVAL, []⟩)
    else (s, .adjustSize f arg)
  | .adjustSize f arg => .access fun s ↦ (s, .adjustSum f arg (getBufferSize s.dev.buffer))
  | .adjustSum f arg buffSize => .access fun s ↦
    let offset := (List.range arg.writeCmd).foldl
      (fun offset i ↦ offset + (s.dev.buffer.entry i).size) 0
    (s, .adjustSeek f (offset + arg.writeCmdOffset) buffSize)
  | .adjustSeek f offset buffSize => .access fun s ↦
    let (retval, pos) := seek (s.fPos f) offset .set buffSize
    (s.setPos f pos, .unlock ⟨if retval ≥ 0 then 0 else retval, []⟩)
  | .unlock result => .unlock (.done result)
  | .done result => .ret result
  | .refuse retval => .ret ⟨retval, []⟩

/-- Does the call have the lock? -/
def phase : Activation → Phase
  | .readLock .. | .writeLock .. | .llseekLock .. | .ioctlType .. | .ioctlNr .. | .ioctlAccess ..
  | .ioctlCopy .. | .adjustCheck .. | .adjustLock .. | .refuse _ => .before
  | .done _ => .after
  | _ => .inside

end Activation

/-! ## The lock discipline -/

section Discipline

variable {seek : FixedSizeLlseek} {interrupted : Bool} {k k' l : Activation}

/-- A statement that needs no lock: what follows needs none either. -/
theorem Activation.phase_own (h : k.next seek = .own k') : k'.phase = k.phase := by
  cases k <;> simp only [next, lockInterruptible, reduceCtorEq, Next.own.injEq] at h <;>
    (repeat' split at h) <;> cases h <;> rfl

/-- The lock is taken on the way into the functions. -/
theorem Activation.phase_lock (h : k.next seek = .lock k') :
    k.phase = .before ∧ k'.phase = .inside := by
  cases k <;> simp only [next, lockInterruptible, reduceCtorEq] at h <;> split at h <;> cases h <;>
    exact ⟨rfl, rfl⟩

theorem Activation.lockInterruptible_ne_access (f : Sys → Sys × Activation) :
    lockInterruptible interrupted k ≠ .access f := by
  cases interrupted <;> exact fun h ↦ by cases h

/-- Whatever uses the device or a file position is between the lock and the unlock. -/
theorem Activation.phase_access {f : Sys → Sys × Activation} (h : k.next seek = .access f) :
    k.phase = .inside ∧ ∀ s, (f s).2.phase = .inside := by
  cases k
  case readLock | writeLock | llseekLock | adjustLock =>
    exact absurd h (lockInterruptible_ne_access f)
  case ioctlType | ioctlNr | ioctlAccess | ioctlCopy | adjustCheck | unlock | done | refuse =>
    cases h
  all_goals
    cases h
    refine ⟨rfl, fun s ↦ ?_⟩
    dsimp only
    first | rfl | (split <;> rfl)

theorem Activation.phase_unlock (h : k.next seek = .unlock k') :
    k.phase = .inside ∧ k'.phase = .after := by
  cases k <;> simp only [next, lockInterruptible, reduceCtorEq, Next.unlock.injEq] at h
  case unlock => exact ⟨rfl, h ▸ rfl⟩
  all_goals
    split at h <;> cases h

theorem Activation.phase_ret {r : CallResult} (h : k.next seek = .ret r) : k.phase ≠ .inside := by
  cases k <;> simp only [next, lockInterruptible, reduceCtorEq] at h
  case done | refuse => exact fun hp ↦ by cases hp
  all_goals
    split at h <;> cases h

end Discipline

/-- **The file operations**, as code that keeps to the lock. -/
def fileOps (seek : FixedSizeLlseek) : Program Sys ℕ FileCall Activation CallResult where
  start f
    | .read count env => .readLock f count env
    | .write buf env => .writeLock f buf env
    | .llseek off whence interrupted => .llseekLock f off whence interrupted
    | .ioctl cmd arg env => .ioctlType f cmd arg env
  next := Activation.next seek
  phase := Activation.phase
  phase_start f c := by cases c <;> rfl
  phase_own _ _ := Activation.phase_own
  phase_lock _ _ := Activation.phase_lock
  phase_access _ _ := Activation.phase_access
  phase_unlock _ _ := Activation.phase_unlock
  phase_ret _ _ := Activation.phase_ret

/-! ## A call that is alone -/

/-- The whole call at once. -/
def Sys.exec (seek : FixedSizeLlseek) (s : Sys) (f : ℕ) : FileCall → Sys × CallResult
  | .read count env =>
    let (data, pos, retval) := s.dev.aesdRead env (s.fPos f) count
    (s.setPos f pos, ⟨retval, data⟩)
  | .write buf env =>
    let (dev, pos, retval) := s.dev.aesdWrite env (s.fPos f) buf
    ((s.setDev dev).setPos f pos, ⟨retval, []⟩)
  | .llseek off whence interrupted =>
    let (retval, pos) := aesdLlseek seek s.dev interrupted (s.fPos f) off whence
    (s.setPos f pos, ⟨retval, []⟩)
  | .ioctl cmd arg env =>
    let (retval, pos) := aesdIoctl seek s.dev env (s.fPos f) cmd arg
    (s.setPos f pos, ⟨retval, []⟩)

theorem Sys.setPos_self (s : Sys) (f : ℕ) : s.setPos f (s.fPos f) = s := by
  rw [setPos, Function.update_eq_self]

section Alone

variable {seek : FixedSizeLlseek} {s s' : Sys} {f n : ℕ} {r : CallResult}

theorem alone_unlock (s : Sys) (r : CallResult) : (fileOps seek).Alone 1 s (.unlock r) s r :=
  .unlock rfl (.ret rfl)

theorem alone_refuse {k : Activation} {e : ℤ} (hk : (fileOps seek).next k = .own (.refuse e))
    (s : Sys) : (fileOps seek).Alone 1 s k s ⟨e, []⟩ := .own hk (.ret rfl)

/-- `aesd_read` with the lock. -/
theorem alone_readFind (s : Sys) (f count : ℕ) (env : ReadEnv) (hint : env.interrupted = false) :
    ∃ n ≤ 14, (fileOps seek).Alone n s (.readFind f count env)
      (s.exec seek f (.read count env)).1 (s.exec seek f (.read count env)).2 := by
  rw [Sys.exec, AesdDev.aesdRead, if_neg (by rw [hint]; decide)]
  cases hfind : s.dev.buffer.findEntryOffsetForFpos (s.fPos f) with
  | none =>
    dsimp only
    rw [s.setPos_self]
    have hend : (fileOps seek).Alone 2 s (.readFind f count env) s ⟨0, []⟩ :=
      .access_eq rfl (by rw [hfind]) (alone_unlock _ _)
    exact ⟨2, by decide, hend⟩
  | some q =>
    obtain ⟨slot, entryOffsetByte⟩ := q
    dsimp only
    generalize hcount : (if count > (s.dev.buffer.entry slot).size - entryOffsetByte then
      (s.dev.buffer.entry slot).size - entryOffsetByte else count) = trimmed
    -- both ways out of `copy_to_user` come after the same two statements
    have hcopy : ∀ {n s' r}, (fileOps seek).Alone n s
        (.readCopy f trimmed env slot entryOffsetByte) s' r →
        (fileOps seek).Alone (n + 2) s (.readFind f count env) s' r := by
      intro n s' r h
      have htrim : (fileOps seek).Alone (n + 1) s (.readTrim f count env slot entryOffsetByte)
          s' r := .access_eq rfl (by dsimp only; rw [hcount]) h
      exact .access_eq rfl (by rw [hfind]) htrim
    by_cases hmiss : min env.missing trimmed ≠ 0
    · rw [if_pos hmiss]
      dsimp only
      rw [s.setPos_self]
      exact ⟨4, by decide, hcopy (.access_eq rfl (if_pos hmiss) (alone_unlock _ _))⟩
    · rw [if_neg hmiss]
      have hadvance : (fileOps seek).Alone 2 s (.readAdvance f trimmed
          (s.dev.bytes (s.dev.buffer.entry slot).buffptr entryOffsetByte trimmed))
          (s.setPos f (s.fPos f + trimmed))
          ⟨trimmed, s.dev.bytes (s.dev.buffer.entry slot).buffptr entryOffsetByte trimmed⟩ :=
        .access_eq rfl rfl (alone_unlock _ _)
      exact ⟨5, by decide, hcopy (.access_eq rfl (if_neg hmiss) hadvance)⟩

/-- `aesd_write` from the end of a command on. -/
theorem alone_writeAdd (s : Sys) (f count : ℕ) :
    (fileOps seek).Alone 6 s (.writeAdd f count)
      ((s.setDev s.dev.commit).setPos f (s.fPos f + count)) ⟨count, []⟩ :=
  .access_eq rfl rfl (.access_eq rfl rfl (.access_eq rfl rfl (.access_eq rfl rfl
    (.access_eq rfl rfl (alone_unlock _ _)))))

/-- `aesd_write` with the bytes copied. -/
theorem alone_writeCount (s : Sys) (f count : ℕ) (env : WriteEnv) :
    ∃ n ≤ 9, (fileOps seek).Alone n s (.writeCount f count env)
      ((s.setDev (if (s.dev.advance count).lastByte env = newline then
        (s.dev.advance count).commit else s.dev.advance count)).setPos f (s.fPos f + count))
      ⟨count, []⟩ := by
  -- the count and the terminator come first either way
  have htest : ∀ {n s' r},
      (fileOps seek).Alone n (s.setDev (s.dev.advance count)) (.writeTest f count env) s' r →
      (fileOps seek).Alone (n + 2) s (.writeCount f count env) s' r := fun h ↦
    .access_eq rfl rfl (.access_eq rfl rfl h)
  by_cases hnl : (s.dev.advance count).lastByte env = newline
  · rw [if_pos hnl]
    exact ⟨9, le_rfl, htest (.access_eq rfl (if_pos hnl) (alone_writeAdd _ f count))⟩
  · rw [if_neg hnl]
    have hadvance : (fileOps seek).Alone 2 (s.setDev (s.dev.advance count)) (.writeAdvance f count)
        ((s.setDev (s.dev.advance count)).setPos f (s.fPos f + count)) ⟨count, []⟩ :=
      .access_eq rfl rfl (alone_unlock _ _)
    exact ⟨5, by decide, htest (.access_eq rfl (if_neg hnl) hadvance)⟩

/-- `aesd_write` with the lock. -/
theorem alone_writeGrow (s : Sys) (f : ℕ) (buf : List Byte) (env : WriteEnv)
    (hint : env.interrupted = false) :
    ∃ n ≤ 14, (fileOps seek).Alone n s (.writeGrow f buf env)
      (s.exec seek f (.write buf env)).1 (s.exec seek f (.write buf env)).2 := by
  rw [Sys.exec, AesdDev.aesdWrite, if_neg (by rw [hint]; decide)]
  dsimp only
  set grown := s.dev.growTmpBuff env buf.length with hgrown
  by_cases hnull : grown.tmpBuffPtr = 0
  · rw [if_pos hnull]
    have hcheck : (fileOps seek).Alone 2 (s.setDev grown) (.writeCheck f buf env) (s.setDev grown)
        ⟨-ENOMEM, []⟩ := .access_eq rfl (if_pos hnull) (alone_unlock _ _)
    have hsame : (s.setDev grown).setPos f (s.fPos f) = s.setDev grown :=
      (s.setDev grown).setPos_self f
    dsimp only
    rw [hsame]
    exact ⟨3, by decide, .access_eq rfl rfl hcheck⟩
  · rw [if_neg hnull]
    set copied := grown.store grown.tmpBuffSize (copyFromUser buf env.missing) with hcopied
    have hcopy : ∀ {n s' r}, (fileOps seek).Alone n (s.setDev grown) (.writeCopy f buf env) s' r →
        (fileOps seek).Alone (n + 2) s (.writeGrow f buf env) s' r := fun h ↦
      .access_eq rfl rfl (.access_eq rfl (if_neg hnull) h)
    by_cases hmiss : min env.missing buf.length ≠ 0
    · rw [if_pos hmiss]
      have hsame : (s.setDev copied).setPos f (s.fPos f) = s.setDev copied :=
        (s.setDev copied).setPos_self f
      dsimp only
      rw [hsame]
      exact ⟨4, by decide, hcopy (.access_eq rfl (if_pos hmiss) (alone_unlock _ _))⟩
    · rw [if_neg hmiss]
      obtain ⟨n, hn, hcount⟩ := @alone_writeCount seek (s.setDev copied) f buf.length env
      exact ⟨n + 3, by omega, hcopy (.access_eq rfl (if_neg hmiss) hcount)⟩

/-- `aesd_llseek` with the lock. -/
theorem alone_llseekSize (s : Sys) (f : ℕ) (off : ℤ) (whence : Whence) :
    (fileOps seek).Alone 3 s (.llseekSize f off whence)
      (s.exec seek f (.llseek off whence false)).1 (s.exec seek f (.llseek off whence false)).2 :=
  .access_eq rfl rfl (.access_eq rfl rfl (alone_unlock _ _))

/-- `aesd_adjust_file_offset` with the lock. -/
theorem alone_adjustTest (s : Sys) (f : ℕ) (arg : AesdSeekto)
    (hcmd : ¬arg.writeCmd ≥ maxWriteOperationsSupported) :
    ∃ n ≤ 5, (fileOps seek).Alone n s (.adjustTest f arg)
      (s.setPos f (aesdAdjustFileOffset seek s.dev false (s.fPos f) arg.writeCmd
        arg.writeCmdOffset).2)
      ⟨(aesdAdjustFileOffset seek s.dev false (s.fPos f) arg.writeCmd arg.writeCmdOffset).1,
        []⟩ := by
  rw [aesdAdjustFileOffset, if_neg hcmd, if_neg (by decide)]
  by_cases hoff : arg.writeCmdOffset ≥ (s.dev.buffer.entry arg.writeCmd).size
  · rw [if_pos hoff]
    dsimp only
    rw [s.setPos_self]
    exact ⟨2, by decide, .access_eq rfl (if_pos hoff) (alone_unlock _ _)⟩
  · rw [if_neg hoff]
    exact ⟨5, le_rfl, .access_eq rfl (if_neg hoff) (.access_eq rfl rfl (.access_eq rfl rfl
      (.access_eq rfl rfl (alone_unlock _ _))))⟩

/-- `aesd_adjust_file_offset`. -/
theorem alone_adjustCheck (s : Sys) (f : ℕ) (arg : AesdSeekto) (interrupted : Bool) :
    ∃ n ≤ 7, (fileOps seek).Alone n s (.adjustCheck f arg interrupted)
      (s.setPos f (aesdAdjustFileOffset seek s.dev interrupted (s.fPos f) arg.writeCmd
        arg.writeCmdOffset).2)
      ⟨(aesdAdjustFileOffset seek s.dev interrupted (s.fPos f) arg.writeCmd
        arg.writeCmdOffset).1, []⟩ := by
  by_cases hcmd : arg.writeCmd ≥ maxWriteOperationsSupported
  · rw [aesdAdjustFileOffset, if_pos hcmd]
    dsimp only
    rw [s.setPos_self]
    refine ⟨1, by decide, alone_refuse ?_ s⟩
    exact congrArg Next.own (if_pos hcmd)
  · have hlock : (fileOps seek).next (.adjustCheck f arg interrupted) =
        .own (.adjustLock f arg interrupted) := congrArg Next.own (if_neg hcmd)
    cases interrupted with
    | true =>
      rw [aesdAdjustFileOffset, if_neg hcmd, if_pos rfl]
      dsimp only
      rw [s.setPos_self]
      exact ⟨2, by decide, .own hlock (alone_refuse rfl s)⟩
    | false =>
      obtain ⟨n, hn, h⟩ := @alone_adjustTest seek s f arg hcmd
      exact ⟨n + 2, by omega, .own hlock (.lock rfl h)⟩

/-- `aesd_ioctl`: one test after another, each of which can refuse the call. -/
theorem alone_ioctlType (s : Sys) (f cmd : ℕ) (arg : AesdSeekto) (env : IoctlEnv) :
    ∃ n ≤ 11, (fileOps seek).Alone n s (.ioctlType f cmd arg env)
      (s.exec seek f (.ioctl cmd arg env)).1 (s.exec seek f (.ioctl cmd arg env)).2 := by
  rw [Sys.exec, aesdIoctl]
  by_cases htype : iocType cmd ≠ aesdIocMagic
  · rw [if_pos htype]
    dsimp only
    rw [s.setPos_self]
    refine ⟨1, by decide, alone_refuse ?_ s⟩
    exact congrArg Next.own (if_pos htype)
  rw [if_neg htype]
  have hnr : (fileOps seek).next (.ioctlType f cmd arg env) = .own (.ioctlNr f cmd arg env) :=
    congrArg Next.own (if_neg htype)
  by_cases hmax : iocNr cmd > aesdcharIocMaxnr
  · rw [if_pos hmax]
    dsimp only
    rw [s.setPos_self]
    refine ⟨2, by decide, .own hnr (alone_refuse ?_ s)⟩
    exact congrArg Next.own (if_pos hmax)
  rw [if_neg hmax]
  have haccess : (fileOps seek).next (.ioctlNr f cmd arg env) = .own (.ioctlAccess f cmd arg env) :=
    congrArg Next.own (if_neg hmax)
  by_cases hbad : (iocDir cmd &&& iocRead ≠ 0 ∨ iocDir cmd &&& iocWrite ≠ 0) ∧
      env.accessOk (iocSize cmd) = false
  · rw [if_pos hbad]
    dsimp only
    rw [s.setPos_self]
    refine ⟨3, by decide, .own hnr (.own haccess (alone_refuse ?_ s))⟩
    exact congrArg Next.own (if_pos hbad)
  rw [if_neg hbad]
  have hcopy : (fileOps seek).next (.ioctlAccess f cmd arg env) = .own (.ioctlCopy f cmd arg env) :=
    congrArg Next.own (if_neg hbad)
  by_cases hcmd : cmd = aesdcharIocseekto
  swap
  · rw [if_neg hcmd]
    dsimp only
    rw [s.setPos_self]
    refine ⟨4, by decide, .own hnr (.own haccess (.own hcopy (alone_refuse ?_ s)))⟩
    exact congrArg Next.own (if_neg hcmd)
  rw [if_pos hcmd]
  by_cases hmiss : env.missing ≠ 0
  · rw [if_pos hmiss]
    dsimp only
    rw [s.setPos_self]
    refine ⟨4, by decide, .own hnr (.own haccess (.own hcopy (alone_refuse ?_ s)))⟩
    exact (congrArg Next.own (if_pos hcmd)).trans (congrArg Next.own (if_pos hmiss))
  · rw [if_neg hmiss]
    have hcheck : (fileOps seek).next (.ioctlCopy f cmd arg env) =
        .own (.adjustCheck f arg env.interrupted) :=
      (congrArg Next.own (if_pos hcmd)).trans (congrArg Next.own (if_neg hmiss))
    obtain ⟨n, hn, h⟩ := @alone_adjustCheck seek s f arg env.interrupted
    exact ⟨n + 4, by omega, .own hnr (.own haccess (.own hcopy (.own hcheck h)))⟩

/-- **A call that is alone** does what the functions of the device say, in at most sixteen steps. -/
theorem fileOps_implements (seek : FixedSizeLlseek) :
    (fileOps seek).Implements (Sys.exec seek) 16 := by
  intro s f c
  cases c with
  | read count env =>
    cases hint : env.interrupted with
    | true =>
      have heq : s.exec seek f (.read count env) = (s, ⟨-ERESTARTSYS, []⟩) := by
        rw [Sys.exec, AesdDev.aesdRead, if_pos hint]
        dsimp only
        rw [s.setPos_self]
      rw [heq]
      refine ⟨1, by decide, alone_refuse ?_ s⟩
      exact if_pos hint
    | false =>
      obtain ⟨n, hn, h⟩ := @alone_readFind seek s f count env hint
      exact ⟨n + 1, by omega, .lock (if_neg (by rw [hint]; decide)) h⟩
  | write buf env =>
    cases hint : env.interrupted with
    | true =>
      have heq : s.exec seek f (.write buf env) = (s, ⟨-ERESTARTSYS, []⟩) := by
        rw [Sys.exec, AesdDev.aesdWrite, if_pos hint]
        exact congrArg (·, _) (s.setPos_self f)
      rw [heq]
      refine ⟨1, by decide, alone_refuse ?_ s⟩
      exact if_pos hint
    | false =>
      obtain ⟨n, hn, h⟩ := @alone_writeGrow seek s f buf env hint
      exact ⟨n + 1, by omega, .lock (if_neg (by rw [hint]; decide)) h⟩
  | llseek off whence interrupted =>
    cases interrupted with
    | true =>
      have heq : s.exec seek f (.llseek off whence true) = (s, ⟨-ERESTARTSYS, []⟩) :=
        congrArg (·, _) (s.setPos_self f)
      rw [heq]
      exact ⟨1, by decide, alone_refuse rfl s⟩
    | false => exact ⟨4, by decide, .lock rfl (alone_llseekSize s f off whence)⟩
  | ioctl cmd arg env =>
    obtain ⟨n, hn, h⟩ := @alone_ioctlType seek s f cmd arg env
    exact ⟨n, by omega, h⟩

end Alone

/-! ## Calls that are not alone -/

/-- The device, the lock and the calls in progress on each open file. -/
abbrev CallState : Type := Monitor.State Sys ℕ Activation

/-- A call begins, makes a step, or returns. -/
abbrev CallEvent : Type := Event ℕ FileCall CallResult

/-- **Every interleaving of calls**, on any number of open files with at most one call in progress
on each, whatever the kernel decides about each call, and from any device and any file positions.

* There is a run in which each call is one step that does what the functions of the device say, and
  in which the same calls begin and return in the same order and with the same results.
* The same files are in use at the end of both; and if nobody holds the lock, the device and the
  file positions are the same.
* At most one call is between the lock and the unlock, and it is the one that holds the lock.  When
  no call is in progress the lock is free, whichever way the calls have ended. -/
theorem calls_linearizable (seek : FixedSizeLlseek) (s : Sys) (es : List CallEvent) (w : CallState)
    (hrun : es.foldlM (fileOps seek).step (.init s) = some w) :
    (∃ (es' : List CallEvent) (t : Monitor.AtomicState Sys ℕ FileCall CallResult),
      es'.foldlM (Monitor.atomicStep (Sys.exec seek)) (.init s) = some t ∧
        es'.filter Event.visible = es.filter Event.visible ∧
        (∀ f, t.slot f = .idle ↔ w.call f = none) ∧ (w.owner = none → t.shared = w.shared)) ∧
      (∀ f, w.owner = some f ↔ ∃ k, w.call f = some k ∧ k.phase = .inside) ∧
      ((∀ f, w.call f = none) → w.owner = none) := by
  obtain ⟨es', t, hrun', hvis, h⟩ := Monitor.linearizable (fileOps_implements seek) hrun
  exact ⟨⟨es', t, hrun', hvis, h.slot_eq_idle_iff, h.free⟩, h.mutex, h.owner_of_idle⟩

/-- A reader and a writer of an empty device: both have called before either has the lock, and the
writer is first. -/
def readerAndWriter : List CallEvent :=
  [.call 1 (.read 2 ⟨false, 0⟩), .call 0 (.write [97, 10] (WriteCall.plain 0 []).env),
    .step 0, .step 0, .step 0, .step 0, .step 0, .step 0, .step 0, .step 0, .step 0, .step 0,
    .step 0, .step 0, .step 0, .step 1, .ret 0 ⟨2, []⟩, .step 1, .step 1, .step 1, .step 1, .step 1,
    .ret 1 ⟨2, [97, 10]⟩]

theorem calls_linearizable_reader_writer :
    ∃ w, readerAndWriter.foldlM (fileOps fixedSizeLlseek).step (.init .init) = some w ∧
      w.owner = none ∧
      ∃ (es' : List CallEvent) (t : Monitor.AtomicState Sys ℕ FileCall CallResult),
        es'.foldlM (Monitor.atomicStep (Sys.exec fixedSizeLlseek)) (.init .init) = some t ∧
          es'.filter Event.visible = readerAndWriter.filter Event.visible ∧
          t.shared = w.shared := by
  have hrun : (readerAndWriter.foldlM (fileOps fixedSizeLlseek).step (.init .init)).map
      Monitor.State.owner = some none := by decide +kernel
  obtain ⟨w, hw, hfree⟩ := Option.map_eq_some_iff.mp hrun
  obtain ⟨⟨es', t, hrun', hvis, -, hsame⟩, -⟩ :=
    calls_linearizable fixedSizeLlseek .init readerAndWriter w hw
  exact ⟨w, hw, hfree, es', t, hrun', hvis, hsame hfree⟩

/-- **Every call can be brought to its end.**  Whatever calls are in progress and wherever they are,
a call can go on until it has returned, without another call having to begin; it takes at most
thirty-four events, for it may have to wait for one other call. -/
theorem calls_complete (seek : FixedSizeLlseek) (s : Sys) (es : List CallEvent) (w : CallState)
    (hrun : es.foldlM (fileOps seek).step (.init s) = some w) (f : ℕ) :
    ∃ (more : List CallEvent) (w' : CallState), more.length ≤ 34 ∧
      (∀ e ∈ more, ∀ g c, e ≠ .call g c) ∧ more.foldlM (fileOps seek).step w = some w' ∧
      w'.call f = none :=
  Monitor.exists_completion (fileOps_implements seek) hrun f

/-- The reader waits while the writer has made room and not copied anything yet. -/
theorem calls_complete_reader_waits :
    ∃ w, (readerAndWriter.take 4).foldlM (fileOps fixedSizeLlseek).step (.init .init) = some w ∧
      w.owner = some 0 ∧
      ∃ (more : List CallEvent) (w' : CallState),
        more.foldlM (fileOps fixedSizeLlseek).step w = some w' ∧ w'.call 1 = none := by
  have hrun : ((readerAndWriter.take 4).foldlM (fileOps fixedSizeLlseek).step (.init .init)).map
      Monitor.State.owner = some (some 0) := by decide +kernel
  obtain ⟨w, hw, hheld⟩ := Option.map_eq_some_iff.mp hrun
  obtain ⟨more, w', -, -, hmore, hdone⟩ :=
    calls_complete fixedSizeLlseek .init (readerAndWriter.take 4) w hw 1
  exact ⟨w, hw, hheld, more, w', hmore, hdone⟩

end Aesd
