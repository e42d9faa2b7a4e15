import Aesd.Driver.CircularBuffer
import Aesd.Lib.Heap

/-!
# The character device

`aesd-char-driver/main.c`: the device state and the file operations, translated function by
function.  Nothing is proved here.

What the kernel decides about a call is part of the call.  A `WriteEnv` says whether
`mutex_lock_interruptible` was interrupted, what the allocator answers, how many bytes
`copy_from_user` could not copy, what an allocation that is not zeroed happens to contain, and what
byte lies in front of a block; a `ReadEnv` and an `IoctlEnv` do the same for the other calls.  So
every operation is a function, and "for every outcome" is a quantifier over the environments.

Conventions.

* A pointer is the identity of a block in `Heap`; `0` is `NULL`.  `krealloc_array` may answer with
  the block it was given, resized in place, or with a new one that takes its contents over.
* `size_t` and `loff_t` values are natural numbers.  The VFS passes no `count` above
  `MAX_RW_COUNT` and no negative position, and a block that was allocated fits in memory, so no
  sum below reaches `2 ^ 63`; the one subtraction that can go below zero,
  `tmp_buff_size - 1`, is written out.
* `AESD_DEBUG` is defined in `aesdchar.h`, so `DEBUG_BYTE` is `1` and the terminator is written.
* The block `aesd_device.buffer` itself holds no command data and is not in the heap; what becomes
  of it is in `Aesd.Driver.Loading`.
* `fixed_size_llseek` is the kernel's; it is a parameter of the functions that call it.
-/

set_option autoImplicit false

namespace Aesd

/-- A `char`. -/
abbrev Byte := UInt8

/-- The character that ends a command. -/
def newline : Byte := 10

/-- Is the byte a newline? -/
def isNewline (b : Byte) : Bool := b == newline

/-! ## Error numbers -/

/-- Interrupted system call, to be restarted. -/
def ERESTARTSYS : ℤ := 512

/-- Out of memory. -/
def ENOMEM : ℤ := 12

/-- Bad address. -/
def EFAULT : ℤ := 14

/-- Invalid argument. -/
def EINVAL : ℤ := 22

/-- Inappropriate ioctl. -/
def ENOTTY : ℤ := 25

/-! ## The allocator and the user copies -/

/-- What the allocator answers: nothing, a new block, or — when there is a block to grow — that
block, grown where it is. -/
inductive Alloc where
  /-- `NULL`. -/
  | null
  /-- A new block. -/
  | fresh
  /-- The old block, resized. -/
  | inPlace
  deriving DecidableEq, Repr

/-- `kzalloc`: the heap afterwards and the pointer. -/
def kzalloc (mem : Heap (List Byte)) (answer : Alloc) (size : ℕ) : Heap (List Byte) × ℕ :=
  match answer with
  | .null => (mem, 0)
  | _ => (mem.alloc (List.replicate size 0), mem.next)

/-- `krealloc_array(ptr, newN, newSize, …)`.  A failure leaves the old block alone; the bytes past
the old length are whatever `fill` says. -/
def kreallocArray (mem : Heap (List Byte)) (answer : Alloc) (fill : ℕ → Byte)
    (ptr newN newSize : ℕ) : Heap (List Byte) × ℕ :=
  match answer, mem.block ptr with
  | .null, _ => (mem, 0)
  | .inPlace, some old => (mem.put ptr (Block.resize old (newN * newSize) fill), ptr)
  | _, old =>
    ((mem.alloc (Block.resize (old.getD []) (newN * newSize) fill)).release ptr, mem.next)

/-- What `copy_from_user` leaves in the target when it cannot copy the last `missing` bytes: the
bytes before them, and zeros. -/
def copyFromUser (buf : List Byte) (missing : ℕ) : List Byte :=
  buf.take (buf.length - missing) ++ List.replicate (min missing buf.length) 0

/-! ## The device -/

/-- `struct aesd_dev`, with the command data it points to. -/
structure AesdDev where
  /-- The block of the unfinished command. -/
  tmpBuffPtr : ℕ
  /-- The number of bytes of the unfinished command. -/
  tmpBuffSize : ℕ
  /-- The stored commands. -/
  buffer : AesdCircularBuffer
  /-- The blocks of command data. -/
  mem : Heap (List Byte)

namespace AesdDev

/-- The device `aesd_init_module` leaves: everything zero. -/
def init : AesdDev := ⟨0, 0, .init, .empty⟩

/-- `count` bytes of block `ptr`, from byte `off` on. -/
def bytes (d : AesdDev) (ptr off count : ℕ) : List Byte :=
  (((d.mem.block ptr).getD []).drop off).take count

/-- The stored commands, oldest first. -/
def stored (d : AesdDev) : List (List Byte) :=
  d.buffer.entries.map fun e ↦ d.bytes e.buffptr 0 e.size

/-- The bytes of the unfinished command. -/
def pending (d : AesdDev) : List Byte := d.bytes d.tmpBuffPtr 0 d.tmpBuffSize

end AesdDev

/-- What the kernel decides about `aesd_init_module`. -/
structure InitEnv where
  /-- The result of `alloc_chrdev_region`. -/
  region : ℤ
  /-- Does `kzalloc` find room for the circular buffer? -/
  room : Bool
  /-- The result of `cdev_add`. -/
  cdev : ℤ

/-- `aesd_init_module`: the device, or the error returned. -/
def aesdInitModule (env : InitEnv) : Except ℤ AesdDev :=
  if env.region < 0 then .error env.region
  else if !env.room then .error (-ENOMEM)
  else if env.cdev = 0 then .ok .init
  else .error env.cdev

/-! ## Writing -/

/-- What the kernel decides about one `aesd_write` call. -/
structure WriteEnv where
  /-- `mutex_lock_interruptible` was interrupted. -/
  interrupted : Bool
  /-- The allocator's answer. -/
  alloc : Alloc
  /-- The contents of memory the allocator does not clear, by position in the block. -/
  fill : ℕ → Byte
  /-- How many bytes `copy_from_user` cannot copy. -/
  missing : ℕ
  /-- The byte in front of the block. -/
  stray : Byte

/-- `DEBUG_BYTE`. -/
def debugByte : ℕ := 1

namespace AesdDev

/-- Make room for `count` more bytes in the pending block: a new block if nothing is pending, else
the old one grown.  Whatever the allocator answers becomes `tmp_buff_ptr`. -/
def growTmpBuff (d : AesdDev) (env : WriteEnv) (count : ℕ) : AesdDev :=
  if d.tmpBuffSize = 0 then
    let (mem, ptr) := kzalloc d.mem env.alloc (count + debugByte)
    { d with tmpBuffPtr := ptr, mem := mem }
  else
    let (mem, ptr) := kreallocArray d.mem env.alloc env.fill d.tmpBuffPtr
      (d.tmpBuffSize + count + debugByte) 1
    { d with tmpBuffPtr := ptr, mem := mem }

/-- Store bytes into the pending block, from byte `off` on. -/
def store (d : AesdDev) (off : ℕ) (bs : List Byte) : AesdDev :=
  let blk := (d.mem.block d.tmpBuffPtr).getD []
  { d with mem := d.mem.put d.tmpBuffPtr (Block.splice blk off bs) }

/-- Count the copied bytes as pending, and terminate them for the debug output. -/
def advance (d : AesdDev) (count : ℕ) : AesdDev :=
  let longer := { d with tmpBuffSize := d.tmpBuffSize + count }
  longer.store longer.tmpBuffSize [0]

/-- `tmp_buff_ptr[tmp_buff_size - 1]`.  With nothing pending the index wraps around and the byte in
front of the block is read. -/
def lastByte (d : AesdDev) (env : WriteEnv) : Byte :=
  if d.tmpBuffSize = 0 then env.stray
  else (((d.mem.block d.tmpBuffPtr).getD [])[d.tmpBuffSize - 1]?).getD env.stray

/-- The command is terminated: hand its block to the circular buffer, free the block that falls
out, and start over with nothing pending. -/
def commit (d : AesdDev) : AesdDev :=
  let (buffer, oldbuffptr) := d.buffer.addEntry ⟨d.tmpBuffPtr, d.tmpBuffSize⟩
  let mem := if oldbuffptr ≠ 0 then d.mem.free oldbuffptr else d.mem
  { tmpBuffPtr := 0, tmpBuffSize := 0, buffer := buffer, mem := mem }

/-- `aesd_write`: the device, the file position and the return value. -/
def aesdWrite (d : AesdDev) (env : WriteEnv) (fPos : ℕ) (buf : List Byte) : AesdDev × ℕ × ℤ :=
  if env.interrupted then (d, fPos, -ERESTARTSYS)
  else
    let grown := d.growTmpBuff env buf.length
    if grown.tmpBuffPtr = 0 then (grown, fPos, -ENOMEM)
    else
      let copied := grown.store grown.tmpBuffSize (copyFromUser buf env.missing)
      if min env.missing buf.length ≠ 0 then (copied, fPos, -EFAULT)
      else
        let longer := copied.advance buf.length
        let written := if longer.lastByte env = newline then longer.commit else longer
        (written, fPos + buf.length, buf.length)

/-! ## Reading -/

end AesdDev

/-- What the kernel decides about one `aesd_read` call. -/
structure ReadEnv where
  /-- `mutex_lock_interruptible` was interrupted. -/
  interrupted : Bool
  /-- How many bytes `copy_to_user` cannot copy. -/
  missing : ℕ

namespace AesdDev

/-- `aesd_read`: what the user's buffer receives, the file position and the return value. -/
def aesdRead (d : AesdDev) (env : ReadEnv) (fPos count : ℕ) : List Byte × ℕ × ℤ :=
  if env.interrupted then ([], fPos, -ERESTARTSYS)
  else
    match d.buffer.findEntryOffsetForFpos fPos with
    | none => ([], fPos, 0)
    | some (slot, entryOffsetByte) =>
      let entry := d.buffer.entry slot
      let entryBytesToRead := entry.size - entryOffsetByte
      let count := if count > entryBytesToRead then entryBytesToRead else count
      let data := d.bytes entry.buffptr entryOffsetByte count
      if min env.missing count ≠ 0 then (data.take (count - env.missing), fPos, -EFAULT)
      else (data, fPos + count, count)

end AesdDev

/-! ## Seeking -/

/-- The third argument of `llseek`. -/
inductive Whence where
  /-- `SEEK_SET`. -/
  | set
  /-- `SEEK_CUR`. -/
  | cur
  /-- `SEEK_END`. -/
  | fromEnd
  /-- Any other value. -/
  | other (n : ℤ)
  deriving DecidableEq, Repr

/-- `fixed_size_llseek(filp, offset, whence, size)`, as a function of `filp->f_pos` and the other
three arguments: the return value and the new `f_pos`. -/
abbrev FixedSizeLlseek := ℕ → ℤ → Whence → ℕ → ℤ × ℕ

/-- `get_buffer_size`: the sizes of all ten slots, summed. -/
def getBufferSize (b : AesdCircularBuffer) : ℕ :=
  (List.range maxWriteOperationsSupported).foldl (fun size i ↦ size + (b.entry i).size) 0

/-- `aesd_llseek`: the return value and the new file position. -/
def aesdLlseek (seek : FixedSizeLlseek) (d : AesdDev) (interrupted : Bool) (fPos : ℕ) (off : ℤ)
    (whence : Whence) : ℤ × ℕ :=
  if interrupted then (-ERESTARTSYS, fPos)
  else seek fPos off whence (getBufferSize d.buffer)

/-- `aesd_adjust_file_offset`: the return value and the new file position. -/
def aesdAdjustFileOffset (seek : FixedSizeLlseek) (d : AesdDev) (interrupted : Bool)
    (fPos writeCmd writeCmdOffset : ℕ) : ℤ × ℕ :=
  if writeCmd ≥ maxWriteOperationsSupported then (-EINVAL, fPos)
  else if interrupted then (-ERESTARTSYS, fPos)
  else if writeCmdOffset ≥ (d.buffer.entry writeCmd).size then (-EINVAL, fPos)
  else
    let buffSize := getBufferSize d.buffer
    let offset := (List.range writeCmd).foldl (fun offset i ↦ offset + (d.buffer.entry i).size) 0
    let (retval, fPos') := seek fPos ((offset + writeCmdOffset : ℕ) : ℤ) .set buffSize
    (if retval ≥ 0 then 0 else retval, fPos')

/-- `struct aesd_seekto`. -/
structure AesdSeekto where
  /-- The command to seek into. -/
  writeCmd : ℕ
  /-- The offset within the command. -/
  writeCmdOffset : ℕ
  deriving DecidableEq, Repr

/-- `_IOC_NR`. -/
def iocNr (cmd : ℕ) : ℕ := cmd % 2 ^ 8

/-- `_IOC_TYPE`. -/
def iocType (cmd : ℕ) : ℕ := cmd / 2 ^ 8 % 2 ^ 8

/-- `_IOC_SIZE`. -/
def iocSize (cmd : ℕ) : ℕ := cmd / 2 ^ 16 % 2 ^ 14

/-- `_IOC_DIR`. -/
def iocDir (cmd : ℕ) : ℕ := cmd / 2 ^ 30 % 2 ^ 2

/-- `_IOC_WRITE`. -/
def iocWrite : ℕ := 1

/-- `_IOC_READ`. -/
def iocRead : ℕ := 2

/-- `AESD_IOC_MAGIC`. -/
def aesdIocMagic : ℕ := 0xBC

/-- `AESDCHAR_IOC_MAXNR`. -/
def aesdcharIocMaxnr : ℕ := 1

/-- `AESDCHAR_IOCSEEKTO`, that is `_IOWR(AESD_IOC_MAGIC, 1, struct aesd_seekto)`. -/
def aesdcharIocseekto : ℕ := (iocRead + iocWrite) * 2 ^ 30 + 8 * 2 ^ 16 + aesdIocMagic * 2 ^ 8 + 1

/-- What the kernel decides about one `aesd_ioctl` call. -/
structure IoctlEnv where
  /-- Does `access_ok` accept this many bytes at the argument? -/
  accessOk : ℕ → Bool
  /-- How many bytes of the argument `copy_from_user` cannot copy. -/
  missing : ℕ
  /-- `mutex_lock_interruptible` was interrupted. -/
  interrupted : Bool

/-- `aesd_ioctl`: the return value and the new file position.  `arg` is what the argument points
to. -/
def aesdIoctl (seek : FixedSizeLlseek) (d : AesdDev) (env : IoctlEnv) (fPos cmd : ℕ)
    (arg : AesdSeekto) : ℤ × ℕ :=
  if iocType cmd ≠ aesdIocMagic then (-ENOTTY, fPos)
  else if iocNr cmd > aesdcharIocMaxnr then (-ENOTTY, fPos)
  else if (iocDir cmd &&& iocRead ≠ 0 ∨ iocDir cmd &&& iocWrite ≠ 0) ∧
      env.accessOk (iocSize cmd) = false then (-EFAULT, fPos)
  else if cmd = aesdcharIocseekto then
    if env.missing ≠ 0 then (-EFAULT, fPos)
    else aesdAdjustFileOffset seek d env.interrupted fPos arg.writeCmd arg.writeCmdOffset
  else (-ENOTTY, fPos)

/-! ## Unloading -/

/-- `aesd_cleanup_module`: the heap of command data it leaves. -/
def aesdCleanupModule (d : AesdDev) : Heap (List Byte) :=
  let mem := if d.tmpBuffSize > 0 then d.mem.free d.tmpBuffPtr else d.mem
  (List.range maxWriteOperationsSupported).foldl (fun mem i ↦
    if (d.buffer.entry i).buffptr ≠ 0 then mem.free (d.buffer.entry i).buffptr else mem) mem

/-! ## The device with its open files -/

/-- The device and the position of every open file. -/
structure Sys where
  /-- The device. -/
  dev : AesdDev
  /-- `f_pos` of each open file. -/
  fPos : ℕ → ℕ

/-- A fresh device; every file is at its beginning. -/
def Sys.init : Sys := ⟨.init, fun _ ↦ 0⟩

/-- One `aesd_write` call, with everything the kernel decides about it. -/
structure WriteCall where
  /-- The open file it goes through. -/
  file : ℕ
  /-- The bytes passed in. -/
  buf : List Byte
  /-- What the kernel decides. -/
  env : WriteEnv

/-- The device and the files after a write. -/
def Sys.write (s : Sys) (c : WriteCall) : Sys :=
  let (dev, fPos, _) := s.dev.aesdWrite c.env (s.fPos c.file) c.buf
  ⟨dev, Function.update s.fPos c.file fPos⟩

/-- What a write returns. -/
def Sys.writeRet (s : Sys) (c : WriteCall) : ℤ := (s.dev.aesdWrite c.env (s.fPos c.file) c.buf).2.2

/-- One `aesd_read` call. -/
structure ReadCall where
  /-- The open file it goes through. -/
  file : ℕ
  /-- The size of the user's buffer. -/
  count : ℕ
  /-- What the kernel decides. -/
  env : ReadEnv

/-- The device and the files after a read. -/
def Sys.read (s : Sys) (c : ReadCall) : Sys :=
  ⟨s.dev, Function.update s.fPos c.file (s.dev.aesdRead c.env (s.fPos c.file) c.count).2.1⟩

/-- The bytes a read delivers. -/
def Sys.readData (s : Sys) (c : ReadCall) : List Byte :=
  (s.dev.aesdRead c.env (s.fPos c.file) c.count).1

end Aesd
