import Aesd.Driver.Read
import Mathlib.Algebra.Order.BigOperators.Group.List
import Mathlib.Algebra.Order.Group.Nat

/-!
# Seeking to a command

`AESDCHAR_IOCSEEKTO` takes the number of a command and an offset inside it, and is to move the file
position to that byte.  The number counts the stored commands from the oldest one, as reading does;
but `aesd_adjust_file_offset` looks the command up in the slot of that number, and adds up the sizes
of the slots before it.  The two agree as long as the oldest command is in slot `0`.

`SeekCorrect` is what the call is for, and `seek_correct_iff` says exactly when it does that, for
any device a run of writes leaves: the slot of that number and the command of that number have to
be on the same side of the offset, and if both are longer, what lies in front of the slot has to be
as long as what lies in front of the command.  All the commands of a device can be found exactly
when turning the slots by `out_offs` does not change their sizes.

The kernel's `fixed_size_llseek` is a parameter; what is used of it is `SeeksInside`.
-/

set_option autoImplicit false

namespace Aesd

/-- Seeking from the beginning to a position that is not past the end goes there. -/
def SeeksInside (seek : FixedSizeLlseek) : Prop :=
  ∀ fPos o size : ℕ, o ≤ size → seek fPos (o : ℤ) .set size = ((o : ℤ), o)

/-- `fixed_size_llseek`, as the kernel documents it. -/
def fixedSizeLlseek : FixedSizeLlseek := fun fPos off whence size ↦
  let target : Option ℤ := match whence with
    | .set => some off
    | .cur => some (fPos + off)
    | .fromEnd => some (size + off)
    | .other _ => none
  match target with
  | some target =>
    if 0 ≤ target ∧ target ≤ size then (target, target.toNat) else (-EINVAL, fPos)
  | none => (-EINVAL, fPos)

theorem seeksInside_fixedSizeLlseek : SeeksInside fixedSizeLlseek := by
  intro fPos o size ho
  simp only [fixedSizeLlseek]
  rw [if_pos (by omega), Int.toNat_natCast]

/-- The call gets the lock and its argument. -/
def IoctlEnv.Succeeds (env : IoctlEnv) : Prop :=
  (∀ n, env.accessOk n = true) ∧ env.missing = 0 ∧ env.interrupted = false

/-- **What seeking to a command is for.**  It succeeds exactly when there is such a command and such
a byte in it; it then moves the file position to that byte of the content, and the next read starts
there. -/
def SeekCorrect (seek : FixedSizeLlseek) (d : AesdDev) (cmd off : ℕ) : Prop :=
  ∀ env : IoctlEnv, env.Succeeds → ∀ fPos : ℕ,
    (0 ≤ (aesdIoctl seek d env fPos aesdcharIocseekto ⟨cmd, off⟩).1 ↔
      ∃ l, d.stored[cmd]? = some l ∧ off < l.length) ∧
    (0 ≤ (aesdIoctl seek d env fPos aesdcharIocseekto ⟨cmd, off⟩).1 →
      (aesdIoctl seek d env fPos aesdcharIocseekto ⟨cmd, off⟩).2 =
          (d.stored.take cmd).flatten.length + off ∧
        ∀ (renv : ReadEnv) (count : ℕ), renv.interrupted = false → renv.missing = 0 → 0 < count →
          ∃ l b, d.stored[cmd]? = some l ∧ l[off]? = some b ∧
            (d.aesdRead renv (aesdIoctl seek d env fPos aesdcharIocseekto ⟨cmd, off⟩).2
              count).1.head? = some b)

/-- The size of slot `i`. -/
def slotSize (b : AesdCircularBuffer) (i : ℕ) : ℕ := (b.entry i).size

/-- The size of the `i`-th slot from the oldest command on. -/
def commandSize (b : AesdCircularBuffer) (i : ℕ) : ℕ :=
  slotSize b ((b.outOffs + i) % maxWriteOperationsSupported)

/-- For this command and offset, looking in the slots does not go wrong. -/
def Aligned (b : AesdCircularBuffer) (cmd off : ℕ) : Prop :=
  maxWriteOperationsSupported ≤ cmd ∨ (slotSize b cmd ≤ off ∧ commandSize b cmd ≤ off) ∨
    (off < slotSize b cmd ∧ off < commandSize b cmd ∧
      ((List.range cmd).map (slotSize b)).sum = ((List.range cmd).map (commandSize b)).sum)

instance (b : AesdCircularBuffer) (cmd off : ℕ) : Decidable (Aligned b cmd off) :=
  inferInstanceAs (Decidable (_ ∨ _ ∨ _))

variable {d : AesdDev} {s : Delim.Log Byte} {cmd off : ℕ}

/-! ## The commands and their slots -/

/-- A slot that holds no command has size zero. -/
theorem commandSize_of_entryCount_le {b : AesdCircularBuffer} {hist : List AesdBufferEntry}
    (h : b.Built hist) {i : ℕ} (hi : b.entryCount ≤ i) (hlt : i < maxWriteOperationsSupported) :
    commandSize b i = 0 := by
  have hcount := h.entryCount_eq
  have hle : hist.length ≤ i := by omega
  have hout : b.outOffs = 0 := by rw [h.outOffs, Ring.start, if_pos (by omega)]
  rw [commandSize, slotSize, hout, Nat.zero_add, Nat.mod_eq_of_lt hlt, h.tracks.unused i hlt hle]

theorem map_size_entries (b : AesdCircularBuffer) :
    b.entries.map AesdBufferEntry.size = (List.range b.entryCount).map (commandSize b) := by
  rw [AesdCircularBuffer.entries, List.map_map]
  rfl

theorem entryCount_eq_length_stored (d : AesdDev) : d.buffer.entryCount = d.stored.length := by
  rw [AesdDev.stored, AesdCircularBuffer.entries, List.length_map, List.length_map,
    List.length_range]

theorem Refines.map_length_stored (h : Refines d s) :
    d.stored.map List.length = (List.range d.buffer.entryCount).map (commandSize d.buffer) := by
  obtain ⟨hist, ho⟩ := h.owned
  rw [ho.map_length_stored, map_size_entries]

/-- **There is such a byte** exactly when the command, wherever it is, is long enough. -/
theorem Refines.exists_byte_iff (h : Refines d s) :
    (∃ l, d.stored[cmd]? = some l ∧ off < l.length) ↔
      cmd < maxWriteOperationsSupported ∧ off < commandSize d.buffer cmd := by
  obtain ⟨hist, ho⟩ := h.owned
  have hcount := ho.built.entryCount_eq
  rcases Nat.lt_or_ge cmd d.buffer.entryCount with hlt | hge
  · have hlen : (d.stored[cmd]?).map List.length = some (commandSize d.buffer cmd) := by
      rw [← List.getElem?_map, h.map_length_stored, List.getElem?_map,
        List.getElem?_range hlt, Option.map_some]
    obtain ⟨l, hl, hlen⟩ := Option.map_eq_some_iff.mp hlen
    have hcmd : cmd < maxWriteOperationsSupported := by omega
    rw [hl, ← hlen]
    simp [hcmd]
  · rw [List.getElem?_eq_none (entryCount_eq_length_stored d ▸ hge)]
    refine iff_of_false (by simp) fun ⟨hcmd, hoff⟩ ↦ ?_
    rw [commandSize_of_entryCount_le ho.built hge hcmd] at hoff
    omega

/-- What lies in front of a command that exists. -/
theorem Refines.length_flatten_take (h : Refines d s) (hcmd : cmd ≤ d.buffer.entryCount) :
    (d.stored.take cmd).flatten.length = ((List.range cmd).map (commandSize d.buffer)).sum := by
  rw [List.length_flatten, List.map_take, h.map_length_stored, ← List.map_take, List.take_range,
    Nat.min_eq_left hcmd]

/-- A read at a byte of a stored command starts with that byte. -/
theorem Refines.head?_aesdRead (h : Refines d s) {l : List Byte} (hl : d.stored[cmd]? = some l)
    (hoff : off < l.length) {renv : ReadEnv} {count : ℕ} (hint : renv.interrupted = false)
    (hmiss : renv.missing = 0) (hcount : 0 < count) :
    (d.aesdRead renv ((d.stored.take cmd).flatten.length + off) count).1.head? = l[off]? := by
  obtain ⟨hist, ho⟩ := h.owned
  rw [ho.head?_aesdRead_eq hint hmiss _ hcount, Concat.getElem?_flatten_add hl hoff]

/-! ## What the call does -/

theorem foldl_size_eq_sum (b : AesdCircularBuffer) (n : ℕ) :
    (List.range n).foldl (fun acc i ↦ acc + (b.entry i).size) 0 =
      ((List.range n).map (slotSize b)).sum := by
  rw [List.sum_eq_foldl, List.foldl_map]
  rfl

/-- The start of a slot and an offset inside it are before the end of all the slots. -/
theorem sum_add_lt_getBufferSize {b : AesdCircularBuffer} (hcmd : cmd < maxWriteOperationsSupported)
    (hoff : off < slotSize b cmd) :
    ((List.range cmd).map (slotSize b)).sum + off < getBufferSize b := by
  have hle : ((List.range (cmd + 1)).map (slotSize b)).sum ≤ getBufferSize b := by
    rw [getBufferSize, foldl_size_eq_sum]
    exact ((List.range_sublist.mpr hcmd).map _).sum_le_sum fun _ _ ↦ Nat.zero_le _
  rw [List.range_succ, List.map_append, List.sum_append, List.map_singleton, List.sum_singleton]
    at hle
  omega

/-- **What `aesd_adjust_file_offset` does** with the lock: it works on the slots. -/
theorem aesdAdjustFileOffset_eq {seek : FixedSizeLlseek} (hseek : SeeksInside seek) (d : AesdDev)
    (fPos cmd off : ℕ) :
    aesdAdjustFileOffset seek d false fPos cmd off =
      if cmd < maxWriteOperationsSupported ∧ off < slotSize d.buffer cmd then
        (0, ((List.range cmd).map (slotSize d.buffer)).sum + off)
      else (-EINVAL, fPos) := by
  rw [aesdAdjustFileOffset]
  by_cases hcmd : cmd < maxWriteOperationsSupported
  · rw [if_neg (by omega), if_neg (by decide)]
    by_cases hoff : off < slotSize d.buffer cmd
    · have hle := (sum_add_lt_getBufferSize hcmd hoff).le
      rw [if_neg (by rw [slotSize] at hoff; omega), if_pos ⟨hcmd, hoff⟩]
      simp only [foldl_size_eq_sum]
      rw [hseek fPos _ _ hle]
      simp only [ge_iff_le, Int.natCast_nonneg, if_true]
    · rw [if_pos (by rw [slotSize] at hoff; omega), if_neg fun h ↦ hoff h.2]
  · rw [if_pos (by omega), if_neg fun h ↦ hcmd h.1]

theorem aesdIoctl_seekto {seek : FixedSizeLlseek} (hseek : SeeksInside seek) {env : IoctlEnv}
    (henv : env.Succeeds) (d : AesdDev) (fPos cmd off : ℕ) :
    aesdIoctl seek d env fPos aesdcharIocseekto ⟨cmd, off⟩ =
      if cmd < maxWriteOperationsSupported ∧ off < slotSize d.buffer cmd then
        (0, ((List.range cmd).map (slotSize d.buffer)).sum + off)
      else (-EINVAL, fPos) := by
  obtain ⟨haccess, hmissing, hint⟩ := henv
  rw [aesdIoctl, if_neg (by decide), if_neg (by decide), if_neg (by simp [haccess]), if_pos rfl,
    if_neg (not_not.mpr hmissing), hint]
  exact aesdAdjustFileOffset_eq hseek d fPos cmd off

/-- The ioctl succeeds when there is such a byte in the slot. -/
theorem aesdIoctl_seekto_nonneg_iff {seek : FixedSizeLlseek} (hseek : SeeksInside seek)
    {env : IoctlEnv} (henv : env.Succeeds) (d : AesdDev) (fPos cmd off : ℕ) :
    0 ≤ (aesdIoctl seek d env fPos aesdcharIocseekto ⟨cmd, off⟩).1 ↔
      cmd < maxWriteOperationsSupported ∧ off < slotSize d.buffer cmd := by
  rw [aesdIoctl_seekto hseek henv]
  split
  · rename_i hin; exact iff_of_true (Int.le_refl 0) hin
  · rename_i hout; exact iff_of_false (by show ¬0 ≤ -EINVAL; decide) hout

/-! ## When it is right -/

/-- What lies in front of a command that has such a byte. -/
theorem Refines.length_flatten_take_of_lt (h : Refines d s)
    (hcmd : cmd < maxWriteOperationsSupported) (hoff : off < commandSize d.buffer cmd) :
    (d.stored.take cmd).flatten.length = ((List.range cmd).map (commandSize d.buffer)).sum := by
  obtain ⟨l, hl, -⟩ := h.exists_byte_iff.mpr ⟨hcmd, hoff⟩
  refine h.length_flatten_take ?_
  rw [entryCount_eq_length_stored]
  exact (List.getElem?_eq_some_iff.mp hl).1.le

/-- If seeking is right, the slot and the command agree. -/
theorem Refines.aligned_of_seekCorrect (h : Refines d s) {seek : FixedSizeLlseek}
    (hseek : SeeksInside seek) (hcorrect : SeekCorrect seek d cmd off) :
    Aligned d.buffer cmd off := by
  by_cases hcmd : cmd < maxWriteOperationsSupported
  swap
  · exact .inl (Nat.le_of_not_lt hcmd)
  have hgood : IoctlEnv.Succeeds ⟨fun _ ↦ true, 0, false⟩ := ⟨fun _ ↦ rfl, rfl, rfl⟩
  obtain ⟨hiff, hpos⟩ := hcorrect _ hgood 0
  rw [aesdIoctl_seekto_nonneg_iff hseek hgood, h.exists_byte_iff] at hiff
  by_cases hslot : off < slotSize d.buffer cmd
  · have hoff := (hiff.mp ⟨hcmd, hslot⟩).2
    have hposn := (hpos ((aesdIoctl_seekto_nonneg_iff hseek hgood d 0 cmd off).mpr
      ⟨hcmd, hslot⟩)).1
    rw [aesdIoctl_seekto hseek hgood, if_pos ⟨hcmd, hslot⟩,
      h.length_flatten_take_of_lt hcmd hoff] at hposn
    exact .inr (.inr ⟨hslot, hoff, Nat.add_right_cancel hposn⟩)
  · have hoff : ¬off < commandSize d.buffer cmd := fun hoff ↦ hslot (hiff.mpr ⟨hcmd, hoff⟩).2
    exact .inr (.inl ⟨Nat.le_of_not_lt hslot, Nat.le_of_not_lt hoff⟩)

/-- If the slot and the command agree, seeking is right. -/
theorem Refines.seekCorrect_of_aligned (h : Refines d s) {seek : FixedSizeLlseek}
    (hseek : SeeksInside seek) (halign : Aligned d.buffer cmd off) :
    SeekCorrect seek d cmd off := by
  intro env henv fPos
  have hsame : cmd < maxWriteOperationsSupported →
      (off < slotSize d.buffer cmd ↔ off < commandSize d.buffer cmd) := by
    intro hcmd
    rcases halign with hge | ⟨hslot, hoff⟩ | ⟨hslot, hoff, -⟩
    · exact absurd hcmd (Nat.not_lt.mpr hge)
    · exact iff_of_false (Nat.not_lt.mpr hslot) (Nat.not_lt.mpr hoff)
    · exact iff_of_true hslot hoff
  rw [aesdIoctl_seekto_nonneg_iff hseek henv, h.exists_byte_iff]
  refine ⟨and_congr_right hsame, fun ⟨hcmd, hslot⟩ ↦ ?_⟩
  have hoff := (hsame hcmd).mp hslot
  have hsums : ((List.range cmd).map (slotSize d.buffer)).sum =
      ((List.range cmd).map (commandSize d.buffer)).sum := by
    rcases halign with hge | ⟨hle, -⟩ | ⟨-, -, hsums⟩
    · exact absurd hcmd (Nat.not_lt.mpr hge)
    · exact absurd hslot (Nat.not_lt.mpr hle)
    · exact hsums
  rw [aesdIoctl_seekto hseek henv, if_pos ⟨hcmd, hslot⟩, hsums,
    ← h.length_flatten_take_of_lt hcmd hoff]
  refine ⟨rfl, ?_⟩
  intro renv count hint hmiss hcount
  obtain ⟨l, hl, hlt⟩ := h.exists_byte_iff.mpr ⟨hcmd, hoff⟩
  refine ⟨l, l[off], hl, List.getElem?_eq_getElem hlt, ?_⟩
  rw [h.head?_aesdRead hl hlt hint hmiss hcount, List.getElem?_eq_getElem hlt]

/-- **All the commands of a device**: turning the slots must not change their sizes. -/
theorem forall_aligned_iff (b : AesdCircularBuffer) :
    (∀ cmd off, Aligned b cmd off) ↔
      ∀ i, i < maxWriteOperationsSupported → slotSize b i = commandSize b i := by
  constructor
  · intro h i hi
    rcases h i (min (slotSize b i) (commandSize b i)) with hge | ⟨hslot, hcmd⟩ | ⟨hslot, hcmd, -⟩
    · omega
    · omega
    · omega
  · intro h cmd off
    by_cases hcmd : cmd < maxWriteOperationsSupported
    swap
    · exact .inl (Nat.le_of_not_lt hcmd)
    refine .inr ?_
    have hsums : (List.range cmd).map (slotSize b) = (List.range cmd).map (commandSize b) :=
      List.map_congr_left fun i hi ↦ h i ((List.mem_range.mp hi).trans hcmd)
    rw [h cmd hcmd, hsums]
    rcases Nat.lt_or_ge off (commandSize b cmd) with hlt | hge
    · exact .inr ⟨hlt, hlt, rfl⟩
    · exact .inl ⟨hge, hge⟩

/-- **When seeking to a command is right.**  For every device that writes leave, every command
number and every offset: exactly when the slot of that number and the command of that number are
`Aligned` at that offset; and for all numbers and offsets together exactly when the sizes of the ten
slots are the same counted from slot `0` and counted from the oldest command. -/
theorem seek_correct_iff (seek : FixedSizeLlseek) (hseek : SeeksInside seek) (cs : List WriteCall)
    (hok : ∀ c ∈ cs, c.Succeeds) :
    let d := (cs.foldl Sys.write .init).dev
    (∀ cmd off, SeekCorrect seek d cmd off ↔ Aligned d.buffer cmd off) ∧
      ((∀ cmd off, SeekCorrect seek d cmd off) ↔
        ∀ i, i < maxWriteOperationsSupported →
          slotSize d.buffer i = commandSize d.buffer i) := by
  intro d
  have h : Refines d (cs.foldl specWrite ⟨[], []⟩) :=
    (refines_init).run_of_succeeds (t := .init) hok
  have hiff : ∀ cmd off, SeekCorrect seek d cmd off ↔ Aligned d.buffer cmd off := fun cmd off ↦
    ⟨h.aligned_of_seekCorrect hseek, h.seekCorrect_of_aligned hseek⟩
  refine ⟨hiff, ?_⟩
  rw [← forall_aligned_iff]
  exact forall₂_congr hiff

/-- Two commands, never wrapped: every byte of both can be found. -/
theorem seek_correct_iff_two :
    SeekCorrect fixedSizeLlseek
      ([WriteCall.plain 0 [97, 10], .plain 0 [98, 99, 10]].foldl Sys.write .init).dev 1 2 :=
  ((seek_correct_iff fixedSizeLlseek seeksInside_fixedSizeLlseek
    [.plain 0 [97, 10], .plain 0 [98, 99, 10]] (by decide)).1 1 2).mpr (by decide +kernel)

/-- Ten commands of two bytes and an eleventh of four, which goes to slot `0`: seeking to byte `2`
of the oldest command, which has two bytes, succeeds. -/
theorem seek_finds_missing_byte :
    let cs := List.replicate 10 (WriteCall.plain 0 [97, 10]) ++
      [WriteCall.plain 0 [98, 99, 100, 10]]
    (∀ c ∈ cs, c.Succeeds) ∧
      ¬SeekCorrect fixedSizeLlseek (cs.foldl Sys.write .init).dev 0 2 := by
  intro cs
  refine ⟨by decide, ?_⟩
  intro hcorrect
  obtain ⟨hiff, -⟩ := hcorrect ⟨fun _ ↦ true, 0, false⟩ ⟨fun _ ↦ rfl, rfl, rfl⟩ 0
  obtain ⟨l, hl, hlt⟩ := hiff.mp (by decide +kernel)
  have holdest : (cs.foldl Sys.write .init).dev.stored[0]? = some [97, 10] := by decide +kernel
  rw [holdest, Option.some_inj] at hl
  subst hl
  exact absurd hlt (by decide)

end Aesd
