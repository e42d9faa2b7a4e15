import Aesd.Driver.Extent

/-!
# Commands and slots

The commands a device has stored, with those that have been overwritten since, are a list;
`AesdDev.Stores` says that it is that of a device.  The list determines the slots: command number
`k` is in slot `k` modulo ten.  `inSlots` is the ten slots read off it, and `Stores.slotSize_eq` and
`Stores.sum_slotSize` are what the device has there.

`seekPos` is where `AESDCHAR_IOCSEEKTO` leads to, in terms of the list alone.  It looks into the
slots; as long as no command has been overwritten, that is looking at the commands in order
(`seekPos_of_length_le`).
-/

set_option autoImplicit false

namespace Aesd

/-! ## The slots -/

/-- What the ten slots hold after so many commands: nothing, or one of the last ten. -/
def inSlots (completed : List (List Byte)) : List (List Byte) :=
  (List.range maxWriteOperationsSupported).map fun i ↦
    ((completed.rtake maxWriteOperationsSupported)[(i + maxWriteOperationsSupported -
      Ring.start maxWriteOperationsSupported completed.length) %
        maxWriteOperationsSupported]?).getD []

/-- Where seeking to a byte of a command leads to, if there is such a byte: the slots in front, and
the offset. -/
def seekPos (completed : List (List Byte)) (arg : AesdSeekto) : Option ℕ :=
  if arg.writeCmdOffset < (((inSlots completed)[arg.writeCmd]?).getD []).length then
    some (((inSlots completed).take arg.writeCmd).flatten.length + arg.writeCmdOffset)
  else none

theorem length_inSlots (completed : List (List Byte)) :
    (inSlots completed).length = maxWriteOperationsSupported := by
  rw [inSlots, List.length_map, List.length_range]

theorem getElem?_inSlots {completed : List (List Byte)} {i : ℕ}
    (hi : i < maxWriteOperationsSupported) :
    (inSlots completed)[i]? = some (((completed.rtake maxWriteOperationsSupported)[
      (i + maxWriteOperationsSupported -
        Ring.start maxWriteOperationsSupported completed.length) %
          maxWriteOperationsSupported]?).getD []) := by
  rw [inSlots, List.getElem?_map, List.getElem?_range hi, Option.map_some]

/-! ## The device -/

/-- The commands the device has stored so far, oldest first; the last ten are still there. -/
structure AesdDev.Stores (d : AesdDev) (completed : List (List Byte)) : Prop where
  /-- The device satisfies its invariant, and has stored as many commands. -/
  owned : ∃ hist, d.Owned hist ∧ hist.length = completed.length
  /-- The last ten are there. -/
  stored : d.stored = completed.rtake maxWriteOperationsSupported

namespace AesdDev

variable {d : AesdDev} {completed : List (List Byte)}

theorem stores_init : init.Stores [] := ⟨⟨[], owned_init, rfl⟩, rfl⟩

/-- The pending bytes are stored. -/
theorem Stores.commit (h : d.Stores completed) (hptr : d.tmpBuffPtr ≠ 0) :
    d.commit.Stores (completed ++ [d.pending]) := by
  obtain ⟨hist, ho, hlen⟩ := h.owned
  refine ⟨⟨_, ho.commit hptr, ?_⟩, ?_⟩
  · rw [List.length_append, List.length_append, hlen]
    rfl
  · rw [ho.stored_commit hptr, h.stored, Concat.rtake_rtake maxOlder_le]
    exact (List.rtake_concat_succ _ _ _).symm

/-- Another block for the pending bytes changes nothing. -/
theorem Stores.repointed (h : d.Stores completed) {g : AesdDev} {p : List Byte}
    (hr : d.Repointed g p) : g.Stores completed := by
  obtain ⟨hist, ho, hlen⟩ := h.owned
  exact ⟨⟨hist, hr.owned ho, hlen⟩, (hr.stored_eq ho).trans h.stored⟩

/-- **A write that succeeds** stores a command if that completes one. -/
theorem Stores.aesdWrite {s : Delim.Log Byte} (h : d.Stores s.completed) (hd : Refines d s)
    {c : WriteCall} (hc : c.Succeeds) (fPos : ℕ) :
    (d.aesdWrite c.env fPos c.buf).1.Stores (specWrite s c).completed := by
  rw [specWrite_of_succeeds hc]
  obtain ⟨hint, halloc, hmin⟩ := hc
  obtain ⟨hist, ho⟩ := hd.owned
  rcases aesdWrite_cases ho c.env fPos c.buf with ⟨hi, -⟩ | ⟨-, ha, -⟩ |
    ⟨-, -, start, g, -, hstart, ⟨hm, -, -⟩ | ⟨-, hr, heq⟩⟩
  · exact absurd (hint.symm.trans hi) Bool.false_ne_true
  · exact absurd ha halloc
  · exact absurd hmin hm
  · rw [hstart hd.intact, hd.pending] at hr heq
    have hg := h.repointed hr
    rw [heq, Delim.Log.append, isNewline]
    by_cases hnl : (s.pending ++ c.buf).getLastD c.env.stray = newline
    · rw [if_pos hnl, if_pos (beq_iff_eq.mpr hnl)]
      have hcommit := hg.commit hr.ptr_ne_zero
      rw [hr.pending_eq] at hcommit
      exact hcommit
    · rw [if_neg hnl, if_neg (mt beq_iff_eq.mp hnl)]
      exact hg

/-- The length of the content is what `get_buffer_size` says. -/
theorem Stores.getBufferSize_eq (h : d.Stores completed) :
    getBufferSize d.buffer = (completed.rtake maxWriteOperationsSupported).flatten.length := by
  obtain ⟨hist, ho, -⟩ := h.owned
  rw [ho.getBufferSize_eq, h.stored]

/-- The size of a slot, counted from the oldest command. -/
theorem slotSize_eq_commandSize {b : AesdCircularBuffer} {i : ℕ}
    (hi : i < maxWriteOperationsSupported) (hout : b.outOffs < maxWriteOperationsSupported) :
    slotSize b i = commandSize b
      ((i + maxWriteOperationsSupported - b.outOffs) % maxWriteOperationsSupported) := by
  have hslot : (b.outOffs + (i + maxWriteOperationsSupported - b.outOffs) %
      maxWriteOperationsSupported) % maxWriteOperationsSupported = i := by
    rw [Nat.add_mod_mod, Nat.add_sub_cancel' (by omega), Nat.add_mod_right, Nat.mod_eq_of_lt hi]
  rw [commandSize, hslot]

/-- Counted so, it is the length of the command. -/
theorem Stores.commandSize_eq (h : d.Stores completed) {i : ℕ}
    (hi : i < maxWriteOperationsSupported) :
    commandSize d.buffer i =
      (((completed.rtake maxWriteOperationsSupported)[i]?).getD []).length := by
  obtain ⟨hist, ho, -⟩ := h.owned
  have hsizes := ho.map_length_stored
  rw [map_size_entries, h.stored] at hsizes
  have hget := congrArg (·[i]?) hsizes
  simp only [List.getElem?_map] at hget
  rcases Nat.lt_or_ge i d.buffer.entryCount with hlt | hge
  · rw [List.getElem?_range hlt, Option.map_some] at hget
    obtain ⟨l, hl, hlen⟩ := Option.map_eq_some_iff.mp hget
    rw [hl, Option.getD_some, hlen]
  · have hlen : (List.range d.buffer.entryCount).length ≤ i := by
      rw [List.length_range]
      exact hge
    rw [List.getElem?_eq_none hlen, Option.map_none, Option.map_eq_none_iff] at hget
    rw [hget, commandSize_of_entryCount_le ho.built hge hi, Option.getD_none, List.length_nil]

/-- **The slots** hold what the list says. -/
theorem Stores.slotSize_eq (h : d.Stores completed) {i : ℕ}
    (hi : i < maxWriteOperationsSupported) :
    slotSize d.buffer i = (((inSlots completed)[i]?).getD []).length := by
  obtain ⟨hist, ho, hlen⟩ := h.owned
  have hout : d.buffer.outOffs = Ring.start maxWriteOperationsSupported completed.length := by
    rw [ho.built.outOffs, hlen]
  have hlt : d.buffer.outOffs < maxWriteOperationsSupported := by
    rw [hout, Ring.start]
    split
    · decide
    · exact Nat.mod_lt _ (by decide)
  rw [slotSize_eq_commandSize hi hlt, h.commandSize_eq (Nat.mod_lt _ (by decide)), hout,
    getElem?_inSlots hi, Option.getD_some]

/-- What lies in front of a slot. -/
theorem Stores.sum_slotSize (h : d.Stores completed) {cmd : ℕ}
    (hcmd : cmd ≤ maxWriteOperationsSupported) :
    ((List.range cmd).map (slotSize d.buffer)).sum =
      ((inSlots completed).take cmd).flatten.length := by
  have hmap : (List.range cmd).map (slotSize d.buffer) =
      ((inSlots completed).take cmd).map List.length := by
    refine List.ext_getElem? fun i ↦ ?_
    rw [List.getElem?_map, List.getElem?_map, List.getElem?_take]
    rcases Nat.lt_or_ge i cmd with hlt | hge
    · have hi := hlt.trans_le hcmd
      rw [if_pos hlt, List.getElem?_range hlt, Option.map_some, h.slotSize_eq hi,
        getElem?_inSlots hi, Option.map_some, Option.getD_some]
    · rw [if_neg (Nat.not_lt.mpr hge), List.getElem?_eq_none (by rw [List.length_range]; exact hge)]
      rfl
  rw [hmap, List.length_flatten]

/-- **`aesd_adjust_file_offset`** with the lock. -/
theorem Stores.aesdAdjustFileOffset_eq (h : d.Stores completed) {seek : FixedSizeLlseek}
    (hseek : SeeksInside seek) (fPos : ℕ) (arg : AesdSeekto) :
    aesdAdjustFileOffset seek d false fPos arg.writeCmd arg.writeCmdOffset =
      match seekPos completed arg with
      | some p => (0, p)
      | none => (-EINVAL, fPos) := by
  have heq := Aesd.aesdAdjustFileOffset_eq hseek d fPos arg.writeCmd arg.writeCmdOffset
  rw [heq, seekPos]
  by_cases hcmd : arg.writeCmd < maxWriteOperationsSupported
  · rw [h.slotSize_eq hcmd, h.sum_slotSize hcmd.le]
    by_cases hoff : arg.writeCmdOffset < (((inSlots completed)[arg.writeCmd]?).getD []).length
    · rw [if_pos ⟨hcmd, hoff⟩, if_pos hoff]
    · rw [if_neg fun hc ↦ hoff hc.2, if_neg hoff]
  · have hnone : (inSlots completed)[arg.writeCmd]? = none := by
      rw [List.getElem?_eq_none_iff, length_inSlots]
      exact Nat.le_of_not_lt hcmd
    rw [if_neg fun hc ↦ hcmd hc.1, hnone, if_neg (by simp)]

/-- **`AESDCHAR_IOCSEEKTO`** does that, unless the kernel refuses the lock or the argument. -/
theorem Stores.aesdIoctl_cases (h : d.Stores completed) {seek : FixedSizeLlseek}
    (hseek : SeeksInside seek) (env : IoctlEnv) (fPos : ℕ) (arg : AesdSeekto) :
    (¬env.Succeeds ∧ ∃ e < 0, aesdIoctl seek d env fPos aesdcharIocseekto arg = (e, fPos)) ∨
      aesdIoctl seek d env fPos aesdcharIocseekto arg =
        match seekPos completed arg with
        | some p => (0, p)
        | none => (-EINVAL, fPos) := by
  rw [← h.aesdAdjustFileOffset_eq hseek fPos arg]
  by_cases henv : env.Succeeds
  · right
    have heq := aesdIoctl_seekto hseek henv d fPos arg.writeCmd arg.writeCmdOffset
    rw [heq, Aesd.aesdAdjustFileOffset_eq hseek]
  · exact (Aesd.aesdIoctl_cases seek d env fPos aesdcharIocseekto arg).imp_left fun hc ↦ ⟨henv, hc⟩

end AesdDev

/-! ## While nothing has been overwritten -/

/-- The slots are the commands, in order. -/
theorem getElem?_inSlots_of_length_le {completed : List (List Byte)}
    (h : completed.length ≤ maxWriteOperationsSupported) (i : ℕ) :
    ((inSlots completed)[i]?).getD [] = (completed[i]?).getD [] := by
  rcases Nat.lt_or_ge i maxWriteOperationsSupported with hi | hi
  · have hstart : Ring.start maxWriteOperationsSupported completed.length = 0 := by
      rw [Ring.start]
      split
      · rfl
      · rw [show completed.length = maxWriteOperationsSupported by omega, Nat.mod_self]
    rw [getElem?_inSlots hi, Option.getD_some, Concat.rtake_of_length_le h, hstart, Nat.sub_zero,
      Nat.add_mod_right, Nat.mod_eq_of_lt hi]
  · rw [List.getElem?_eq_none (by rw [length_inSlots]; exact hi),
      List.getElem?_eq_none (h.trans hi)]

/-- **While nothing has been overwritten**, seeking goes to that byte of that command. -/
theorem seekPos_of_length_le {completed : List (List Byte)}
    (h : completed.length ≤ maxWriteOperationsSupported) (arg : AesdSeekto) :
    seekPos completed arg =
      if arg.writeCmdOffset < ((completed[arg.writeCmd]?).getD []).length then
        some ((completed.take arg.writeCmd).flatten.length + arg.writeCmdOffset)
      else none := by
  rw [seekPos, getElem?_inSlots_of_length_le h]
  split
  · rename_i hoff
    -- there is such a command, so the slots in front are the commands in front
    have hcmd : arg.writeCmd < completed.length := by
      by_contra hge
      rw [List.getElem?_eq_none (Nat.le_of_not_lt hge)] at hoff
      simp at hoff
    have htake : (inSlots completed).take arg.writeCmd = completed.take arg.writeCmd := by
      refine List.ext_getElem? fun i ↦ ?_
      rw [List.getElem?_take, List.getElem?_take]
      split
      · rename_i hi
        have hlt : i < completed.length := hi.trans hcmd
        have heq := getElem?_inSlots_of_length_le h i
        rw [getElem?_inSlots (hlt.trans_le h), List.getElem?_eq_getElem hlt, Option.getD_some,
          Option.getD_some] at heq
        rw [getElem?_inSlots (hlt.trans_le h), List.getElem?_eq_getElem hlt, heq]
      · rfl
    rw [htake]
  · rfl

end Aesd
