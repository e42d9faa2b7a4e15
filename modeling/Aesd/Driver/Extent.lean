import Aesd.Driver.Ownership
import Aesd.Driver.Seek

/-!
# How far the content reaches

`get_buffer_size` adds up the sizes of all ten slots, in the order of the array; reading walks the
stored commands from the oldest one on.  `Owned.getBufferSize_eq` says that they agree: a slot that
holds no command has size zero, and beyond that the two walks differ by a rotation.

Both ways of moving the file position rest on that.  `llseek_moves` is the account of `aesd_llseek`,
which accepts exactly the positions inside the content and the one at its end.  `ioctl_moves` is
what can be said of `aesd_ioctl` for every command and every argument, right or wrong: it fails and
changes nothing, or it leaves the file position at a byte that can be read.

The kernel's `fixed_size_llseek` is a parameter; what is used of it is `SeeksFixed`, and for the
ioctl only `SeeksInside`.
-/

set_option autoImplicit false

namespace Aesd

variable {d : AesdDev} {hist : List AesdBufferEntry}

/-! ## The sizes of the slots -/

/-- The slots from the oldest command on have the same sizes in all. -/
theorem getBufferSize_eq_sum (b : AesdCircularBuffer) :
    getBufferSize b = ((List.range maxWriteOperationsSupported).map (commandSize b)).sum := by
  have hperm :=
    List.rotate_perm ((List.range maxWriteOperationsSupported).map (slotSize b)) b.outOffs
  rw [getBufferSize, foldl_size_eq_sum, ← hperm.sum_eq, ← Ring.map_range_add_mod]
  rfl

/-- **`get_buffer_size` is the length of what can be read.** -/
theorem AesdDev.Owned.getBufferSize_eq (h : d.Owned hist) :
    getBufferSize d.buffer = d.stored.flatten.length := by
  have hcount : d.buffer.entryCount ≤ maxWriteOperationsSupported := by
    rw [h.built.entryCount_eq]
    exact Nat.min_le_right ..
  have hrest : ∀ n ∈ (List.range' d.buffer.entryCount
      (maxWriteOperationsSupported - d.buffer.entryCount)).map (commandSize d.buffer), n = 0 := by
    intro n hn
    obtain ⟨i, hi, rfl⟩ := List.mem_map.mp hn
    rw [List.mem_range'_1] at hi
    exact commandSize_of_entryCount_le h.built hi.1 (by omega)
  have hsplit : List.range maxWriteOperationsSupported = List.range d.buffer.entryCount ++
      List.range' d.buffer.entryCount (maxWriteOperationsSupported - d.buffer.entryCount) := by
    have happend := @List.range'_append_1 0 d.buffer.entryCount
      (maxWriteOperationsSupported - d.buffer.entryCount)
    rw [Nat.zero_add, Nat.add_sub_cancel' hcount] at happend
    rw [List.range_eq_range', List.range_eq_range', happend]
  rw [getBufferSize_eq_sum, hsplit, List.map_append, List.sum_append, List.sum_eq_zero hrest,
    Nat.add_zero, List.length_flatten, h.map_length_stored, map_size_entries]

/-- The lookup finds exactly the positions before the end. -/
theorem AesdDev.Owned.isSome_find_iff (h : d.Owned hist) (p : ℕ) :
    (d.buffer.findEntryOffsetForFpos p).isSome = true ↔ p < getBufferSize d.buffer := by
  rw [d.buffer.findEntryOffsetForFpos_eq, Option.isSome_map, ← h.map_length_stored,
    h.getBufferSize_eq, List.length_flatten, Option.isSome_iff_ne_none, Ne,
    Concat.locate_eq_none_iff, Nat.not_le]

/-! ## Seeking -/

/-- The position that `off` and `whence` ask for. -/
def seekTarget (fPos : ℕ) (off : ℤ) (size : ℕ) : Whence → Option ℤ
  | .set => some off
  | .cur => some (fPos + off)
  | .fromEnd => some (size + off)
  | .other _ => none

/-- Seeking goes to the position asked for if that is not outside, and else fails. -/
def SeeksFixed (seek : FixedSizeLlseek) : Prop :=
  ∀ (fPos : ℕ) (off : ℤ) (whence : Whence) (size : ℕ) (target : ℤ),
    seekTarget fPos off size whence = some target →
      seek fPos off whence size =
        if 0 ≤ target ∧ target ≤ size then (target, target.toNat) else (-EINVAL, fPos)

theorem seeksFixed_fixedSizeLlseek : SeeksFixed fixedSizeLlseek := by
  intro fPos off whence size target h
  cases whence <;> simp only [seekTarget, reduceCtorEq, Option.some.injEq] at h <;>
    simp only [fixedSizeLlseek, h]

/-- `aesd_llseek` with the lock. -/
theorem AesdDev.Owned.aesdLlseek_eq (h : d.Owned hist) {seek : FixedSizeLlseek}
    (hseek : SeeksFixed seek) {fPos : ℕ} {off : ℤ} {whence : Whence} {target : ℤ}
    (htarget : seekTarget fPos off d.stored.flatten.length whence = some target) :
    aesdLlseek seek d false fPos off whence =
      if 0 ≤ target ∧ target ≤ d.stored.flatten.length then (target, target.toNat)
      else (-EINVAL, fPos) := by
  rw [aesdLlseek, if_neg (by decide), h.getBufferSize_eq]
  exact hseek _ _ _ _ _ htarget

/-- The device and the files after an `llseek` of a file. -/
def Sys.llseek (t : Sys) (seek : FixedSizeLlseek) (file : ℕ) (interrupted : Bool) (off : ℤ)
    (whence : Whence) : Sys :=
  ⟨t.dev, Function.update t.fPos file
    (aesdLlseek seek t.dev interrupted (t.fPos file) off whence).2⟩

/-- What an `llseek` of a file returns. -/
def Sys.llseekRet (t : Sys) (seek : FixedSizeLlseek) (file : ℕ) (interrupted : Bool) (off : ℤ)
    (whence : Whence) : ℤ :=
  (aesdLlseek seek t.dev interrupted (t.fPos file) off whence).1

/-- An update to the value that is there changes nothing. -/
theorem Sys.update_self (t : Sys) (file : ℕ) :
    (⟨t.dev, Function.update t.fPos file (t.fPos file)⟩ : Sys) = t := by
  rw [Function.update_eq_self]

/-- **Every seek of every file.**  The device is what any writes, successful or not, have left, and
the open files are anywhere.

* `get_buffer_size` is the length of the content, and the positions before it are those that can be
  found.
* With the lock, a seek with one of the three values of `whence` succeeds exactly when the position
  it asks for is not before the beginning and not past the end.  It then moves the file there, and
  the next read of at least one byte starts with the byte at that position, or returns `0` at the
  end.
* A seek that fails changes nothing, and no seek changes the device. -/
theorem llseek_moves (seek : FixedSizeLlseek) (hseek : SeeksFixed seek) (cs : List WriteCall)
    (pos : ℕ → ℕ) (file : ℕ) (off : ℤ) (whence : Whence) (target : ℤ) :
    let t : Sys := ⟨(cs.foldl Sys.write .init).dev, pos⟩
    let content := t.dev.stored.flatten
    getBufferSize t.dev.buffer = content.length ∧
    (∀ p, (t.dev.buffer.findEntryOffsetForFpos p).isSome = true ↔ p < content.length) ∧
    (seekTarget (pos file) off content.length whence = some target →
      (0 ≤ t.llseekRet seek file false off whence ↔ 0 ≤ target ∧ target ≤ content.length) ∧
      (0 ≤ t.llseekRet seek file false off whence →
        ((t.llseek seek file false off whence).fPos file : ℤ) = target ∧
        (∀ f, f ≠ file → (t.llseek seek file false off whence).fPos f = pos f) ∧
        ∀ c : ReadCall, c.file = file → c.Succeeds → 0 < c.count →
          (target < content.length → ∃ b, content[target.toNat]? = some b ∧
            ((t.llseek seek file false off whence).readData c).head? = some b) ∧
          (target = content.length →
            (t.llseek seek file false off whence).readRet c = 0)) ∧
      ∀ interrupted, t.llseekRet seek file interrupted off whence < 0 →
        t.llseek seek file interrupted off whence = t) ∧
    ∀ interrupted, (t.llseek seek file interrupted off whence).dev = t.dev := by
  intro t content
  obtain ⟨hist, h⟩ : ∃ hist, t.dev.Owned hist := owned_run cs
  have hsize : getBufferSize t.dev.buffer = content.length := h.getBufferSize_eq
  refine ⟨hsize, fun p ↦ hsize ▸ h.isSome_find_iff p, ?_, fun _ ↦ rfl⟩
  intro htarget
  have heq : aesdLlseek seek t.dev false (t.fPos file) off whence =
      if 0 ≤ target ∧ target ≤ content.length then (target, target.toNat)
      else (-EINVAL, t.fPos file) := h.aesdLlseek_eq hseek htarget
  have hiff : 0 ≤ t.llseekRet seek file false off whence ↔
      0 ≤ target ∧ target ≤ content.length := by
    rw [Sys.llseekRet, heq]
    split
    · rename_i hin
      exact iff_of_true hin.1 hin
    · rename_i hout
      exact iff_of_false (by show ¬0 ≤ -EINVAL; decide) hout
  refine ⟨hiff, ?_, ?_⟩
  · intro hok
    obtain ⟨h0, hle⟩ := hiff.mp hok
    have hpos : (t.llseek seek file false off whence).fPos file = target.toNat := by
      show Function.update t.fPos file _ file = _
      rw [Function.update_self, heq, if_pos ⟨h0, hle⟩]
    refine ⟨by rw [hpos, Int.toNat_of_nonneg h0], ?_, ?_⟩
    · intro f hf
      exact Function.update_of_ne hf _ _
    · intro c hfile hc hcount
      have hhead := h.head?_aesdRead_eq hc.1 hc.2 target.toNat hcount
      rw [Sys.readData, Sys.readRet, hfile, hpos]
      constructor
      · intro hlt
        have hlt' : target.toNat < content.length := by omega
        exact ⟨content[target.toNat], List.getElem?_eq_getElem hlt',
          hhead.trans (List.getElem?_eq_getElem hlt')⟩
      · intro hend
        have hge : content.length ≤ target.toNat := by omega
        exact h.aesdRead_end hc.1 hc.2 hcount hge
  · intro interrupted hfail
    cases interrupted with
    | true => exact t.update_self file
    | false =>
      have hout := (not_congr hiff).mp (Int.not_le.mpr hfail)
      rw [Sys.llseek, heq, if_neg hout]
      exact t.update_self file

/-- Eleven commands of two bytes: two bytes before the end is the beginning of the last one. -/
theorem llseek_moves_eleven :
    let t : Sys := ⟨((List.replicate 11 (WriteCall.plain 0 [97, 10])).foldl Sys.write .init).dev,
      fun _ ↦ 0⟩
    ((t.llseek fixedSizeLlseek 3 false (-2) .fromEnd).fPos 3 : ℤ) = 18 := by
  intro t
  obtain ⟨hsize, -, hseek, -⟩ := llseek_moves fixedSizeLlseek seeksFixed_fixedSizeLlseek
    (List.replicate 11 (WriteCall.plain 0 [97, 10])) (fun _ ↦ 0) 3 (-2) .fromEnd 18
  obtain ⟨hiff, hmoves, -⟩ := hseek (by decide +kernel)
  exact (hmoves (hiff.mpr (by decide +kernel))).1

/-! ## The ioctl -/

/-- The device and the files after an `ioctl` on a file. -/
def Sys.ioctl (t : Sys) (seek : FixedSizeLlseek) (env : IoctlEnv) (file cmd : ℕ)
    (arg : AesdSeekto) : Sys :=
  ⟨t.dev, Function.update t.fPos file (aesdIoctl seek t.dev env (t.fPos file) cmd arg).2⟩

/-- What an `ioctl` on a file returns. -/
def Sys.ioctlRet (t : Sys) (seek : FixedSizeLlseek) (env : IoctlEnv) (file cmd : ℕ)
    (arg : AesdSeekto) : ℤ :=
  (aesdIoctl seek t.dev env (t.fPos file) cmd arg).1

/-- **What the ioctl does**, whatever it is given: it is refused, or the command is the seek and
`aesd_adjust_file_offset` is called with the lock. -/
theorem aesdIoctl_cases (seek : FixedSizeLlseek) (d : AesdDev) (env : IoctlEnv) (fPos cmd : ℕ)
    (arg : AesdSeekto) :
    (∃ e < 0, aesdIoctl seek d env fPos cmd arg = (e, fPos)) ∨
      aesdIoctl seek d env fPos cmd arg =
        aesdAdjustFileOffset seek d false fPos arg.writeCmd arg.writeCmdOffset := by
  rw [aesdIoctl]
  split_ifs
  · exact .inl ⟨_, by decide, rfl⟩
  · exact .inl ⟨_, by decide, rfl⟩
  · exact .inl ⟨_, by decide, rfl⟩
  · exact .inl ⟨_, by decide, rfl⟩
  · cases hint : env.interrupted with
    | false => exact .inr rfl
    | true =>
      left
      rw [aesdAdjustFileOffset]
      split
      · exact ⟨_, by decide, rfl⟩
      · exact ⟨_, by decide, if_pos rfl⟩
  · exact .inl ⟨_, by decide, rfl⟩

/-- **Every ioctl on every file**, for any command number and any argument.  It returns a negative
value and changes nothing; or it returns `0`, changes nothing but the position of its file, and
leaves that before the end of the content, so that a read of at least one byte returns at least one.
Once the command and the offset have passed the two checks, `fixed_size_llseek` does not fail. -/
theorem ioctl_moves (seek : FixedSizeLlseek) (hseek : SeeksInside seek) (cs : List WriteCall)
    (pos : ℕ → ℕ) (env : IoctlEnv) (file cmd : ℕ) (arg : AesdSeekto) :
    let t : Sys := ⟨(cs.foldl Sys.write .init).dev, pos⟩
    ((t.ioctlRet seek env file cmd arg < 0 ∧ t.ioctl seek env file cmd arg = t) ∨
      (t.ioctlRet seek env file cmd arg = 0 ∧
        ∃ p, t.ioctl seek env file cmd arg = ⟨t.dev, Function.update pos file p⟩ ∧
          p < t.dev.stored.flatten.length ∧
          ∀ c : ReadCall, c.file = file → c.Succeeds → 0 < c.count →
            1 ≤ (t.ioctl seek env file cmd arg).readRet c)) ∧
    ∀ fPos, arg.writeCmd < maxWriteOperationsSupported →
      arg.writeCmdOffset < (t.dev.buffer.entry arg.writeCmd).size →
        0 ≤ (seek fPos (((List.range arg.writeCmd).foldl
          (fun offset i ↦ offset + (t.dev.buffer.entry i).size) 0 + arg.writeCmdOffset : ℕ) : ℤ)
            .set (getBufferSize t.dev.buffer)).1 := by
  intro t
  obtain ⟨hist, h⟩ : ∃ hist, t.dev.Owned hist := owned_run cs
  constructor
  · rcases aesdIoctl_cases seek t.dev env (t.fPos file) cmd arg with ⟨e, he, hfail⟩ | hadjust
    · left
      rw [Sys.ioctlRet, Sys.ioctl, hfail]
      exact ⟨he, t.update_self file⟩
    · rw [Sys.ioctlRet, Sys.ioctl, hadjust, aesdAdjustFileOffset_eq hseek]
      split
      · rename_i hin
        have hlt := h.getBufferSize_eq ▸ sum_add_lt_getBufferSize hin.1 hin.2
        refine .inr ⟨rfl, _, rfl, hlt, ?_⟩
        intro c hfile hc hcount
        rw [Sys.readRet, hfile]
        show 1 ≤ (t.dev.aesdRead c.env (Function.update t.fPos file _ file) c.count).2.2
        rw [Function.update_self]
        exact h.one_le_aesdRead hc.1 hc.2 hcount hlt
      · exact .inl ⟨by show -EINVAL < 0; decide, t.update_self file⟩
  · intro fPos hcmd hoff
    rw [foldl_size_eq_sum, hseek fPos _ _ (sum_add_lt_getBufferSize hcmd hoff).le]
    exact Int.natCast_nonneg _

/-- The eleventh command is in slot `0`; seeking there leaves a byte to be read. -/
theorem ioctl_moves_eleven :
    let cs := List.replicate 10 (WriteCall.plain 0 [97, 10]) ++
      [WriteCall.plain 0 [98, 99, 100, 10]]
    let t : Sys := ⟨(cs.foldl Sys.write .init).dev, fun _ ↦ 0⟩
    t.ioctlRet fixedSizeLlseek ⟨fun _ ↦ true, 0, false⟩ 0 aesdcharIocseekto ⟨0, 2⟩ = 0 ∧
      1 ≤ (t.ioctl fixedSizeLlseek ⟨fun _ ↦ true, 0, false⟩ 0 aesdcharIocseekto ⟨0, 2⟩).readRet
        ⟨0, 1, false, 0⟩ := by
  intro cs t
  have hret :
      t.ioctlRet fixedSizeLlseek ⟨fun _ ↦ true, 0, false⟩ 0 aesdcharIocseekto ⟨0, 2⟩ = 0 := by
    decide +kernel
  rcases (ioctl_moves fixedSizeLlseek seeksInside_fixedSizeLlseek cs (fun _ ↦ 0)
    ⟨fun _ ↦ true, 0, false⟩ 0 aesdcharIocseekto ⟨0, 2⟩).1 with ⟨hneg, -⟩ | ⟨-, p, -, -, hread⟩
  · exact absurd hneg (by rw [show (⟨_, _⟩ : Sys) = t from rfl, hret]; decide)
  · exact ⟨hret, hread ⟨0, 1, false, 0⟩ rfl ⟨rfl, rfl⟩ (by decide)⟩

end Aesd
