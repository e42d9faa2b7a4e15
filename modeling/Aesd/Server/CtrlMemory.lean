import Aesd.Server.CtrlLine
import Aesd.Lib.Delim

/-!
# A control line in memory

`parse_ctrl_line` works in the buffer that `readline_from_socket` has returned.  Only the first
`line_size` bytes of it are the line, and there is no terminator behind them.
`parseCtrlLineInPlace` is the function with the whole buffer, and with a record of the bytes it
reads and writes; `parseCtrlLineInPlace_eq` says that it decides what `parseCtrlLine` decides.

The two calls of `atoi` stop at the terminators that have been put in the place of the comma and of
the newline, and the comma is in front of the newline.  So nothing behind the line is touched, and a
line that is no control line is left as it was (`parseCtrlLineInPlace_inside`).
-/

set_option autoImplicit false

namespace Aesd

/-! ## The function -/

/-- The number of bytes of the sign. -/
def signSize : List Byte → ℕ
  | 45 :: _ => 1
  | 43 :: _ => 1
  | _ => 0

/-- How many bytes `atoi` looks at: white space, a sign, digits, and the byte after them. -/
def atoiReads (s : List Byte) : ℕ :=
  let spaces := (s.takeWhile isSpace).length
  let s := s.dropWhile isSpace
  spaces + signSize s + ((s.drop (signSize s)).takeWhile isDigit).length + 1

/-- The arguments of `parse_ctrl_line`, with what they point to. -/
structure CtrlArgs where
  /-- The buffer that `line` points to. -/
  mem : List Byte
  /-- `*line_size`. -/
  lineSize : ℕ
  /-- `*seek_to`. -/
  seekTo : AesdSeekto
  deriving DecidableEq

/-- What a call of `parse_ctrl_line` leaves. -/
structure CtrlResult where
  /-- The value returned. -/
  found : Bool
  /-- What the arguments point to. -/
  args : CtrlArgs
  /-- The indices in the buffer that have been read. -/
  reads : List ℕ
  /-- The indices in the buffer that have been written. -/
  writes : List ℕ

/-- `parse_ctrl_line`, in the buffer. -/
def parseCtrlLineInPlace (s : CtrlArgs) : CtrlResult :=
  let prefixSize := embedCtrlPref.length
  let last := s.lineSize - 1
  if s.lineSize < prefixSize + minEmbedParamChars then ⟨false, s, [], []⟩
  else if s.mem[last]? ≠ some newline then ⟨false, s, [last], []⟩
  else
    let reads := last :: List.range prefixSize
    if s.mem.take prefixSize ≠ embedCtrlPref then ⟨false, s, reads, []⟩
    else
      let reads := reads ++ List.range' prefixSize (s.lineSize - prefixSize)
      match ((s.mem.drop prefixSize).take (s.lineSize - prefixSize)).findIdx? (· == comma) with
      | none => ⟨false, s, reads, []⟩
      | some k =>
        let commaPtr := prefixSize + k
        let mem := (s.mem.set commaPtr 0).set last 0
        let writeCmd := atoi (cString (mem.drop prefixSize))
        let writeCmdOffset := atoi (cString (mem.drop (commaPtr + 1)))
        let reads := reads ++ List.range' prefixSize (atoiReads (mem.drop prefixSize)) ++
          List.range' (commaPtr + 1) (atoiReads (mem.drop (commaPtr + 1)))
        ⟨true, ⟨mem, s.lineSize, ⟨uint32 writeCmd, uint32 writeCmdOffset⟩⟩, reads,
          [commaPtr, last]⟩

/-! ## Where `atoi` stops -/

theorem signSize_le {s : List Byte} {i : ℕ} (h : s[i]? = some 0) : signSize s ≤ i := by
  rw [signSize.eq_def]
  split
  · cases i with
    | zero => exact absurd h (by simp)
    | succ i => exact Nat.succ_le_succ (Nat.zero_le i)
  · cases i with
    | zero => exact absurd h (by simp)
    | succ i => exact Nat.succ_le_succ (Nat.zero_le i)
  · exact Nat.zero_le i

/-- It does not go past a terminator. -/
theorem atoiReads_le {s : List Byte} {i : ℕ} (h : s[i]? = some 0) : atoiReads s ≤ i + 1 := by
  have hspaces := Delim.length_takeWhile_le (p := isSpace) h rfl
  have hrest : (s.dropWhile isSpace)[i - (s.takeWhile isSpace).length]? = some 0 := by
    rw [← List.takeWhile_append_dropWhile (p := isSpace) (l := s),
      List.getElem?_append_right hspaces] at h
    exact h
  have hsign := signSize_le hrest
  have hnumber : ((s.dropWhile isSpace).drop (signSize (s.dropWhile isSpace)))[
      i - (s.takeWhile isSpace).length - signSize (s.dropWhile isSpace)]? = some 0 := by
    rw [List.getElem?_drop, Nat.add_sub_cancel' hsign, hrest]
  have hdigits := Delim.length_takeWhile_le (p := isDigit) hnumber rfl
  rw [atoiReads]
  omega

/-- With a terminator in it, a string ends there. -/
theorem cString_append {bs : List Byte} {i : ℕ} (h : bs[i]? = some 0) (rest : List Byte) :
    cString (bs ++ rest) = cString bs := by
  have hle : (bs.takeWhile (· != 0)).length ≤ i := Delim.length_takeWhile_le h rfl
  have hlt : i < bs.length := (List.getElem?_eq_some_iff.mp h).1
  rw [cString, List.takeWhile_append, if_neg (by omega), cString]

/-! ## Inside the line -/

/-- The comma is not the last byte, for that is a newline. -/
theorem comma_lt_last {line : List Byte} {k : ℕ} (hends : (line)[line.length - 1]? = some newline)
    (hfind : (line.drop embedCtrlPref.length).findIdx? (· == comma) = some k) :
    embedCtrlPref.length + k < line.length - 1 := by
  obtain ⟨hlt, hat, -⟩ := List.findIdx?_eq_some_iff_getElem.mp hfind
  rw [List.getElem_drop, beq_iff_eq] at hat
  rw [List.length_drop] at hlt
  have hne : embedCtrlPref.length + k ≠ line.length - 1 := by
    intro heq
    rw [← heq, List.getElem?_eq_getElem (by omega), hat] at hends
    exact absurd hends (by decide)
  omega

/-- The line with the comma at index `k` behind the prefix, and the newline, overwritten. -/
def cutLine (line : List Byte) (k : ℕ) : List Byte :=
  (line.set (embedCtrlPref.length + k) 0).set (line.length - 1) 0

theorem length_cutLine (line : List Byte) (k : ℕ) : (cutLine line k).length = line.length := by
  rw [cutLine, List.length_set, List.length_set]

/-- What is behind the line is left alone. -/
theorem cutLine_append {line : List Byte} {k : ℕ} (hk : embedCtrlPref.length + k < line.length - 1)
    (beyond : List Byte) :
    ((line ++ beyond).set (embedCtrlPref.length + k) 0).set (line.length - 1) 0 =
      cutLine line k ++ beyond := by
  have hlast : line.length - 1 < (line.set (embedCtrlPref.length + k) 0).length := by
    rw [List.length_set]
    omega
  rw [List.set_append_left _ _ (by omega), List.set_append_left _ _ hlast, cutLine]

/-- Both terminators are there. -/
theorem getElem?_cutLine {line : List Byte} {k : ℕ}
    (hk : embedCtrlPref.length + k < line.length - 1) :
    (cutLine line k)[embedCtrlPref.length + k]? = some 0 ∧
      (cutLine line k)[line.length - 1]? = some 0 := by
  constructor
  · rw [cutLine, List.getElem?_set_ne (by omega), List.getElem?_set_self (by omega)]
  · rw [cutLine, List.getElem?_set_self (by rw [List.length_set]; omega)]

/-- The bytes that the two calls of `atoi` look at. -/
def scanned (mem : List Byte) (k : ℕ) : List ℕ :=
  List.range' embedCtrlPref.length (atoiReads (mem.drop embedCtrlPref.length)) ++
    List.range' (embedCtrlPref.length + k + 1)
      (atoiReads (mem.drop (embedCtrlPref.length + k + 1)))

/-- They are bytes of the line. -/
theorem lt_of_mem_scanned {line beyond : List Byte} {k : ℕ}
    (hk : embedCtrlPref.length + k < line.length - 1) {i : ℕ}
    (hi : i ∈ scanned (cutLine line k ++ beyond) k) : i < line.length := by
  have hlen := length_cutLine line k
  obtain ⟨hcomma, hlast⟩ := getElem?_cutLine hk
  have hcomma' : ((cutLine line k ++ beyond).drop embedCtrlPref.length)[k]? = some 0 := by
    rw [List.getElem?_drop, List.getElem?_append_left (by omega), hcomma]
  have hlast' : ((cutLine line k ++ beyond).drop (embedCtrlPref.length + k + 1))[
      line.length - 1 - (embedCtrlPref.length + k + 1)]? = some 0 := by
    rw [List.getElem?_drop, Nat.add_sub_cancel' hk, List.getElem?_append_left (by omega), hlast]
  have hfirst := atoiReads_le hcomma'
  have hsecond := atoiReads_le hlast'
  rcases List.mem_append.mp hi with hi | hi <;> rw [List.mem_range'_1] at hi <;> omega

/-- The bytes that are compared are bytes of the line. -/
theorem lt_of_mem_compared {n i : ℕ} (hpos : embedCtrlPref.length < n)
    (hi : i ∈ (n - 1) :: List.range embedCtrlPref.length) : i < n := by
  rcases List.mem_cons.mp hi with rfl | hi
  · omega
  · exact (List.mem_range.mp hi).trans hpos

/-- So are those among which the comma is searched. -/
theorem lt_of_mem_searched {n i : ℕ} (hpos : embedCtrlPref.length < n)
    (hi : i ∈ (n - 1) :: List.range embedCtrlPref.length ++
      List.range' embedCtrlPref.length (n - embedCtrlPref.length)) : i < n := by
  rcases List.mem_append.mp hi with hi | hi
  · exact lt_of_mem_compared hpos hi
  · rw [List.mem_range'_1] at hi
    omega

/-- **What `parse_ctrl_line` does in the buffer.**  It rejects the line as it is, or it cuts it at
the comma and at the newline, and hands the two pieces to `atoi`. -/
theorem parseCtrlLineInPlace_cases (line beyond : List Byte) (seekTo : AesdSeekto) :
    (parseCtrlLine line = none ∧
      ∃ reads, (∀ i ∈ reads, i < line.length) ∧
        parseCtrlLineInPlace ⟨line ++ beyond, line.length, seekTo⟩ =
          ⟨false, ⟨line ++ beyond, line.length, seekTo⟩, reads, []⟩) ∨
    ∃ k reads, embedCtrlPref.length + k < line.length - 1 ∧ (∀ i ∈ reads, i < line.length) ∧
      parseCtrlLine line =
        some ⟨uint32 (atoi (cString ((cutLine line k).drop embedCtrlPref.length))),
          uint32 (atoi (cString ((cutLine line k).drop (embedCtrlPref.length + k + 1))))⟩ ∧
      parseCtrlLineInPlace ⟨line ++ beyond, line.length, seekTo⟩ =
        ⟨true, ⟨cutLine line k ++ beyond, line.length,
          ⟨uint32 (atoi (cString ((cutLine line k ++ beyond).drop embedCtrlPref.length))),
            uint32 (atoi (cString ((cutLine line k ++ beyond).drop
              (embedCtrlPref.length + k + 1))))⟩⟩,
          reads ++ scanned (cutLine line k ++ beyond) k,
          [embedCtrlPref.length + k, line.length - 1]⟩ := by
  rw [parseCtrlLine, parseCtrlLineInPlace]
  dsimp only
  by_cases hshort : line.length < embedCtrlPref.length + minEmbedParamChars
  · left
    refine ⟨if_pos (by simp [hshort]), [], by simp, if_pos hshort⟩
  have hpos : embedCtrlPref.length < line.length := by
    rw [minEmbedParamChars] at hshort
    omega
  have hlast : (line ++ beyond)[line.length - 1]? = (line)[line.length - 1]? :=
    List.getElem?_append_left (by omega)
  have htake : (line ++ beyond).take embedCtrlPref.length = line.take embedCtrlPref.length :=
    List.take_append_of_le_length hpos.le
  have hdrop : ((line ++ beyond).drop embedCtrlPref.length).take
      (line.length - embedCtrlPref.length) = line.drop embedCtrlPref.length := by
    rw [List.drop_append_of_le_length hpos.le, List.take_left' List.length_drop]
  rw [if_neg hshort, hlast, htake, hdrop]
  by_cases hends : (line)[line.length - 1]? = some newline
  swap
  · left
    refine ⟨if_pos (by simp [hends]), [line.length - 1], ?_, if_pos hends⟩
    intro i hi
    rw [List.mem_singleton] at hi
    omega
  rw [if_neg (by simp [hshort, hends]), if_neg (not_not.mpr hends)]
  by_cases hpref : line.take embedCtrlPref.length = embedCtrlPref
  swap
  · left
    exact ⟨if_pos (by simp [hpref]), _, fun i hi ↦ lt_of_mem_compared hpos hi, if_pos hpref⟩
  rw [if_neg (by simp [hpref]), if_neg (not_not.mpr hpref)]
  cases hfind : (line.drop embedCtrlPref.length).findIdx? (· == comma) with
  | none => exact .inl ⟨rfl, _, fun i hi ↦ lt_of_mem_searched hpos hi, rfl⟩
  | some k =>
    right
    have hk := comma_lt_last hends hfind
    refine ⟨k, _, hk, fun i hi ↦ lt_of_mem_searched hpos hi, rfl, ?_⟩
    dsimp only
    rw [cutLine_append hk, scanned, ← List.append_assoc]

/-- **It decides what `parseCtrlLine` decides.**  The pieces end in terminators, so what is behind
the line does not matter. -/
theorem parseCtrlLineInPlace_eq (line beyond : List Byte) (seekTo : AesdSeekto) :
    (parseCtrlLineInPlace ⟨line ++ beyond, line.length, seekTo⟩).found =
        (parseCtrlLine line).isSome ∧
      (parseCtrlLineInPlace ⟨line ++ beyond, line.length, seekTo⟩).args.seekTo =
        (parseCtrlLine line).getD seekTo := by
  rcases parseCtrlLineInPlace_cases line beyond seekTo with
    ⟨hnone, reads, -, heq⟩ | ⟨k, reads, hk, -, hsome, heq⟩
  · rw [hnone, heq]
    exact ⟨rfl, rfl⟩
  · rw [hsome, heq]
    refine ⟨rfl, ?_⟩
    have hlen := length_cutLine line k
    obtain ⟨hcomma, hlast⟩ := getElem?_cutLine hk
    have hfirst : cString ((cutLine line k ++ beyond).drop embedCtrlPref.length) =
        cString ((cutLine line k).drop embedCtrlPref.length) := by
      rw [List.drop_append_of_le_length (by omega)]
      exact cString_append (i := k) (by rw [List.getElem?_drop, hcomma]) beyond
    have hsecond : cString ((cutLine line k ++ beyond).drop (embedCtrlPref.length + k + 1)) =
        cString ((cutLine line k).drop (embedCtrlPref.length + k + 1)) := by
      rw [List.drop_append_of_le_length (by omega)]
      exact cString_append (i := line.length - 1 - (embedCtrlPref.length + k + 1))
        (by rw [List.getElem?_drop, Nat.add_sub_cancel' hk, hlast]) beyond
    rw [hfirst, hsecond]
    rfl

/-- **Inside the line.**  Whatever the buffer holds behind the line, `parse_ctrl_line` reads and
writes bytes of the line only; and if it returns `false`, the buffer, `*line_size` and `*seek_to`
are as they were. -/
theorem parseCtrlLineInPlace_inside (line beyond : List Byte) (seekTo : AesdSeekto) :
    let s : CtrlArgs := ⟨line ++ beyond, line.length, seekTo⟩
    (∀ i ∈ (parseCtrlLineInPlace s).reads, i < s.lineSize) ∧
      (∀ i ∈ (parseCtrlLineInPlace s).writes, i < s.lineSize) ∧
      ((parseCtrlLineInPlace s).found = false → (parseCtrlLineInPlace s).args = s) := by
  intro s
  rcases parseCtrlLineInPlace_cases line beyond seekTo with
    ⟨-, reads, hreads, heq⟩ | ⟨k, reads, hk, hreads, -, heq⟩
  · rw [show parseCtrlLineInPlace s = _ from heq]
    exact ⟨hreads, by simp, fun _ ↦ rfl⟩
  · rw [show parseCtrlLineInPlace s = _ from heq]
    refine ⟨?_, ?_, fun hfound ↦ absurd hfound (by simp)⟩
    · intro i hi
      rcases List.mem_append.mp hi with hi | hi
      · exact hreads i hi
      · exact lt_of_mem_scanned hk hi
    · intro i hi
      show i < line.length
      simp only [List.mem_cons, List.not_mem_nil, or_false] at hi
      omega

end Aesd
