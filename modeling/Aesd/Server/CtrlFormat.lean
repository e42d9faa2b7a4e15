import Aesd.Server.CtrlLine
import Aesd.Lib.Delim

/-!
# The format of a control line

A control line is meant to be `AESDCHAR_IOCSEEKTO:X,Y` and a newline, with two decimal numbers.
`parseCtrlLine_ctrlLine` and `exists_of_parseCtrlLine` say what `parse_ctrl_line` takes for one: any
line with the prefix, a comma somewhere behind it and a newline at the end, if there is at least one
more byte.  What is in front of the comma and what is behind it goes to `atoi`, which makes a number
of everything.

So on a line in the format the numbers come out as they were written (`parseCtrlLine_numerals`), and
`faithfulLine_iff` says for which other lines it goes wrong: those in which something else than a
number stands in one of the two places.
-/

set_option autoImplicit false

namespace Aesd

/-! ## Numbers in text -/

/-- A string of decimal digits, at least one. -/
def Digits (ds : List Byte) : Prop := ds ≠ [] ∧ ∀ b ∈ ds, isDigit b = true

instance (ds : List Byte) : Decidable (Digits ds) :=
  have := List.decidableBAll (fun b ↦ isDigit b = true) ds
  inferInstanceAs (Decidable (_ ∧ _))

/-- Digits of a number that fits into a `uint32_t`. -/
def Numeral (ds : List Byte) : Prop := Digits ds ∧ digitsValue ds < 2 ^ 32

instance (ds : List Byte) : Decidable (Numeral ds) := inferInstanceAs (Decidable (_ ∧ _))

/-- A digit is none of the other characters that matter. -/
theorem ne_of_isDigit {b c : Byte} (h : isDigit b = true) (hc : isDigit c = false) : b ≠ c := by
  rintro rfl
  exact absurd (h.symm.trans hc) (by simp)

theorem isSpace_of_isDigit {b : Byte} (h : isDigit b = true) : isSpace b = false := by
  have hne : b ≠ 32 := ne_of_isDigit h rfl
  simp only [isDigit, Bool.and_eq_true, decide_eq_true_eq, UInt8.le_iff_toNat_le] at h
  have hlow : 48 ≤ b.toNat := h.1
  have hle : ¬b ≤ 13 := by
    rw [UInt8.le_iff_toNat_le]
    change ¬b.toNat ≤ 13
    omega
  simp [isSpace, hne, hle]

/-- The terminator is where the string ends. -/
theorem cString_append_zero (bs rest : List Byte) : cString (bs ++ 0 :: rest) = cString bs := by
  induction bs with
  | nil => rfl
  | cons b bs ih =>
    rw [cString, List.cons_append, List.takeWhile_cons, cString, List.takeWhile_cons]
    split
    · exact congrArg (List.cons b) ih
    · rfl

theorem cString_of_digits {ds : List Byte} (h : ∀ b ∈ ds, isDigit b = true) : cString ds = ds := by
  refine List.takeWhile_eq_self_iff.mpr ?_
  intro b hb
  exact bne_iff_ne.mpr (ne_of_isDigit (h b hb) rfl)

/-- On digits `strtol` gives their value. -/
theorem strtol_of_digits {ds : List Byte} (h : ∀ b ∈ ds, isDigit b = true)
    (hv : digitsValue ds < 2 ^ 63) : strtol ds = digitsValue ds := by
  have hspace : ds.dropWhile isSpace = ds := by
    refine List.dropWhile_eq_self_iff.mpr ?_
    intro hlen
    rw [isSpace_of_isDigit (h _ (List.getElem_mem hlen))]
    simp
  have hall : ds.takeWhile isDigit = ds := List.takeWhile_eq_self_iff.mpr h
  rw [strtol]
  simp only [hspace]
  split
  · exact absurd (h _ List.mem_cons_self) (by decide)
  · exact absurd (h _ List.mem_cons_self) (by decide)
  · rw [hall]
    omega

/-- So does `atoi`, once the result has been converted to a `uint32_t`. -/
theorem uint32_atoi_of_numeral {ds : List Byte} (h : Numeral ds) :
    uint32 (atoi (cString ds)) = digitsValue ds := by
  obtain ⟨⟨-, hdigits⟩, hv⟩ := h
  rw [cString_of_digits hdigits, atoi, strtol_of_digits hdigits (by omega)]
  change ((digitsValue ds : ℤ).bmod (2 ^ 32) % ((2 ^ 32 : ℕ) : ℤ)).toNat = digitsValue ds
  rw [Int.bmod_emod]
  omega

/-! ## What is taken for a control line -/

/-- The line with `x` in front of the comma and `y` behind it. -/
def ctrlLine (x y : List Byte) : List Byte :=
  embedCtrlPref ++ (x ++ comma :: (y ++ [newline]))

theorem length_ctrlLine (x y : List Byte) :
    (ctrlLine x y).length = embedCtrlPref.length + x.length + 1 + y.length + 1 := by
  simp only [ctrlLine, List.length_append, List.length_cons, List.length_nil]
  omega

theorem ctrlLine_eq_concat (x y : List Byte) :
    ctrlLine x y = (embedCtrlPref ++ (x ++ comma :: y)) ++ [newline] := by
  simp [ctrlLine]

/-- The first comma behind the prefix cuts the line. -/
theorem ctrlLine_inj {x y x' y' : List Byte} (hx : comma ∉ x) (hx' : comma ∉ x')
    (h : ctrlLine x y = ctrlLine x' y') : x = x' ∧ y = y' := by
  have hcut := List.append_cancel_left h
  have hpre : ∀ z rest : List Byte, comma ∉ z →
      (z ++ comma :: rest).takeWhile (· != comma) = z := by
    intro z rest hz
    rw [List.takeWhile_append_of_pos fun b hb ↦ bne_iff_ne.mpr (ne_of_mem_of_not_mem hb hz)]
    simp
  have hxx : x = x' := by
    rw [← hpre x (y ++ [newline]) hx, hcut, hpre x' (y' ++ [newline]) hx']
  subst hxx
  rw [List.append_cancel_left_eq, List.cons.injEq] at hcut
  exact ⟨rfl, List.append_cancel_right hcut.2⟩

/-- The line after the comma and the newline have been overwritten. -/
theorem set_ctrlLine (x y : List Byte) :
    ((ctrlLine x y).set (embedCtrlPref.length + x.length) 0).set ((ctrlLine x y).length - 1) 0 =
      embedCtrlPref ++ (x ++ 0 :: (y ++ [0])) := by
  have hcomma : (ctrlLine x y).set (embedCtrlPref.length + x.length) 0 =
      (embedCtrlPref ++ x ++ 0 :: y) ++ [newline] := by
    rw [ctrlLine, ← List.append_assoc, List.set_append_right _ _ (by rw [List.length_append]),
      List.length_append, Nat.sub_self, List.set_cons_zero]
    simp
  have hend : (ctrlLine x y).length - 1 = (embedCtrlPref ++ x ++ 0 :: y).length := by
    rw [length_ctrlLine]
    simp only [List.length_append, List.length_cons]
    omega
  rw [hcomma, hend, List.set_append_right _ _ le_rfl, Nat.sub_self, List.set_cons_zero]
  simp

/-- **What is made of a line that is taken for a control line.** -/
theorem parseCtrlLine_ctrlLine {x y : List Byte} (hx : comma ∉ x) (hne : x ≠ [] ∨ y ≠ []) :
    parseCtrlLine (ctrlLine x y) =
      some ⟨uint32 (atoi (cString x)), uint32 (atoi (cString y))⟩ := by
  have hlong : embedCtrlPref.length + minEmbedParamChars ≤ (ctrlLine x y).length := by
    rw [length_ctrlLine, minEmbedParamChars]
    rcases hne with hne | hne <;> have hpos := List.length_pos_of_ne_nil hne <;> omega
  have hlast : (ctrlLine x y)[(ctrlLine x y).length - 1]? = some newline := by
    rw [← List.getLast?_eq_getElem?, ctrlLine_eq_concat, List.getLast?_concat]
  have htake : (ctrlLine x y).take embedCtrlPref.length = embedCtrlPref := List.take_left
  have hdrop : (ctrlLine x y).drop embedCtrlPref.length = x ++ comma :: (y ++ [newline]) :=
    List.drop_left
  have hfind : (x ++ comma :: (y ++ [newline])).findIdx? (· == comma) = some x.length :=
    Delim.findIdx?_append_cons (fun b hb ↦ beq_false_of_ne (ne_of_mem_of_not_mem hb hx)) rfl
  have hsecond : (embedCtrlPref ++ (x ++ 0 :: (y ++ [0]))).drop
      (embedCtrlPref.length + x.length + 1) = y ++ [0] := by
    rw [Nat.add_assoc, ← List.drop_drop, List.drop_left, ← List.drop_drop, List.drop_left]
    rfl
  rw [parseCtrlLine]
  simp only [hlast, htake, hdrop, hfind, set_ctrlLine, hsecond, List.drop_left,
    cString_append_zero]
  rw [if_neg (by simpa using hlong), if_neg (by simp)]

/-- **Nothing else is.** -/
theorem exists_of_parseCtrlLine {line : List Byte} {a : AesdSeekto}
    (h : parseCtrlLine line = some a) :
    ∃ x y, line = ctrlLine x y ∧ comma ∉ x ∧ (x ≠ [] ∨ y ≠ []) := by
  rw [parseCtrlLine] at h
  dsimp only at h
  split at h
  · exact absurd h (by simp)
  rename_i hends
  split at h
  · exact absurd h (by simp)
  rename_i hpref
  split at h
  · exact absurd h (by simp)
  rename_i k hk
  simp only [Bool.or_eq_true, decide_eq_true_eq, bne_iff_ne, ne_eq, not_or, Nat.not_lt,
    not_not] at hends hpref
  obtain ⟨hlong, hlast⟩ := hends
  obtain ⟨x, c, rest, hdrop, hx, hc, -⟩ := Delim.exists_of_findIdx? hk
  obtain rfl : c = comma := beq_iff_eq.mp hc
  have hline : line = embedCtrlPref ++ (x ++ comma :: rest) := by
    rw [← hdrop]
    conv_lhs => rw [← List.take_append_drop embedCtrlPref.length line, hpref]
  rw [← List.getLast?_eq_getElem?, hline, List.getLast?_append_of_ne_nil _ (by simp),
    List.getLast?_append_of_ne_nil _ (by simp)] at hlast
  -- the comma is not the last byte, for that is a newline
  rcases List.eq_nil_or_concat' rest with rfl | ⟨y, b, rfl⟩
  · exact absurd hlast (by decide)
  rw [← List.cons_append, List.getLast?_concat, Option.some_inj] at hlast
  subst hlast
  have hnot : comma ∉ x := fun hmem ↦ absurd (hx comma hmem) (by decide)
  refine ⟨x, y, hline, hnot, ?_⟩
  by_contra hnil
  simp only [not_or, not_not] at hnil
  obtain ⟨rfl, rfl⟩ := hnil
  rw [hline] at hlong
  exact absurd hlong (by decide)

/-! ## The format -/

/-- **Numbers come out as they were written**, whatever zeros stand in front of them. -/
theorem parseCtrlLine_numerals (writeCmd writeCmdOffset : ℕ) (hcmd : writeCmd ≤ 2 ^ 31 - 1)
    (hoff : writeCmdOffset ≤ 2 ^ 31 - 1) (x y : List Byte) (hx : Digits x)
    (hxv : digitsValue x = writeCmd) (hy : Digits y) (hyv : digitsValue y = writeCmdOffset) :
    parseCtrlLine (embedCtrlPref ++ (x ++ comma :: (y ++ [newline]))) =
      some ⟨writeCmd, writeCmdOffset⟩ := by
  have hnot : comma ∉ x := fun hmem ↦ ne_of_isDigit (hx.2 comma hmem) rfl rfl
  have hxn : Numeral x := ⟨hx, by omega⟩
  have hyn : Numeral y := ⟨hy, by omega⟩
  rw [← ctrlLine, parseCtrlLine_ctrlLine hnot (.inl hx.1), uint32_atoi_of_numeral hxn,
    uint32_atoi_of_numeral hyn, hxv, hyv]

/-- The shortest line in the format, and one with zeros in front. -/
theorem parseCtrlLine_numerals_zeros :
    parseCtrlLine (embedCtrlPref ++ [48, 44, 48, 10]) = some ⟨0, 0⟩ ∧
      parseCtrlLine (embedCtrlPref ++ [48, 48, 55, 44, 49, 50, 10]) = some ⟨7, 12⟩ :=
  ⟨parseCtrlLine_numerals 0 0 (by decide) (by decide) [48] [48] (by decide) rfl (by decide) rfl,
    parseCtrlLine_numerals 7 12 (by decide) (by decide) [48, 48, 55] [49, 50] (by decide) rfl
      (by decide) rfl⟩

/-- What a control line is meant to be: a line that is taken for one has the format, and the
argument of the ioctl has the two numbers. -/
def FaithfulLine (line : List Byte) : Prop :=
  ∀ a, parseCtrlLine line = some a →
    ∃ x y, line = ctrlLine x y ∧ Numeral x ∧ Numeral y ∧ a = ⟨digitsValue x, digitsValue y⟩

/-- **When a line is taken for what it is**: exactly when in a line with the prefix, a comma and a
newline, and at least one more byte, what stands in front of the first comma and what stands behind
it are both numbers. -/
theorem faithfulLine_iff (line : List Byte) :
    FaithfulLine line ↔
      ∀ x y, line = ctrlLine x y → comma ∉ x → x ≠ [] ∨ y ≠ [] → Numeral x ∧ Numeral y := by
  constructor
  · rintro hfaithful x y rfl hx hne
    obtain ⟨x', y', heq, hxn, hyn, -⟩ := hfaithful _ (parseCtrlLine_ctrlLine hx hne)
    have hx' : comma ∉ x' := fun hmem ↦ ne_of_isDigit (hxn.1.2 comma hmem) rfl rfl
    obtain ⟨rfl, rfl⟩ := ctrlLine_inj hx hx' heq
    exact ⟨hxn, hyn⟩
  · intro h a ha
    obtain ⟨x, y, rfl, hx, hne⟩ := exists_of_parseCtrlLine ha
    obtain ⟨hxn, hyn⟩ := h x y rfl hx hne
    refine ⟨x, y, rfl, hxn, hyn, ?_⟩
    rw [parseCtrlLine_ctrlLine hx hne, uint32_atoi_of_numeral hxn,
      uint32_atoi_of_numeral hyn] at ha
    exact (Option.some.inj ha).symm

/-- `AESDCHAR_IOCSEEKTO:1,` and a newline, with nothing behind the comma, is taken for a control
line. -/
theorem parseCtrlLine_empty_offset :
    parseCtrlLine (embedCtrlPref ++ [49, 44, 10]) = some ⟨1, 0⟩ ∧
      ¬FaithfulLine (embedCtrlPref ++ [49, 44, 10]) := by
  refine ⟨by decide, ?_⟩
  intro hfaithful
  obtain ⟨x, y, heq, hx, hy, -⟩ := hfaithful ⟨1, 0⟩ (by decide)
  have hnot : comma ∉ x := fun hmem ↦ ne_of_isDigit (hx.1.2 comma hmem) rfl rfl
  obtain ⟨-, rfl⟩ := ctrlLine_inj (x := [49]) (y := []) (by decide) hnot heq
  exact hy.1.1 rfl

end Aesd
