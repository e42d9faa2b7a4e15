import Aesd.Driver.Device

/-!
# Control lines

`parse_ctrl_line` of `sock_thread.c`: a line of the form `AESDCHAR_IOCSEEKTO:X,Y` is not stored but
turned into an argument of the ioctl.  The function works on the line in place, so the model does
too: it overwrites the comma and the newline with terminators and hands what is in front of them
to `atoi`.
-/

set_option autoImplicit false

namespace Aesd

/-! ## Machine integers -/

/-- Conversion to a 32-bit `int`. -/
def int32 (n : ℤ) : ℤ := n.bmod (2 ^ 32)

/-- Conversion to `uint32_t`. -/
def uint32 (n : ℤ) : ℕ := (n % 2 ^ 32).toNat

/-- Conversion to a 64-bit `size_t`. -/
def sizeT (n : ℤ) : ℕ := (n % 2 ^ 64).toNat

/-! ## Numbers in text -/

/-- `isspace`. -/
def isSpace (b : Byte) : Bool := b == 32 || (9 ≤ b && b ≤ 13)

/-- `isdigit`. -/
def isDigit (b : Byte) : Bool := 48 ≤ b && b ≤ 57

/-- The string at a pointer: everything up to the terminator. -/
def cString (bs : List Byte) : List Byte := bs.takeWhile (· != 0)

/-- The value of a string of decimal digits. -/
def digitsValue (ds : List Byte) : ℕ := ds.foldl (fun n b ↦ n * 10 + (b.toNat - 48)) 0

/-- `strtol` in base ten: white space, a sign, digits, and the nearest `long`. -/
def strtol (s : List Byte) : ℤ :=
  let s := s.dropWhile isSpace
  let n : ℤ := match s with
    | 45 :: ds => -(digitsValue (ds.takeWhile isDigit) : ℤ)
    | 43 :: ds => digitsValue (ds.takeWhile isDigit)
    | ds => digitsValue (ds.takeWhile isDigit)
  max (-2 ^ 63) (min n (2 ^ 63 - 1))

/-- `atoi`, which is `strtol` cut down to an `int`. -/
def atoi (s : List Byte) : ℤ := int32 (strtol s)

/-! ## The line -/

/-- `EMBED_CTRL_PREF`, that is `"AESDCHAR_IOCSEEKTO:"`. -/
def embedCtrlPref : List Byte :=
  [65, 69, 83, 68, 67, 72, 65, 82, 95, 73, 79, 67, 83, 69, 69, 75, 84, 79, 58]

/-- `MIN_EMBED_PARAM_CHARS`. -/
def minEmbedParamChars : ℕ := 3

/-- The character between the two numbers. -/
def comma : Byte := 44

/-- `parse_ctrl_line`: the argument of the ioctl, if the line is a control line. -/
def parseCtrlLine (line : List Byte) : Option AesdSeekto :=
  let prefixSize := embedCtrlPref.length
  let lineSize := line.length
  if lineSize < prefixSize + minEmbedParamChars || (line)[lineSize - 1]? != some newline then none
  else if line.take prefixSize != embedCtrlPref then none
  else
    match (line.drop prefixSize).findIdx? (· == comma) with
    | none => none
    | some k =>
      let line := (line.set (prefixSize + k) 0).set (lineSize - 1) 0
      let writeCmd := atoi (cString (line.drop prefixSize))
      let writeCmdOffset := atoi (cString (line.drop (prefixSize + k + 1)))
      some ⟨uint32 writeCmd, uint32 writeCmdOffset⟩

end Aesd
