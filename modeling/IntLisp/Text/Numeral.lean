/-
  IntLisp.Text.Numeral
  ────────────────────
  **INTEGERS AS WORDS.**

  A word denotes an integer when it is one or more decimal digits, after at
  most one sign.  The integer has no bound.  The canonical word of an integer
  has no plus sign and no needless zero, and reads back as that integer.
-/

namespace IntLisp.Text

/-- One or more ASCII digits. -/
def isDigits (cs : List Char) : Bool := !cs.isEmpty && cs.all Char.isDigit

/-- Whether the word `w` is written as an integer. -/
def isInteger (w : String) : Bool :=
  match w.toList with
  | '+' :: ds | '-' :: ds => isDigits ds
  | ds => isDigits ds

/-- The number that the digits `cs` denote, or nothing if they are not all digits. -/
def natural? (cs : List Char) : Option Nat :=
  if isDigits cs then some (Nat.ofDigitChars 10 cs 0) else none

/-- The integer that the characters `cs` denote, or nothing if they are no numeral. -/
def numeralOf? : List Char → Option Int
  | '+' :: ds => (natural? ds).map Int.ofNat
  | '-' :: ds => (natural? ds).map fun n => -Int.ofNat n
  | ds => (natural? ds).map Int.ofNat

/-- The integer that the word `w` denotes, or nothing if it is no numeral. -/
def numeral? (w : String) : Option Int := numeralOf? w.toList

/-- The canonical word of the integer `z`. -/
def decimal (z : Int) : String := z.repr

end IntLisp.Text
