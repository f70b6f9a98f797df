/-
  IntLisp.Text.Literal
  ────────────────────
  **WHOLE NUMBERS ON THE COMMAND LINE.**

  A number given to a flag may have a sign and a base: `0x`, `0o` and `0b`
  begin a number in base sixteen, eight and two, another leading zero also
  one in base eight.  Underscores may stand between digits and after the
  base.  The number must fit into 64 bits, sign included; one that is too
  large is out of range from the digit on that makes it so, whatever follows.
-/

namespace IntLisp.Text

/-- What can be wrong with a literal. -/
inductive LiteralFault where
  | malformed
  | outOfRange
deriving DecidableEq

/-- The value of a digit in any base up to thirty-six. -/
def digitValue? (c : Char) : Option Nat :=
  if '0' ≤ c && c ≤ '9' then some (c.toNat - '0'.toNat)
  else if 'a' ≤ c && c ≤ 'z' then some (c.toNat - 'a'.toNat + 10)
  else if 'A' ≤ c && c ≤ 'Z' then some (c.toNat - 'A'.toNat + 10)
  else none

/-- The base of an unsigned literal and the digits after its mark. -/
def literalBase : List Char → Nat × List Char
  | '0' :: m :: d :: ds =>
    if m = 'x' || m = 'X' then (16, d :: ds)
    else if m = 'o' || m = 'O' then (8, d :: ds)
    else if m = 'b' || m = 'B' then (2, d :: ds)
    else (8, m :: d :: ds)
  | '0' :: ds => (8, ds)
  | ds => (10, ds)

/-- Read the digits `cs` after those that make up `n`, below `2 ^ 64`. -/
def readDigits (base : Nat) : Nat → List Char → Except LiteralFault Nat
  | n, [] => .ok n
  | n, c :: cs =>
    if c = '_' then readDigits base n cs
    else
      match digitValue? c with
      | none => .error .malformed
      | some d =>
        if base ≤ d then .error .malformed
        else if 2 ^ 64 ≤ n * base + d then .error .outOfRange
        else readDigits base (n * base + d) cs

/-- What stands before a character of a literal, as far as underscores care. -/
inductive LiteralSide where
  /-- A digit, or the mark of the base. -/
  | digit
  | underscore
  /-- The beginning of a literal without a mark, or anything else. -/
  | elsewhere
deriving DecidableEq

/-- Whether every underscore in `cs` stands between digits. -/
def underscoresFit (hex : Bool) : LiteralSide → List Char → Bool
  | side, [] => side ≠ .underscore
  | side, c :: cs =>
    if '0' ≤ c && c ≤ '9' || hex && (digitValue? c).any (· < 16) then
      underscoresFit hex .digit cs
    else if c = '_' then side = .digit && underscoresFit hex .underscore cs
    else side ≠ .underscore && underscoresFit hex .elsewhere cs

/-- Whether the underscores of an unsigned literal stand where they may. -/
def underscoresAllowed : List Char → Bool
  | '0' :: m :: ds =>
    if m = 'x' || m = 'X' then underscoresFit true .digit ds
    else if m = 'o' || m = 'O' || m = 'b' || m = 'B' then underscoresFit false .digit ds
    else underscoresFit false .elsewhere ('0' :: m :: ds)
  | ds => underscoresFit false .elsewhere ds

/-- The number that an unsigned literal denotes. -/
def readUnsigned (cs : List Char) : Except LiteralFault Nat := do
  if cs.isEmpty then throw .malformed
  let (base, digits) := literalBase cs
  let n ← readDigits base 0 digits
  if digits.contains '_' && !underscoresAllowed cs then throw .malformed
  return n

/-- The integer that a literal denotes. -/
def readLiteral (s : String) : Except LiteralFault Int := do
  let (negative, digits) :=
    match s.toList with
    | '-' :: ds => (true, ds)
    | '+' :: ds => (false, ds)
    | ds => (false, ds)
  let n ← readUnsigned digits
  if negative then
    if Nat.pow 2 63 < n then throw .outOfRange
    return -n
  else
    if Nat.pow 2 63 ≤ n then throw .outOfRange
    return n

end IntLisp.Text
