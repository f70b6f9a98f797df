/-
  IntLisp.Text.Quoted
  ───────────────────
  **QUOTED TEXTS.**

  A name or a text inside a message stands between double quotes.  Inside
  them a quote and a backslash get a backslash, the seven common controls
  have a letter each, and every other character that cannot be shown is
  written by its number: two hexadecimal digits in the ASCII range, four up
  to U+FFFF and eight above.
-/
import IntLisp.Text.Printable

namespace IntLisp.Text

/-- The last `width` hexadecimal digits of `n`, in lower case. -/
def hexDigits : Nat → Nat → List Char
  | 0, _ => []
  | width + 1, n => hexDigits width (n / 16) ++ [Nat.digitChar (n % 16)]

/-- How the character `c` is written between quotes. -/
def escape (c : Char) : List Char :=
  if c = '"' then ['\\', '"']
  else if c = '\\' then ['\\', '\\']
  else if isPrintable c then [c]
  else if c = '\x07' then ['\\', 'a']
  else if c = '\x08' then ['\\', 'b']
  else if c = '\x0c' then ['\\', 'f']
  else if c = '\n' then ['\\', 'n']
  else if c = '\r' then ['\\', 'r']
  else if c = '\t' then ['\\', 't']
  else if c = '\x0b' then ['\\', 'v']
  else if c.toNat < 0x80 then '\\' :: 'x' :: hexDigits 2 c.toNat
  else if c.toNat < 0x10000 then '\\' :: 'u' :: hexDigits 4 c.toNat
  else '\\' :: 'U' :: hexDigits 8 c.toNat

/-- The text `s` between double quotes. -/
def quote (s : String) : String :=
  String.ofList ('"' :: s.toList.flatMap escape ++ ['"'])

/-- Texts, each quoted, between square brackets. -/
def quoteAll (ss : List String) : String :=
  "[" ++ " ".intercalate (ss.map quote) ++ "]"

end IntLisp.Text
