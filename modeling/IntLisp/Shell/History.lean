/-
  IntLisp.Shell.History
  ─────────────────────
  **WHAT WAS TYPED BEFORE.**

  The history keeps the last lines that were typed, the oldest first.  A line
  equal to the one before it is kept once.
-/
import IntLisp.Text.Glyph

namespace IntLisp.Shell

/-- The lines of earlier sessions and of this one, the oldest first. -/
structure History where
  lines : List (List Text.Glyph)
deriving DecidableEq

namespace History

/-- How many lines are kept. -/
def capacity : Nat := 1000

/-- The longest line, in bytes, that is read back. -/
def maxLineBytes : Nat := 4095

/-- Keep the last lines. -/
def ofLines (lines : List (List Text.Glyph)) : History := ⟨lines.drop (lines.length - capacity)⟩

/-- Add a line, unless it is the last one already. -/
def add (h : History) (line : List Text.Glyph) : History :=
  if h.lines.getLast? = some line then h else ofLines (h.lines ++ [line])

/-- Whether a line can be read back. -/
def fits (line : List Char) : Bool := (String.ofList line).utf8ByteSize ≤ maxLineBytes

/-- The lines of a text, up to the first that does not fit.  All but the last
of `lines` ended with a newline; a carriage return before that is not part of
the line, and an empty last line is none. -/
def readLines : List (List Char) → List (List Char)
  | [] => []
  | [last] => if last.isEmpty || !fits last then [] else [last]
  | line :: rest =>
    if fits line then
      (if line.getLast? = some '\r' then line.dropLast else line) :: readLines rest
    else []

/-- The history that a file holds, up to a line that is too long. -/
def parse (text : String) : History :=
  ofLines ((readLines (text.toList.splitOn '\n')).map (·.map .char))

/-- The history as it is stored. -/
def render (h : History) : String :=
  String.join (h.lines.map fun line => Text.Glyph.toText line ++ "\n")

end History

end IntLisp.Shell
