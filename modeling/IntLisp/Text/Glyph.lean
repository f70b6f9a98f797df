/-
  IntLisp.Text.Glyph
  ──────────────────
  **TEXTS THAT MAY BE CUT INSIDE A CHARACTER.**

  A text that arrives in pieces of a fixed number of bytes may be cut inside
  a character.  The bytes of such a character are part of no character in
  either piece; each of them stands for itself, and is shown by the
  replacement character.
-/
import IntLisp.Text.Blank

namespace IntLisp.Text

/-- What can be read at one place of a text: a character, or else a byte. -/
inductive Glyph where
  | char (c : Char)
  /-- A byte that is part of no character. -/
  | stray (b : UInt8)
deriving DecidableEq

namespace Glyph

/-- The glyphs of `bytes` from the index `i` on. -/
def readFrom (bytes : ByteArray) (i : Nat) : List Glyph :=
  if h : i < bytes.size then
    match bytes.utf8DecodeChar? i with
    | some c => char c :: readFrom bytes (i + c.utf8Size)
    | none => stray bytes[i] :: readFrom bytes (i + 1)
  else []
termination_by bytes.size - i
decreasing_by
  · have := c.utf8Size_pos
    omega
  · omega

/-- The glyphs of a piece of a text. -/
def ofBytes (bytes : List UInt8) : List Glyph := readFrom bytes.toByteArray 0

/-- The glyphs of a whole text. -/
def ofString (s : String) : List Glyph := s.toList.map char

/-- The number of bytes that a glyph takes. -/
def byteSize : Glyph → Nat
  | char c => c.utf8Size
  | stray _ => 1

/-- The characters before the first stray byte. -/
def leading : List Glyph → List Char
  | char c :: gs => c :: leading gs
  | _ => []

/-- Whether the glyph is a byte that is part of no character. -/
def isStray : Glyph → Bool
  | char _ => false
  | stray _ => true

/-- The character that shows a glyph. -/
def shown : Glyph → Char
  | char c => c
  | stray _ => '\uFFFD'

/-- The text that shows glyphs. -/
def toText (gs : List Glyph) : String := String.ofList (gs.map shown)

/-- Whether the glyph is white space. -/
def isBlank : Glyph → Bool
  | char c => Text.isBlank c
  | stray _ => false

/-- Drop the white space at both ends. -/
def trim (gs : List Glyph) : List Glyph :=
  ((gs.dropWhile isBlank).reverse.dropWhile isBlank).reverse

end Glyph

end IntLisp.Text
