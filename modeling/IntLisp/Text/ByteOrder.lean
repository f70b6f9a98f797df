/-
  IntLisp.Text.ByteOrder
  ──────────────────────
  **THE ORDER OF TEXTS BY THEIR BYTES.**

  Names are listed in the order of their UTF-8 bytes, compared from the
  first byte on.
-/

namespace IntLisp.Text

/-- The UTF-8 bytes of a text. -/
def bytes (s : String) : List UInt8 := s.toByteArray.data.toList

/-- Whether `a` comes before `b` in the order of bytes. -/
def precedes (a b : String) : Bool := bytes a < bytes b

end IntLisp.Text
