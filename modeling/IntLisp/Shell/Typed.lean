/-
  IntLisp.Shell.Typed
  ───────────────────
  **WHAT IS TYPED, PIECE BY PIECE.**

  A line reaches the dialogue once its end is there, or once it fills the
  buffer, and what is left of it follows as if it were a line of its own.  A
  carriage return that fills the buffer waits for the next piece, since it
  may belong to the end of the line.
-/
import IntLisp.Source
import IntLisp.Text.Glyph

namespace IntLisp

/-- The source that glyphs make up: a stray byte is a fault. -/
def Source.ofGlyphs (gs : List Text.Glyph) : Source :=
  .ofChars (Text.Glyph.leading gs) (if gs.any Text.Glyph.isStray then some .encoding else none)

namespace Shell

/-- The number of bytes that fill the buffer. -/
def bufferBytes : Nat := 4096

/-- The byte that ends a line. -/
def lineFeed : UInt8 := 10

/-- The byte that may stand before the end of a line, and is part of it then. -/
def carriageReturn : UInt8 := 13

/-- Split bytes before the first end of a line, and after at most `room` of them. -/
def cutLine : Nat → List UInt8 → List UInt8 × List UInt8
  | 0, bytes => ([], bytes)
  | _, [] => ([], [])
  | room + 1, b :: bytes =>
    if b = lineFeed then ([], b :: bytes)
    else
      let cut := cutLine room bytes
      (b :: cut.1, cut.2)

/-- Move a carriage return at the end of `line` to the front of `rest`. -/
def putBackReturn (line rest : List UInt8) : List UInt8 × List UInt8 :=
  if line.getLast? = some carriageReturn then (line.dropLast, carriageReturn :: rest)
  else (line, rest)

/-- Split off the first piece of the bytes that are typed. -/
def splitPiece (bytes : List UInt8) : List UInt8 × List UInt8 :=
  match cutLine bufferBytes bytes with
  | (line, rest) =>
    if bufferBytes ≤ line.length then putBackReturn line rest
    else ((if rest.isEmpty then line else (putBackReturn line []).1), rest.tail)

theorem length_cutLine (room : Nat) (bytes : List UInt8) :
    (cutLine room bytes).1.length + (cutLine room bytes).2.length = bytes.length := by
  induction bytes generalizing room with
  | nil => cases room <;> simp [cutLine]
  | cons b bytes ih =>
    match room with
    | 0 => simp [cutLine]
    | room + 1 =>
      have := ih room
      unfold cutLine
      split
      · simp
      · simp only [List.length_cons]
        omega

theorem length_putBackReturn_lt {line rest : List UInt8} (h : 1 < line.length) :
    (putBackReturn line rest).2.length < line.length + rest.length := by
  unfold putBackReturn
  split
  · simp only [List.length_cons]
    omega
  · simp only
    omega

theorem length_splitPiece_lt {bytes : List UInt8} (h : bytes ≠ []) :
    (splitPiece bytes).2.length < bytes.length := by
  have h0 : 0 < bytes.length := List.length_pos_iff.2 h
  have hc := length_cutLine bufferBytes bytes
  unfold splitPiece
  split
  rename_i line rest hcut
  rw [hcut] at hc
  simp only at hc
  split
  · rename_i hl
    rw [← hc]
    exact length_putBackReturn_lt (Nat.lt_of_lt_of_le (by decide) hl)
  · simp only [List.length_tail]
    omega

/-- The pieces of the bytes that are typed. -/
def splitPieces : List UInt8 → List (List UInt8)
  | [] => []
  | b :: bs =>
    let parts := splitPiece (b :: bs)
    parts.1 :: splitPieces parts.2
termination_by bytes => bytes.length
decreasing_by
  exact length_splitPiece_lt (List.cons_ne_nil b bs)

/-- What the dialogue is given of the bytes that are typed. -/
def typedPieces (bytes : ByteArray) : List (List Text.Glyph) :=
  (splitPieces bytes.data.toList).map Text.Glyph.ofBytes

end Shell

end IntLisp
