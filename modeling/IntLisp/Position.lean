/-
  IntLisp.Position
  ────────────────
  **LINES AND COLUMNS.**

  A position counts lines and, inside a line, characters, both from one.
  Numbers are integers, because a position may also be given by hand, and a
  line of zero or less says that no position is known.
-/

namespace IntLisp

/-- A place in a text. -/
structure Position where
  line : Int
  col : Int
deriving DecidableEq

namespace Position

/-- The first character of a text. -/
def start : Position := ⟨1, 1⟩

/-- The place of what was not read from a text. -/
def unknown : Position := ⟨0, 0⟩

/-- The place after the character `c` that stands at `p`. -/
def advance (p : Position) (c : Char) : Position :=
  if c = '\n' then ⟨p.line + 1, 1⟩ else ⟨p.line, p.col + 1⟩

/-- The place after the characters `cs` that begin at `p`. -/
def advanceBy (p : Position) (cs : List Char) : Position := cs.foldl advance p

@[simp] theorem advanceBy_nil (p : Position) : p.advanceBy [] = p := rfl

@[simp] theorem advanceBy_cons (p : Position) (c : Char) (cs : List Char) :
    p.advanceBy (c :: cs) = (p.advance c).advanceBy cs := rfl

theorem advanceBy_append (p : Position) (cs ds : List Char) :
    p.advanceBy (cs ++ ds) = (p.advanceBy cs).advanceBy ds := by
  simp [advanceBy]

end Position

end IntLisp
