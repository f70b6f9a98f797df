/-
  IntLisp.Text.Blank
  ──────────────────
  **WHITE SPACE, AND TEXTS WITHOUT IT AT THE ENDS.**

  A statement is kept as the text it was written in, less the white space
  around it.  White space here is the full Unicode property, which is wider
  than the separators between tokens: a no-break space is part of a word and
  still trimmed from the ends of a statement.
-/

namespace IntLisp.Text

/-- The characters with the Unicode property `White_Space`. -/
def isBlank (c : Char) : Bool :=
  let n := c.toNat
  (9 ≤ n && n ≤ 13) || n = 0x20 || n = 0x85 || n = 0xA0 || n = 0x1680
    || (0x2000 ≤ n && n ≤ 0x200A) || n = 0x2028 || n = 0x2029 || n = 0x202F
    || n = 0x205F || n = 0x3000

/-- Drop the white space that `cs` begins with. -/
def trimStart (cs : List Char) : List Char := cs.dropWhile isBlank

/-- Drop the white space that `cs` ends with. -/
def trimEnd (cs : List Char) : List Char := (cs.reverse.dropWhile isBlank).reverse

/-- Drop the white space at both ends of `cs`. -/
def trimChars (cs : List Char) : List Char := trimEnd (trimStart cs)

/-- The text `s` without white space at either end. -/
def trim (s : String) : String := String.ofList (trimChars s.toList)

@[simp] theorem toList_trim (s : String) : (trim s).toList = trimChars s.toList := by
  simp [trim]

@[simp] theorem trimChars_nil : trimChars [] = [] := rfl

theorem trimChars_enclosed {c d : Char} (hc : isBlank c = false) (hd : isBlank d = false)
    (cs : List Char) : trimChars (c :: (cs ++ [d])) = c :: (cs ++ [d]) := by
  simp [trimChars, trimStart, trimEnd, hc, hd]

end IntLisp.Text
