/-
  IntLisp.Source
  ──────────────
  **SOURCE TEXTS, AND WHAT STOPS THEIR READING.**

  A reader delivers bytes and then either the end of the input or a failure.
  A `Source` is what can be made of that: the characters that can be read,
  and the fault behind them, if there is one.  A NUL character and a byte
  that is not UTF-8 are faults; nothing behind the first fault is looked at.
  One byte order mark at the very beginning is dropped and remembered, since
  it still counts for the offsets of what follows.
-/

namespace IntLisp

/-! ## §1. Faults and sources. -/

/-- What keeps a reader from going on. -/
inductive Fault where
  /-- A NUL character. -/
  | nul
  /-- A byte that begins no UTF-8 character. -/
  | encoding
  /-- The input itself failed, in its own words. -/
  | input (reason : String)
deriving DecidableEq

/-- The wording of a fault. -/
def Fault.message : Fault → String
  | .nul => "invalid character NUL"
  | .encoding => "invalid UTF-8 encoding"
  | .input reason => reason

/-- A text to be read. -/
structure Source where
  /-- Whether a byte order mark led the text. -/
  marked : Bool
  /-- The characters up to the end or the first fault, without the mark. -/
  chars : List Char
  /-- What stands behind the characters, if not the end. -/
  fault : Option Fault
deriving DecidableEq

/-- The byte order mark. -/
def byteOrderMark : Char := '\uFEFF'

namespace Source

/-- Whether a byte order mark leads the characters. -/
def isMarked (cs : List Char) : Bool := cs.head? = some byteOrderMark

/-- The characters without a mark that leads them. -/
def dropMark (cs : List Char) : List Char := if isMarked cs then cs.tail else cs

/-- The source of the characters `cs` with `ending` behind them. -/
def ofChars (cs : List Char) (ending : Option Fault) : Source where
  marked := isMarked cs
  chars := (dropMark cs).takeWhile (· ≠ '\x00')
  fault := if '\x00' ∈ dropMark cs then some .nul else ending

/-- The source of a whole text. -/
def ofString (s : String) : Source := ofChars s.toList none

end Source

/-! ## §2. From bytes to characters. -/

/-- What a reader delivers: all its bytes, and then the end or a failure. -/
structure Input where
  bytes : ByteArray
  failure : Option String

namespace Input

/-- An input that holds `s` and does not fail. -/
def ofString (s : String) : Input := ⟨s.toUTF8, none⟩

/-- The UTF-8 characters of `bytes` from the index `i` on, and the index where
the first byte stands that begins none (the size, if there is no such byte). -/
def decodeFrom (bytes : ByteArray) (i : Nat) : List Char × Nat :=
  match _h : bytes.utf8DecodeChar? i with
  | none => ([], i)
  | some c =>
    let rest := decodeFrom bytes (i + c.utf8Size)
    (c :: rest.1, rest.2)
termination_by bytes.size - i
decreasing_by
  have h₁ : i < bytes.size := ByteArray.lt_size_of_isSome_utf8DecodeChar? (by simp [_h])
  have h₂ := c.utf8Size_pos
  omega

/-- The number of bytes in the UTF-8 character that begins with `lead`, and the
range of the byte after it; nothing if `lead` begins no character or is one. -/
def leadBounds (lead : UInt8) : Option (Nat × UInt8 × UInt8) :=
  if 0xC2 ≤ lead && lead ≤ 0xDF then some (2, 0x80, 0xBF)
  else if lead = 0xE0 then some (3, 0xA0, 0xBF)
  else if lead = 0xED then some (3, 0x80, 0x9F)
  else if 0xE1 ≤ lead && lead ≤ 0xEF then some (3, 0x80, 0xBF)
  else if lead = 0xF0 then some (4, 0x90, 0xBF)
  else if lead = 0xF4 then some (4, 0x80, 0x8F)
  else if 0xF1 ≤ lead && lead ≤ 0xF3 then some (4, 0x80, 0xBF)
  else none

/-- Whether `tail` is a beginning of some UTF-8 character, cut short. -/
def isTruncated : List UInt8 → Bool
  | [] => false
  | lead :: more =>
    match leadBounds lead with
    | none => false
    | some (size, lo, hi) =>
      more.length + 1 < size
        && more.head?.all (fun b => lo ≤ b && b ≤ hi)
        && more.tail.all (fun b => 0x80 ≤ b && b ≤ 0xBF)

/-- The source that a reader sees who takes the bytes as they come.  An input
that fails in the middle of a character is met as that failure, since more
bytes were needed to judge the ones at hand. -/
def source (input : Input) : Source :=
  let decoded := decodeFrom input.bytes 0
  let tail := input.bytes.data.toList.drop decoded.2
  Source.ofChars decoded.1 <|
    -- bytes that were read in vain are met before the failure of the input
    if tail.isEmpty then input.failure.map .input
    else if isTruncated tail then some ((input.failure.map .input).getD .encoding)
    else some .encoding

end Input

end IntLisp
