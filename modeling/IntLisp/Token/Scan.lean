/-
  IntLisp.Token.Scan
  ──────────────────
  **FROM A TEXT TO ITS TOKENS.**

  Each token is as long as its kind allows: a run of separators, a comment up
  to the end of its line, a word up to the next character that is not one of
  a word.  A token is known to be complete once the character behind it has
  been looked at, so a fault behind a text costs the last token of the text,
  and it is reported at the last character that was read.
-/
import IntLisp.Source
import IntLisp.Token

namespace IntLisp

/-- A fault, met while the character at `pos` was read. -/
structure ScanFailure where
  pos : Position
  fault : Fault
deriving DecidableEq

/-- The wording of a failed scan. -/
def ScanFailure.message (f : ScanFailure) : String :=
  Text.decimal f.pos.line ++ ":" ++ Text.decimal f.pos.col ++ ": " ++ f.fault.message

/-- The tokens found in a text, and the failure that ended the search early. -/
structure Scan where
  tokens : List Token
  failure : Option ScanFailure
deriving DecidableEq

namespace Source

/-- Scan the characters of a source from the byte `offset` and the place `pos` on. -/
def scanFrom (fault : Option Fault) (offset : Nat) (pos : Position) : List Char → Scan
  | [] =>
    match fault with
    | none => ⟨[⟨.finish, "", offset, pos⟩], none⟩
    | some f => ⟨[], some ⟨pos, f⟩⟩
  | c :: cs =>
    let kind := Token.Kind.ofChar c
    let chars := c :: cs.takeWhile kind.continues
    -- only the last token of a text has nothing behind it but the fault
    match if (cs.dropWhile kind.continues).isEmpty then fault else none with
    | some f => ⟨[], some ⟨pos.advanceBy chars.dropLast, f⟩⟩
    | none =>
      let text := String.ofList chars
      let after := scanFrom fault (offset + text.utf8ByteSize) (pos.advanceBy chars)
        (cs.dropWhile kind.continues)
      ⟨⟨kind, text, offset, pos⟩ :: after.tokens, after.failure⟩
termination_by cs => cs.length
decreasing_by
  exact Nat.lt_succ_of_le (List.dropWhile_sublist _).length_le

/-- Where the first token begins.  A mark alone is an empty text. -/
def firstOffset (src : Source) : Nat :=
  if src.marked && !src.chars.isEmpty then byteOrderMark.utf8Size else 0

/-- The tokens of a source. -/
def scan (src : Source) : Scan :=
  scanFrom src.fault src.firstOffset Position.start src.chars

end Source

end IntLisp
