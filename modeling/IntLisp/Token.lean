/-
  IntLisp.Token
  ─────────────
  **TOKENS.**

  The units a text is made of.  A token keeps its text and where it stands,
  so that the text of any run of tokens is the texts of its members, one
  after the other.
-/
import IntLisp.Position
import IntLisp.Text.Quoted
import IntLisp.Text.Numeral

namespace IntLisp

/-- The kinds of token. -/
inductive Token.Kind where
  /-- An opening parenthesis. -/
  | opening
  /-- A closing parenthesis. -/
  | closing
  /-- The end of a line. -/
  | newline
  /-- A run of spaces, tabs, form feeds and carriage returns. -/
  | separator
  /-- A semicolon and all that follows it on the line. -/
  | comment
  /-- A symbol or a number. -/
  | word
  /-- The end of the text. -/
  | finish
  /-- No kind of this language; only its number is known. -/
  | other (code : UInt8)
deriving DecidableEq

namespace Token.Kind

/-- The kind with the number `code`. -/
def ofCode : UInt8 → Kind
  | 1 => opening
  | 2 => closing
  | 3 => newline
  | 4 => separator
  | 5 => comment
  | 6 => word
  | 7 => finish
  | code => other code

/-- The name of a kind. -/
def name : Kind → String
  | opening => "open_expression"
  | closing => "close_expression"
  | newline => "newline"
  | separator => "separator"
  | comment => "comment"
  | word => "word"
  | finish => "EOF"
  | other _ => "invalid"

/-- The kind of the token that begins with `c`. -/
def ofChar (c : Char) : Kind :=
  if c = '(' then opening
  else if c = ')' then closing
  else if c = '\n' then newline
  else if c = ' ' || c = '\t' || c = '\x0c' || c = '\r' then separator
  else if c = ';' then comment
  else word

/-- Whether `c` goes on with a token of this kind that has begun before it. -/
def continues (kind : Kind) (c : Char) : Bool :=
  match kind with
  | separator => ofChar c = separator
  | comment => c ≠ '\n'
  | word => ofChar c = word
  | _ => false

end Token.Kind

/-- A token: its kind, its text, the bytes before it and its place. -/
structure Token where
  kind : Token.Kind
  text : String
  offset : Nat
  pos : Position
deriving DecidableEq

namespace Token

/-- The number of bytes up to the end of the token. -/
def finalOffset (t : Token) : Nat := t.offset + t.text.utf8ByteSize

/-- A token in one line: its kind, its quoted text and its place. -/
def describe (t : Token) : String :=
  "(:" ++ t.kind.name ++ " " ++ Text.quote t.text ++ " [" ++ Text.decimal t.pos.line ++ " "
    ++ Text.decimal t.pos.col ++ "])"

/-- The text that the tokens `ts` stand for. -/
def spelling (ts : List Token) : String := String.join (ts.map text)

end Token

end IntLisp
