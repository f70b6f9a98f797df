/-
  IntLisp.Value
  ─────────────
  **VALUES.**

  An expression denotes an integer of any size, or nil where there is no
  number to give, as for a definition.  These are the values of the language.
  Native code can hand over two more things in place of a value: nothing, and
  a number that is no integer.
-/
import IntLisp.Text.Numeral

namespace IntLisp

/-- What an expression evaluates to. -/
inductive Value where
  | nil
  | int (value : Int)
  /-- No value, not even nil. -/
  | absent
  /-- A number that is no integer; only how it is written is known. -/
  | number (written : String)
deriving DecidableEq

namespace Value

/-- The name of a value's type. -/
def typeName : Value → String
  | nil | absent => "nil"
  | int _ | number _ => "int"

/-- How a value is written. -/
def text : Value → String
  | nil => "nil"
  | int z => Text.decimal z
  | absent => "<nil>"
  | number written => written

/-- Whether it is a value of the language. -/
def isProper : Value → Bool
  | nil | int _ => true
  | absent | number _ => false

theorem isProper_nil : nil.isProper = true := rfl

theorem isProper_int (z : Int) : (int z).isProper = true := rfl

/-- How the values of a call are written. -/
def textOfAll (vs : List Value) : String := "[" ++ " ".intercalate (vs.map text) ++ "]"

/-- The sum of two integers; nothing else has one. -/
def add? : Value → Value → Option Value
  | int a, int b => some (int (a + b))
  | _, _ => none

end Value

end IntLisp
