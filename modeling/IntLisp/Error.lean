/-
  IntLisp.Error
  ─────────────
  **WHAT CAN GO WRONG, AND THE WORDS FOR IT.**

  An error is its cause.  Some errors wrap another one: a `located` error adds
  where in a text the trouble is, an `evaluating` error the expression that
  was being evaluated.  `Error.chain` lists an error with all it wraps, and
  `Error.message` is the only place where errors are put into words.
-/
import IntLisp.Token.Scan

namespace IntLisp

/-! ## §1. Arities. -/

/-- How many arguments are accepted; a negative `max` sets no upper bound. -/
structure Arity where
  min : Int
  max : Int
deriving DecidableEq

namespace Arity

/-- Exactly `n` arguments. -/
def exactly (n : Nat) : Arity := ⟨n, n⟩

/-- Whether `n` arguments are accepted. -/
def accepts (a : Arity) (n : Nat) : Bool := a.min ≤ n && (a.max < 0 || n ≤ a.max)

theorem min_le_of_accepts {a : Arity} {n : Nat} (h : a.accepts n = true) : a.min ≤ n := by
  unfold accepts at h
  exact of_decide_eq_true (Bool.and_eq_true_iff.1 h).1

/-- The number of arguments in words. -/
def describe (a : Arity) : String :=
  if a.max < 0 then "at least " ++ Text.decimal a.min
  else if a.min = a.max then Text.decimal a.min
  else Text.decimal a.min ++ " to " ++ Text.decimal a.max

end Arity

/-! ## §2. Errors. -/

/-- The reasons with a fixed wording, at the root of most errors. -/
inductive Reason where
  | unexpectedEnd
  | unexpectedToken
  | unbalanced
  | emptyStatement
  | malformed
  | stackOverflow
  | notANumber
  | notCallable
deriving DecidableEq

/-- The wording of a reason. -/
def Reason.message : Reason → String
  | unexpectedEnd => "unexpected EOF"
  | unexpectedToken => "unexpected token"
  | unbalanced => "unbalanced parentheses"
  | emptyStatement => "empty statement"
  | malformed => "malformed expression"
  | stackOverflow => "stack overflow"
  | notANumber => "not a number"
  | notCallable => "head of expression is not a symbol"

/-- An error. -/
inductive Error where
  /-- A reason and nothing else. -/
  | because (reason : Reason)
  /-- A text cannot be cut into tokens. -/
  | unscannable (failure : ScanFailure)
  /-- Something outside of the language failed, in its own words. -/
  | external (text : String)
  /-- The text at `pos` is at fault; `note` may say more. -/
  | located (pos : Position) (cause : Error) (note : String)
  /-- The evaluation of the expression written `expr` failed, under `depth` frames. -/
  | evaluating (expr : String) (depth : Nat) (cause : Error)
  /-- A function was given a number of arguments that it does not accept. -/
  | arity (symbol : String) (expected : Arity) (got : Int)
  /-- No function has this name. -/
  | undefinedFunction (symbol : String)
  /-- No visible frame binds this name. -/
  | unboundSymbol (symbol : String)
  /-- The argument at `index`, counted from one, is nil where a number is needed. -/
  | nilArgument (symbol : String) (index : Nat)
  /-- A native function gave up on its `count` arguments. -/
  | nativeFailed (symbol : String) (count : Nat)
  /-- A native form gave up on its operands, written as they are. -/
  | formFailed (symbol : String) (operands : List String)
  /-- A native form passes on an error of its operands under its own name. -/
  | under (symbol : String) (cause : Error)
  /-- A node of a kind that has no value. -/
  | unknownNode (kind : String)
  /-- A definition of a kind that cannot be called. -/
  | unknownDefinition (kind : String)
  /-- A child was given to a node that has none. -/
  | notAVector
deriving DecidableEq

namespace Error

/-- The error that `e` wraps. -/
def cause : Error → Option Error
  | located _ cause _ => some cause
  | evaluating _ _ cause => some cause
  | under _ cause => some cause
  | nilArgument _ _ => some (because .notANumber)
  | _ => none

/-- The error `e`, the error it wraps, and so on. -/
def chain : Error → List Error
  | located pos cause note => located pos cause note :: cause.chain
  | evaluating expr depth cause => evaluating expr depth cause :: cause.chain
  | under symbol cause => under symbol cause :: cause.chain
  | nilArgument symbol index => [nilArgument symbol index, because .notANumber]
  | e => [e]

/-- Whether the error comes down to `reason`. -/
def isBecause (e : Error) (reason : Reason) : Bool := e.chain.contains (because reason)

/-- Whether this error, apart from those it wraps, names an expression. -/
def namesExpression : Error → Bool
  | evaluating _ _ _ => true
  | _ => false

/-- Whether an expression has already been named in the chain of `e`. -/
def isTraced (e : Error) : Bool := e.chain.any namesExpression

/-- The wording of an error. -/
def message : Error → String
  | because reason => reason.message
  | unscannable failure => failure.message
  | external text => text
  | located pos cause note =>
    let place :=
      if 0 < pos.line then " at " ++ Text.decimal pos.line ++ ":" ++ Text.decimal pos.col else ""
    let extra := if note = "" then "" else " -- " ++ note
    "syntax error" ++ place ++ ": " ++ cause.message ++ extra
  | evaluating expr _ cause => "evaluating " ++ expr ++ ": " ++ cause.message
  | arity symbol expected got =>
    symbol ++ ": wrong number of arguments: expected " ++ expected.describe ++ ", got "
      ++ Text.decimal got
  | undefinedFunction symbol => "undefined function " ++ Text.quote symbol
  | unboundSymbol symbol => "unbound symbol " ++ Text.quote symbol
  | nilArgument symbol index =>
    symbol ++ ": argument " ++ Text.decimal index ++ " is nil: " ++ Reason.notANumber.message
  | nativeFailed symbol count =>
    symbol ++ " failed with " ++ Text.decimal count ++ " arguments"
  | formFailed symbol operands => symbol ++ ": " ++ "|".intercalate operands
  | under symbol cause => symbol ++ ": " ++ cause.message
  | unknownNode kind => "unknown node type " ++ kind
  | unknownDefinition kind => "unknown definition " ++ kind
  | notAVector => "nodes of type value can't accept children"

end Error

end IntLisp
