/-
  IntLisp.Native
  ──────────────
  **NATIVE CODE FOR COMMON NEEDS.**

  Functions and forms that a program can register beside those of the core.
  The forms evaluate their operands through the interpreter, so that an error
  names the operand it comes from, and may go on after it.
-/
import IntLisp.Definition

namespace IntLisp

/-! ## §1. Functions. -/

namespace Native

/-- The number of arguments. -/
def count : Native := .code fun _ args => .done (.int args.length)

/-- The last argument, or nil. -/
def last : Native := .code fun _ args => .done (args.getLast?.getD .nil)

/-- The number of active frames. -/
def depth : Native := .code fun _ _ => .depth fun n => .done (.int n)

/-- Nil. -/
def nothing : Native := .code fun _ _ => .done .nil

/-- Always an error. -/
def fail : Native := .code fun symbol args => .fail (.nativeFailed symbol args.length)

end Native

/-! ## §2. Forms. -/

namespace Code

/-- Evaluate nodes from left to right for the value of the last, up to the
first error, which is passed on as `wrap` makes it; `before` is the value of
the node before them. -/
def inTurn (wrap : Error → Error) (before : Value) : List Node → Code
  | [] => .done before
  | n :: ns =>
    .evaluate n fun
      | .ok v => inTurn wrap v ns
      | .error e => .fail (wrap e)

/-- Evaluate nodes from left to right, up to the first that has a value. -/
def firstOf : List Node → Code
  | [] => .done .nil
  | n :: ns =>
    .evaluate n fun
      | .ok v => .done v
      | .error _ => firstOf ns

end Code

namespace Form

/-- The number of operands. -/
def count : Form := .code fun _ operands => .done (.int operands.length)

/-- The operands in order; the value of the last, or nil. -/
def sequence : Form := .code fun _ operands => .inTurn id .nil operands

/-- The value of the first operand that has one, or nil. -/
def firstOf : Form := .code fun _ operands => .firstOf operands

/-- As `sequence`, but an error is passed on under the name of the form. -/
def guarded : Form := .code fun symbol operands => .inTurn (.under symbol) .nil operands

/-- Always an error. -/
def fail : Form :=
  .code fun symbol operands => .fail (.formFailed symbol (Node.encodeAll operands))

end Form

end IntLisp
