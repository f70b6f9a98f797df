/-
  IntLisp.Definition
  ──────────────────
  **WHAT A NAME CAN BE CALLED AS.**

  A function is native or written in the language; its arguments are
  evaluated before the call.  A form is native and is given its operands as
  they are written.  The core has two native functions and two forms; all
  other native code is brought in from outside, and is known by what it asks
  of the interpreter that calls it.  It may ask for the frames that are
  active, bind names in them, and open and close frames itself.
-/
import IntLisp.Error
import IntLisp.Frame
import IntLisp.Node

namespace IntLisp

mutual
/-- What native code from outside does when it is called: it ends, or it asks
the interpreter for something and goes on with the answer. -/
inductive Code where
  | done (v : Value)
  | fail (e : Error)
  /-- Evaluate a node; the code goes on also if that fails. -/
  | evaluate (n : Node) (next : Except Error Value → Code)
  /-- Ask for the number of active frames. -/
  | depth (next : Nat → Code)
  /-- Ask for the value of a visible name. -/
  | lookup (name : String) (next : Option Value → Code)
  /-- Ask for the active frame that `level` others are inside of. -/
  | frame (level : Nat) (next : Option Frame → Code)
  /-- Bind a name in the active frame that `level` others are inside of, if there is one. -/
  | bind (level : Nat) (name : String) (v : Value) (next : Code)
  /-- Open a frame; the code goes on also if that fails. -/
  | push (f : Frame) (next : Except Error Unit → Code)
  /-- Close the innermost frame, and go on with what it was. -/
  | pop (next : Option Frame → Code)
  /-- Write a text to the output; the code goes on also if that fails. -/
  | write (text : String) (next : Except Error Unit → Code)
  /-- Put a definition in force. -/
  | register (d : Definition) (next : Code)
/-- The functions that are not written in the language. -/
inductive Native where
  /-- The sum of the arguments. -/
  | add
  /-- Write the argument on a line of its own. -/
  | print
  /-- Code from outside, for the name of the function and its arguments. -/
  | code (body : String → List Value → Code)
/-- The forms: what is done with operands that are not evaluated beforehand. -/
inductive Form where
  /-- Define a function. -/
  | define
  /-- Bind names for the evaluation of one operand. -/
  | letIn
  /-- Code from outside, for the name the form was called by and its operands. -/
  | code (body : String → List Node → Code)
/-- What a name stands for at the head of an expression. -/
inductive Definition where
  | native (symbol : String) (arity : Arity) (function : Native)
  | form (symbol : String) (arity : Arity) (form : Form)
  | user (symbol : String) (params : List String) (body : Node)
  /-- Neither a function nor a form; only the name of its kind is known. -/
  | foreign (symbol : String) (kind : String)
end

/-- The name that a definition is for. -/
def Definition.symbol : Definition → String
  | native symbol _ _ | form symbol _ _ | user symbol _ _ | foreign symbol _ => symbol

end IntLisp
