/-
  IntLisp.Eval.Run
  ────────────────
  **RUNNING A WHOLE TEXT.**

  The statements of a text are evaluated in order, each read again from its
  own text.  One that fails is reported in the log and does not keep the ones
  after it from being evaluated.
-/
import IntLisp.Eval.Node
import IntLisp.Statement

namespace IntLisp

/-- What became of a statement. -/
structure StatementResult where
  statement : Statement
  outcome : Except Error Value

namespace StatementResult

/-- Whether the statement failed. -/
def isFailure (r : StatementResult) : Bool :=
  match r.outcome with
  | .ok _ => false
  | .error _ => true

end StatementResult

namespace Statement

/-- The longest text that a report shows in full. -/
def reportWidth : Nat := 60

/-- How a report shows a statement: in canonical form if it has one, and cut if
it is long. -/
def summary (s : Statement) : String :=
  let text :=
    match (Source.ofString s.text).canonicalize with
    | .ok canonical => canonical
    | .error _ => s.text
  let chars := text.toList
  if reportWidth < chars.length then String.ofList (chars.take (reportWidth - 3)) ++ "..." else text

/-- The log entry for a statement that failed with the error `e`. -/
def report (s : Statement) (e : Error) : Entry := .failed s.pos s.summary e

/-- Evaluate a statement. -/
def eval (s : Statement) : Eval Value := do
  match s.error with
  | some e => Eval.fail e
  | none =>
    Eval.trace fun _ => .starting s.text
    let v ← (Source.ofString s.text).eval
    Eval.trace fun _ => .returned v
    return v

/-- Evaluate a statement, and report it if it fails. -/
def exec (s : Statement) : Eval StatementResult := do
  match ← s.eval.attempt with
  | .ok v => return ⟨s, .ok v⟩
  | .error e =>
    Eval.modify (·.record (s.report e))
    return ⟨s, .error e⟩

/-- Evaluate statements in order. -/
def execAll : List Statement → Eval (List StatementResult)
  | [] => return []
  | s :: ss => do
    let r ← s.exec
    let rs ← execAll ss
    return r :: rs

end Statement

/-- Report that a text cannot be read, and fail. -/
def Eval.unreadable {α : Type} (e : Error) : Eval α := do
  Eval.modify (·.record (.unreadable e))
  Eval.fail e

/-- Run the statements of a source; one that cannot be cut into tokens is reported. -/
def Source.run (src : Source) : Eval (List StatementResult) :=
  match src.statements with
  | .ok ss => Statement.execAll ss
  | .error e => Eval.unreadable e

/-- Run the text that an input holds; an input that cannot be read is reported. -/
def Input.run (input : Input) : Eval (List StatementResult) :=
  match input.contents with
  | .ok src => src.run
  | .error e => Eval.unreadable e

end IntLisp
