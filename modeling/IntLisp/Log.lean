/-
  IntLisp.Log
  ───────────
  **DIAGNOSTICS.**

  Failures are always logged.  With tracing on, the steps of an evaluation
  are logged between them, as events.
-/
import IntLisp.Error
import IntLisp.Value

namespace IntLisp

/-- A step of an evaluation that tracing shows. -/
inductive Event where
  /-- A statement is about to be evaluated. -/
  | starting (statement : String)
  /-- A statement has been evaluated. -/
  | returned (value : Value)
  /-- An expression with this head and these parts is being evaluated. -/
  | calling (symbol : String) (components : List String)
  /-- A function is given its arguments. -/
  | applying (symbol : String) (arguments : List Value)
  /-- A frame has been opened; `depth` counts it. -/
  | pushed (name : String) (depth : Nat)
  /-- A frame has been closed; `depth` no longer counts it. -/
  | popped (name : String) (depth : Nat)
  /-- A name had a definition before. -/
  | redefined (symbol : String)
deriving DecidableEq

/-- The wording of an event. -/
def Event.message : Event → String
  | starting statement => "begin to process statement " ++ Text.quote statement
  | returned value => "statement returned " ++ value.text
  | calling symbol components =>
    "call " ++ Text.quote symbol ++ " with components " ++ Text.quoteAll components
  | applying symbol arguments =>
    "actually calling " ++ Text.quote symbol ++ " with args " ++ Value.textOfAll arguments
  | pushed name depth => "push " ++ Text.quote name ++ " (depth " ++ Text.decimal depth ++ ")"
  | popped name depth => "pop " ++ Text.quote name ++ " (depth " ++ Text.decimal depth ++ ")"
  | redefined symbol => Text.quote symbol ++ " redefined"

/-- An entry of the log. -/
inductive Entry where
  /-- A step, logged because tracing is on. -/
  | trace (event : Event)
  /-- A text could not be read, or not be cut into tokens. -/
  | unreadable (error : Error)
  /-- The statement `text` at `pos` failed. -/
  | failed (pos : Position) (text : String) (error : Error)
  /-- A remark to the user, as it is. -/
  | remark (text : String)
deriving DecidableEq

namespace Entry

/-- The wording of an entry. -/
def message : Entry → String
  | trace event => event.message
  | unreadable error => "error: " ++ error.message
  | failed pos text error =>
    "error: line " ++ Text.decimal pos.line ++ ":" ++ Text.decimal pos.col ++ ": " ++ text ++ ": "
      ++ error.message
  | remark text => text

/-- An entry as it is written.  It ends a line; a remark is written as it is. -/
def line (e : Entry) : String :=
  match e with
  | remark text => text
  | e =>
    let text := e.message
    if text.toList.getLast? = some '\n' then text else text ++ "\n"

/-- Whether the entry is there only because of tracing. -/
def isTrace : Entry → Bool
  | trace _ => true
  | _ => false

end Entry

/-- A tracer, which may be missing or have nowhere to write to. -/
inductive Tracer where
  | absent
  | mute
  | active
deriving DecidableEq

namespace Tracer

/-- Whether messages are written. -/
def isEnabled (t : Tracer) : Bool := t = active

/-- The lines written for a message. -/
def lines (t : Tracer) (text : String) : List String := if t.isEnabled then [text] else []

end Tracer

end IntLisp
