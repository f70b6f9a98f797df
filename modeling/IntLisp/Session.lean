/-
  IntLisp.Session
  ───────────────
  **AN INTERPRETER IN USE.**

  A program that holds a context works with it step by step: it evaluates
  texts, makes definitions, opens and closes frames and looks things up.
  Each step is taken in the context that the one before it left behind.
-/
import IntLisp.Eval.Run
import IntLisp.Native

namespace IntLisp

/-- One thing to do with a context. -/
inductive Step where
  /-- Evaluate the only statement of a source. -/
  | evaluate (src : Source)
  /-- Evaluate all nodes of a source as one list. -/
  | evaluateAll (src : Source)
  /-- Evaluate a node. -/
  | evaluateNode (n : Node)
  /-- Run all statements of an input. -/
  | run (input : Input)
  /-- Change the options. -/
  | configure (options : Options)
  /-- Put a definition in force. -/
  | register (d : Definition)
  /-- Define a function whose body is the only statement of a source. -/
  | define (symbol : String) (params : List String) (body : Source)
  /-- Open a frame. -/
  | push (f : Frame)
  /-- Close the innermost frame. -/
  | pop
  /-- Look at the innermost frame. -/
  | top
  /-- Look up a visible name. -/
  | lookup (name : String)
  /-- Look up a definition. -/
  | resolve (symbol : String)
  /-- List the defined names. -/
  | symbols

/-- What a step answers. -/
inductive Answer where
  | done
  | value (v : Value)
  | results (rs : List StatementResult)
  | frame (f : Option Frame)
  | binding (v : Option Value)
  | definition (d : Option Definition)
  | symbols (names : List String)

namespace Step

/-- Take a step. -/
def perform : Step → Eval Answer
  | evaluate src => Answer.value <$> src.eval
  | evaluateAll src => do
    let root ← Eval.ofExcept src.parse
    Answer.value <$> root.eval
  | evaluateNode n => Answer.value <$> n.eval
  | run input => Answer.results <$> input.run
  | configure options => do
    Eval.modify (·.setOptions options)
    return .done
  | register d => do
    Eval.modify (·.register d)
    return .done
  | define symbol params body => do
    let node ← Eval.ofExcept body.parseStatement
    Eval.modify (·.register (.user symbol params node))
    return .done
  | push f => do
    Eval.push f
    return .done
  | pop => do
    let f ← Eval.view Context.frame?
    Eval.modify Context.pop
    return .frame f
  | top => Answer.frame <$> Eval.view Context.frame?
  | lookup name => Answer.binding <$> Eval.view (·.lookup name)
  | resolve symbol => Answer.definition <$> Eval.view (·.registry.resolve symbol)
  | symbols => Answer.symbols <$> Eval.view (·.registry.symbols)

end Step

/-- How each of a list of steps ends, each taken after the one before it. -/
def Context.play : Context → List Step → List (Outcome Answer)
  | _, [] => []
  | ctx, s :: ss =>
    let outcome := s.perform.run ctx
    outcome :: outcome.context.play ss

end IntLisp
