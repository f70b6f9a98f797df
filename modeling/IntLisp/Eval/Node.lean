/-
  IntLisp.Eval.Node
  ─────────────────
  **THE EVALUATOR.**

  The head of an expression is looked up first.  A form is given its operands
  as they are written.  Otherwise the operands are evaluated from left to
  right, and then the function that was found is called with their values.

  A body is only evaluated inside a frame that has just been opened.  So the
  recursion is on the node, and at a body on the number of frames there is
  still room for: `Engine.withRoom room` has room for that many, and the
  frames that a limit leaves are always enough as long as native code closes
  none.  Native code may have any node evaluated, without a frame, and for it
  the recursion is on how deep such code is nested.
-/
import IntLisp.Eval.Native
import IntLisp.Node.Growth

namespace IntLisp

/-- How nodes are evaluated that are not part of the node at hand. -/
structure Engine where
  /-- Evaluate a body inside a new frame. -/
  enter : Frame → Node → Eval Value
  /-- Evaluate a node that native code asks for. -/
  evaluate : Node → Eval Value

/-- Call the definition `d` with the values `args`. -/
def Definition.invoke (engine : Engine) (d : Definition) (args : List Value) : Eval Value :=
  match d with
  | .native symbol arity function =>
    if arity.accepts args.length then function.apply engine.evaluate symbol args
    else Eval.fail (.arity symbol arity args.length)
  | .user symbol params body =>
    if args.length = params.length then
      engine.enter ((Frame.empty .call symbol).bindAll (params.zip args)) body
    else Eval.fail (.arity symbol (.exactly params.length) args.length)
  | .form _ _ _ => Eval.halt .misuse
  | .foreign _ kind => Eval.fail (.unknownDefinition kind)

namespace Node

mutual
/-- Evaluate a node; bodies, and what native code asks for, are evaluated by `engine`. -/
def evalWith (engine : Engine) : Node → Eval Value
  | int _ value => return .int value
  | symbol _ name => do
    match ← Eval.view (·.lookup name) with
    | some v => return v
    | none => Eval.fail (.unboundSymbol name)
  | expression token children =>
    Eval.within (expression token children) <|
      match children with
      | [] =>
        Eval.fail (.located (expression token []).pos (.because .emptyStatement) "nothing to call")
      | head :: operands =>
        match head.symbol? with
        | none => Eval.fail (.because .notCallable)
        | some name => do
          Eval.trace fun _ => .calling name (expression token (head :: operands)).components
          -- the head is looked up before the operands can redefine it
          match ← Eval.view (·.registry.resolve name) with
          | some (.form formName arity form) =>
            if arity.accepts operands.length then
              match form with
              | .define => Eval.define name operands
              | .letIn => evalLet engine name operands
              | .code body => (body name operands).run engine.evaluate
            else Eval.fail (.arity formName arity operands.length)
          | found => do
            -- also a name without a definition has its operands evaluated first
            let args ← evalAll engine operands
            match found with
            | none => Eval.fail (.undefinedFunction name)
            | some d =>
              Eval.trace fun _ => .applying name args
              d.invoke engine args
  | list _ children => evalLast engine .nil children
  | foreign token code content => Eval.fail (.unknownNode (foreign token code content).kindName)
/-- Evaluate nodes from left to right. -/
def evalAll (engine : Engine) : List Node → Eval (List Value)
  | [] => return []
  | n :: ns => do
    let v ← evalWith engine n
    let vs ← evalAll engine ns
    return v :: vs
/-- Evaluate nodes from left to right for the value of the last; `before` is the
value of the one before them. -/
def evalLast (engine : Engine) (before : Value) : List Node → Eval Value
  | [] => return before
  | n :: ns => do
    let v ← evalWith engine n
    evalLast engine v ns
/-- Evaluate the value of a binding and bind it in the frame. -/
def evalBinding (engine : Engine) (form : String) (frame : Frame) : Node → Eval Frame
  | expression _ [name, value] =>
    match name.symbol? with
    | none =>
      Eval.fail (name.malformed (form ++ ": binding name must be a symbol, got " ++ name.encode))
    | some x =>
      if (frame.lookup x).isSome then
        Eval.fail (name.malformed (form ++ ": duplicate binding " ++ Text.quote x))
      else do
        -- the frame is not open yet, so no binding sees the ones before it
        let v ← evalWith engine value
        return frame.bind x v
  | n =>
    Eval.fail (n.malformed (form ++ ": binding must be a (name value) pair, got " ++ n.encode))
/-- Evaluate bindings from left to right. -/
def evalBindings (engine : Engine) (form : String) (frame : Frame) : List Node → Eval Frame
  | [] => return frame
  | n :: ns => do
    let frame ← evalBinding engine form frame n
    evalBindings engine form frame ns
/-- Evaluate the bindings that the first operand holds, and then the second
operand inside a frame with them. -/
def evalLet (engine : Engine) (form : String) : List Node → Eval Value
  | bindings :: body :: _ =>
    match bindings with
    | expression _ pairs => do
      let frame ← evalBindings engine form (Frame.empty .scope form) pairs
      engine.enter frame body
    | n => Eval.fail (n.malformed (form ++ ": bindings must be a list, got " ++ n.encode))
  | _ => Eval.halt .misuse
end

end Node

/-- The engine with room for `room` further frames; what native code asks for is
evaluated by `evaluate`. -/
def Engine.withRoom (evaluate : Node → Eval Value) : Nat → Engine
  | 0 => ⟨fun frame _ => Eval.inFrame frame (Eval.halt .noRoom), evaluate⟩
  | room + 1 =>
    ⟨fun frame body => Eval.inFrame frame (body.evalWith (withRoom evaluate room)), evaluate⟩

/-- The number of frames there is room for whatever the options say, and of calls
of native code that may be nested. -/
def Context.boundlessRoom : Nat := 1000000000

/-- The number of further frames there is room for: those that the limit leaves,
and as many as there always is room for, since native code may close frames. -/
def Context.room (ctx : Context) : Nat :=
  boundlessRoom +
    match ctx.limit with
    | none => 0
    | some m => m - ctx.depth

namespace Node

/-- Evaluate a node with the room that the context leaves. -/
def evalHere (evaluate : Node → Eval Value) (n : Node) : Eval Value := do
  let room ← Eval.view Context.room
  n.evalWith (.withRoom evaluate room)

/-- Evaluate a node, with native code nested at most `calls` deep; an error names
the node. -/
def evalNested : Nat → Node → Eval Value
  | 0, _ => Eval.halt .noRoom
  | calls + 1, n => Eval.within n (n.evalHere (evalNested calls))

/-- Evaluate a node. -/
def eval (n : Node) : Eval Value := n.evalNested Context.boundlessRoom

end Node

/-- Evaluate the only statement of a source. -/
def Source.eval (src : Source) : Eval Value := do
  let n ← Eval.ofExcept src.parseStatement
  n.eval

end IntLisp
