/-
  IntLisp.Eval.Native
  ───────────────────
  **NATIVE FUNCTIONS, AND DEFINITIONS.**

  What the functions that are not written in the language do with the values
  of their arguments, and how the form that defines a function reads its
  operands.
-/
import IntLisp.Eval

namespace IntLisp

/-! ## §1. Functions. -/

/-- Add the values `vs` to `total`; the first of them is argument number `index`.
There is no answer where two values would be added that have no sum. -/
def Value.sumFrom (symbol : String) : Nat → Value → List Value → Except Error (Option Value)
  | _, total, [] => .ok total
  | index, _, .nil :: _ => .error (.nilArgument symbol index)
  | index, total, v :: vs =>
    match total.add? v with
    | some sum => sumFrom symbol (index + 1) sum vs
    | none => .ok none

/-- The sum of the arguments of the function known as `symbol`. -/
def Value.sum (symbol : String) : List Value → Except Error (Option Value)
  | [] | .absent :: _ => .ok none
  | .nil :: _ => .error (.nilArgument symbol 1)
  | v :: vs => sumFrom symbol 2 v vs

/-- Write a text to the output. -/
def Eval.write (text : String) : Eval Unit := do
  match ← Eval.view Context.output with
  | .working => Eval.modify (·.write text)
  | .broken reason => Eval.fail (.external reason)

/-- Run native code from outside; it evaluates nodes by `evaluate`. -/
def Code.run (evaluate : Node → Eval Value) : Code → Eval Value
  | .done v => return v
  | .fail e => Eval.fail e
  | .evaluate n next => do
    let r ← (evaluate n).attempt
    (next r).run evaluate
  | .depth next => do
    let d ← Eval.view Context.depth
    (next d).run evaluate
  | .lookup name next => do
    let v ← Eval.view (·.lookup name)
    (next v).run evaluate
  | .frame level next => do
    let f ← Eval.view (·.frameAt? level)
    (next f).run evaluate
  | .bind level name v next => do
    Eval.modify (·.bind level name v)
    next.run evaluate
  | .push f next => do
    let r ← (Eval.push f).attempt
    (next r).run evaluate
  | .pop next => do
    let f ← Eval.view Context.frame?
    Eval.modify Context.pop
    (next f).run evaluate
  | .write text next => do
    let r ← (Eval.write text).attempt
    (next r).run evaluate
  | .register d next => do
    Eval.modify (·.register d)
    next.run evaluate

/-- Call a native function, known as `symbol`, with its arguments. -/
def Native.apply (evaluate : Node → Eval Value) (function : Native) (symbol : String)
    (args : List Value) : Eval Value :=
  match function, args with
  | .add, args => do
    match ← Eval.ofExcept (Value.sum symbol args) with
    | some v => return v
    | none => Eval.halt .misuse
  | .print, [] | .print, .absent :: _ => Eval.halt .misuse
  | .print, v :: _ => do
    Eval.write (v.text ++ "\n")
    return v
  | .code body, args => (body symbol args).run evaluate

/-! ## §2. Definitions. -/

/-- The error of an operand `n` that does not have the shape its form needs. -/
def Node.malformed (n : Node) (note : String) : Error := .located n.pos (.because .malformed) note

/-- The names of the parameters `ns`; `seen` are those before them. -/
def Node.paramNames (title : String) (seen : List String) : List Node → Except Error (List String)
  | [] => .ok seen.reverse
  | n :: ns =>
    match n.symbol? with
    | none => .error (n.malformed (title ++ ": parameter must be a symbol, got " ++ n.encode))
    | some name =>
      if name ∈ seen then
        .error (n.malformed (title ++ ": duplicate parameter " ++ Text.quote name))
      else paramNames title (name :: seen) ns

/-- The function that the operands of a definition describe. -/
def Node.definition (symbol : String) (name params body : Node) : Except Error Definition :=
  match name.symbol? with
  | none =>
    .error (name.malformed (symbol ++ ": function name must be a symbol, got " ++ name.encode))
  | some f =>
    let title := symbol ++ " " ++ f
    match params with
    | .expression _ ns => (Definition.user f · body) <$> Node.paramNames title [] ns
    | _ =>
      .error (params.malformed (title ++ ": parameters must be a list, got " ++ params.encode))

/-- What a definition describes is a function of the language with the given body. -/
theorem Node.definition_eq_ok {symbol : String} {name params body : Node} {d : Definition}
    (h : Node.definition symbol name params body = .ok d) :
    ∃ f names, d = .user f names body := by
  unfold Node.definition at h
  split at h
  · cases h
  · next f _ =>
    dsimp only at h
    split at h
    · next ns =>
      cases hnames : Node.paramNames (symbol ++ " " ++ f) [] ns with
      | error e => rw [hnames] at h; cases h
      | ok names => rw [hnames] at h; cases h; exact ⟨f, names, rfl⟩
    · cases h

/-- Define the function that the operands describe. -/
def Eval.define (symbol : String) : List Node → Eval Value
  | name :: params :: body :: _ => do
    let d ← Eval.ofExcept (Node.definition symbol name params body)
    Eval.modify (·.register d)
    return .nil
  | _ => Eval.halt .misuse

theorem Eval.run_define (symbol : String) (name params body : Node) (more : List Node)
    (ctx : Context) :
    (Eval.define symbol (name :: params :: body :: more)).run ctx =
      match Node.definition symbol name params body with
      | .ok d => .done .nil (ctx.register d)
      | .error e => .failed e ctx := by
  show ((Eval.ofExcept (Node.definition symbol name params body)) >>= fun d =>
    Eval.modify (·.register d) >>= fun _ => pure Value.nil).run ctx = _
  cases Node.definition symbol name params body <;> rfl

end IntLisp
