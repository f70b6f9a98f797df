/-
  IntLisp.Proofs.Naming
  ─────────────────────
  **AN ERROR NAMES ONE EXPRESSION.**

  On its way out an error passes every expression around the place where it
  arose, and each of them would name itself.  An error that names an
  expression already is let through, so it names one in the end: what the
  evaluator fails with names one at most, and what leaves it names one.

  Native code may catch an error and fail with another.  It keeps the names
  of errors if it fails with an error that names one expression at most, as
  long as each error it was given names just one.  Passing an error on as it
  is, wrapping it and dropping it are all of that kind; making up an error
  that names expressions is not.

  The induction over the evaluator is done for any property of definitions
  and any property of errors that naming keeps (`keeps_evalWith`).
-/
import IntLisp.Eval.Node
import IntLisp.Native
import IntLisp.Proofs.Calls
import IntLisp.Proofs.Promise

namespace IntLisp

open Eval

variable {α β : Type}

/-! ## §1. Counting names. -/

namespace Error

/-- How many expressions an error names, with all it wraps. -/
def namings (e : Error) : Nat := e.chain.countP namesExpression

end Error

/-! ## §2. Definitions that operands describe. -/

namespace Node

theorem malformed_of_paramNames {title : String} {seen : List String} {ns : List Node} {e : Error}
    (h : paramNames title seen ns = .error e) : ∃ n note, e = malformed n note := by
  induction ns generalizing seen with
  | nil => cases h
  | cons n ns ih =>
    unfold paramNames at h
    split at h
    · cases h
      exact ⟨_, _, rfl⟩
    · split at h
      · cases h
        exact ⟨_, _, rfl⟩
      · exact ih h

theorem malformed_of_definition {symbol : String} {name params body : Node} {e : Error}
    (h : definition symbol name params body = .error e) : ∃ n note, e = malformed n note := by
  unfold definition at h
  split at h
  · cases h
    exact ⟨_, _, rfl⟩
  · next f _ =>
    dsimp only at h
    split at h
    · next ns =>
      cases hnames : paramNames (symbol ++ " " ++ f) [] ns with
      | ok names => rw [hnames] at h; cases h
      | error e' =>
        rw [hnames] at h
        cases h
        exact malformed_of_paramNames hnames
    · cases h
      exact ⟨_, _, rfl⟩

end Node

/-! ## §3. Contexts of definitions with a property. -/

/-- All definitions in force have the property `P`. -/
def Context.AllDefined (P : Definition → Prop) (ctx : Context) : Prop :=
  ∀ d ∈ ctx.registry.definitions, P d

namespace Context.AllDefined

variable {P : Definition → Prop} {ctx : Context}

theorem trace (h : ctx.AllDefined P) (event : Context → Event) :
    (ctx.trace event).AllDefined P := by
  unfold AllDefined
  rwa [registry_trace]

theorem register (h : ctx.AllDefined P) {d : Definition} (hd : P d) :
    (ctx.register d).AllDefined P := by
  intro e he
  rw [registry_register] at he
  rcases Registry.mem_place he with rfl | he
  · exact hd
  · exact h e he

theorem opened (h : ctx.AllDefined P) (f : Frame) : (ctx.opened f).AllDefined P := by
  unfold AllDefined
  rwa [registry_opened]

theorem pop (h : ctx.AllDefined P) : ctx.pop.AllDefined P := by
  unfold AllDefined
  rwa [registry_pop]

end Context.AllDefined

/-- Errors that the evaluator may fail with: all that name no expression, and what becomes
of them when a node is named. -/
structure Error.Admits (E : Error → Prop) : Prop where
  untraced : ∀ {e}, e.isTraced = false → E e
  named : ∀ {e}, E e → ∀ n ctx, E (nameNode n e ctx)

/-- The step keeps definitions with the property `P` in force, and fails with errors with
the property `E` only. -/
def Eval.Keeps (P : Definition → Prop) (E : Error → Prop) (act : Eval α) : Prop :=
  act.Promises (Context.AllDefined P) E fun _ => True

/-- Engines that keep the properties in all that is evaluated behind a definition with the
property `P`. -/
structure Engine.Keeps (P : Definition → Prop) (E : Error → Prop) (engine : Engine) : Prop where
  enter : ∀ f body, (engine.enter f body).Keeps P E
  user : ∀ symbol params body, P (.user symbol params body)
  function : ∀ {symbol arity body}, P (.native symbol arity (.code body)) →
    ∀ args, ((body symbol args).run engine.evaluate).Keeps P E
  form : ∀ {symbol arity body}, P (.form symbol arity (.code body)) →
    ∀ name operands, ((body name operands).run engine.evaluate).Keeps P E

/-! ## §4. The evaluator. -/

section

variable {P : Definition → Prop} {E : Error → Prop} {engine : Engine}

theorem keeps_bind {act : Eval α} {next : α → Eval β} (hact : act.Keeps P E)
    (hnext : ∀ a, (next a).Keeps P E) : (act >>= next).Keeps P E :=
  promises_bind hact fun a _ => hnext a

theorem keeps_trace (event : Context → Event) : (trace event).Keeps P E :=
  promises_modify (fun _ h => h.trace event) trivial

theorem keeps_untraced (hE : Error.Admits E) {e : Error} (he : e.isTraced = false) :
    (fail e : Eval α).Keeps P E :=
  promises_fail (hE.untraced he)

theorem keeps_within (hE : Error.Admits E) (n : Node) {act : Eval α} (hact : act.Keeps P E) :
    (act.within n).Keeps P E :=
  promises_within n hact fun _ ctx he => hE.named he n ctx

theorem keeps_inFrame (hE : Error.Admits E) (f : Frame) {act : Eval α} (hact : act.Keeps P E) :
    (inFrame f act).Keeps P E :=
  promises_inFrame hact (fun _ h => h.opened f) (fun _ h => h.pop) (hE.untraced rfl)

theorem keeps_write (hE : ∀ reason, E (.external reason)) (text : String) :
    (write text).Keeps P E :=
  promises_write text (fun _ h => h) hE trivial

theorem keeps_apply (hE : Error.Admits E) (he : engine.Keeps P E) {symbol : String} {arity : Arity}
    {function : Native} (hP : P (.native symbol arity function)) (args : List Value) :
    (function.apply engine.evaluate symbol args).Keeps P E := by
  cases function with
  | add =>
    exact Native.apply_add_cases _ symbol args (fun _ => keeps_untraced hE rfl)
      (fun _ => promises_pure trivial) (promises_halt _)
  | print =>
    refine Native.apply_print_cases _ symbol args (fun v => ?_) (promises_halt _)
    exact keeps_bind (keeps_write (fun _ => hE.untraced rfl) _) fun _ => promises_pure trivial
  | code body => exact he.function hP args

theorem keeps_invoke (hE : Error.Admits E) (he : engine.Keeps P E) {d : Definition} (hP : P d)
    (args : List Value) : (d.invoke engine args).Keeps P E := by
  cases d with
  | native symbol arity function =>
    unfold Definition.invoke
    dsimp only
    split
    · exact keeps_apply hE he hP args
    · exact keeps_untraced hE rfl
  | form symbol arity form => exact promises_halt _
  | user symbol params body =>
    unfold Definition.invoke
    dsimp only
    split
    · exact he.enter _ body
    · exact keeps_untraced hE rfl
  | foreign symbol kind => exact keeps_untraced hE rfl

theorem keeps_define (hE : Error.Admits E) (he : engine.Keeps P E) (symbol : String)
    (operands : List Node) : (Eval.define symbol operands).Keeps P E := by
  match operands with
  | f :: params :: body :: more =>
    intro ctx hctx
    rw [Eval.run_define]
    cases hdef : Node.definition symbol f params body with
    | error e =>
      obtain ⟨n, note, rfl⟩ := Node.malformed_of_definition hdef
      exact .failed hctx (hE.untraced rfl)
    | ok d =>
      obtain ⟨g, names, rfl⟩ := Node.definition_eq_ok hdef
      exact .done (hctx.register (he.user g names body)) trivial
  | [] | [_] | [_, _] => exact promises_halt _

theorem keeps_behindHead (hE : Error.Admits E) (he : engine.Keeps P E) (name : String)
    (operands : List Node) (hargs : (Node.evalAll engine operands).Keeps P E)
    (hlet : (Node.evalLet engine name operands).Keeps P E) :
    (Coupling.behindHead engine name operands).Keeps P E := by
  refine promises_view_bind fun ctx hctx => ?_
  cases hfound : ctx.registry.resolve name with
  | none => exact keeps_bind hargs fun _ => keeps_untraced hE rfl
  | some d =>
    have hP := hctx d (Registry.mem_of_resolve hfound)
    -- all that is not a form is called, after its operands
    have hcall : (Node.evalAll engine operands >>= fun args =>
        Eval.trace (fun _ => .applying name args) >>= fun _ => d.invoke engine args).Keeps P E :=
      keeps_bind hargs fun args => keeps_bind (keeps_trace _) fun _ => keeps_invoke hE he hP args
    cases d with
    | native symbol arity function => exact hcall
    | user symbol params body => exact hcall
    | foreign symbol kind => exact hcall
    | form symbol arity form =>
      dsimp only
      split
      · cases form with
        | define => exact keeps_define hE he name operands
        | letIn => exact hlet
        | code body => exact he.form hP name operands
      · exact keeps_untraced hE rfl

mutual
/-- **Evaluations keep what their engine keeps.** -/
theorem keeps_evalWith (hE : Error.Admits E) (he : engine.Keeps P E) :
    ∀ n : Node, (n.evalWith engine).Keeps P E
  | .int _ value => promises_pure trivial
  | .symbol _ name => by
    refine promises_view_bind fun ctx _ => ?_
    cases ctx.lookup name with
    | some v => exact promises_pure trivial
    | none => exact keeps_untraced hE rfl
  | .expression token [] => keeps_within hE _ (keeps_untraced hE rfl)
  | .expression token (head :: operands) => by
    cases hhead : head.symbol? with
    | none =>
      rw [Node.evalWith, hhead]
      exact keeps_within hE _ (keeps_untraced hE rfl)
    | some name =>
      rw [Coupling.evalWith_call engine token hhead]
      refine keeps_within hE _ (keeps_bind (keeps_trace _) fun _ => ?_)
      exact keeps_behindHead hE he name operands (keeps_evalAll hE he operands)
        (keeps_evalLet hE he name operands)
  | .list _ children => keeps_evalLast hE he .nil children
  | .foreign _ _ _ => keeps_untraced hE rfl
theorem keeps_evalAll (hE : Error.Admits E) (he : engine.Keeps P E) :
    ∀ ns : List Node, (Node.evalAll engine ns).Keeps P E
  | [] => promises_pure trivial
  | n :: ns =>
    keeps_bind (keeps_evalWith hE he n) fun _ =>
      keeps_bind (keeps_evalAll hE he ns) fun _ => promises_pure trivial
theorem keeps_evalLast (hE : Error.Admits E) (he : engine.Keeps P E) (before : Value) :
    ∀ ns : List Node, (Node.evalLast engine before ns).Keeps P E
  | [] => promises_pure trivial
  | n :: ns => keeps_bind (keeps_evalWith hE he n) fun v => keeps_evalLast hE he v ns
theorem keeps_evalBinding (hE : Error.Admits E) (he : engine.Keeps P E) (form : String)
    (frame : Frame) : ∀ n : Node, (Node.evalBinding engine form frame n).Keeps P E
  | .expression _ [name, value] => by
    unfold Node.evalBinding
    cases name.symbol? with
    | none => exact keeps_untraced hE rfl
    | some x =>
      dsimp only
      split
      · exact keeps_untraced hE rfl
      · exact keeps_bind (keeps_evalWith hE he value) fun v => promises_pure trivial
  | .expression _ [] | .expression _ [_] | .expression _ (_ :: _ :: _ :: _)
  | .int _ _ | .symbol _ _ | .list _ _ | .foreign _ _ _ => keeps_untraced hE rfl
theorem keeps_evalBindings (hE : Error.Admits E) (he : engine.Keeps P E) (form : String)
    (frame : Frame) : ∀ ns : List Node, (Node.evalBindings engine form frame ns).Keeps P E
  | [] => promises_pure trivial
  | n :: ns =>
    keeps_bind (keeps_evalBinding hE he form frame n) fun frame' =>
      keeps_evalBindings hE he form frame' ns
theorem keeps_evalLet (hE : Error.Admits E) (he : engine.Keeps P E) (form : String) :
    ∀ operands : List Node, (Node.evalLet engine form operands).Keeps P E
  | .expression _ pairs :: body :: _ =>
    keeps_bind (keeps_evalBindings hE he form _ pairs) fun frame => he.enter frame body
  | .int _ _ :: _ :: _ | .symbol _ _ :: _ :: _ | .list _ _ :: _ :: _
  | .foreign _ _ _ :: _ :: _ => keeps_untraced hE rfl
  | [] | [_] => promises_halt _
end

/-- If native code keeps the properties, the engines with any room do. -/
theorem keeps_withRoom (hE : Error.Admits E) {evaluate : Node → Eval Value}
    (huser : ∀ symbol params body, P (.user symbol params body))
    (hfunction : ∀ {symbol arity body}, P (.native symbol arity (.code body)) →
      ∀ args, ((body symbol args).run evaluate).Keeps P E)
    (hform : ∀ {symbol arity body}, P (.form symbol arity (.code body)) →
      ∀ name operands, ((body name operands).run evaluate).Keeps P E) (room : Nat) :
    (Engine.withRoom evaluate room).Keeps P E := by
  induction room with
  | zero => exact ⟨fun f _ => keeps_inFrame hE f (promises_halt _), huser, hfunction, hform⟩
  | succ room ih =>
    exact ⟨fun f body => keeps_inFrame hE f (keeps_evalWith hE ih body), huser, hfunction, hform⟩

end

/-! ## §5. Native code. -/

mutual
/-- Native code that keeps the names of errors: the error that it fails with names one
expression at most, if those of the nodes it has evaluated name one each. -/
def Code.KeepsNames : Code → Prop
  | .done _ => True
  | .fail e => e.namings ≤ 1
  | .evaluate _ next =>
      ∀ r : Except Error Value, (∀ e, r = .error e → e.namings = 1) → (next r).KeepsNames
  | .depth next => ∀ d, (next d).KeepsNames
  | .lookup _ next => ∀ v, (next v).KeepsNames
  | .frame _ next | .pop next => ∀ f, (next f).KeepsNames
  | .bind _ _ _ next => next.KeepsNames
  | .push _ next | .write _ next =>
      ∀ r : Except Error Unit, (∀ e, r = .error e → e.namings = 0) → (next r).KeepsNames
  | .register d next => d.KeepsNames ∧ next.KeepsNames
/-- Native functions that keep the names of errors. -/
def Native.KeepsNames : Native → Prop
  | .add | .print => True
  | .code body => ∀ symbol args, (body symbol args).KeepsNames
/-- Forms that keep the names of errors. -/
def Form.KeepsNames : Form → Prop
  | .define | .letIn => True
  | .code body => ∀ name operands, (body name operands).KeepsNames
/-- Definitions that keep the names of errors. -/
def Definition.KeepsNames : Definition → Prop
  | .native _ _ function => function.KeepsNames
  | .form _ _ form => form.KeepsNames
  | .user _ _ _ => True
  | .foreign _ _ => True
end

/-- The native code of all definitions in force keeps the names of errors. -/
def Registry.KeepsNames (r : Registry) : Prop := ∀ d ∈ r.definitions, d.KeepsNames

namespace Code

end Code

end IntLisp
