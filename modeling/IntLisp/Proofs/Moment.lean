/-
  IntLisp.Proofs.Moment
  ─────────────────────
  **EVALUATIONS INSIDE AN EVALUATION.**

  While a node is evaluated, other nodes are: operands, the body of the
  function that is called, the values and the body of a `let`.  A `Moment` is
  one such evaluation as it begins, and `m.Demands m'` says that the
  evaluation `m` begins the evaluation `m'`.  With the definitions of the
  core, functions of the language and native functions that do no more than
  look around and write, an error is never caught, so that:

    • a moment fails if one that it demands does (`Demands.fails`),
    • it fails because of one that it demands, or by itself
      (`demands_or_owns`, `demands_or_raises`),
    • at most one that it demands fails (`Demands.unique`),
    • no moment demands others without end (`wellFounded_demands`).
-/
import IntLisp.Proofs.FirstFailure
import IntLisp.Proofs.Naming
import IntLisp.Proofs.Restoration
import IntLisp.Proofs.Termination

namespace IntLisp

open Eval

/-! ## §1. Evaluations as they begin. -/

/-- Whether a node is an expression. -/
def Node.isExpression : Node → Bool
  | .expression _ _ => true
  | _ => false

/-- The evaluation of a node that begins in a context. -/
structure Moment where
  node : Node
  ctx : Context
  /-- The number of further frames there is room for. -/
  room : Nat
  /-- How deep native code may be nested. -/
  calls : Nat

namespace Moment

/-- How bodies are evaluated from here on. -/
def engine (m : Moment) : Engine := .withRoom (Node.evalNested m.calls) m.room

/-- How the evaluation ends. -/
def outcome (m : Moment) : Outcome Value := (m.node.evalWith m.engine).run m.ctx

/-- The evaluation ends with the error `e`. -/
def Fails (m : Moment) (e : Error) : Prop := ∃ ctx', m.outcome = .failed e ctx'

/-- The node is an expression with the symbol `name` for its head, and these operands. -/
def Calls (m : Moment) (name : String) (operands : List Node) : Prop :=
  ∃ token head, m.node = .expression token (head :: operands) ∧ head.symbol? = some name

/-- The context once the call of `name` is traced. -/
def begun (m : Moment) (name : String) : Context :=
  m.ctx.trace fun _ => .calling name m.node.components

/-- What the name is called as is no form. -/
def IsCall (m : Moment) (name : String) : Prop :=
  ∀ symbol arity form, m.ctx.registry.resolve name ≠ some (.form symbol arity form)

/-- The operands are those of a `let`, and as many as it takes. -/
def IsLet (m : Moment) (name : String) (operands : List Node) : Prop :=
  ∃ symbol arity, m.ctx.registry.resolve name = some (.form symbol arity .letIn)
    ∧ arity.accepts operands.length = true

/-- In `ctx` the evaluation opens a frame, and begins that of a body in it. -/
structure Enters (m : Moment) (ctx : Context) (frame : Frame) (body : Node) (m' : Moment) :
    Prop where
  free : ctx.isFull = false
  room_eq : m.room = m'.room + 1
  calls_eq : m'.calls = m.calls
  node_eq : m'.node = body
  ctx_eq : m'.ctx = ctx.opened frame

/-- The evaluation `m` begins another one. -/
inductive Demands (m : Moment) : Moment → Prop where
  /-- That of a node of a list, once the ones before it have values. -/
  | item {token : Option Token} {before after : List Node} {n : Node} {vs : List Value}
      {ctx : Context} (hnode : m.node = .list token (before ++ n :: after))
      (hbefore : Evaluates m.engine before m.ctx vs ctx) :
      Demands m { m with node := n, ctx := ctx }
  /-- That of an operand, once the ones before it have values. -/
  | operand {name : String} {before after : List Node} {n : Node} {vs : List Value}
      {ctx : Context} (hcalls : m.Calls name (before ++ n :: after)) (hcall : m.IsCall name)
      (hbefore : Evaluates m.engine before (m.begun name) vs ctx) :
      Demands m { m with node := n, ctx := ctx }
  /-- That of the body of a function, once all operands have values. -/
  | body {name symbol : String} {operands : List Node} {params : List String} {body : Node}
      {args : List Value} {ctx : Context} {m' : Moment} (hcalls : m.Calls name operands)
      (hfound : m.ctx.registry.resolve name = some (.user symbol params body))
      (hargs : Evaluates m.engine operands (m.begun name) args ctx)
      (hlen : args.length = params.length)
      (henters : m.Enters (ctx.trace fun _ => .applying name args)
        ((Frame.empty .call symbol).bindAll (params.zip args)) body m') : Demands m m'
  /-- That of a value of a `let`, once the bindings before it are made. -/
  | letValue {name x : String} {token token' : Option Token} {before after rest : List Node}
      {key value body : Node} {frame : Frame} {ctx : Context}
      (hcalls : m.Calls name
        (.expression token (before ++ .expression token' [key, value] :: after) :: body :: rest))
      (hlet : m.IsLet name
        (.expression token (before ++ .expression token' [key, value] :: after) :: body :: rest))
      (hbefore : (Node.evalBindings m.engine name (Frame.empty .scope name) before).run
        (m.begun name) = .done frame ctx)
      (hkey : key.symbol? = some x) (hfresh : frame.lookup x = none) :
      Demands m { m with node := value, ctx := ctx }
  /-- That of the body of a `let`, once all bindings are made. -/
  | letBody {name : String} {token : Option Token} {pairs rest : List Node} {body : Node}
      {frame : Frame} {ctx : Context} {m' : Moment}
      (hcalls : m.Calls name (.expression token pairs :: body :: rest))
      (hlet : m.IsLet name (.expression token pairs :: body :: rest))
      (hbindings : (Node.evalBindings m.engine name (Frame.empty .scope name) pairs).run
        (m.begun name) = .done frame ctx)
      (henters : m.Enters ctx frame body m') : Demands m m'

/-- The evaluation comes to need a frame for a body, in the context `ctx`: all operands of the
call of a function have values, as many as it has parameters, or all bindings of a `let` are
made. -/
inductive Asks (m : Moment) : Frame → Node → Context → Prop where
  | call {name symbol : String} {operands : List Node} {params : List String} {body : Node}
      {args : List Value} {ctx : Context} (hcalls : m.Calls name operands)
      (hfound : m.ctx.registry.resolve name = some (.user symbol params body))
      (hargs : Evaluates m.engine operands (m.begun name) args ctx)
      (hlen : args.length = params.length) :
      Asks m ((Frame.empty .call symbol).bindAll (params.zip args)) body
        (ctx.trace fun _ => .applying name args)
  | scope {name : String} {token : Option Token} {pairs rest : List Node} {body : Node}
      {frame : Frame} {ctx : Context}
      (hcalls : m.Calls name (.expression token pairs :: body :: rest))
      (hlet : m.IsLet name (.expression token pairs :: body :: rest))
      (hbindings : (Node.evalBindings m.engine name (Frame.empty .scope name) pairs).run
        (m.begun name) = .done frame ctx) : Asks m frame body ctx

/-- Once there is a frame, the body is evaluated in it. -/
theorem Asks.demands {m m' : Moment} {frame : Frame} {body : Node} {ctx : Context}
    (h : m.Asks frame body ctx) (henters : m.Enters ctx frame body m') : m.Demands m' := by
  cases h with
  | call hcalls hfound hargs hlen => exact .body hcalls hfound hargs hlen henters
  | scope hcalls hlet hbindings => exact .letBody hcalls hlet hbindings henters

end Moment

/-! ## §2. One step. -/

namespace Moment

variable {m m' : Moment} {name : String} {operands : List Node} {e : Error}

/-- What becomes of an error that arises inside the evaluation, and is passed on in `ctx'`. -/
def named (m : Moment) (e : Error) (ctx' : Context) : Error :=
  if m.node.isExpression then nameNode m.node e ctx' else e

/-- What becomes of an error that arises inside the evaluation. -/
def naming (m : Moment) (e : Error) : Error :=
  if m.node.isExpression then nameNode m.node e m.ctx else e

/-- If native code only looks at frames, an evaluation gives the stack back. -/
theorem stack_outcome (m : Moment) (hcode : m.ctx.registry.Within .looking) :
    m.outcome.context.stack = m.ctx.stack :=
  stack_run_of_matches (fun s => Coupling.matches_evalWith
    (Stack.survives_eq.drives_withRoom m.calls m.room s) m.node) hcode

theorem stack_of_failed (hcode : m.ctx.registry.Within .looking) {ctx' : Context}
    (h : m.outcome = .failed e ctx') : ctx'.stack = m.ctx.stack := by
  have hstack := m.stack_outcome hcode
  rwa [h] at hstack

/-- The frames are those that the evaluation began with, as the error of one tells. -/
theorem named_eq (hcode : m.ctx.registry.Within .looking) {ctx' : Context} {e' : Error}
    (h : m.outcome = .failed e' ctx') (e : Error) : m.named e ctx' = m.naming e := by
  rw [named, naming, nameNode_congr m.node e (stack_of_failed hcode h)]

/-- A call ends as what is behind its head does, but for the name of the expression. -/
theorem Calls.outcome_eq (h : m.Calls name operands) :
    m.outcome
      = ((Coupling.behindHead m.engine name operands).within m.node).run (m.begun name) := by
  obtain ⟨token, head, hnode, hhead⟩ := h
  rw [outcome, begun, hnode, Coupling.evalWith_call m.engine token hhead operands]
  rfl

theorem Calls.isExpression (h : m.Calls name operands) : m.node.isExpression = true := by
  obtain ⟨token, head, hnode, -⟩ := h
  rw [hnode]
  rfl

/-- **A call fails as what is behind its head does**, but for the name of the expression. -/
theorem Calls.failed_iff (h : m.Calls name operands) {ctx' : Context} :
    m.outcome = .failed e ctx' ↔ ∃ e', (Coupling.behindHead m.engine name operands).run
      (m.begun name) = .failed e' ctx' ∧ e = m.named e' ctx' := by
  rw [h.outcome_eq, run_within_eq_failed]
  simp only [named, if_pos h.isExpression]

theorem Calls.fails_iff (h : m.Calls name operands) (hcode : m.ctx.registry.Within .looking) :
    m.Fails e ↔ ∃ e' ctx', (Coupling.behindHead m.engine name operands).run (m.begun name)
      = .failed e' ctx' ∧ e = m.naming e' := by
  constructor
  · rintro ⟨ctx', hfailed⟩
    obtain ⟨e', hrun, rfl⟩ := h.failed_iff.1 hfailed
    exact ⟨e', ctx', hrun, named_eq hcode hfailed e'⟩
  · rintro ⟨e', ctx', hrun, rfl⟩
    have hfailed := h.failed_iff.2 ⟨e', hrun, rfl⟩
    exact ⟨ctx', by rw [← named_eq hcode hfailed, hfailed]⟩

theorem registry_begun (m : Moment) (name : String) :
    (m.begun name).registry = m.ctx.registry :=
  m.ctx.registry_trace _

theorem within_begun {a : Access} (hcode : m.ctx.registry.Within a) (name : String) :
    (m.begun name).registry.Within a := by
  rwa [registry_begun]

theorem IsCall.of_user {symbol : String} {params : List String} {body : Node}
    (hfound : m.ctx.registry.resolve name = some (.user symbol params body)) : m.IsCall name := by
  intro symbol arity form
  rw [hfound]
  simp

theorem IsCall.run_behindHead (h : m.IsCall name) (operands : List Node) :
    (Coupling.behindHead m.engine name operands).run (m.begun name)
      = (Node.evalAll m.engine operands
          >>= callFound m.engine name (m.ctx.registry.resolve name)).run (m.begun name) := by
  rw [IntLisp.run_behindHead (by rwa [registry_begun]), registry_begun]

/-- Once its operands have values, a function of the language is called with them. -/
theorem run_user {symbol : String} {params : List String} {body : Node} {args : List Value}
    {ctx : Context} (hfound : m.ctx.registry.resolve name = some (.user symbol params body))
    (hargs : Evaluates m.engine operands (m.begun name) args ctx) :
    (Coupling.behindHead m.engine name operands).run (m.begun name)
      = ((Definition.user symbol params body).invoke m.engine args).run
        (ctx.trace fun _ => .applying name args) := by
  rw [(IsCall.of_user hfound).run_behindHead, run_bind, evaluates_iff.1 hargs, hfound]
  rfl

theorem run_form {symbol : String} {arity : Arity} {form : Form}
    (hfound : m.ctx.registry.resolve name = some (.form symbol arity form)) :
    (Coupling.behindHead m.engine name operands).run (m.begun name)
      = (if arity.accepts operands.length then
          match form with
          | .define => Eval.define name operands
          | .letIn => Node.evalLet m.engine name operands
          | .code body => (body name operands).run m.engine.evaluate
        else Eval.fail (.arity symbol arity operands.length)).run (m.begun name) := by
  unfold Coupling.behindHead
  rw [run_bind, run_view]
  cases form <;> simp [registry_begun, hfound]

theorem IsLet.run_behindHead (h : m.IsLet name operands) :
    (Coupling.behindHead m.engine name operands).run (m.begun name)
      = (Node.evalLet m.engine name operands).run (m.begun name) := by
  obtain ⟨symbol, arity, hfound, haccepts⟩ := h
  rw [run_form hfound, if_pos haccepts]

/-! ### Frames -/

theorem Enters.run_enter {ctx : Context} {frame : Frame} {body : Node}
    (h : m.Enters ctx frame body m') :
    (m.engine.enter frame body).run ctx = m'.outcome.mapContext Context.pop := by
  obtain ⟨node, ctx', room, calls⟩ := m'
  obtain ⟨hfree, hroom, hcalls, hnode, hctx⟩ := h
  dsimp only at hroom hcalls hnode hctx
  subst hcalls hnode hctx
  rw [engine, hroom]
  exact run_inFrame frame _ hfree

/-- A body fails for want of a frame, or as it does inside of one. -/
theorem failed_enter {ctx ctx' : Context} {frame : Frame} {body : Node}
    (h : (m.engine.enter frame body).run ctx = .failed e ctx') :
    (e = .because .stackOverflow ∧ ctx.isFull = true)
      ∨ ∃ m', m.Enters ctx frame body m' ∧ m'.Fails e := by
  rw [engine, enter_withRoom] at h
  cases hfull : ctx.isFull with
  | true =>
    rw [run_inFrame_of_isFull frame _ hfull] at h
    cases h
    exact .inl ⟨rfl, rfl⟩
  | false =>
    rw [run_inFrame frame _ hfull] at h
    cases hroom : m.room with
    | zero =>
      rw [hroom] at h
      cases h
    | succ room =>
      rw [hroom] at h
      let inner : Moment := ⟨body, ctx.opened frame, room, m.calls⟩
      refine .inr ⟨inner, ⟨hfull, hroom, rfl, rfl, rfl⟩, ?_⟩
      have h : inner.outcome.mapContext Context.pop = .failed e ctx' := h
      cases hout : inner.outcome with
      | done v c => rw [hout] at h; cases h
      | halted why c => rw [hout] at h; cases h
      | failed e' c =>
        rw [hout] at h
        cases h
        exact ⟨c, hout⟩

theorem Enters.failed_enter {ctx : Context} {frame : Frame} {body : Node}
    (h : m.Enters ctx frame body m') (hfails : m'.Fails e) :
    ∃ ctx', (m.engine.enter frame body).run ctx = .failed e ctx' := by
  obtain ⟨c, hc⟩ := hfails
  exact ⟨c.pop, by rw [h.run_enter, hc]; rfl⟩

/-- **A moment fails if one that it demands does.** -/
theorem Demands.failed (h : m.Demands m') (hfails : m'.Fails e) :
    ∃ ctx', m.outcome = .failed (m.named e ctx') ctx' := by
  cases h with
  | @item token before after n vs ctx hnode hbefore =>
    obtain ⟨c, hc⟩ := hfails
    refine ⟨c, ?_⟩
    rw [outcome, named, hnode, Node.evalWith, Node.evalLast_eq]
    exact run_map_eq_failed.2 (run_evalAll_failed hbefore hc)
  | @operand name before after n vs ctx hcalls hcall hbefore =>
    obtain ⟨c, hc⟩ := hfails
    refine ⟨c, hcalls.failed_iff.2 ⟨e, ?_, rfl⟩⟩
    rw [hcall.run_behindHead, run_bind_eq_failed]
    exact .inl (run_evalAll_failed hbefore hc)
  | @body name symbol operands params body args ctx _ hcalls hfound hargs hlen henters =>
    obtain ⟨c, hc⟩ := henters.failed_enter hfails
    refine ⟨c, hcalls.failed_iff.2 ⟨e, ?_, rfl⟩⟩
    rw [run_user hfound hargs, Definition.invoke, if_pos hlen]
    exact hc
  | @letValue name x token token' before after rest key value body frame ctx hcalls hlet hbefore
      hkey hfresh =>
    obtain ⟨c, hc⟩ := hfails
    refine ⟨c, hcalls.failed_iff.2 ⟨e, ?_, rfl⟩⟩
    rw [hlet.run_behindHead, Node.evalLet, run_bind_eq_failed]
    exact .inl (run_evalBindings_failed hbefore (failed_pair hkey hfresh hc))
  | @letBody name token pairs rest body frame ctx _ hcalls hlet hbindings henters =>
    obtain ⟨c, hc⟩ := henters.failed_enter hfails
    refine ⟨c, hcalls.failed_iff.2 ⟨e, ?_, rfl⟩⟩
    rw [hlet.run_behindHead, Node.evalLet, run_bind_eq_failed]
    exact .inr ⟨frame, ctx, hbindings, hc⟩

theorem Demands.fails (h : m.Demands m') (hcode : m.ctx.registry.Within .looking)
    (hfails : m'.Fails e) : m.Fails (m.naming e) := by
  obtain ⟨ctx', hfailed⟩ := h.failed hfails
  exact ⟨ctx', by rw [← named_eq hcode hfailed, hfailed]⟩

end Moment

/-! ## §3. Native functions that look around. -/

/-- An error that is no fault of an expression inside, of a name, or of the limit. -/
structure Error.IsOwn (e : Error) : Prop where
  untraced : e.isTraced = false
  bound : ∀ x, e ≠ .unboundSymbol x
  calm : e.isBecause .stackOverflow = false

theorem Error.isOwn_malformed (n : Node) (note : String) : (n.malformed note).IsOwn :=
  ⟨rfl, by simp [Node.malformed], rfl⟩

theorem Error.admits_all : Error.Admits fun _ => True :=
  ⟨fun _ => trivial, fun _ _ _ => trivial⟩

/-- Native code that asks for the number of frames, for frames and for the values of names, and
writes, and does nothing else; an error that it fails with is its own, or that of the output. -/
def Code.Observes : Code → Prop
  | .done _ => True
  | .fail e => e.IsOwn
  | .depth next => ∀ d, (next d).Observes
  | .lookup _ next => ∀ v, (next v).Observes
  | .frame _ next => ∀ f, (next f).Observes
  | .write _ next =>
    (next (.ok ())).Observes ∧ ∀ reason, (next (.error (.external reason))).Observes
  | .evaluate _ _ | .bind _ _ _ _ | .push _ _ | .pop _ | .register _ _ => False

/-- With frames such code does nothing but look at them. -/
theorem Code.Observes.within : ∀ {code : Code}, code.Observes → code.Within .looking
  | .done _, _ | .fail _, _ => by
    rw [Code.Within]
    trivial
  | .depth _, h => by
    rw [Code.Observes] at h
    rw [Code.Within]
    exact fun d => (h d).within
  | .lookup _ _, h => by
    rw [Code.Observes] at h
    rw [Code.Within]
    exact fun v => (h v).within
  | .frame _ _, h => by
    rw [Code.Observes] at h
    rw [Code.Within]
    exact ⟨trivial, fun f => (h f).within⟩
  | .write _ _, h => by
    rw [Code.Observes] at h
    rw [Code.Within]
    exact ⟨h.1.within, fun reason => (h.2 reason).within⟩
  | .evaluate _ _, h | .bind _ _ _ _, h | .push _ _, h | .pop _, h | .register _ _, h => by
    rw [Code.Observes] at h
    exact h.elim

/-- A definition of the core, a function of the language, or a native function that does no more
than look around and write. -/
def Definition.IsObserving (d : Definition) : Prop :=
  d.IsPlain ∨ ∃ symbol arity body, d = .native symbol arity (.code body)
    ∧ ∀ args, (body symbol args).Observes

/-- With frames it does nothing but look at them. -/
theorem Definition.IsObserving.within {d : Definition} (h : d.IsObserving) : d.Within .looking := by
  rcases h with h | ⟨symbol, arity, body, rfl, h⟩
  · exact h.within
  · rw [Definition.Within, Native.Within]
    exact fun args => (h args).within

theorem Context.AllDefined.within {ctx : Context} (h : ctx.AllDefined Definition.IsObserving) :
    ctx.registry.Within .looking :=
  fun d hd => (h d hd).within

namespace Definition

theorem IsObserving.not_code {symbol : String} {arity : Arity}
    (body : String → List Node → Code) :
    ¬ (Definition.form symbol arity (.code body)).IsObserving := by
  rintro (h | ⟨_, _, _, h, -⟩)
  · exact IsPlain.not_code.2 body h
  · cases h

theorem IsObserving.observes {symbol : String} {arity : Arity} {body : String → List Value → Code}
    (h : (Definition.native symbol arity (.code body)).IsObserving) (args : List Value) :
    (body symbol args).Observes := by
  rcases h with h | ⟨_, _, _, heq, h⟩
  · exact absurd h (IsPlain.not_code.1 body)
  · cases heq
    exact h args

end Definition

section

variable {P : Definition → Prop} {E : Error → Prop} {evaluate : Node → Eval Value}

/-- Native code that looks around fails with its own errors, and puts nothing in force. -/
theorem Code.Observes.keeps (hE : ∀ e : Error, e.IsOwn → E e) :
    ∀ {code : Code}, code.Observes → (code.run evaluate).Keeps P E
  | .done v, _ => promises_pure trivial
  | .fail e, h => by
    rw [Code.Observes] at h
    exact promises_fail (hE e h)
  | .depth next, h => by
    rw [Code.Observes] at h
    exact promises_view_bind fun ctx _ => (h ctx.depth).keeps hE
  | .lookup name next, h => by
    rw [Code.Observes] at h
    exact promises_view_bind fun ctx _ => (h (ctx.lookup name)).keeps hE
  | .frame level next, h => by
    rw [Code.Observes] at h
    exact promises_view_bind fun ctx _ => (h (ctx.frameAt? level)).keeps hE
  | .write text next, h => by
    rw [Code.Observes] at h
    exact promises_attempt_write (fun _ hctx => hctx) (h.1.keeps hE)
      fun reason => (h.2 reason).keeps hE
  | .evaluate _ _, h | .bind _ _ _ _, h | .push _ _, h | .pop _, h | .register _ _, h => by
    rw [Code.Observes] at h
    exact h.elim

/-- So does every function that is not written in the language. -/
theorem failed_apply {symbol : String} {arity : Arity} {function : Native}
    (hd : (Definition.native symbol arity function).IsObserving) {args : List Value}
    {ctx ctx' : Context} {e : Error}
    (h : (function.apply evaluate symbol args).run ctx = .failed e ctx') : e.IsOwn := by
  have hkeeps : (function.apply evaluate symbol args).Keeps (fun _ => True) Error.IsOwn := by
    cases function with
    | add =>
      exact Native.apply_add_cases evaluate symbol args
        (fun _ => promises_fail ⟨rfl, by simp, rfl⟩) (fun _ => promises_pure trivial)
        (promises_halt _)
    | print =>
      refine Native.apply_print_cases evaluate symbol args (fun v => ?_) (promises_halt _)
      refine keeps_bind (keeps_write (fun reason => ?_) _) fun _ => promises_pure trivial
      exact ⟨rfl, by simp, rfl⟩
    | code body => exact (hd.observes args).keeps fun _ he => he
  exact (hkeeps ctx fun _ _ => trivial).error h

end

/-! ## §4. Where an error arises. -/

namespace Moment

variable {m m' : Moment} {name : String} {operands : List Node} {e : Error} {ctx' : Context}

/-- The error `e` is the evaluation's own, and not that of one that it demands: a frame is
refused, a name has no value, or something else is wrong. -/
inductive Owns (m : Moment) : Error → Prop where
  | refused {frame : Frame} {body : Node} {ctx : Context} (hasks : m.Asks frame body ctx)
      (hfull : ctx.isFull = true) : Owns m (.because .stackOverflow)
  | unbound {token : Option Token} {x : String} (hnode : m.node = .symbol token x)
      (hlookup : m.ctx.lookup x = none) : Owns m (.unboundSymbol x)
  | other {e : Error} (h : e.IsOwn) : Owns m e

/-- A body fails for want of a frame, or as it does inside of one. -/
theorem Asks.demands_or_owns {ctx : Context} {frame : Frame} {body : Node}
    (hasks : m.Asks frame body ctx)
    (h : (m.engine.enter frame body).run ctx = .failed e ctx') :
    (∃ m', m.Demands m' ∧ m'.Fails e) ∨ m.Owns e := by
  rcases failed_enter h with ⟨rfl, hfull⟩ | ⟨m', henters, hfails⟩
  · exact .inr (.refused hasks hfull)
  · exact .inl ⟨m', hasks.demands henters, hfails⟩

/-- A call fails for an operand, for the body of a function, or by itself. -/
theorem failed_call (hobs : m.ctx.AllDefined Definition.IsObserving)
    (hcalls : m.Calls name operands) (hcall : m.IsCall name)
    (h : (Coupling.behindHead m.engine name operands).run (m.begun name) = .failed e ctx') :
    (∃ m', m.Demands m' ∧ m'.Fails e) ∨ m.Owns e := by
  rw [hcall.run_behindHead, run_bind_eq_failed] at h
  rcases h with h | ⟨args, ctx₁, hargs, h⟩
  · obtain ⟨before, n, after, vs, ctx₁, rfl, hbefore, hn⟩ := exists_failed_of_evalAll h
    exact .inl ⟨_, .operand hcalls hcall hbefore, ctx', hn⟩
  · rw [← evaluates_iff] at hargs
    cases hfound : m.ctx.registry.resolve name with
    | none =>
      rw [hfound] at h
      cases h
      exact .inr (.other ⟨rfl, by simp, rfl⟩)
    | some d =>
      have hd := hobs d (Registry.mem_of_resolve hfound)
      rw [hfound, callFound, run_bind] at h
      have h : (d.invoke m.engine args).run (ctx₁.trace fun _ => .applying name args)
          = .failed e ctx' := h
      cases d with
      | native symbol arity function =>
        rw [Definition.invoke] at h
        split at h
        · exact .inr (.other (failed_apply hd h))
        · cases h
          exact .inr (.other ⟨rfl, by simp, rfl⟩)
      | form symbol arity form => exact absurd hfound (hcall symbol arity form)
      | user symbol params body =>
        rw [Definition.invoke] at h
        split at h
        · next hlen => exact Asks.demands_or_owns (.call hcalls hfound hargs hlen) h
        · cases h
          exact .inr (.other ⟨rfl, by simp, rfl⟩)
      | foreign symbol kind =>
        cases h
        exact .inr (.other ⟨rfl, by simp, rfl⟩)

/-- A `let` fails for a value, for its body, or by itself. -/
theorem failed_let (hcalls : m.Calls name operands) (hlet : m.IsLet name operands)
    (h : (Node.evalLet m.engine name operands).run (m.begun name) = .failed e ctx') :
    (∃ m', m.Demands m' ∧ m'.Fails e) ∨ m.Owns e := by
  match operands with
  | .expression token pairs :: body :: rest =>
    rw [Node.evalLet, run_bind_eq_failed] at h
    rcases h with h | ⟨frame, ctx₁, hbindings, h⟩
    · obtain ⟨before, n, after, frame, ctx₁, rfl, hbefore, hn⟩ := exists_failed_of_evalBindings h
      rcases failed_evalBinding hn with ⟨token', key, value, x, rfl, hkey, hfresh, hvalue⟩ |
        ⟨n', note, rfl⟩
      · exact .inl ⟨_, .letValue hcalls hlet hbefore hkey hfresh, ctx', hvalue⟩
      · exact .inr (.other (Error.isOwn_malformed _ _))
    · exact Asks.demands_or_owns (.scope hcalls hlet hbindings) h
  | .int _ _ :: _ :: _ | .symbol _ _ :: _ :: _ | .list _ _ :: _ :: _ | .foreign _ _ _ :: _ :: _ =>
    cases h
    exact .inr (.other (Error.isOwn_malformed _ _))
  | [] | [_] => cases h

theorem failed_define {ctx : Context}
    (h : (Eval.define name operands).run ctx = .failed e ctx') : e.IsOwn := by
  match operands with
  | f :: params :: body :: more =>
    rw [Eval.run_define] at h
    cases hdef : Node.definition name f params body with
    | ok d => rw [hdef] at h; cases h
    | error e' =>
      obtain ⟨n, note, rfl⟩ := Node.malformed_of_definition hdef
      rw [hdef] at h
      cases h
      exact Error.isOwn_malformed _ _
  | [] | [_] | [_, _] => cases h

/-- What is behind the head fails for a moment that is demanded, or by itself. -/
theorem failed_behindHead (hobs : m.ctx.AllDefined Definition.IsObserving)
    (hcalls : m.Calls name operands)
    (h : (Coupling.behindHead m.engine name operands).run (m.begun name) = .failed e ctx') :
    (∃ m', m.Demands m' ∧ m'.Fails e) ∨ m.Owns e := by
  by_cases hcall : m.IsCall name
  · exact failed_call hobs hcalls hcall h
  · obtain ⟨symbol, arity, form, hfound⟩ :
        ∃ symbol arity form, m.ctx.registry.resolve name = some (.form symbol arity form) := by
      simpa [IsCall] using hcall
    have hd := hobs _ (Registry.mem_of_resolve hfound)
    rw [run_form hfound] at h
    split at h
    · next haccepts =>
      cases form with
      | define => exact .inr (.other (failed_define h))
      | letIn => exact failed_let hcalls ⟨symbol, arity, hfound, haccepts⟩ h
      | code body => exact absurd hd (Definition.IsObserving.not_code body)
    · cases h
      exact .inr (.other ⟨rfl, by simp, rfl⟩)

/-- **A moment fails because of one that it demands, or by itself.** -/
theorem demands_or_owns (hobs : m.ctx.AllDefined Definition.IsObserving) (h : m.Fails e) :
    (∃ m' e', m.Demands m' ∧ m'.Fails e' ∧ e = m.naming e')
      ∨ ∃ e', m.Owns e' ∧ e = m.naming e' := by
  have hfails := h
  obtain ⟨ctx', h⟩ := h
  rw [outcome] at h
  cases hnode : m.node with
  | int token value =>
    rw [hnode] at h
    cases h
  | symbol token name =>
    rw [hnode, Node.evalWith, run_bind, run_view] at h
    dsimp only at h
    cases hlookup : m.ctx.lookup name with
    | some v => rw [hlookup] at h; cases h
    | none =>
      rw [hlookup] at h
      cases h
      exact .inr ⟨_, .unbound hnode hlookup, by rw [naming, hnode]; rfl⟩
  | foreign token code content =>
    rw [hnode] at h
    cases h
    exact .inr ⟨.unknownNode _, .other ⟨rfl, by simp, rfl⟩, by rw [naming, hnode]; rfl⟩
  | list token children =>
    rw [hnode, Node.evalWith, Node.evalLast_eq, run_map_eq_failed] at h
    obtain ⟨before, n, after, vs, ctx₁, rfl, hbefore, hn⟩ := exists_failed_of_evalAll h
    exact .inl ⟨_, e, .item hnode hbefore, ⟨ctx', hn⟩, by rw [naming, hnode]; rfl⟩
  | expression token children =>
    cases children with
    | nil =>
      rw [hnode] at h
      cases h
      exact .inr ⟨.located _ (.because .emptyStatement) "nothing to call",
        .other ⟨rfl, by simp, rfl⟩, by rw [naming, hnode]; rfl⟩
    | cons head operands =>
      cases hhead : head.symbol? with
      | none =>
        rw [hnode, Node.evalWith, hhead] at h
        cases h
        exact .inr ⟨.because .notCallable, .other ⟨rfl, by simp, rfl⟩, by rw [naming, hnode]; rfl⟩
      | some name =>
        have hcalls : m.Calls name operands := ⟨token, head, hnode, hhead⟩
        obtain ⟨e', c, hrun, he⟩ := (hcalls.fails_iff hobs.within).1 hfails
        rcases failed_behindHead hobs hcalls hrun with ⟨m', hdemands, hm'⟩ | howns
        · exact .inl ⟨m', e', hdemands, hm', he⟩
        · exact .inr ⟨e', howns, he⟩

/-- The error `e` arises in the evaluation itself, and not in one that it demands. -/
structure Raises (m : Moment) (e : Error) : Prop where
  untraced : e.isTraced = false
  unbound : ∀ x, e = .unboundSymbol x → ∃ token, m.node = .symbol token x ∧ m.ctx.lookup x = none

theorem Fails.unique {e₁ e₂ : Error} (h₁ : m.Fails e₁) (h₂ : m.Fails e₂) : e₁ = e₂ := by
  obtain ⟨c₁, h₁⟩ := h₁
  obtain ⟨c₂, h₂⟩ := h₂
  rw [h₁] at h₂
  cases h₂
  rfl

theorem Calls.ne_list {token : Option Token} {ns : List Node} (h : m.Calls name operands) :
    m.node ≠ .list token ns := by
  obtain ⟨_, _, hnode, -⟩ := h
  rw [hnode]
  simp

theorem Calls.unique {name' : String} {operands' : List Node} (h : m.Calls name operands)
    (h' : m.Calls name' operands') : name = name' ∧ operands = operands' := by
  obtain ⟨token, head, hnode, hhead⟩ := h
  obtain ⟨token', head', hnode', hhead'⟩ := h'
  rw [hnode] at hnode'
  cases hnode'
  rw [hhead] at hhead'
  cases hhead'
  exact ⟨rfl, rfl⟩

/-- A call is no `let`. -/
theorem Calls.not_isLet {name' : String} {operands' : List Node} (h : m.Calls name operands)
    (hcall : m.IsCall name) (h' : m.Calls name' operands') : ¬ m.IsLet name' operands' := by
  rintro ⟨symbol, arity, hfound, -⟩
  obtain ⟨rfl, -⟩ := h.unique h'
  exact hcall symbol arity .letIn hfound

theorem Enters.unique {ctx : Context} {frame : Frame} {body : Node} {m₁ m₂ : Moment}
    (h₁ : m.Enters ctx frame body m₁) (h₂ : m.Enters ctx frame body m₂) : m₁ = m₂ := by
  obtain ⟨n₁, c₁, r₁, k₁⟩ := m₁
  obtain ⟨n₂, c₂, r₂, k₂⟩ := m₂
  obtain ⟨-, hroom₁, rfl, rfl, rfl⟩ := h₁
  obtain ⟨-, hroom₂, rfl, rfl, rfl⟩ := h₂
  obtain rfl : r₁ = r₂ := by
    dsimp only at hroom₁ hroom₂
    omega
  rfl

/-- **Of the moments that one demands, one fails at most.** -/
theorem Demands.unique {m₁ m₂ : Moment} {e₁ e₂ : Error} (h₁ : m.Demands m₁) (h₂ : m.Demands m₂)
    (hfails₁ : m₁.Fails e₁) (hfails₂ : m₂.Fails e₂) : m₁ = m₂ := by
  -- the node and what its head resolves to tell lists, calls and `let`s apart; within each
  -- of them the first that fails keeps all behind it from being begun
  cases h₁ with
  | item hnode₁ hbefore₁ =>
    cases h₂ with
    | item hnode₂ hbefore₂ =>
      rw [hnode₁] at hnode₂
      injection hnode₂ with _ hsplit
      obtain ⟨c₁, hc₁⟩ := hfails₁
      obtain ⟨c₂, hc₂⟩ := hfails₂
      obtain ⟨rfl, rfl⟩ := Evaluates.failed_unique hsplit hbefore₁ hc₁ hbefore₂ hc₂
      rfl
    | operand hcalls | body hcalls | letValue hcalls | letBody hcalls =>
      exact absurd hnode₁ hcalls.ne_list
  | operand hcalls₁ hcall₁ hbefore₁ =>
    obtain ⟨c₁, hc₁⟩ := hfails₁
    cases h₂ with
    | item hnode₂ => exact absurd hnode₂ hcalls₁.ne_list
    | operand hcalls₂ _ hbefore₂ =>
      obtain ⟨c₂, hc₂⟩ := hfails₂
      obtain ⟨rfl, hsplit⟩ := hcalls₁.unique hcalls₂
      obtain ⟨rfl, rfl⟩ := Evaluates.failed_unique hsplit hbefore₁ hc₁ hbefore₂ hc₂
      rfl
    | body hcalls₂ _ hargs₂ =>
      obtain ⟨rfl, rfl⟩ := hcalls₁.unique hcalls₂
      exact absurd hc₁ (hargs₂.not_failed hbefore₁)
    | letValue hcalls₂ hlet₂ | letBody hcalls₂ hlet₂ =>
      exact absurd hlet₂ (hcalls₁.not_isLet hcall₁ hcalls₂)
  | body hcalls₁ hfound₁ hargs₁ _ henters₁ =>
    cases h₂ with
    | item hnode₂ => exact absurd hnode₂ hcalls₁.ne_list
    | operand hcalls₂ _ hbefore₂ =>
      obtain ⟨c₂, hc₂⟩ := hfails₂
      obtain ⟨rfl, rfl⟩ := hcalls₁.unique hcalls₂
      exact absurd hc₂ (hargs₁.not_failed hbefore₂)
    | body hcalls₂ hfound₂ hargs₂ _ henters₂ =>
      obtain ⟨rfl, rfl⟩ := hcalls₁.unique hcalls₂
      rw [hfound₁] at hfound₂
      cases hfound₂
      obtain ⟨rfl, rfl⟩ := hargs₁.unique hargs₂
      exact henters₁.unique henters₂
    | letValue hcalls₂ hlet₂ | letBody hcalls₂ hlet₂ =>
      exact absurd hlet₂ (hcalls₁.not_isLet (.of_user hfound₁) hcalls₂)
  | letValue hcalls₁ hlet₁ hbefore₁ hkey₁ hfresh₁ =>
    obtain ⟨c₁, hc₁⟩ := hfails₁
    cases h₂ with
    | item hnode₂ => exact absurd hnode₂ hcalls₁.ne_list
    | operand hcalls₂ hcall₂ => exact absurd hlet₁ (hcalls₂.not_isLet hcall₂ hcalls₁)
    | body hcalls₂ hfound₂ =>
      exact absurd hlet₁ (hcalls₂.not_isLet (.of_user hfound₂) hcalls₁)
    | letValue hcalls₂ _ hbefore₂ hkey₂ hfresh₂ =>
      obtain ⟨c₂, hc₂⟩ := hfails₂
      obtain ⟨rfl, hoperands⟩ := hcalls₁.unique hcalls₂
      injection hoperands with hbindings _
      injection hbindings with _ hsplit
      obtain ⟨heq, rfl⟩ := failed_evalBinding_unique hsplit
        hbefore₁ (failed_pair hkey₁ hfresh₁ hc₁) hbefore₂ (failed_pair hkey₂ hfresh₂ hc₂)
      cases heq
      rfl
    | letBody hcalls₂ _ hbindings₂ =>
      obtain ⟨rfl, hoperands⟩ := hcalls₁.unique hcalls₂
      cases hoperands
      exact absurd (failed_pair hkey₁ hfresh₁ hc₁) (not_failed_of_evalBindings hbindings₂ hbefore₁)
  | letBody hcalls₁ hlet₁ hbindings₁ henters₁ =>
    cases h₂ with
    | item hnode₂ => exact absurd hnode₂ hcalls₁.ne_list
    | operand hcalls₂ hcall₂ => exact absurd hlet₁ (hcalls₂.not_isLet hcall₂ hcalls₁)
    | body hcalls₂ hfound₂ =>
      exact absurd hlet₁ (hcalls₂.not_isLet (.of_user hfound₂) hcalls₁)
    | letValue hcalls₂ _ hbefore₂ hkey₂ hfresh₂ =>
      obtain ⟨c₂, hc₂⟩ := hfails₂
      obtain ⟨rfl, hoperands⟩ := hcalls₁.unique hcalls₂
      cases hoperands
      exact absurd (failed_pair hkey₂ hfresh₂ hc₂) (not_failed_of_evalBindings hbindings₁ hbefore₂)
    | letBody hcalls₂ _ hbindings₂ henters₂ =>
      obtain ⟨rfl, hoperands⟩ := hcalls₁.unique hcalls₂
      cases hoperands
      rw [hbindings₁] at hbindings₂
      cases hbindings₂
      exact henters₁.unique henters₂

theorem Calls.sizeOf_lt {n : Node} (h : m.Calls name operands) (hn : n ∈ operands) :
    sizeOf n < sizeOf m.node := by
  obtain ⟨token, head, hnode, -⟩ := h
  have hlt := List.sizeOf_lt_of_mem hn
  rw [hnode]
  simp only [Node.expression.sizeOf_spec, List.cons.sizeOf_spec]
  omega

/-- **The room for frames gets less, or the node does.** -/
theorem Demands.lt (h : m.Demands m') :
    Prod.Lex (· < ·) (· < ·) (m'.room, sizeOf m'.node) (m.room, sizeOf m.node) := by
  cases h with
  | @item token before after n vs ctx hnode hbefore =>
    have hlt := List.sizeOf_lt_of_mem (List.mem_append_right before (.head (a := n) after))
    refine .right _ ?_
    rw [hnode, Node.list.sizeOf_spec]
    exact Nat.lt_add_left _ hlt
  | operand hcalls => exact .right _ (hcalls.sizeOf_lt (List.mem_append_right _ (.head _)))
  | body _ _ _ _ henters | letBody _ _ _ henters =>
    have hroom := henters.room_eq
    exact .left _ _ (by omega)
  | @letValue name x token token' before after rest key value body frame ctx hcalls hlet hbefore
      hkey hfresh =>
    have hlt := hcalls.sizeOf_lt (.head _)
    have hpair := List.sizeOf_lt_of_mem
      (List.mem_append_right before (.head (a := .expression token' [key, value]) after))
    refine .right _ ?_
    simp only [Node.expression.sizeOf_spec, List.cons.sizeOf_spec] at hlt hpair ⊢
    omega

/-- No moment demands others without end. -/
theorem wellFounded_demands : WellFounded fun m' m : Moment => m.Demands m' :=
  Subrelation.wf Demands.lt
    (InvImage.wf (fun m : Moment => (m.room, sizeOf m.node))
      (Prod.lex Nat.lt_wfRel Nat.lt_wfRel).wf)

/-! ## §6. The definitions in force. -/

/-- With the core and functions of the language, no other definitions come to be. -/
theorem keeps_engine (m : Moment) : m.engine.Keeps Definition.IsPlain fun _ => True :=
  keeps_withRoom Error.admits_all (fun f ps b => .inr ⟨f, ps, b, rfl⟩)
    (fun h => absurd h (Definition.IsPlain.not_code.1 _))
    (fun h => absurd h (Definition.IsPlain.not_code.2 _)) m.room

/-- Native functions that look around bring no others in either. -/
theorem keeps_engine_observing (m : Moment) :
    m.engine.Keeps Definition.IsObserving fun _ => True :=
  keeps_withRoom Error.admits_all (fun f ps b => .inl (.inr ⟨f, ps, b, rfl⟩))
    (fun h args => (h.observes args).keeps fun _ _ => trivial)
    (fun h => absurd h (Definition.IsObserving.not_code _)) m.room

variable {P : Definition → Prop}

theorem allDefined_of_keeps {α : Type} {act : Eval α} {a : α} {ctx ctx' : Context}
    (hact : act.Keeps P fun _ => True) (hctx : ctx.AllDefined P)
    (h : act.run ctx = .done a ctx') : ctx'.AllDefined P := by
  have hkept := (hact ctx hctx).context
  rwa [h] at hkept

/-- **What is kept by all that is evaluated is in force in every moment.** -/
theorem Demands.allDefined (h : m.Demands m') (hengine : m.engine.Keeps P fun _ => True)
    (hctx : m.ctx.AllDefined P) : m'.ctx.AllDefined P := by
  have hbegun : ∀ name, (m.begun name).AllDefined P := fun name => hctx.trace _
  have hnodes : ∀ {ns : List Node} {ctx ctx' : Context} {vs : List Value}, ctx.AllDefined P →
      Evaluates m.engine ns ctx vs ctx' → ctx'.AllDefined P := fun hctx h =>
    allDefined_of_keeps (keeps_evalAll Error.admits_all hengine _) hctx (evaluates_iff.1 h)
  have hbindings : ∀ {form : String} {frame frame' : Frame} {ns : List Node}
      {ctx ctx' : Context}, ctx.AllDefined P →
      (Node.evalBindings m.engine form frame ns).run ctx = .done frame' ctx' →
      ctx'.AllDefined P := fun hctx h =>
    allDefined_of_keeps (keeps_evalBindings Error.admits_all hengine _ _ _) hctx h
  cases h with
  | item _ hbefore => exact hnodes hctx hbefore
  | operand _ _ hbefore => exact hnodes (hbegun _) hbefore
  | body _ _ hargs _ henters =>
    rw [henters.ctx_eq]
    exact ((hnodes (hbegun _) hargs).trace _).opened _
  | letValue _ _ hbefore => exact hbindings (hbegun _) hbefore
  | letBody _ _ hmade henters =>
    rw [henters.ctx_eq]
    exact (hbindings (hbegun _) hmade).opened _

theorem Demands.isPlain (h : m.Demands m') (hplain : m.ctx.registry.IsPlain) :
    m'.ctx.registry.IsPlain :=
  h.allDefined m.keeps_engine hplain

end Moment

end IntLisp
