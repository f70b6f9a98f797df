/-
  IntLisp.Proofs.Complaints
  ─────────────────────────
  **AN ERROR AT A PLACE IS ABOUT A NODE.**

  A form that is not well written fails with an error that says where and
  why.  The place is that of the node at fault, as it was read, and the words
  hold the canonical text of that node, or the name it repeats.

  The evaluator is followed with a set `A` of nodes that holds what is
  evaluated and all bodies in force.  The set is closed under going inside,
  and a definition puts a part of what is evaluated in force, so an
  evaluation never leaves the set:

      A n  →  (n.evalWith engine).StaysIn F A

  Every place in an error is then that of a node of `A`, whichever function
  it was called through.  Native code may have nodes of its own evaluated,
  which `A` holds then, and may complain about places itself; `F` are the
  complaints that it makes.
-/
import IntLisp.Proofs.Naming
import IntLisp.Proofs.Places
import IntLisp.Proofs.Relocation
import IntLisp.Proofs.Words

namespace IntLisp

open Eval

variable {α : Type}

/-! ## §1. Errors about nodes. -/

/-- An error at the node `m` may have this cause and this note. -/
inductive Node.Earns (m : Node) : Error → String → Prop where
  /-- An expression without a head. -/
  | nothing {token : Option Token} (hm : m = .expression token []) :
      Earns m (.because .emptyStatement) "nothing to call"
  /-- A node of another shape than its form needs, written behind `what`. -/
  | shape (what : String) : Earns m (.because .malformed) (what ++ m.encode)
  /-- A name that stands here for the second time. -/
  | twice (what : String) {name : String} (hm : m.symbol? = some name) :
      Earns m (.because .malformed) (what ++ Text.quote name)
  /-- A word of which nothing is left. -/
  | lost {name : String} (hm : m.symbol? = some name) (hname : Text.stripped name = "") :
      Earns m (.because .emptyStatement) ""

/-- What an error says about a node does not depend on where it stands. -/
theorem Node.Earns.of_bare {m k : Node} {cause : Error} {note : String}
    (h : m.Earns cause note) (hk : k.bare = m.bare) : k.Earns cause note := by
  have hencode : m.encode = k.encode := by rw [← m.encode_bare, ← hk, k.encode_bare]
  have hsymbol : k.symbol? = m.symbol? := by rw [← k.symbol?_bare, hk, m.symbol?_bare]
  cases h with
  | nothing hm =>
    subst hm
    cases k with
    | expression token children =>
      cases children with
      | nil => exact .nothing rfl
      | cons c cs => cases hk
    | int _ _ | symbol _ _ | list _ _ | foreign _ _ _ => cases hk
  | shape what =>
    rw [hencode]
    exact .shape what
  | twice what hm => exact .twice what (hsymbol.trans hm)
  | lost hm hname => exact .lost (hsymbol.trans hm) hname

/-- A set of nodes that holds whatever is inside one of its nodes. -/
def Node.Deep (A : Node → Prop) : Prop := ∀ n, A n → ∀ c ∈ n.children, A c

theorem Node.Deep.or {A B : Node → Prop} (hA : Deep A) (hB : Deep B) :
    Deep fun m => A m ∨ B m := by
  rintro n (hn | hn) c hc
  · exact .inl (hA n hn c hc)
  · exact .inr (hB n hn c hc)

theorem Node.Inside.child {m n c : Node} (h : m.Inside n) (hc : c ∈ m.children) : c.Inside n := by
  induction h with
  | here => exact .deeper hc .here
  | deeper hc' _ ih => exact .deeper hc' ih

/-- What is said about places: the place, the cause and the note. -/
abbrev Complaints := Position → Error → String → Prop

/-- All that the error says about places is about nodes of `A`, or one of the complaints `F`. -/
def Error.PlacedIn (F : Complaints) (A : Node → Prop) (e : Error) : Prop :=
  ∀ p cause note, .located p cause note ∈ e.chain →
    (∃ m, A m ∧ m.pos = p ∧ m.Earns cause note) ∨ F p cause note

namespace Error.PlacedIn

variable {F : Complaints} {A B : Node → Prop} {e : Error}

theorem mono (h : e.PlacedIn F A) (hAB : ∀ m, A m → B m) : e.PlacedIn F B := by
  intro p cause note hmem
  exact (h p cause note hmem).imp_left fun ⟨m, hm, hearns⟩ => ⟨m, hAB m hm, hearns⟩

/-- An error that wraps no other and has no place. -/
theorem single (hchain : e.chain = [e]) (he : ∀ p cause note, e ≠ .located p cause note) :
    e.PlacedIn F A := by
  intro p cause note hmem
  rw [hchain, List.mem_singleton] at hmem
  exact absurd hmem.symm (he p cause note)

theorem located {m : Node} {reason : Reason} {note : String} (hm : A m)
    (h : m.Earns (.because reason) note) :
    (Error.located m.pos (.because reason) note).PlacedIn F A := by
  intro p cause note' hmem
  simp only [Error.chain, List.mem_cons, List.not_mem_nil, or_false, reduceCtorEq] at hmem
  cases hmem
  exact .inl ⟨m, hm, rfl, h⟩

theorem malformed {m : Node} (hm : A m) (what : String) :
    (m.malformed (what ++ m.encode)).PlacedIn F A :=
  located hm (.shape what)

theorem malformed_name {m : Node} {name : String} (hm : A m) (hname : m.symbol? = some name)
    (what : String) : (m.malformed (what ++ Text.quote name)).PlacedIn F A :=
  located hm (.twice what hname)

theorem nilArgument (symbol : String) (index : Nat) :
    (Error.nilArgument symbol index).PlacedIn F A := by
  intro p cause note hmem
  simp [Error.chain] at hmem

theorem nameNode (h : e.PlacedIn F A) (n : Node) (ctx : Context) :
    (Eval.nameNode n e ctx).PlacedIn F A := by
  unfold Eval.nameNode
  split
  · exact h
  · intro p cause note hmem
    simp only [Error.chain, List.mem_cons, reduceCtorEq, false_or] at hmem
    exact h p cause note hmem

end Error.PlacedIn

theorem Node.placedIn_of_paramNames {F : Complaints} {A : Node → Prop} {title : String}
    {seen : List String} {ns : List Node} {e : Error} (hns : ∀ n ∈ ns, A n)
    (h : paramNames title seen ns = .error e) : e.PlacedIn F A := by
  induction ns generalizing seen with
  | nil => cases h
  | cons n ns ih =>
    unfold paramNames at h
    split at h
    · cases h
      exact .malformed (hns n (.head _)) _
    · next name hname =>
      split at h
      · cases h
        exact .malformed_name (hns n (.head _)) hname _
      · exact ih (fun n hn => hns n (.tail _ hn)) h

theorem Node.placedIn_of_definition {F : Complaints} {A : Node → Prop} (hA : Deep A)
    {symbol : String} {name params body : Node} {e : Error} (hname : A name) (hparams : A params)
    (h : definition symbol name params body = .error e) : e.PlacedIn F A := by
  unfold definition at h
  split at h
  · cases h
    exact .malformed hname _
  · next f _ =>
    dsimp only at h
    split at h
    · next token ns =>
      cases hnames : paramNames (symbol ++ " " ++ f) [] ns with
      | ok names => rw [hnames] at h; cases h
      | error e' =>
        rw [hnames] at h
        cases h
        exact placedIn_of_paramNames (hA _ hparams) hnames
    · cases h
      exact .malformed hparams _

/-! ## §2. The evaluator. -/

theorem Eval.Promises.imp_error {I : Context → Prop} {E E' : Error → Prop} {Q : α → Prop}
    {act : Eval α} (hact : act.Promises I E Q) (h : ∀ e, E e → E' e) : act.Promises I E' Q := by
  intro ctx hctx
  match act.run ctx, hact ctx hctx with
  | _, .done h' ha => exact .done h' ha
  | _, .failed h' he => exact .failed h' (h _ he)
  | _, .halted h' => exact .halted h'

mutual
/-- Native code that has only nodes of `A` evaluated, and complains about places only as `F` allows
or about nodes of `A`, if that is so of the errors that it is answered with. -/
def Code.KeepsTo (F : Complaints) : Code → (A : Node → Prop) → Prop
  | .done _, _ => True
  | .fail e, A => e.PlacedIn F A
  | .evaluate n next, A =>
    A n ∧ ∀ r, (∀ e, r = .error e → e.PlacedIn F A) → (next r).KeepsTo F A
  | .depth next, A => ∀ d, (next d).KeepsTo F A
  | .lookup _ next, A => ∀ v, (next v).KeepsTo F A
  | .frame _ next, A => ∀ f, (next f).KeepsTo F A
  | .bind _ _ _ next, A => next.KeepsTo F A
  | .push _ next, A =>
    (next (.ok ())).KeepsTo F A ∧ (next (.error (.because .stackOverflow))).KeepsTo F A
  | .pop next, A => ∀ f, (next f).KeepsTo F A
  | .write _ next, A =>
    (next (.ok ())).KeepsTo F A ∧ ∀ reason, (next (.error (.external reason))).KeepsTo F A
  | .register d next, A => d.KeepsTo F A ∧ next.KeepsTo F A
/-- Native functions whose code keeps to `A`, and to whatever holds more than `A`. -/
def Native.KeepsTo (F : Complaints) : Native → (A : Node → Prop) → Prop
  | .add, _ | .print, _ => True
  | .code body, A => ∀ B, Node.Deep B → (∀ m, A m → B m) →
    ∀ symbol args, (body symbol args).KeepsTo F B
/-- Forms whose code does so with operands from there. -/
def Form.KeepsTo (F : Complaints) : Form → (A : Node → Prop) → Prop
  | .define, _ | .letIn, _ => True
  | .code body, A => ∀ B, Node.Deep B → (∀ m, A m → B m) →
    ∀ name operands, (∀ n ∈ operands, B n) → (body name operands).KeepsTo F B
/-- Definitions whose code keeps to `A`, or whose body is in `A`. -/
def Definition.KeepsTo (F : Complaints) : Definition → (A : Node → Prop) → Prop
  | .native _ _ function, A => function.KeepsTo F A
  | .form _ _ form, A => form.KeepsTo F A
  | .user _ _ body, A => A body
  | .foreign _ _, _ => True
end

theorem Definition.KeepsTo.mono {F : Complaints} {A B : Node → Prop} {d : Definition}
    (h : d.KeepsTo F A) (hAB : ∀ m, A m → B m) : d.KeepsTo F B := by
  match d with
  | .native _ _ (.code body) =>
    rw [Definition.KeepsTo, Native.KeepsTo] at h ⊢
    exact fun C hC hBC => h C hC fun m hm => hBC m (hAB m hm)
  | .form _ _ (.code body) =>
    rw [Definition.KeepsTo, Form.KeepsTo] at h ⊢
    exact fun C hC hBC => h C hC fun m hm => hBC m (hAB m hm)
  | .user _ _ body =>
    rw [Definition.KeepsTo] at h ⊢
    exact hAB body h
  | .native _ _ .add | .native _ _ .print | .form _ _ .define | .form _ _ .letIn
  | .foreign _ _ => simp only [Definition.KeepsTo, Native.KeepsTo, Form.KeepsTo]

/-- Plain definitions keep to what their bodies are in. -/
theorem Definition.IsPlain.keepsTo {F : Complaints} {A : Node → Prop} {d : Definition}
    (h : d.IsPlain) (hbody : ∀ symbol params body, d = .user symbol params body → A body) :
    d.KeepsTo F A := by
  rcases h with h | ⟨symbol, params, body, rfl⟩
  · simp only [Registry.coreDefinitions, List.mem_cons, List.not_mem_nil, or_false] at h
    rcases h with rfl | rfl | rfl | rfl <;>
      simp only [Definition.KeepsTo, Native.KeepsTo, Form.KeepsTo]
  · rw [Definition.KeepsTo]
    exact hbody symbol params body rfl

/-- Evaluating operands in turn keeps to what they are in. -/
theorem Code.keepsTo_inTurn {F : Complaints} {A : Node → Prop} {wrap : Error → Error}
    (hwrap : ∀ e : Error, e.PlacedIn F A → (wrap e).PlacedIn F A) (before : Value) {ns : List Node}
    (hns : ∀ n ∈ ns, A n) : (inTurn wrap before ns).KeepsTo F A := by
  induction ns generalizing before with
  | nil =>
    rw [inTurn, KeepsTo]
    trivial
  | cons n ns ih =>
    rw [inTurn, KeepsTo]
    refine ⟨hns n (.head _), fun r hr => ?_⟩
    cases r with
    | ok v => exact ih v fun m hm => hns m (.tail _ hm)
    | error e =>
      rw [KeepsTo]
      exact hwrap e (hr e rfl)

theorem Form.keepsTo_sequence {F : Complaints} {A : Node → Prop} : sequence.KeepsTo F A := by
  rw [sequence, KeepsTo]
  exact fun B _ _ name operands hoperands => Code.keepsTo_inTurn (fun _ he => he) .nil hoperands

/-- The step keeps the definitions in force to `A`, and its errors are about nodes of `A`. -/
def Eval.StaysIn (F : Complaints) (A : Node → Prop) (act : Eval α) : Prop :=
  act.Promises (Context.AllDefined fun d => d.KeepsTo F A) (Error.PlacedIn F A) fun _ => True

/-- The engine stays in `A` with nodes of `A`. -/
structure Engine.StaysIn (F : Complaints) (A : Node → Prop) (engine : Engine) : Prop where
  enter : ∀ frame {body}, A body → (engine.enter frame body).StaysIn F A
  evaluate : ∀ {n}, A n → (engine.evaluate n).StaysIn F A

section

variable {F : Complaints} {A : Node → Prop} {engine : Engine}

theorem staysIn_trace (event : Context → Event) : (trace event).StaysIn F A :=
  promises_modify (fun _ h => h.trace event) trivial

theorem staysIn_within (n : Node) {act : Eval α} (h : act.StaysIn F A) :
    (act.within n).StaysIn F A :=
  promises_within n h fun _ ctx he => he.nameNode n ctx

theorem staysIn_inFrame (f : Frame) {act : Eval α} (h : act.StaysIn F A) :
    (inFrame f act).StaysIn F A :=
  promises_inFrame h (fun _ h => h.opened f) (fun _ h => h.pop) (.single rfl (by simp))

theorem staysIn_symbol (name : String) (token : Option Token) :
    ((Node.symbol token name).evalWith engine).StaysIn F A := by
  refine promises_view_bind fun ctx _ => ?_
  cases ctx.lookup name with
  | some v => exact promises_pure trivial
  | none => exact promises_fail (.single rfl (by simp))

theorem staysIn_write (text : String) : (write text).StaysIn F A :=
  promises_write text (fun _ h => h) (fun _ => .single rfl (by simp)) trivial

/-- **Native code stays in what it keeps to.** -/
theorem staysIn_code {evaluate : Node → Eval Value}
    (hev : ∀ {n}, A n → (evaluate n).StaysIn F A) :
    ∀ code : Code, code.KeepsTo F A → (code.run evaluate).StaysIn F A
  | .done v, _ => promises_pure trivial
  | .fail e, h => by
    rw [Code.KeepsTo] at h
    exact promises_fail h
  | .evaluate n next, h => by
    rw [Code.KeepsTo] at h
    exact promises_bind (promises_attempt (hev h.1)) fun r hr =>
      staysIn_code hev (next r) (h.2 r hr.2)
  | .depth next, h => by
    rw [Code.KeepsTo] at h
    exact promises_view_bind fun ctx _ => staysIn_code hev (next ctx.depth) (h _)
  | .lookup name next, h => by
    rw [Code.KeepsTo] at h
    exact promises_view_bind fun ctx _ => staysIn_code hev (next (ctx.lookup name)) (h _)
  | .frame level next, h => by
    rw [Code.KeepsTo] at h
    exact promises_view_bind fun ctx _ => staysIn_code hev (next (ctx.frameAt? level)) (h _)
  | .bind level name v next, h => by
    rw [Code.KeepsTo] at h
    exact promises_bind (Q := fun _ => True) (promises_modify (fun _ hctx => hctx) trivial)
      fun _ _ => staysIn_code hev next h
  | .push f next, h => by
    rw [Code.KeepsTo] at h
    exact promises_attempt_push (fun _ hctx => hctx.opened f)
      (staysIn_code hev (next (.ok ())) h.1)
      (staysIn_code hev (next (.error (.because .stackOverflow))) h.2)
  | .pop next, h => by
    rw [Code.KeepsTo] at h
    exact promises_view_bind fun ctx _ =>
      promises_bind (Q := fun _ => True) (promises_modify (fun _ hctx => hctx.pop) trivial)
        fun _ _ => staysIn_code hev (next ctx.frame?) (h _)
  | .write text next, h => by
    rw [Code.KeepsTo] at h
    exact promises_attempt_write (fun _ hctx => hctx) (staysIn_code hev (next (.ok ())) h.1)
      fun reason => staysIn_code hev (next (.error (.external reason))) (h.2 reason)
  | .register d next, h => by
    rw [Code.KeepsTo] at h
    exact promises_bind (Q := fun _ => True)
      (promises_modify (fun _ hctx => hctx.register h.1) trivial)
      fun _ _ => staysIn_code hev next h.2

theorem staysIn_define (hA : Node.Deep A) (symbol : String) (operands : List Node)
    (hoperands : ∀ n ∈ operands, A n) : (Eval.define symbol operands).StaysIn F A := by
  match operands with
  | f :: params :: body :: more =>
    simp only [List.mem_cons, forall_eq_or_imp] at hoperands
    obtain ⟨hf, hparams, hbody, -⟩ := hoperands
    intro ctx hctx
    rw [Eval.run_define]
    cases hdef : Node.definition symbol f params body with
    | error e => exact .failed hctx (Node.placedIn_of_definition hA hf hparams hdef)
    | ok d =>
      obtain ⟨g, names, rfl⟩ := Node.definition_eq_ok hdef
      -- the body is one of the operands
      exact .done (hctx.register (by rw [Definition.KeepsTo]; exact hbody)) trivial
  | [] | [_] | [_, _] => exact promises_halt _

section

variable (hA : Node.Deep A) (he : engine.StaysIn F A)

include hA he

theorem staysIn_apply {symbol : String} {arity : Arity} {function : Native}
    (hd : (Definition.native symbol arity function).KeepsTo F A) (args : List Value) :
    (function.apply engine.evaluate symbol args).StaysIn F A := by
  cases function with
  | add =>
    exact Native.apply_add_cases _ symbol args (fun i => promises_fail (.nilArgument symbol i))
      (fun _ => promises_pure trivial) (promises_halt _)
  | print =>
    exact Native.apply_print_cases _ symbol args
      (fun v => promises_bind (staysIn_write _) fun _ _ => promises_pure trivial) (promises_halt _)
  | code body =>
    rw [Definition.KeepsTo, Native.KeepsTo] at hd
    exact staysIn_code he.evaluate _ (hd A hA (fun _ hm => hm) symbol args)

theorem staysIn_invoke {d : Definition} (hd : d.KeepsTo F A) (args : List Value) :
    (d.invoke engine args).StaysIn F A := by
  cases d with
  | native symbol arity function =>
    unfold Definition.invoke
    dsimp only
    split
    · exact staysIn_apply hA he hd args
    · exact promises_fail (.single rfl (by simp))
  | form symbol arity form => exact promises_halt _
  | user symbol params body =>
    rw [Definition.KeepsTo] at hd
    unfold Definition.invoke
    dsimp only
    split
    · exact he.enter _ hd
    · exact promises_fail (.single rfl (by simp))
  | foreign symbol kind => exact promises_fail (.single rfl (by simp))

theorem staysIn_behindHead (name : String)
    (operands : List Node) (hoperands : ∀ n ∈ operands, A n)
    (hargs : (Node.evalAll engine operands).StaysIn F A)
    (hlet : (Node.evalLet engine name operands).StaysIn F A) :
    (Coupling.behindHead engine name operands).StaysIn F A := by
  refine promises_view_bind fun ctx hctx => ?_
  cases hfound : ctx.registry.resolve name with
  | none => exact promises_bind hargs fun _ _ => promises_fail (.single rfl (by simp))
  | some d =>
    have hd := hctx d (Registry.mem_of_resolve hfound)
    have hcall : (Node.evalAll engine operands >>= fun args =>
        Eval.trace (fun _ => .applying name args) >>= fun _ => d.invoke engine args).StaysIn F A :=
      promises_bind hargs fun args _ =>
        promises_bind (staysIn_trace _) fun _ _ => staysIn_invoke hA he hd args
    cases d with
    | native symbol arity function => exact hcall
    | user symbol params body => exact hcall
    | foreign symbol kind => exact hcall
    | form symbol arity form =>
      dsimp only
      split
      · cases form with
        | define => exact staysIn_define hA name operands hoperands
        | letIn => exact hlet
        | code body =>
          -- the operands may be read after the form came in force, so its code was to keep to
          -- every larger set, and this one holds them
          rw [Definition.KeepsTo, Form.KeepsTo] at hd
          exact staysIn_code he.evaluate _ (hd A hA (fun _ hm => hm) name operands hoperands)
      · exact promises_fail (.single rfl (by simp))

end

mutual
/-- **A node of `A` is evaluated within `A`.** -/
theorem staysIn_evalWith (hA : Node.Deep A) (he : engine.StaysIn F A) :
    ∀ n : Node, A n → (n.evalWith engine).StaysIn F A
  | .int _ value, _ => promises_pure trivial
  | .symbol token name, _ => staysIn_symbol name token
  | .expression token [], hn =>
    staysIn_within _ (promises_fail (.located hn (.nothing rfl)))
  | .expression token (head :: operands), hn => by
    cases hhead : head.symbol? with
    | none =>
      rw [Node.evalWith, hhead]
      exact staysIn_within _ (promises_fail (.single rfl (by simp)))
    | some name =>
      have hoperands : ∀ n ∈ operands, A n := fun n h => hA _ hn n (.tail _ h)
      rw [Coupling.evalWith_call engine token hhead]
      refine staysIn_within _ (promises_bind (staysIn_trace _) fun _ _ => ?_)
      exact staysIn_behindHead hA he name operands hoperands
        (staysIn_evalAll hA he operands hoperands) (staysIn_evalLet hA he name operands hoperands)
  | .list _ children, hn => staysIn_evalLast hA he .nil children (hA _ hn)
  | .foreign _ _ _, _ => promises_fail (.single rfl (by simp))
theorem staysIn_evalAll (hA : Node.Deep A) (he : engine.StaysIn F A) :
    ∀ ns : List Node, (∀ n ∈ ns, A n) → (Node.evalAll engine ns).StaysIn F A
  | [], _ => promises_pure trivial
  | n :: ns, hns =>
    promises_bind (staysIn_evalWith hA he n (hns n (.head _))) fun _ _ =>
      promises_bind (staysIn_evalAll hA he ns fun m hm => hns m (.tail _ hm)) fun _ _ =>
        promises_pure trivial
theorem staysIn_evalLast (hA : Node.Deep A) (he : engine.StaysIn F A) (before : Value) :
    ∀ ns : List Node, (∀ n ∈ ns, A n) → (Node.evalLast engine before ns).StaysIn F A
  | [], _ => promises_pure trivial
  | n :: ns, hns =>
    promises_bind (staysIn_evalWith hA he n (hns n (.head _))) fun v _ =>
      staysIn_evalLast hA he v ns fun m hm => hns m (.tail _ hm)
theorem staysIn_evalBinding (hA : Node.Deep A) (he : engine.StaysIn F A) (form : String)
    (frame : Frame) : ∀ n : Node, A n → (Node.evalBinding engine form frame n).StaysIn F A
  | .expression _ [name, value], hn => by
    have hname : A name := hA _ hn name (.head _)
    have hvalue : A value := hA _ hn value (.tail _ (.head _))
    unfold Node.evalBinding
    cases hsymbol : name.symbol? with
    | none => exact promises_fail (.malformed hname _)
    | some x =>
      dsimp only
      split
      · exact promises_fail (.malformed_name hname hsymbol _)
      · exact promises_bind (staysIn_evalWith hA he value hvalue) fun _ _ => promises_pure trivial
  | .expression _ [], hn | .expression _ [_], hn | .expression _ (_ :: _ :: _ :: _), hn
  | .int _ _, hn | .symbol _ _, hn | .list _ _, hn | .foreign _ _ _, hn =>
    promises_fail (.malformed hn _)
theorem staysIn_evalBindings (hA : Node.Deep A) (he : engine.StaysIn F A) (form : String)
    (frame : Frame) :
    ∀ ns : List Node, (∀ n ∈ ns, A n) → (Node.evalBindings engine form frame ns).StaysIn F A
  | [], _ => promises_pure trivial
  | n :: ns, hns =>
    promises_bind (staysIn_evalBinding hA he form frame n (hns n (.head _))) fun frame' _ =>
      staysIn_evalBindings hA he form frame' ns fun m hm => hns m (.tail _ hm)
theorem staysIn_evalLet (hA : Node.Deep A) (he : engine.StaysIn F A) (form : String) :
    ∀ operands : List Node, (∀ n ∈ operands, A n) → (Node.evalLet engine form operands).StaysIn F A
  | .expression token pairs :: body :: _, hns =>
    promises_bind
      (staysIn_evalBindings hA he form _ pairs (hA (.expression token pairs) (hns _ (.head _))))
      fun frame _ => he.enter frame (hns body (.tail _ (.head _)))
  | .int _ _ :: _ :: _, hns | .symbol _ _ :: _ :: _, hns | .list _ _ :: _ :: _, hns
  | .foreign _ _ _ :: _ :: _, hns => promises_fail (.malformed (hns _ (.head _)) _)
  | [], _ | [_], _ => promises_halt _
end

theorem staysIn_withRoom (hA : Node.Deep A) {evaluate : Node → Eval Value}
    (hev : ∀ {n}, A n → (evaluate n).StaysIn F A) (room : Nat) :
    (Engine.withRoom evaluate room).StaysIn F A := by
  induction room with
  | zero => exact ⟨fun frame _ _ => staysIn_inFrame frame (promises_halt _), hev⟩
  | succ room ih =>
    exact ⟨fun frame body hbody => staysIn_inFrame frame (staysIn_evalWith hA ih body hbody), hev⟩

theorem staysIn_evalNested (hA : Node.Deep A) (calls : Nat) :
    ∀ {n : Node}, A n → (n.evalNested calls).StaysIn F A := by
  induction calls with
  | zero => exact fun _ => promises_halt _
  | succ calls ih =>
    intro n hn
    refine staysIn_within n (promises_view_bind fun ctx _ => ?_)
    exact staysIn_evalWith hA (staysIn_withRoom hA ih ctx.room) n hn

theorem staysIn_eval (hA : Node.Deep A) {n : Node} (hn : A n) : n.eval.StaysIn F A :=
  staysIn_evalNested hA _ hn

theorem staysIn_eval_ofWord (t : Token) : (Node.ofWord t).eval.StaysIn F A := by
  rw [eval_eq_within]
  refine staysIn_within _ (promises_view_bind fun ctx _ => ?_)
  -- a leaf fails without a place, so it need not be in the set
  unfold Node.ofWord
  split
  · exact promises_pure trivial
  · exact staysIn_symbol t.text (some t)

end

end IntLisp
