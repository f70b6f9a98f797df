/-
  IntLisp.Proofs.Calls
  ────────────────────
  **WHICH DEFINITION A CALL CALLS.**

  A call has its operands evaluated from left to right, and then calls what
  its head stands for.  Operands are programs, and may define the head or
  give it another definition.  So it matters when the head is looked up, and
  `CallsFound` says it for any choice: `found ctx'` is what is called if the
  operands leave the context `ctx'` behind.

  The evaluator looks the head up before the operands.  This is the same as
  looking it up behind them whenever they leave its definition alone.  It is
  not the same if they define the head: the call fails as if they had not.
-/
import IntLisp.Proofs.Coupling
import IntLisp.Proofs.Sums

namespace IntLisp

variable {α β : Type}

/-! ## §1. Operands in turn. -/

/-- The nodes have the values `vs`, evaluated one after the other. -/
inductive Evaluates (engine : Engine) :
    List Node → Context → List Value → Context → Prop where
  | nil (ctx : Context) : Evaluates engine [] ctx [] ctx
  | cons {n : Node} {ns : List Node} {v : Value} {vs : List Value} {ctx ctx₁ ctx₂ : Context}
      (hn : (n.evalWith engine).run ctx = .done v ctx₁) (hns : Evaluates engine ns ctx₁ vs ctx₂) :
      Evaluates engine (n :: ns) ctx (v :: vs) ctx₂

section

variable {engine : Engine} {ns : List Node} {vs : List Value} {ctx ctx' : Context}

theorem evaluates_iff : Evaluates engine ns ctx vs ctx' ↔
    (Node.evalAll engine ns).run ctx = .done vs ctx' := by
  constructor
  · intro h
    induction h with
    | nil ctx => rfl
    | cons hn _ ih =>
      rw [Node.evalAll, Eval.run_bind_eq_done]
      exact ⟨_, _, hn, Eval.run_bind_eq_done.2 ⟨_, _, ih, rfl⟩⟩
  · intro h
    induction ns generalizing ctx vs with
    | nil =>
      cases h
      exact .nil _
    | cons n ns ih =>
      rw [Node.evalAll, Eval.run_bind_eq_done] at h
      obtain ⟨v, ctx₁, hn, h⟩ := h
      obtain ⟨vs, ctx₂, hns, h⟩ := Eval.run_bind_eq_done.1 h
      cases h
      exact .cons hn (ih hns)

/-- The first node without a value ends the evaluation of all. -/
theorem run_evalAll_failed {n : Node} {after : List Node} {ctx₁ ctx₂ : Context} {e : Error}
    (h : Evaluates engine ns ctx vs ctx₁) (hn : (n.evalWith engine).run ctx₁ = .failed e ctx₂) :
    (Node.evalAll engine (ns ++ n :: after)).run ctx = .failed e ctx₂ := by
  induction h with
  | nil ctx =>
    rw [List.nil_append, Node.evalAll, Eval.run_bind_eq_failed]
    exact .inl hn
  | cons hm _ ih =>
    rw [List.cons_append, Node.evalAll, Eval.run_bind_eq_failed]
    exact .inr ⟨_, _, hm, Eval.run_bind_eq_failed.2 (.inl (ih hn))⟩

end

/-! ## §2. Errors of a call itself. -/

/-- The step does not itself complain of a name without a definition. -/
def Eval.NeverUndefined (act : Eval α) : Prop :=
  ∀ ctx name ctx', act.run ctx ≠ .failed (.undefinedFunction name) ctx'

namespace Eval

theorem neverUndefined_pure (a : α) : NeverUndefined (pure a) := by
  intro ctx name ctx' h
  cases h

theorem neverUndefined_halt (why : Halt) : NeverUndefined (halt why : Eval α) := by
  intro ctx name ctx' h
  cases h

theorem neverUndefined_fail {e : Error} (he : ∀ name, e ≠ .undefinedFunction name) :
    NeverUndefined (fail e : Eval α) := by
  intro ctx name ctx' h
  cases h
  exact he name rfl

theorem neverUndefined_view (f : Context → α) : NeverUndefined (view f) := by
  intro ctx name ctx' h
  cases h

theorem neverUndefined_modify (f : Context → Context) : NeverUndefined (modify f) := by
  intro ctx name ctx' h
  cases h

theorem neverUndefined_bind {act : Eval α} {next : α → Eval β} (hact : act.NeverUndefined)
    (hnext : ∀ a, (next a).NeverUndefined) : (act >>= next).NeverUndefined := by
  intro ctx name ctx' h
  rcases run_bind_eq_failed.1 h with h | ⟨a, ctx₁, -, h⟩
  · exact hact ctx name ctx' h
  · exact hnext a ctx₁ name ctx' h

theorem nameNode_ne_undefinedFunction (n : Node) (e : Error) (ctx : Context) (name : String) :
    nameNode n e ctx ≠ .undefinedFunction name := by
  intro h
  unfold nameNode at h
  split at h
  · next htraced =>
    rw [h] at htraced
    cases htraced
  · cases h

/-- The error of an expression names it, or one inside it. -/
theorem neverUndefined_within (n : Node) (act : Eval α) : (act.within n).NeverUndefined := by
  intro ctx name ctx' h
  unfold within recover at h
  dsimp only at h
  cases hrun : act.run ctx with
  | done a ctx₁ => rw [hrun] at h; cases h
  | halted why ctx₁ => rw [hrun] at h; cases h
  | failed e ctx₁ =>
    rw [hrun] at h
    have hname : nameNode n e ctx₁ = .undefinedFunction name := (Outcome.failed.inj h).1
    exact nameNode_ne_undefinedFunction n e ctx₁ name hname

theorem neverUndefined_inFrame (frame : Frame) {act : Eval α} (hact : act.NeverUndefined) :
    (inFrame frame act).NeverUndefined := by
  intro ctx name ctx' h
  cases hfull : ctx.isFull with
  | true =>
    rw [run_inFrame_of_isFull frame act hfull] at h
    cases h
  | false =>
    rw [run_inFrame frame act hfull] at h
    cases hrun : act.run (ctx.opened frame) with
    | done a ctx₁ => rw [hrun] at h; cases h
    | halted why ctx₁ => rw [hrun] at h; cases h
    | failed e ctx₁ =>
      rw [hrun] at h
      cases h
      exact hact _ name ctx₁ hrun

theorem neverUndefined_write (text : String) : (write text).NeverUndefined := by
  refine neverUndefined_bind (neverUndefined_view _) fun output => ?_
  cases output with
  | working => exact neverUndefined_modify _
  | broken reason => exact neverUndefined_fail (by simp)

end Eval

open Eval

mutual
/-- **No evaluation ends with the bare error of a name without a definition**: the
expression at fault is named around it. -/
theorem neverUndefined_evalWith (engine : Engine) :
    ∀ n : Node, (n.evalWith engine).NeverUndefined
  | .int _ value => neverUndefined_pure (Value.int value)
  | .symbol _ name => by
    refine neverUndefined_bind (neverUndefined_view _) fun value => ?_
    cases value with
    | some v => exact neverUndefined_pure v
    | none => exact neverUndefined_fail (by simp)
  | .expression token [] => neverUndefined_within _ _
  | .expression token (head :: operands) => by
    rw [Node.evalWith]
    exact neverUndefined_within _ _
  | .list _ children => neverUndefined_evalLast engine .nil children
  | .foreign _ _ _ => neverUndefined_fail (by simp)
theorem neverUndefined_evalLast (engine : Engine) (before : Value) :
    ∀ ns : List Node, (Node.evalLast engine before ns).NeverUndefined
  | [] => neverUndefined_pure before
  | n :: ns =>
    neverUndefined_bind (neverUndefined_evalWith engine n) fun v =>
      neverUndefined_evalLast engine v ns
end

theorem neverUndefined_evalAll (engine : Engine) (ns : List Node) :
    (Node.evalAll engine ns).NeverUndefined := by
  induction ns with
  | nil => exact neverUndefined_pure []
  | cons n ns ih =>
    rw [Node.evalAll]
    exact neverUndefined_bind (neverUndefined_evalWith engine n) fun v =>
      neverUndefined_bind ih fun vs => neverUndefined_pure (v :: vs)

theorem neverUndefined_enter (evaluate : Node → Eval Value) (room : Nat) (frame : Frame)
    (body : Node) : ((Engine.withRoom evaluate room).enter frame body).NeverUndefined := by
  cases room with
  | zero => exact neverUndefined_inFrame frame (neverUndefined_halt _)
  | succ room => exact neverUndefined_inFrame frame (neverUndefined_evalWith _ body)

/-- Whether a definition is code from outside, which may fail with any error. -/
def Definition.isOutside : Definition → Bool
  | .native _ _ (.code _) => true
  | _ => false

theorem neverUndefined_apply {function : Native} (evaluate : Node → Eval Value)
    (hcode : ∀ body, function ≠ .code body) (symbol : String) (args : List Value) :
    (function.apply evaluate symbol args).NeverUndefined := by
  cases function with
  | add =>
    exact Native.apply_add_cases _ symbol args (fun _ => neverUndefined_fail (by simp))
      neverUndefined_pure (neverUndefined_halt _)
  | print =>
    exact Native.apply_print_cases _ symbol args
      (fun v => neverUndefined_bind (neverUndefined_write _) fun _ => neverUndefined_pure v)
      (neverUndefined_halt _)
  | code body => exact absurd rfl (hcode body)

theorem neverUndefined_invoke {d : Definition} (evaluate : Node → Eval Value) (room : Nat)
    (hd : d.isOutside = false) (args : List Value) :
    (d.invoke (Engine.withRoom evaluate room) args).NeverUndefined := by
  cases d with
  | native symbol arity function =>
    unfold Definition.invoke
    dsimp only
    split
    · refine neverUndefined_apply _ ?_ symbol args
      rintro body rfl
      cases hd
    · exact neverUndefined_fail (by simp)
  | form symbol arity form => exact neverUndefined_halt _
  | user symbol params body =>
    unfold Definition.invoke
    dsimp only
    split
    · exact neverUndefined_enter evaluate room _ body
    · exact neverUndefined_fail (by simp)
  | foreign symbol kind => exact neverUndefined_fail (by simp)

/-! ## §3. Calls. -/

/-- Call what was found for `name` with the values of its operands. -/
def callFound (engine : Engine) (name : String) (found : Option Definition) (args : List Value) :
    Eval Value :=
  match found with
  | none => Eval.fail (.undefinedFunction name)
  | some d => do
    Eval.trace fun _ => .applying name args
    d.invoke engine args

theorem neverUndefined_callFound {d : Definition} (evaluate : Node → Eval Value) (room : Nat)
    (name : String) (hd : d.isOutside = false) (args : List Value) :
    (callFound (Engine.withRoom evaluate room) name (some d) args).NeverUndefined :=
  neverUndefined_bind (neverUndefined_modify _) fun _ =>
    neverUndefined_invoke evaluate room hd args

/-- A call of `name` evaluates its operands from left to right, and then calls `found ctx'`,
where `ctx'` is the context that they leave behind. -/
structure CallsFound (engine : Engine) (name : String) (operands : List Node) (ctx : Context)
    (found : Context → Option Definition) : Prop where
  /-- An operand without a value ends the call. -/
  operand_failed : ∀ before n after vs ctx₁ e ctx₂, operands = before ++ n :: after →
    Evaluates engine before ctx vs ctx₁ → (n.evalWith engine).run ctx₁ = .failed e ctx₂ →
    (Coupling.behindHead engine name operands).run ctx = .failed e ctx₂
  /-- Operands with values are what the definition is called with. -/
  called : ∀ args ctx', Evaluates engine operands ctx args ctx' →
    (Coupling.behindHead engine name operands).run ctx
      = (callFound engine name (found ctx') args).run ctx'
  /-- A name without a definition is an error once all operands have values, and only
  then; code from outside may fail with any error. -/
  undefined_iff : (∀ args ctx' d, Evaluates engine operands ctx args ctx' →
      found ctx' = some d → d.isOutside = false) →
    ((∃ ctx', (Coupling.behindHead engine name operands).run ctx
          = .failed (.undefinedFunction name) ctx')
      ↔ ∃ args ctx', Evaluates engine operands ctx args ctx' ∧ found ctx' = none)

theorem run_behindHead {engine : Engine} {name : String} {operands : List Node} {ctx : Context}
    (hform : ∀ symbol arity form, ctx.registry.resolve name ≠ some (.form symbol arity form)) :
    (Coupling.behindHead engine name operands).run ctx
      = (Node.evalAll engine operands >>= callFound engine name (ctx.registry.resolve name)).run
          ctx := by
  unfold Coupling.behindHead
  rw [run_bind, run_view]
  dsimp only
  cases hfound : ctx.registry.resolve name with
  | none => rfl
  | some d =>
    cases d with
    | form symbol arity form => exact absurd hfound (hform symbol arity form)
    | native symbol arity function => rfl
    | user symbol params body => rfl
    | foreign symbol kind => rfl

/-- **The head is looked up before the operands.** -/
theorem callsFound_before {evaluate : Node → Eval Value} {room : Nat} {name : String}
    {operands : List Node} {ctx : Context}
    (hform : ∀ symbol arity form, ctx.registry.resolve name ≠ some (.form symbol arity form)) :
    CallsFound (Engine.withRoom evaluate room) name operands ctx
      fun _ => ctx.registry.resolve name := by
  refine ⟨?_, ?_, ?_⟩
  · intro before n after vs ctx₁ e ctx₂ hsplit hbefore hn
    subst hsplit
    rw [run_behindHead hform, run_bind_eq_failed]
    exact .inl (run_evalAll_failed hbefore hn)
  · intro args ctx' hargs
    rw [run_behindHead hform, run_bind, evaluates_iff.1 hargs]
  · intro houtside
    rw [run_behindHead hform]
    constructor
    · rintro ⟨ctx', h⟩
      rcases run_bind_eq_failed.1 h with h | ⟨args, ctx₁, hargs, h⟩
      · -- an operand never fails with this error
        exact absurd h (neverUndefined_evalAll _ operands ctx name ctx')
      · refine ⟨args, ctx₁, evaluates_iff.2 hargs, ?_⟩
        cases hfound : ctx.registry.resolve name with
        | none => rfl
        | some d =>
          have hd := houtside args ctx₁ d (evaluates_iff.2 hargs) hfound
          rw [hfound] at h
          exact absurd h (neverUndefined_callFound evaluate room name hd args ctx₁ name ctx')
    · rintro ⟨args, ctx', hargs, hnone⟩
      refine ⟨ctx', run_bind_eq_failed.2 (.inr ⟨args, ctx', evaluates_iff.1 hargs, ?_⟩)⟩
      rw [hnone]
      rfl

/-- Only what is found behind the operands matters. -/
theorem CallsFound.congr {engine : Engine} {name : String} {operands : List Node} {ctx : Context}
    {found found' : Context → Option Definition} (h : CallsFound engine name operands ctx found)
    (heq : ∀ args ctx', Evaluates engine operands ctx args ctx' → found' ctx' = found ctx') :
    CallsFound engine name operands ctx found' := by
  refine ⟨h.operand_failed, ?_, ?_⟩
  · intro args ctx' hargs
    rw [heq args ctx' hargs]
    exact h.called args ctx' hargs
  · intro houtside
    rw [h.undefined_iff fun args ctx' d hargs hd =>
      houtside args ctx' d hargs ((heq args ctx' hargs).trans hd)]
    refine exists₂_congr fun args ctx' => and_congr_right fun hargs => ?_
    rw [heq args ctx' hargs]

/-- A call whose operands define its head does not call that definition. -/
theorem not_callsFound_behind {evaluate : Node → Eval Value} {room : Nat} {name : String}
    {operands : List Node} {args : List Value} {ctx ctx' : Context} {d : Definition}
    (hargs : Evaluates (Engine.withRoom evaluate room) operands ctx args ctx')
    (hbefore : ctx.registry.resolve name = none) (hbehind : ctx'.registry.resolve name = some d)
    (hd : d.isOutside = false) :
    ¬ CallsFound (Engine.withRoom evaluate room) name operands ctx
        fun ctx' => ctx'.registry.resolve name := by
  intro h
  have hform : ∀ symbol arity form,
      ctx.registry.resolve name ≠ some (.form symbol arity form) := by
    simp [hbefore]
  have hfailed : (Coupling.behindHead (Engine.withRoom evaluate room) name operands).run ctx
      = .failed (.undefinedFunction name) ctx' := by
    rw [(callsFound_before hform).called args ctx' hargs, hbefore]
    rfl
  have hcalled := h.called args ctx' hargs
  rw [hfailed, hbehind] at hcalled
  exact neverUndefined_callFound evaluate room name hd args ctx' name ctx' hcalled.symm

/-- **A call calls what its head stood for before the operands.**  The operands are
evaluated from left to right, and then the definition is called that was in force
before them.  It is the one in force behind them as long as the operands neither
define the head nor redefine it, and is not if they define a head that had no
definition. -/
theorem head_looked_up_first (evaluate : Node → Eval Value) (room : Nat) (ctx : Context)
    (name : String) (operands : List Node)
    (hform : ∀ symbol arity form, ctx.registry.resolve name ≠ some (.form symbol arity form)) :
    (∀ token head, head.symbol? = some name →
        (Node.expression token (head :: operands)).evalWith (Engine.withRoom evaluate room)
          = Eval.within (.expression token (head :: operands)) (do
              Eval.trace fun _ =>
                .calling name (Node.expression token (head :: operands)).components
              Coupling.behindHead (Engine.withRoom evaluate room) name operands))
      ∧ CallsFound (Engine.withRoom evaluate room) name operands ctx
          (fun _ => ctx.registry.resolve name)
      ∧ ((∀ args ctx', Evaluates (Engine.withRoom evaluate room) operands ctx args ctx' →
            ctx'.registry.resolve name = ctx.registry.resolve name) →
          CallsFound (Engine.withRoom evaluate room) name operands ctx
            fun ctx' => ctx'.registry.resolve name)
      ∧ ∀ args ctx' d, Evaluates (Engine.withRoom evaluate room) operands ctx args ctx' →
          ctx.registry.resolve name = none → ctx'.registry.resolve name = some d →
          d.isOutside = false →
          ¬ CallsFound (Engine.withRoom evaluate room) name operands ctx
              fun ctx' => ctx'.registry.resolve name := by
  refine ⟨?_, callsFound_before hform, ?_, ?_⟩
  · intro token head hhead
    exact Coupling.evalWith_call _ token hhead operands
  · intro hsame
    exact (callsFound_before hform).congr hsame
  · intro args ctx' d hargs hbefore hbehind hd
    exact not_callsFound_behind hargs hbefore hbehind hd

/-- The definition `(defun f (x) 7)`. -/
def definingSeven (f : String) : Node :=
  .expression none [.symbol none "defun", .symbol none f,
    .expression none [.symbol none "x"], .int none 7]

theorem evaluates_definingSeven (engine : Engine) (f : String) :
    Evaluates engine [definingSeven f] Context.new [.nil]
      (Context.new.register (.user f ["x"] (.int none 7))) :=
  .cons rfl (.nil _)

/-- In `(f (defun g (x) 7))` the operand leaves the head alone. -/
theorem head_looked_up_first_alone :
    CallsFound (Engine.withRoom (Node.evalNested 1) 3) "f" [definingSeven "g"] Context.new
      fun ctx' => ctx'.registry.resolve "f" := by
  have hform : ∀ symbol arity form,
      Context.new.registry.resolve "f" ≠ some (.form symbol arity form) := by
    intro symbol arity form h
    cases h
  obtain ⟨-, -, hbehind, -⟩ :=
    head_looked_up_first (Node.evalNested 1) 3 Context.new "f" [definingSeven "g"] hform
  refine hbehind fun args ctx' h => ?_
  have hrun := evaluates_iff.1 h
  rw [evaluates_iff.1 (evaluates_definingSeven _ "g")] at hrun
  cases hrun
  rfl

/-- In `(f (defun f (x) 7))` the operand defines the head, and the call fails with a head
that has no definition, though it is in force by then. -/
theorem head_not_looked_up_behind :
    (∀ evaluate room, ¬ CallsFound (Engine.withRoom evaluate room) "f" [definingSeven "f"]
        Context.new fun ctx' => ctx'.registry.resolve "f")
      ∧ (Node.expression none [.symbol none "f", definingSeven "f"]).eval.run Context.new
        = .failed (.evaluating "(f (defun f (x) 7))" 0 (.undefinedFunction "f"))
            (Context.new.register (.user "f" ["x"] (.int none 7))) := by
  refine ⟨fun evaluate room => ?_, ?_⟩
  · exact not_callsFound_behind (evaluates_definingSeven _ "f") rfl rfl rfl
  · rfl

end IntLisp
