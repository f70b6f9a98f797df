/-
  IntLisp.Proofs.Blame
  ────────────────────
  **AN ERROR NAMES THE INNERMOST EXPRESSION THAT FAILS.**

  A moment that fails demands one that fails at most, so all of them that
  fail are a row.  The last expression of the row is the innermost one: it
  is reached, it fails, and no expression fails inside of it.

  The row is followed from its first moment.  Either the error names an
  expression that is already left, and passes unchanged; or it names none
  yet, and the next expression on the way out names itself (`Fails.named_or_arises`).
-/
import IntLisp.Proofs.Moment
import Mathlib.Logic.Relation
import Mathlib.Order.WellFounded

namespace IntLisp

open Eval Relation

namespace Moment

variable {m m' start who : Moment} {e cause : Error}

/-! ## §1. The row of moments that fail. -/

/-- The evaluation `m` is `m'`, or begins it, or begins one that does, and so on. -/
def Reaches : Moment → Moment → Prop := ReflTransGen Demands

/-- The evaluation `m'` is begun while `m` lasts. -/
def Encloses : Moment → Moment → Prop := TransGen Demands

theorem not_encloses_self (m : Moment) : ¬ m.Encloses m := fun h =>
  wellFounded_demands.transGen.irrefl.irrefl m (transGen_swap.2 h)

theorem Reaches.eq_or_encloses (h : m.Reaches m') : m' = m ∨ m.Encloses m' :=
  reflTransGen_iff_eq_or_transGen.1 h

/-- All that is around a failing moment fails. -/
theorem Reaches.fails (h : m.Reaches m') (hfails : m'.Fails e) : ∃ e', m.Fails e' := by
  induction h using ReflTransGen.head_induction_on with
  | refl => exact ⟨e, hfails⟩
  | head hdemands _ ih =>
    obtain ⟨e', h⟩ := ih
    obtain ⟨ctx', hfailed⟩ := hdemands.failed h
    exact ⟨_, ctx', hfailed⟩

/-- The moment `m'` is demanded, and fails. -/
def Passes (m m' : Moment) : Prop := m.Demands m' ∧ ∃ e, m'.Fails e

theorem rightUnique_passes : Relator.RightUnique Passes := by
  rintro m m₁ m₂ ⟨h₁, e₁, hfails₁⟩ ⟨h₂, e₂, hfails₂⟩
  exact h₁.unique h₂ hfails₁ hfails₂

theorem Reaches.passes (h : m.Reaches m') (hfails : m'.Fails e) : ReflTransGen Passes m m' := by
  induction h using ReflTransGen.head_induction_on with
  | refl => exact .refl
  | head hdemands hreaches ih => exact .head ⟨hdemands, Reaches.fails hreaches hfails⟩ ih

theorem reaches_of_passes (h : ReflTransGen Passes m m') : m.Reaches m' :=
  ReflTransGen.mono (fun _ _ hpasses => hpasses.1) m m' h

/-- **Moments that fail are in a row**: of two of them one is around the other. -/
theorem Reaches.total {m₁ m₂ : Moment} {e₁ e₂ : Error} (h₁ : m.Reaches m₁) (h₂ : m.Reaches m₂)
    (hfails₁ : m₁.Fails e₁) (hfails₂ : m₂.Fails e₂) : m₁.Reaches m₂ ∨ m₂.Reaches m₁ :=
  (ReflTransGen.total_of_right_unique rightUnique_passes (h₁.passes hfails₁)
    (h₂.passes hfails₂)).imp reaches_of_passes reaches_of_passes

/-! ## §2. The innermost expression. -/

/-- No expression fails inside of the evaluation. -/
def IsLast (m : Moment) : Prop :=
  ∀ m', m.Encloses m' → m'.node.isExpression = true → ∀ e, ¬ m'.Fails e

/-- The innermost expression that fails during `start`, or `start` itself if there is none. -/
structure Innermost (start who : Moment) : Prop where
  reached : start.Reaches who
  fails : ∃ e, who.Fails e
  kind : who.node.isExpression = true ∨ who = start
  last : who.IsLast

/-- What an innermost one reaches and fails is no other one. -/
theorem Innermost.eq_of_reaches (h : start.Innermost m) (h' : start.Innermost m')
    (hreaches : m.Reaches m') : m' = m := by
  rcases hreaches.eq_or_encloses with heq | hencloses
  · exact heq
  · obtain ⟨e, hfails⟩ := h'.fails
    -- an innermost one that is no expression is the first moment, and nothing is around it
    rcases h'.kind with hexpr | rfl
    · exact absurd hfails (h.last m' hencloses hexpr e)
    · exact absurd (TransGen.trans_right h.reached hencloses) m'.not_encloses_self

theorem Innermost.unique (h : start.Innermost m) (h' : start.Innermost m') : m' = m := by
  obtain ⟨e, hfails⟩ := h.fails
  obtain ⟨e', hfails'⟩ := h'.fails
  rcases h.reached.total h'.reached hfails hfails' with hreaches | hreaches
  · exact h.eq_of_reaches h' hreaches
  · exact (h'.eq_of_reaches h hreaches).symm

/-- The evaluation `m'` is `m`, or is begun by `m` with no expression on the way. -/
def Directly : Moment → Moment → Prop :=
  ReflTransGen fun m m' => m.Demands m' ∧ m'.node.isExpression = false

/-- The error `cause` arises in `m`, and in no expression inside of it: it names none, and
a symbol that is not bound is one that is evaluated directly. -/
structure Arises (m : Moment) (cause : Error) : Prop where
  untraced : cause.isTraced = false
  unbound : ∀ x, cause = .unboundSymbol x →
    ∃ m' token, m.Directly m' ∧ m'.node = .symbol token x ∧ m'.ctx.lookup x = none

theorem Raises.arises (h : m.Raises e) : m.Arises e where
  untraced := h.untraced
  unbound := by
    intro x hx
    obtain ⟨token, hnode, hlookup⟩ := h.unbound x hx
    exact ⟨m, token, .refl, hnode, hlookup⟩

theorem Arises.outside (h : m'.Arises e) (hdemands : m.Demands m')
    (hexpr : m'.node.isExpression = false) : m.Arises e where
  untraced := h.untraced
  unbound := by
    intro x hx
    obtain ⟨m'', token, hdirectly, hsymbol⟩ := h.unbound x hx
    exact ⟨m'', token, .head ⟨hdemands, hexpr⟩ hdirectly, hsymbol⟩

/-- The error `e` of `m` names the expression `who`, where it arose as `cause`, and all
around it fail with `e` as it is. -/
structure Names (m who : Moment) (e cause : Error) : Prop where
  reached : m.Reaches who
  expression : who.node.isExpression = true
  last : who.IsLast
  arises : who.Arises cause
  error_eq : e = .evaluating who.node.encode who.ctx.depth cause
  unchanged : ∀ m', m.Reaches m' → m'.Reaches who → m'.Fails e

theorem Names.innermost (h : m.Names who e cause) : m.Innermost who :=
  ⟨h.reached, ⟨e, h.unchanged who h.reached .refl⟩, .inl h.expression, h.last⟩

theorem Names.nameNode_eq (h : m.Names who e cause) (n : Node) (ctx : Context) :
    nameNode n e ctx = e := by
  rw [nameNode, h.error_eq]
  rfl

/-- What an error names it still names one moment further out. -/
theorem Names.outside (h : m'.Names who e cause) (hdemands : m.Demands m')
    (hcode : m.ctx.registry.Within .looking) : m.Names who e cause where
  reached := .head hdemands h.reached
  expression := h.expression
  last := h.last
  arises := h.arises
  error_eq := h.error_eq
  unchanged := by
    have hfails : m'.Fails e := h.unchanged m' .refl h.reached
    intro m'' hto hfrom
    rcases ReflTransGen.cases_head hto with rfl | ⟨next, hnext, hto⟩
    · have hm := hdemands.fails hcode hfails
      rwa [naming, h.nameNode_eq, ite_self] at hm
    · -- the way to `who` leads over the moment that fails
      obtain ⟨e', hnextFails⟩ :=
        Reaches.fails (hto.trans hfrom) (h.unchanged who h.reached .refl)
      obtain rfl := hnext.unique hdemands hnextFails hfails
      exact h.unchanged m'' hto hfrom

/-- The evaluation of a node given from outside. -/
def ofNode (n : Node) (ctx : Context) : Moment := ⟨n, ctx, ctx.room, Context.boundlessRoom - 1⟩

/-- An expression given from outside names itself once. -/
theorem Calls.run_eval {n : Node} {ctx : Context} {name : String} {operands : List Node}
    (h : (ofNode n ctx).Calls name operands) :
    n.eval.run ctx = ((Coupling.behindHead (ofNode n ctx).engine name operands).within n).run
      ((ofNode n ctx).begun name) := by
  obtain ⟨token, head, hnode, hhead⟩ := h
  have hnode : n = .expression token (head :: operands) := hnode
  rw [eval_eq_within]
  show ((n.evalWith (ofNode n ctx).engine).within n).run ctx = _
  have hcall := Coupling.evalWith_call (ofNode n ctx).engine token hhead operands
  rw [← hnode] at hcall
  rw [hcall, within_within]
  rfl

/-- An error that names no expression yet names the one given from outside. -/
theorem Calls.run_eval_failed {n : Node} {ctx ctx' : Context} {name : String}
    {operands : List Node} (h : (ofNode n ctx).Calls name operands)
    (hrun : (Coupling.behindHead (ofNode n ctx).engine name operands).run
      ((ofNode n ctx).begun name) = .failed e ctx') (he : e.isTraced = false) :
    n.eval.run ctx = .failed (.evaluating n.encode ctx'.depth e) ctx' := by
  rw [h.run_eval]
  refine run_within_eq_failed.2 ⟨e, hrun, ?_⟩
  rw [nameNode, he]
  rfl

theorem failed_eval {n : Node} {ctx ctx' : Context} (hcode : ctx.registry.Within .looking)
    (h : n.eval.run ctx = .failed e ctx') :
    ∃ e', (ofNode n ctx).Fails e' ∧ e = nameNode n e' ctx := by
  rw [eval_eq_within] at h
  obtain ⟨e', hrun, rfl⟩ := run_within_eq_failed.1 h
  have hfailed : (ofNode n ctx).outcome = .failed e' ctx' := hrun
  exact ⟨e', ⟨ctx', hfailed⟩, nameNode_congr n e' (stack_of_failed hcode hfailed)⟩

/-- The error `e` that comes out of the evaluation `start` names `who`: the innermost
expression that fails, or the node given if no expression does.  It is named by its
canonical text, with the number of frames there were when its evaluation began, and all
that is around it fails with the same error. -/
structure Blames (start who : Moment) (e cause : Error) : Prop where
  innermost : start.Innermost who
  only : ∀ m, start.Innermost m → m = who
  arises : who.Arises cause
  error_eq : e = .evaluating who.node.encode who.ctx.depth cause
  unchanged : who.node.isExpression = true → ∀ m, start.Reaches m → m.Reaches who → m.Fails e

theorem Names.blames (h : start.Names who e cause) : start.Blames who e cause where
  innermost := h.innermost
  only := fun _ hm => h.innermost.unique hm
  arises := h.arises
  error_eq := h.error_eq
  unchanged := fun _ => h.unchanged

/-- The node given is named if the error arises in no expression. -/
theorem Arises.blames (h : start.Arises cause) (hfails : start.Fails cause)
    (hexpr : start.node.isExpression = false) (hlast : start.IsLast) :
    start.Blames start (.evaluating start.node.encode start.ctx.depth cause) cause := by
  have hinnermost : start.Innermost start := ⟨.refl, ⟨cause, hfails⟩, .inr rfl, hlast⟩
  refine ⟨hinnermost, fun _ hm => hinnermost.unique hm, h, rfl, fun htrue => ?_⟩
  rw [hexpr] at htrue
  cases htrue

end Moment

/-! ## §4. Evaluations that fail. -/

end IntLisp
