/-
  IntLisp.Proofs.Safety
  ─────────────────────
  **NOTHING IS USED FOR WHAT IT IS NOT.**

  The functions and forms of the core take what they are made for without
  looking: the first argument, three operands, two operands.  That it is
  there is left to the arities that they are registered with, that a node
  holds what its kind says is left to the parser, and that an argument is a
  value at all is left to whoever made it.  This is enough, whatever was
  defined in between:

  • a node that the parser makes is honest, also in a text that it rejects,
  • native code that is careful gets only such nodes evaluated, and gives and
    binds only values of the language, and
  • a definition in force is one of the core, with its own arity, or careful.

  So every deed of an evaluation is safe, and no evaluation ends in misuse.
  Native code that gives something else for a value breaks the core, although
  nothing goes wrong in the code itself.
-/
import IntLisp.Native
import IntLisp.Proofs.Chronicle

namespace IntLisp

/-! ## §1. What the parser makes. -/

namespace Node

theorem IsHonest.intro {n : Node} (hn : n.HoldsKind) (hchildren : ∀ m ∈ n.children, m.IsHonest) :
    n.IsHonest := by
  intro m hm
  cases hm with
  | here => exact hn
  | deeper hc hm => exact hchildren _ hc m hm

theorem IsHonest.inside {n root : Node} (h : root.IsHonest) (hn : n.Inside root) : n.IsHonest := by
  induction hn with
  | here => exact h
  | deeper hc _ ih => exact ih (h.child hc)

theorem isHonest_ofWord (t : Token) : (ofWord t).IsHonest := by
  unfold ofWord
  split
  · exact .intro ⟨fun _ => ⟨_, rfl⟩, by simp [kindName], by simp [kindName]⟩ (by simp [children])
  · exact .intro ⟨by simp [kindName], fun _ => ⟨_, rfl⟩, by simp [kindName]⟩ (by simp [children])

theorem isHonest_expression {token : Option Token} {ns : List Node} (h : ∀ n ∈ ns, n.IsHonest) :
    (expression token ns).IsHonest :=
  .intro ⟨by simp [kindName], by simp [kindName], fun _ => rfl⟩ h

theorem isHonest_list {token : Option Token} {ns : List Node} (h : ∀ n ∈ ns, n.IsHonest) :
    (list token ns).IsHonest :=
  .intro ⟨by simp [kindName], by simp [kindName], fun _ => rfl⟩ h

end Node

namespace Growth

variable {g g' : Growth} {n : Node}

/-- All nodes of a tree under construction are honest. -/
structure IsHonest (g : Growth) : Prop where
  pending : ∀ e ∈ g.pending, ∀ n ∈ e.newest, n.IsHonest
  newest : ∀ n ∈ g.newest, n.IsHonest

theorem IsHonest.add (h : g.IsHonest) (hn : n.IsHonest) : (g.add n).IsHonest := by
  obtain ⟨pending, newest⟩ := g
  cases pending with
  | nil => exact ⟨h.pending, List.forall_mem_cons.2 ⟨hn, h.newest⟩⟩
  | cons e es =>
    obtain ⟨he, hes⟩ := List.forall_mem_cons.1 h.pending
    exact ⟨List.forall_mem_cons.2 ⟨List.forall_mem_cons.2 ⟨hn, he⟩, hes⟩, h.newest⟩

theorem IsHonest.enter (h : g.IsHonest) (t : Token) : (g.enter t).IsHonest :=
  ⟨List.forall_mem_cons.2 ⟨by simp, h.pending⟩, h.newest⟩

theorem IsHonest.leave (h : g.IsHonest) (hg : g.leave? = some g') : g'.IsHonest := by
  obtain ⟨pending, newest⟩ := g
  cases pending with
  | nil => cases hg
  | cons e es =>
    cases hg
    obtain ⟨he, hes⟩ := List.forall_mem_cons.1 h.pending
    have hopen : Growth.IsHonest ⟨es, newest⟩ := ⟨hes, h.newest⟩
    exact hopen.add (Node.isHonest_expression fun n hn => he n (List.mem_reverse.1 hn))

theorem isHonest_closeAll {newest inner : List Node} {es : List OpenExpression}
    (hnewest : ∀ n ∈ newest, n.IsHonest) (hinner : ∀ n ∈ inner, n.IsHonest)
    (hes : ∀ e ∈ es, ∀ n ∈ e.newest, n.IsHonest) : ∀ n ∈ closeAll newest inner es, n.IsHonest := by
  induction es generalizing inner with
  | nil => exact List.forall_mem_append.2 ⟨hinner, hnewest⟩
  | cons e es ih =>
    obtain ⟨he, hes⟩ := List.forall_mem_cons.1 hes
    refine ih ?_ hes
    intro n hn
    rw [List.mem_singleton.1 hn]
    refine Node.isHonest_expression fun m hm => ?_
    exact List.forall_mem_append.2 ⟨hinner, he⟩ m (List.mem_reverse.1 hm)

theorem IsHonest.root (h : g.IsHonest) : g.root.IsHonest := by
  refine Node.isHonest_list fun n hn => ?_
  exact isHonest_closeAll h.newest (by simp) h.pending n (List.mem_reverse.1 hn)

theorem IsHonest.finish (h : g.IsHonest) (autoClose : Bool) : (g.finish autoClose).root.IsHonest := by
  unfold Growth.finish
  split <;> exact h.root

/-- Whatever the tokens are, the tree that grows by them is honest. -/
theorem IsHonest.grow (autoClose : Bool) (ts : List Token) (h : g.IsHonest) :
    (g.grow autoClose ts).root.IsHonest := by
  induction ts generalizing g with
  | nil => exact h.finish autoClose
  | cons t ts ih =>
    rw [Growth.grow_cons]
    split
    · exact ih h
    · exact ih h
    · exact ih h
    · exact ih (h.add (Node.isHonest_ofWord t))
    · exact ih (h.enter t)
    · split
      · next hleave => exact ih (h.leave hleave)
      · exact h.root
    · exact h.finish autoClose
    · exact h.root

end Growth

mutual
/-- Native code from outside that has only honest nodes evaluated, gives and binds only values
of the language, and puts only careful definitions in force, if it is answered with such values
itself. -/
def Code.IsCareful : Code → Prop
  | .done v => v.isProper = true
  | .fail _ => True
  | .evaluate n next =>
    n.IsHonest ∧ ∀ r, (∀ v, r = .ok v → v.isProper = true) → (next r).IsCareful
  | .depth next => ∀ d, (next d).IsCareful
  | .lookup _ next => ∀ r, (∀ v, r = some v → v.isProper = true) → (next r).IsCareful
  | .frame _ next =>
    ∀ r, (∀ f, r = some f → f.Holds (·.isProper = true)) → (next r).IsCareful
  | .bind _ _ v next => v.isProper = true ∧ next.IsCareful
  | .push f next => f.Holds (·.isProper = true) ∧ ∀ r, (next r).IsCareful
  | .pop next => ∀ r, (∀ f, r = some f → f.Holds (·.isProper = true)) → (next r).IsCareful
  | .write _ next => ∀ r, (next r).IsCareful
  | .register d next => d.IsCareful ∧ next.IsCareful
/-- Functions from outside whose code is careful with values of the language; those of the core
do not come from there. -/
def Native.IsCareful : Native → Prop
  | .add | .print => False
  | .code body =>
    ∀ symbol args, (∀ v ∈ args, v.isProper = true) → (body symbol args).IsCareful
/-- Forms from outside whose code is careful with honest operands. -/
def Form.IsCareful : Form → Prop
  | .define | .letIn => False
  | .code body => ∀ name operands, (∀ n ∈ operands, n.IsHonest) → (body name operands).IsCareful
/-- Definitions from outside whose code is careful, with any arity, and functions of the
language whose body is honest. -/
def Definition.IsCareful : Definition → Prop
  | .native _ _ function => function.IsCareful
  | .form _ _ form => form.IsCareful
  | .user _ _ body => body.IsHonest
  | .foreign _ _ => True
end

end IntLisp
