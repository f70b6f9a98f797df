/-
  IntLisp.Proofs.Arithmetic
  ─────────────────────────
  **SUMS AND PRINTED LINES, INNERMOST FIRST.**

  An arithmetic tree is made of integers, sums of two or more such trees, and
  prints of one.  Its value is the sum of the integers at its leaves.  On the
  way its calls are made in post-order, operands before the call that they
  belong to and from left to right, and each print among them writes one line:

      n.eval.run ctx = .done (.int n.total) (ctx.told n.lines n.events)

  This is about occurrences, not about nodes: a tree that stands at two places
  is evaluated at both, and is listed twice in post-order.
-/
import IntLisp.Proofs.FirstFailure
import IntLisp.Proofs.Safety
import IntLisp.Proofs.Termination
import Mathlib.Algebra.Ring.Int.Defs

namespace IntLisp

open Eval

variable {α β : Type}

/-! ## §1. Trees in post-order. -/

namespace Node

mutual
/-- Every node of the tree, the nodes inside before the one that holds them, and from left to
right. -/
def postorder : Node → List Node
  | expression token children => postorderAll children ++ [expression token children]
  | list token children => postorderAll children ++ [list token children]
  | n => [n]
/-- The nodes of several trees, one tree after the other. -/
def postorderAll : List Node → List Node
  | [] => []
  | n :: ns => postorder n ++ postorderAll ns
end

/-- The sum of the integers at the leaves. -/
def total (n : Node) : Int := (n.postorder.filterMap int?).sum

/-- The name that an expression calls, with the totals of its operands. -/
def call? : Node → Option (String × List Value)
  | expression _ (head :: operands) =>
    head.symbol?.map fun name => (name, operands.map fun n => .int n.total)
  | _ => none

/-- The line that a call of `print` writes. -/
def line? (n : Node) : Option String :=
  if n.call?.map Prod.fst = some "print" then some (Text.decimal n.total ++ "\n") else none

/-- The calls of a tree, in post-order. -/
def calls (n : Node) : List (String × List Value) := n.postorder.filterMap call?

/-- The lines that the calls of `print` in a tree write, in post-order. -/
def lines (n : Node) : List String := n.postorder.filterMap line?

mutual
/-- What tracing shows of a tree of calls: each call is begun before its operands and made
behind them. -/
def events : Node → List Event
  | expression token (.symbol ht name :: operands) =>
    .calling name (expression token (.symbol ht name :: operands)).components
      :: (eventsAll operands ++ [.applying name (operands.map fun n => .int n.total)])
  | _ => []
/-- What tracing shows of several trees, one after the other. -/
def eventsAll : List Node → List Event
  | [] => []
  | n :: ns => events n ++ eventsAll ns
end

/-- Trees of integers, sums and prints. -/
inductive IsArithmetic : Node → Prop where
  | int (token : Option Token) (value : Int) : IsArithmetic (.int token value)
  | sum (token ht : Option Token) {operands : List Node} (htwo : 2 ≤ operands.length)
      (h : ∀ n ∈ operands, IsArithmetic n) :
      IsArithmetic (.expression token (.symbol ht "+" :: operands))
  | print (token ht : Option Token) {n : Node} (h : IsArithmetic n) :
      IsArithmetic (.expression token [.symbol ht "print", n])

theorem postorderAll_eq_flatMap (ns : List Node) : postorderAll ns = ns.flatMap postorder := by
  induction ns with
  | nil => rfl
  | cons n ns ih => rw [postorderAll, ih, List.flatMap_cons]

theorem eventsAll_eq_flatMap (ns : List Node) : eventsAll ns = ns.flatMap events := by
  induction ns with
  | nil => rfl
  | cons n ns ih => rw [eventsAll, ih, List.flatMap_cons]

section

variable (token ht : Option Token) (name : String) (operands : List Node)

/-- What is picked out of a call in post-order: what is picked out of its operands, and then
what the call itself gives. -/
theorem filterMap_postorder_call {f : Node → Option α} (hf : f (.symbol ht name) = none) :
    (expression token (.symbol ht name :: operands)).postorder.filterMap f
      = operands.flatMap (fun n => n.postorder.filterMap f)
        ++ (f (expression token (.symbol ht name :: operands))).toList := by
  have hhead : (symbol ht name).postorder = [symbol ht name] := rfl
  rw [postorder, postorderAll, hhead, postorderAll_eq_flatMap]
  cases hcall : f (expression token (symbol ht name :: operands)) <;>
    simp [hf, hcall, List.filterMap_flatMap]

theorem total_call :
    (expression token (.symbol ht name :: operands)).total = (operands.map total).sum := by
  have hleaves : (expression token (.symbol ht name :: operands)).postorder.filterMap int?
      = operands.flatMap (fun n => n.postorder.filterMap int?) ++ [] :=
    filterMap_postorder_call token ht name operands rfl
  rw [total, hleaves, List.append_nil, List.flatMap_def, List.sum_flatten, List.map_map]
  rfl

theorem calls_call :
    (expression token (.symbol ht name :: operands)).calls
      = operands.flatMap calls ++ [(name, operands.map fun n => .int n.total)] :=
  filterMap_postorder_call token ht name operands rfl

theorem lines_call :
    (expression token (.symbol ht name :: operands)).lines
      = operands.flatMap lines
        ++ (expression token (.symbol ht name :: operands)).line?.toList :=
  filterMap_postorder_call token ht name operands rfl

end

end Node

/-! ## §2. What is told of a step. -/

/-- The name and the arguments, if a function is given its arguments. -/
def Event.application? : Event → Option (String × List Value)
  | applying symbol arguments => some (symbol, arguments)
  | _ => none

namespace Context

/-- The context once `lines` are written and, if tracing is on, `events` are logged. -/
def told (ctx : Context) (lines : List String) (events : List Event) : Context :=
  { ctx with
    printed := ctx.printed ++ String.join lines
    log := if ctx.tracer.isEnabled then ctx.log ++ (events.map Entry.trace).toArray else ctx.log }

/-- In the context `+` and `print` are what they are in the core, and lines can be written. -/
structure Reckons (ctx : Context) : Prop where
  add : ctx.registry.resolve "+" = some (.native "+" ⟨2, -1⟩ .add)
  print : ctx.registry.resolve "print" = some (.native "print" ⟨1, 1⟩ .print)
  working : ctx.output = .working

variable {ctx : Context} {lines lines' : List String} {events events' : List Event}

theorem told_nil : ctx.told [] [] = ctx := by
  simp [told]

theorem told_told :
    (ctx.told lines events).told lines' events' = ctx.told (lines ++ lines') (events ++ events') := by
  unfold told
  cases ctx.tracer.isEnabled <;> simp [String.append_assoc]

theorem trace_eq_told (event : Event) : (ctx.trace fun _ => event) = ctx.told [] [event] := by
  unfold trace told
  cases ctx.tracer.isEnabled <;> simp [record]

theorem write_eq_told (text : String) : ctx.write text = ctx.told [text] [] := by
  simp [write, told]

theorem Reckons.told (h : ctx.Reckons) : (ctx.told lines events).Reckons :=
  ⟨h.add, h.print, h.working⟩

end Context

namespace Eval

/-- Wherever there are sums and printed lines, the step ends with `a`, and nothing changes but
what is told of it. -/
def Yields (act : Eval α) (a : α) (lines : List String) (events : List Event) : Prop :=
  ∀ ctx : Context, ctx.Reckons → act.run ctx = .done a (ctx.told lines events)

variable {act : Eval α} {a : α} {lines lines' : List String} {events events' : List Event}

theorem yields_pure (a : α) : (pure a : Eval α).Yields a [] [] := by
  intro ctx _
  rw [run_pure, Context.told_nil]

/-- What is told of two steps is told of the first and then of the second. -/
theorem Yields.bind {next : α → Eval β} {b : β} (hact : act.Yields a lines events)
    (hnext : (next a).Yields b lines' events') :
    (act >>= next).Yields b (lines ++ lines') (events ++ events') := by
  intro ctx hctx
  rw [run_bind, hact ctx hctx]
  dsimp only
  rw [hnext _ hctx.told, Context.told_told]

theorem Yields.map (f : α → β) (h : act.Yields a lines events) :
    (act >>= fun a => pure (f a)).Yields (f a) lines events := by
  intro ctx hctx
  rw [run_bind, h ctx hctx]
  rfl

theorem yields_trace (event : Event) : (trace fun _ => event).Yields () [] [event] := by
  intro ctx _
  rw [trace, run_modify, Context.trace_eq_told]

theorem yields_write (text : String) : (write text).Yields () [text] [] := by
  intro ctx hctx
  rw [write, run_bind, run_view]
  dsimp only
  rw [hctx.working, run_modify, Context.write_eq_told]

theorem Yields.within (n : Node) (h : act.Yields a lines events) :
    (act.within n).Yields a lines events :=
  fun ctx hctx => run_within_of_done (h ctx hctx)

end Eval

/-! ## §3. Calls. -/

section

variable {engine : Engine} {operands : List Node} {vs : List Value} {v : Value}
  {lines lines' : List String} {events : List Event}

/-- A call of a native function is told of as its operands are, and then as the function is. -/
theorem yields_call (token ht : Option Token) {name symbol : String} {arity : Arity}
    {function : Native}
    (hfound : ∀ ctx : Context, ctx.Reckons →
      ctx.registry.resolve name = some (.native symbol arity function))
    (hargs : (Node.evalAll engine operands).Yields vs lines events)
    (hcall : ((Definition.native symbol arity function).invoke engine vs).Yields v lines' []) :
    ((Node.expression token (.symbol ht name :: operands)).evalWith engine).Yields v
      (lines ++ lines')
      (.calling name (Node.expression token (.symbol ht name :: operands)).components
        :: (events ++ [.applying name vs])) := by
  rw [Coupling.evalWith_call engine token rfl operands]
  refine Yields.within _ ((yields_trace _).bind fun ctx hctx => ?_)
  -- the head is no form, so what it stands for waits until the operands have values
  rw [run_behindHead (by simp [hfound ctx hctx]), hfound ctx hctx]
  exact (hargs.bind ((yields_trace (.applying name vs)).bind hcall)) ctx hctx

theorem yields_add (engine : Engine) {zs : List Int} (h : 2 ≤ zs.length) :
    ((Definition.native "+" ⟨2, -1⟩ .add).invoke engine (zs.map .int)).Yields
      (.int zs.sum) [] [] := by
  have hsum : Value.sum "+" (zs.map .int) = .ok (some (.int zs.sum)) := by
    rw [Value.sum_ints "+" (List.ne_nil_of_length_pos (by omega)), ← List.sum_eq_foldl]
  have haccepts : (Arity.mk 2 (-1)).accepts (zs.map Value.int).length = true := by
    have hint : (2 : Int) ≤ zs.length := by omega
    simp [Arity.accepts, hint]
  unfold Definition.invoke
  dsimp only
  rw [if_pos haccepts]
  rw [Native.apply, hsum]
  exact yields_pure _

theorem yields_print (engine : Engine) (z : Int) :
    ((Definition.native "print" ⟨1, 1⟩ .print).invoke engine [.int z]).Yields (.int z)
      [Text.decimal z ++ "\n"] [] :=
  (yields_write _).bind (yields_pure _)

/-- Operands are told of one after the other. -/
theorem yields_evalAll {ns : List Node}
    (h : ∀ n ∈ ns, (n.evalWith engine).Yields (.int n.total) n.lines n.events) :
    (Node.evalAll engine ns).Yields (ns.map fun n => .int n.total) (ns.flatMap Node.lines)
      (ns.flatMap Node.events) := by
  induction ns with
  | nil => exact yields_pure []
  | cons n ns ih =>
    rw [List.forall_mem_cons] at h
    rw [Node.evalAll]
    exact h.1.bind ((ih h.2).map (Value.int n.total :: ·))

end

/-! ## §4. Arithmetic trees. -/

theorem Node.applications_call (token ht : Option Token) (name : String) {operands : List Node}
    (h : ∀ n ∈ operands, n.events.filterMap Event.application? = n.calls) :
    (expression token (.symbol ht name :: operands)).events.filterMap Event.application?
      = (expression token (.symbol ht name :: operands)).calls := by
  rw [calls_call, ← List.flatMap_congr h, events, eventsAll_eq_flatMap,
    List.filterMap_cons_none rfl, List.filterMap_append, List.filterMap_flatMap]
  rfl

namespace Node.IsArithmetic

variable {n : Node}

/-- **An arithmetic tree has the sum of its leaves for its value**, under any engine, and each
print in it has written its line once those inside it have. -/
theorem yields (engine : Engine) (h : n.IsArithmetic) :
    (n.evalWith engine).Yields (.int n.total) n.lines n.events := by
  -- one case for each kind of tree; the operands of a call are trees of their own
  induction h with
  | int token value =>
    have htotal : (Node.int token value).total = value := List.sum_singleton
    rw [htotal]
    exact yields_pure _
  | @sum token ht operands htwo h ih =>
    have htwo' : 2 ≤ (operands.map total).length := by rwa [List.length_map]
    have hadd := yields_add engine htwo'
    -- the values of the operands are their totals, which are then added
    rw [List.map_map] at hadd
    have hcall := yields_call token ht (fun _ hctx => hctx.add) (yields_evalAll ih) hadd
    rw [lines_call, total_call, events, eventsAll_eq_flatMap]
    exact hcall
  | @print token ht n h ih =>
    have hcall := yields_call token ht (fun _ hctx => hctx.print)
      (yields_evalAll (List.forall_mem_singleton.2 ih)) (yields_print engine n.total)
    -- a print has the value that it prints, and its own line comes last
    have htotal : (expression token [.symbol ht "print", n]).total = n.total := by
      rw [total_call, List.map_singleton, List.sum_singleton]
    rw [lines_call, line?, htotal, events, eventsAll_eq_flatMap]
    exact hcall

/-- The calls that tracing shows are those of the tree, in post-order. -/
theorem applications_events (h : n.IsArithmetic) :
    n.events.filterMap Event.application? = n.calls := by
  induction h with
  | int token value => rfl
  | sum token ht htwo h ih => exact applications_call token ht "+" ih
  | print token ht h ih =>
    exact applications_call token ht "print" (List.forall_mem_singleton.2 ih)

end Node.IsArithmetic

/-- **Arithmetic is done innermost first and from left to right.**  Where `+` and `print` are
those of the core and lines can be written, an arithmetic tree has a value, which is the sum of
the integers at its leaves.  The output gains one line for each print, in post-order, with the
total of the tree that is printed.  Nothing else changes, but that tracing shows every call once
for each of its occurrences, in post-order, with the totals of its operands. -/
theorem arithmetic_innermost_first (n : Node) (hn : n.IsArithmetic) (ctx : Context)
    (hctx : ctx.Reckons) :
    n.eval.run ctx = .done (.int n.total) (ctx.told n.lines n.events)
      ∧ n.events.filterMap Event.application? = n.calls := by
  refine ⟨?_, hn.applications_events⟩
  rw [eval_eq_within]
  refine run_within_of_done ?_
  rw [Node.evalHere, run_bind, run_view]
  exact hn.yields _ ctx hctx

/-- In `(+ (print (+ 1 2)) (print (+ 1 2)) -7)`, with tracing on and room for one frame, both
prints are evaluated, and both sums inside them. -/
theorem arithmetic_innermost_first_repeated :
    let three : Node := .expression none [.symbol none "print",
      .expression none [.symbol none "+", .int none 1, .int none 2]]
    let n : Node := .expression none [.symbol none "+", three, three, .int none (-7)]
    let ctx := Context.new.setOptions ⟨1, true, .working⟩
    n.IsArithmetic ∧ ctx.Reckons
      ∧ n.eval.run ctx = .done (.int (-1)) (ctx.told ["3\n", "3\n"] n.events)
      ∧ n.events.filterMap Event.application?
        = [("+", [.int 1, .int 2]), ("print", [.int 3]), ("+", [.int 1, .int 2]),
            ("print", [.int 3]), ("+", [.int 3, .int 3, .int (-7)])] := by
  intro three n ctx
  have hthree : three.IsArithmetic :=
    .print _ _ (.sum _ _ (by decide) (by simp [Node.IsArithmetic.int]))
  have hn : n.IsArithmetic := .sum _ _ (by decide) (by simp [hthree, Node.IsArithmetic.int])
  have hctx : ctx.Reckons := ⟨rfl, rfl, rfl⟩
  obtain ⟨hrun, happlied⟩ := arithmetic_innermost_first n hn ctx hctx
  exact ⟨hn, hctx, hrun, happlied⟩

end IntLisp
