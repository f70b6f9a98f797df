/-
  IntLisp.Proofs.Application
  ──────────────────────────
  **A LET IS A CALL.**

  To evaluate `(let ((x₁ e₁) … (xₙ eₙ)) b)` is to call a function with the
  parameters `x₁ … xₙ` and the body `b` on `e₁ … eₙ`.  In both the values are
  evaluated from left to right, outside of the frame that is made of them,
  and the body inside of it.  The two frames differ in their name, and in
  what is visible behind them: a `let` is looked through, a call is not.
  So where nothing is visible the two end alike:

      the same value, or the same depth and cause of the failure,
      and the same context apart from the log.

  What the two stand for is looked up before the values are evaluated, so it
  does not matter what these define.  Only native code that asks for the
  frame it is called in can tell which of the two it is (`let_told_from_call`).
-/
import IntLisp.Proofs.Bindings
import IntLisp.Proofs.Limit
import IntLisp.Proofs.Meaning
import IntLisp.Proofs.Stack

namespace IntLisp

open Eval Coupling

variable {α : Type}

/-! ## §1. What failed. -/

/-- The number of frames and the cause of the failure that an error tells of: those of the first
expression that is named in it. -/
def Error.failure? : Error → Option (Nat × Error)
  | .evaluating _ depth cause => some (depth, cause)
  | .located _ cause _ | .under _ cause => cause.failure?
  | _ => none

theorem Error.exists_failure? {e : Error} (h : e.isTraced = true) :
    ∃ depth cause, e.failure? = some (depth, cause) := by
  induction e with
  | evaluating expr depth cause _ => exact ⟨depth, cause, rfl⟩
  | located _ _ _ ih | under _ _ ih => exact ih h
  | _ => cases h

/-- Two evaluations end alike: with the same value, or with failures of the same depth and cause,
and in contexts that differ in their logs at most. -/
inductive EndAlike : Outcome Value → Outcome Value → Prop where
  | done (v : Value) {c₁ c₂ : Context} (h : c₁.withoutLog = c₂.withoutLog) :
      EndAlike (.done v c₁) (.done v c₂)
  | failed {e₁ e₂ : Error} {depth : Nat} {cause : Error} {c₁ c₂ : Context}
      (h₁ : e₁.failure? = some (depth, cause)) (h₂ : e₂.failure? = some (depth, cause))
      (h : c₁.withoutLog = c₂.withoutLog) : EndAlike (.failed e₁ c₁) (.failed e₂ c₂)
  | halted (why : Halt) {c₁ c₂ : Context} (h : c₁.withoutLog = c₂.withoutLog) :
      EndAlike (.halted why c₁) (.halted why c₂)

theorem EndAlike.value?_eq {o₁ o₂ : Outcome Value} (h : EndAlike o₁ o₂) :
    o₁.value? = o₂.value? := by
  cases h <;> rfl

/-- Whatever node an error comes to name, the failure is the same. -/
theorem failure?_nameNode (n₁ n₂ : Node) (e : Error) {c₁ c₂ : Context}
    (h : c₁.depth = c₂.depth) :
    ∃ depth cause, (nameNode n₁ e c₁).failure? = some (depth, cause)
      ∧ (nameNode n₂ e c₂).failure? = some (depth, cause) := by
  cases htraced : e.isTraced with
  | true =>
    obtain ⟨depth, cause, hfailure⟩ := Error.exists_failure? htraced
    rw [nameNode_of_isTraced htraced, nameNode_of_isTraced htraced]
    exact ⟨depth, cause, hfailure, hfailure⟩
  | false =>
    unfold nameNode
    rw [htraced, h]
    exact ⟨c₂.depth, e, rfl, rfl⟩

/-- Steps that agree end alike as the evaluations of two nodes. -/
theorem EndAlike.of_agree {n₁ n₂ : Node} {act₁ act₂ : Eval Value} {c₁ c₂ : Context}
    (h : apartFromLog.Agree (act₁.run c₁) (act₂.run c₂)) :
    EndAlike ((act₁.within n₁).run c₁) ((act₂.within n₂).run c₂) := by
  unfold within recover
  dsimp only
  match act₁.run c₁, act₂.run c₂, h with
  | _, _, .done v h => exact .done v h
  | _, _, .failed e h =>
    obtain ⟨depth, cause, h₁, h₂⟩ := failure?_nameNode n₁ n₂ e (apartFromLog.depth_eq h)
    exact .failed h₁ h₂ h
  | _, _, .halted why _ h => exact .halted why h
  | _, _, .excused _ _ _ he => exact he.elim

/-! ## §2. One frame in place of another. -/

namespace Stack

/-- Frames with the same values look alike where nothing is visible behind them. -/
theorem Alike.of_hidden {s : Stack} (hs : ∀ x, s.lookup x = none) {f g : Frame}
    (h : ∀ x, f.lookup x = g.lookup x) : (s.push f).Alike (s.push g) := by
  have hvisible : ∀ (f : Frame) (x : String), (s.push f).lookup x = f.lookup x := by
    intro f x
    show Frame.lookupVisible x (f :: s.frames) = f.lookup x
    have hx : Frame.lookupVisible x s.frames = none := hs x
    rw [Frame.lookupVisible, hx, ite_self]
    cases f.lookup x <;> rfl
  refine ⟨rfl, fun x => ?_⟩
  rw [hvisible, hvisible, h]

end Stack

/-- Opened with another frame, a context is the same but for its stack and its log. -/
theorem Context.withoutLog_opened_withStack {c₁ c₂ : Context} (h : c₁.withoutLog = c₂.withoutLog)
    (f g : Frame) :
    ((c₁.opened f).withStack (c₁.stack.push g)).withoutLog = (c₂.opened g).withoutLog := by
  have hleft : ((c₁.opened f).withStack (c₁.stack.push g)).withoutLog
      = c₁.withoutLog.withStack (c₁.withoutLog.stack.push g) :=
    congrArg (·.withStack (c₁.stack.push g)) (withoutLog_trace _ _)
  have hright : (c₂.opened g).withoutLog
      = c₂.withoutLog.withStack (c₂.withoutLog.stack.push g) := withoutLog_trace _ _
  rw [hleft, hright, h]

/-- Closed again, the two differ in the log at most. -/
theorem Context.withoutLog_pop_withStack {c₁ c₂ : Context} {s : Stack} {f g : Frame}
    (hs : c₁.stack = s.push f) (h : (c₁.withStack (s.push g)).withoutLog = c₂.withoutLog) :
    c₁.pop.withoutLog = c₂.pop.withoutLog := by
  have hpop : c₁.pop.withoutLog = (c₁.withStack (s.push g)).pop.withoutLog := by
    unfold pop
    rw [hs, stack_withStack, Stack.top?_push, Stack.top?_push, Stack.pop_push, Stack.pop_push]
    dsimp only
    rw [withoutLog_trace, withoutLog_trace]
    rfl
  rw [hpop, withoutLog_pop, h, ← withoutLog_pop]

theorem agree_pop {o₁ o₂ : Outcome α} {s : Stack} {f g : Frame}
    (hs : o₁.context.stack = s.push f)
    (h : apartFromLog.Agree (o₁.mapContext (·.withStack (s.push g))) o₂) :
    apartFromLog.Agree (o₁.mapContext Context.pop) (o₂.mapContext Context.pop) := by
  cases o₁ with
  | done a c =>
    cases h with
    | done _ h => exact .done a (Context.withoutLog_pop_withStack hs h)
  | failed e c =>
    cases h with
    | failed _ h => exact .failed e (Context.withoutLog_pop_withStack hs h)
    | excused _ _ _ he => exact he.elim
  | halted why c =>
    cases h with
    | halted _ hw h => exact .halted why hw (Context.withoutLog_pop_withStack hs h)

/-- **A body ends alike in frames with the same values**, if nothing is visible behind them. -/
theorem agree_inFrame {f g : Frame} (hfg : ∀ x, f.lookup x = g.lookup x) {act : Eval α}
    (halike : ∀ {s t : Stack} (h : s.Alike t), h.coupling.Matches act act)
    (hlog : apartFromLog.Matches act act) {c₁ c₂ : Context} (hc : c₁.withoutLog = c₂.withoutLog)
    (hcode : c₁.registry.Within .none) (hhidden : ∀ x, c₁.lookup x = none) :
    apartFromLog.Agree ((inFrame f act).run c₁) ((inFrame g act).run c₂) := by
  have hfull : c₁.isFull = c₂.isFull := by
    show c₁.withoutLog.isFull = c₂.withoutLog.isFull
    rw [hc]
  cases hisFull : c₁.isFull with
  | true =>
    rw [run_inFrame_of_isFull f act hisFull, run_inFrame_of_isFull g act (hfull ▸ hisFull)]
    exact .failed _ hc
  | false =>
    rw [run_inFrame f act hisFull, run_inFrame g act (hfull ▸ hisFull)]
    -- first the frame is changed, and then the log
    have hsame : (c₁.opened f).withStack (c₁.stack.push f) = c₁.opened f := by
      rw [← c₁.stack_opened f]
      rfl
    have hlook : (c₁.stack.push f).Alike (c₁.stack.push g) := .of_hidden hhidden hfg
    have hinside : (c₁.opened f).registry.Within .none := by rwa [c₁.registry_opened]
    obtain ⟨hstack, hrun⟩ := hlook.run_eq (halike hlook) hinside
    rw [hsame] at hstack hrun
    have hagree := hlog _ _ (Context.withoutLog_opened_withStack hc f g)
    rw [hrun] at hagree
    exact agree_pop hstack hagree

/-! ## §3. Calls and lets. -/

section

variable {ctx c₁ c₂ : Context} {f : String} {xs : List String} {es ns : List Node} {body : Node}
  {calls room : Nat}

/-- The values of the names in a frame are the same, whatever the frame is for. -/
theorem Frame.lookup_bindAll_congr {f g : Frame} (h : ∀ x, f.lookup x = g.lookup x)
    (pairs : List (String × Value)) (x : String) :
    (f.bindAll pairs).lookup x = (g.bindAll pairs).lookup x := by
  induction pairs generalizing f g with
  | nil => exact h x
  | cons p pairs ih =>
    rw [bindAll_cons, bindAll_cons]
    refine ih fun y => ?_
    rw [lookup_bind, lookup_bind, h]

/-- The body of a call and that of a `let` end alike. -/
theorem agree_enter (f g : String) (pairs : List (String × Value)) (body : Node)
    (hc : c₁.withoutLog = c₂.withoutLog) (hcode : c₁.registry.Within .none)
    (hhidden : ∀ x, c₁.lookup x = none) :
    apartFromLog.Agree
      (((Engine.withRoom (Node.evalNested calls) room).enter
        ((Frame.empty .call f).bindAll pairs) body).run c₁)
      (((Engine.withRoom (Node.evalNested calls) room).enter
        ((Frame.empty .scope g).bindAll pairs) body).run c₂) := by
  have hframes := Frame.lookup_bindAll_congr (f := .empty .call f) (g := .empty .scope g)
    (fun _ => rfl) pairs
  cases room with
  | zero =>
    exact agree_inFrame hframes (fun _ => matches_halt trivial) (matches_halt trivial) hc hcode
      hhidden
  | succ room =>
    refine agree_inFrame hframes (fun h => ?_) ?_ hc hcode hhidden
    · exact matches_evalWith (h.drives_withRoom calls room) body
    · exact matches_evalWith (Couplings.apartFromLog.drives_withRoom
        (Couplings.apartFromLog.matches_evalNested calls) room ()) body

/-- **What is behind the head of a call and of a `let` ends alike.** -/
theorem agree_call_let {engine : Engine} (hengine : engine = .withRoom (Node.evalNested calls) room)
    (hbinds : Node.Binds xs es ns) (hxs : xs.Nodup) (hc : c₁.withoutLog = c₂.withoutLog)
    (hcode : c₁.registry.Within .none) (hhidden : ∀ x, c₁.lookup x = none) (f : String)
    (body : Node) (token : Option Token) :
    apartFromLog.Agree
      ((Node.evalAll engine es >>= callFound engine f (some (.user f xs body))).run c₁)
      ((Node.evalLet engine "let" [.expression token ns, body]).run c₂) := by
  subst hengine
  rw [Node.evalLet, hbinds.evalBindings_eq hxs _ (fun _ _ => rfl), bind_map_left, run_bind,
    run_bind]
  have hvalues := matches_evalAll (Couplings.apartFromLog.drives_withRoom
    (Couplings.apartFromLog.matches_evalNested calls) room ()) es c₁ c₂ hc
  -- the values leave the stack as it is, so that nothing is visible behind their frame either
  have hself := matches_evalAll ((Stack.Alike.refl c₁.stack).drives_withRoom calls room) es
  have hstack := ((Stack.Alike.refl c₁.stack).run_eq hself hcode).1
  have hcode' := (Stack.Alike.refl c₁.stack).within_run hself hcode
  rw [show c₁.withStack c₁.stack = c₁ from rfl] at hstack hcode'
  generalize hrun : (Node.evalAll (.withRoom (Node.evalNested calls) room) es).run c₁ = o₁
    at hvalues hstack hcode' ⊢
  generalize (Node.evalAll (.withRoom (Node.evalNested calls) room) es).run c₂ = o₂ at hvalues ⊢
  cases hvalues with
  | failed e h => exact .failed e h
  | halted why hw h => exact .halted why hw h
  | excused _ _ _ he => exact he.elim
  | @done vs c₁' c₂' h =>
    have hlen : vs.length = xs.length :=
      (evaluates_iff.2 hrun).length_eq.trans hbinds.length_eq
    show apartFromLog.Agree (((Definition.user f xs body).invoke _ vs).run
      (c₁'.trace fun _ => .applying f vs)) _
    rw [Definition.invoke, if_pos hlen]
    refine agree_enter f "let" (xs.zip vs) body ((Context.withoutLog_trace _ _).trans h) ?_ ?_
    · rw [Context.registry_trace]
      exact hcode'
    intro x
    show (c₁'.trace _).stack.lookup x = none
    rw [Context.stack_trace, show c₁'.stack = c₁.stack from hstack]
    exact hhidden x

end

/-- Nothing is visible on a stack of empty frames. -/
theorem Stack.exists_alike_of_hidden {s : Stack} (hhidden : ∀ x, s.lookup x = none) :
    ∃ t : Stack, s.Alike t ∧ t.Holds (·.isProper = true) := by
  refine ⟨⟨List.replicate s.depth (.empty .call ""), s.depth, (List.length_replicate).symm⟩,
    ⟨rfl, fun x => ?_⟩, fun f hf => ?_⟩
  · rw [hhidden]
    show none = Frame.lookupVisible x (List.replicate s.depth _)
    cases s.depth <;> rfl
  · rw [List.eq_of_mem_replicate hf]
    exact Frame.Holds.empty .call ""

/-- Where nothing is visible, an evaluation under a limit ends with a value or an error. -/
theorem Node.eval_answers_of_hidden {ctx : Context} (hhidden : ∀ x, ctx.lookup x = none) {m : Nat}
    (hlimit : ctx.limit = some m) (hplain : ctx.registry.IsPlain) (n : Node) :
    (∃ v ctx', n.eval.run ctx = .done v ctx') ∨ ∃ e ctx', n.eval.run ctx = .failed e ctx' := by
  obtain ⟨t, halike, hproper⟩ := Stack.exists_alike_of_hidden hhidden
  have hsame : n.eval.run (ctx.withStack t) = (n.eval.run ctx).mapContext (·.withStack t) :=
    (halike.run_eq (halike.matches_eval n) hplain.within).2
  have hlimit' : (ctx.withStack t).limit = some m := hlimit
  have hends := n.eval_answers hlimit' hplain hproper
  rw [hsame] at hends
  generalize n.eval.run ctx = o at hends ⊢
  cases o with
  | done v c => exact .inl ⟨v, c, rfl⟩
  | failed e c => exact .inr ⟨e, c, rfl⟩
  | halted why c => rcases hends with ⟨v, c', h⟩ | ⟨e, c', h⟩ <;> cases h

/-- **A `let` is a call**, as long as native code does not work with frames, which would tell them
apart.  Let nothing be visible, and let `f` stand for a function with distinct parameters.  A call
of `f` and a `let` of its parameters and its body, with the same values, end alike: with the same
value, or with failures of the same depth and the same cause, and they leave the same output,
definitions and frames behind.  Under a limit, with the core and functions of the language, there
is such an end. -/
theorem let_ends_as_call {ctx : Context} {f : String} {xs : List String} {es ns : List Node}
    {body call bound : Node} {token : Option Token} (hcode : ctx.registry.Within .none)
    (hhidden : ∀ x, ctx.lookup x = none)
    (hlet : ctx.registry.resolve "let" = some (.form "let" ⟨2, 2⟩ .letIn))
    (hf : ctx.registry.resolve f = some (.user f xs body)) (hxs : xs.Nodup)
    (hbinds : Node.Binds xs es ns) (hcall : (Moment.ofNode call ctx).Calls f es)
    (hbound : (Moment.ofNode bound ctx).Calls "let" [.expression token ns, body]) :
    EndAlike (call.eval.run ctx) (bound.eval.run ctx)
      ∧ ∀ m, ctx.limit = some m → ctx.registry.IsPlain →
          (∃ v ctx', call.eval.run ctx = .done v ctx')
            ∨ ∃ e ctx', call.eval.run ctx = .failed e ctx' := by
  refine ⟨?_, fun m hlimit hplain => call.eval_answers_of_hidden hhidden hlimit hplain⟩
  have hisLet : (Moment.ofNode bound ctx).IsLet "let" [.expression token ns, body] :=
    ⟨"let", ⟨2, 2⟩, hlet, rfl⟩
  have hf : (Moment.ofNode call ctx).ctx.registry.resolve f = some (.user f xs body) := hf
  -- both begin with a line in the log, which tells them apart
  have hbegun : ((Moment.ofNode call ctx).begun f).withoutLog
      = ((Moment.ofNode bound ctx).begun "let").withoutLog :=
    (ctx.withoutLog_trace _).trans (ctx.withoutLog_trace _).symm
  have hnothing : ∀ x, ((Moment.ofNode call ctx).begun f).lookup x = none := by
    intro x
    show (ctx.trace _).stack.lookup x = none
    rw [Context.stack_trace]
    exact hhidden x
  rw [hcall.run_eval, hbound.run_eval,
    run_within_congr ((Moment.IsCall.of_user hf).run_behindHead es),
    run_within_congr hisLet.run_behindHead, hf]
  have hcode : ((Moment.ofNode call ctx).begun f).registry.Within .none :=
    Moment.within_begun hcode f
  exact .of_agree (agree_call_let rfl hbinds hxs hbegun hcode hnothing f body token)

/-- A function that calls itself until the limit is hit, with an operand that defines `let`
anew. -/
theorem let_ends_as_call_endless :
    let x : Node := .symbol none "x"
    let body : Node := .expression none
      [.symbol none "f", .expression none [.symbol none "print", x], .symbol none "y"]
    let redefine : Node := .expression none
      [.symbol none "defun", .symbol none "let", .expression none [x], x]
    let ctx := (Context.new.setOptions ⟨3, false, .working⟩).register (.user "f" ["x", "y"] body)
    let call : Node := .expression none [.symbol none "f", .int none 1, redefine]
    let bound : Node := .expression none [.symbol none "let",
      .expression none [.expression none [x, .int none 1],
        .expression none [.symbol none "y", redefine]], body]
    ctx.limit = some 3 ∧ ctx.registry.IsPlain
      ∧ EndAlike (call.eval.run ctx) (bound.eval.run ctx)
      ∧ ((∃ v ctx', call.eval.run ctx = .done v ctx')
        ∨ ∃ e ctx', call.eval.run ctx = .failed e ctx')
      ∧ (call.eval.run ctx).context.printed = "1\n1\n1\n" := by
  intro x body redefine ctx call bound
  have hnew : (Context.new.setOptions ⟨3, false, .working⟩).Bounded 3 :=
    ⟨rfl, Registry.isPlain_core⟩
  have hb : ctx.Bounded 3 := hnew.register (.inr ⟨_, _, _, rfl⟩)
  have hhidden : ∀ y, ctx.lookup y = none := by
    intro y
    rw [Context.lookup, Context.stack_register]
    rfl
  have hlet : ctx.registry.resolve "let" = some (.form "let" ⟨2, 2⟩ .letIn) := by
    rw [Context.registry_register, Registry.resolve_register]
    rfl
  have hf : ctx.registry.resolve "f" = some (.user "f" ["x", "y"] body) := by
    rw [Context.registry_register, Registry.resolve_register]
    rfl
  have hbinds : Node.Binds ["x", "y"] [.int none 1, redefine]
      [.expression none [x, .int none 1], .expression none [.symbol none "y", redefine]] :=
    .cons rfl (.cons rfl .nil)
  have hcall : (Moment.ofNode call ctx).Calls "f" [.int none 1, redefine] :=
    ⟨none, .symbol none "f", rfl, rfl⟩
  have hbound : (Moment.ofNode bound ctx).Calls "let" [.expression none
      [.expression none [x, .int none 1], .expression none [.symbol none "y", redefine]], body] :=
    ⟨none, .symbol none "let", rfl, rfl⟩
  obtain ⟨hsame, hends⟩ :=
    let_ends_as_call hb.plain.within hhidden hlet hf (by decide) hbinds hcall hbound
  have hprinted : (call.eval.run ctx).context.printed = "1\n1\n1\n" := by
    decide +kernel
  exact ⟨hb.limit_eq, hb.plain, hsame, hends 3 hb.limit_eq hb.plain, hprinted⟩

/-- The native function `here` tells by the frame that it is called in whether that is the frame
of a call, and so tells a call from a `let`. -/
theorem let_told_from_call :
    let here : Native := .code fun _ _ => .frame 0 fun f =>
      .done (.int (if f.map Frame.kind = some .call then 1 else 0))
    let body : Node := .expression none [.symbol none "here"]
    let ctx := (Context.new.register (.native "here" ⟨0, 0⟩ here)).register (.user "f" [] body)
    let call : Node := .expression none [.symbol none "f"]
    let bound : Node := .expression none [.symbol none "let", .expression none [], body]
    ctx.stack = .empty ∧ ctx.registry.resolve "let" = some (.form "let" ⟨2, 2⟩ .letIn)
      ∧ ctx.registry.resolve "f" = some (.user "f" [] body)
      ∧ (call.eval.run ctx).value? = some (.int 1) ∧ (bound.eval.run ctx).value? = some (.int 0)
      ∧ ¬ EndAlike (call.eval.run ctx) (bound.eval.run ctx) := by
  intro here body ctx call bound
  have hstack : ctx.stack = .empty := by
    rw [Context.stack_register, Context.stack_register]
    rfl
  have hlet : ctx.registry.resolve "let" = some (.form "let" ⟨2, 2⟩ .letIn) := by
    rw [Context.registry_register, Registry.resolve_register, Context.registry_register,
      Registry.resolve_register]
    rfl
  have hf : ctx.registry.resolve "f" = some (.user "f" [] body) := by
    rw [Context.registry_register, Registry.resolve_register]
    rfl
  have hcall : (call.eval.run ctx).value? = some (.int 1) := by decide +kernel
  have hbound : (bound.eval.run ctx).value? = some (.int 0) := by decide +kernel
  refine ⟨hstack, hlet, hf, hcall, hbound, fun h => ?_⟩
  have hsame := h.value?_eq
  rw [hcall, hbound] at hsame
  cases hsame

end IntLisp
