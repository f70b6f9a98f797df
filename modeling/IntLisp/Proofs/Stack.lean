/-
  IntLisp.Proofs.Stack
  ────────────────────
  **WHAT AN EVALUATION SEES OF THE STACK.**

  Of the frames that are active, an evaluation sees their number and the
  value of each visible name, and nothing else, as long as native code asks
  for no frame.  Two stacks that agree on these are told apart by no such
  evaluation: it ends alike on both, and each stack is found at the end as it
  was at the beginning.

      (n.eval.run (ctx.withStack t))
        = (n.eval.run (ctx.withStack s)).mapContext (·.withStack t)

  The frame of a call hides all frames below it, so inside a call only their
  number is left to be seen.
-/
import IntLisp.Proofs.Coupling

namespace IntLisp

/-! ## §1. A context on another stack. -/

namespace Context

/-- The context with other frames active. -/
def withStack (ctx : Context) (s : Stack) : Context := { ctx with stack := s }

variable (ctx : Context) (s t : Stack)

@[simp] theorem stack_withStack : (ctx.withStack s).stack = s := rfl

theorem trace_withStack {event₁ event₂ : Context → Event}
    (h : event₁ (ctx.withStack s) = event₂ ctx) :
    (ctx.withStack s).trace event₁ = (ctx.trace event₂).withStack s := by
  unfold trace
  show (if ctx.tracer.isEnabled then _ else _) = _
  split
  · rw [h]
    rfl
  · rfl

theorem register_withStack (d : Definition) :
    (ctx.withStack s).register d = (ctx.register d).withStack s := by
  unfold register
  show (if (ctx.registry.resolve d.symbol).isSome then _ else _) = _
  dsimp only
  split
  · exact trace_withStack { ctx with registry := ctx.registry.register d } s rfl
  · rfl

theorem isFull_withStack (h : t.depth = ctx.stack.depth) :
    (ctx.withStack t).isFull = ctx.isFull := by
  unfold isFull depth
  rw [stack_withStack, h]
  rfl

theorem room_withStack (h : t.depth = ctx.stack.depth) : (ctx.withStack t).room = ctx.room := by
  unfold room depth
  rw [stack_withStack, h]
  rfl

theorem opened_withStack (f : Frame) (h : t.depth = ctx.stack.depth) :
    (ctx.withStack t).opened f = (ctx.opened f).withStack (t.push f) := by
  unfold opened
  refine trace_withStack { ctx with stack := ctx.stack.push f } (t.push f) ?_
  show Event.pushed f.name (t.push f).depth = Event.pushed f.name (ctx.stack.push f).depth
  rw [Stack.depth_push, Stack.depth_push, h]

theorem pop_withStack (f : Frame) (hs : ctx.stack = s.push f) (h : t.depth = s.depth) :
    (ctx.withStack (t.push f)).pop = ctx.pop.withStack t := by
  unfold pop
  rw [hs, stack_withStack, Stack.top?_push, Stack.top?_push, Stack.pop_push, Stack.pop_push]
  refine trace_withStack { ctx with stack := s } t ?_
  show Event.popped f.name t.depth = Event.popped f.name s.depth
  rw [h]

end Context

/-! ## §2. Stacks that look alike. -/

/-- Two stacks of which the same is seen. -/
structure Stack.Alike (s t : Stack) : Prop where
  depth_eq : s.depth = t.depth
  lookup_eq : ∀ name, s.lookup name = t.lookup name

namespace Stack.Alike

theorem refl (s : Stack) : s.Alike s := ⟨rfl, fun _ => rfl⟩

/-- A frame of a `let` is looked through, so what is below it must still agree. -/
theorem push {s t : Stack} (h : s.Alike t) (f : Frame) : (s.push f).Alike (t.push f) := by
  refine ⟨?_, fun name => ?_⟩
  · rw [depth_push, depth_push, h.depth_eq]
  · show Frame.lookupVisible name (f :: s.frames) = Frame.lookupVisible name (f :: t.frames)
    unfold Frame.lookupVisible
    rw [show Frame.lookupVisible name s.frames = Frame.lookupVisible name t.frames from
      h.lookup_eq name]

/-- The frame of a call hides what is below it, whatever it is. -/
theorem push_call {s t : Stack} (hdepth : s.depth = t.depth) {f : Frame} (hf : f.kind = .call) :
    (s.push f).Alike (t.push f) := by
  refine ⟨?_, fun name => ?_⟩
  · rw [depth_push, depth_push, hdepth]
  · show Frame.lookupVisible name (f :: s.frames) = Frame.lookupVisible name (f :: t.frames)
    unfold Frame.lookupVisible
    rw [if_pos hf, if_pos hf]

end Stack.Alike

/-- The coupling of a context on the stack `s` with the same context on the stack `t`;
native code asks for no frame. -/
def Stack.Alike.coupling {s t : Stack} (h : s.Alike t) : Coupling where
  rel c₁ c₂ := c₁.registry.Within .none ∧ c₁.stack = s ∧ c₂ = c₁.withStack t
  excuses _ := False
  halts _ := True
  misuse := trivial
  lookup_eq := by
    intro c₁ c₂ h' name
    obtain ⟨-, rfl, rfl⟩ := h'
    exact h.lookup_eq name
  resolve_eq := by
    intro c₁ c₂ h' name
    obtain ⟨-, rfl, rfl⟩ := h'
    rfl
  depth_eq := by
    intro c₁ c₂ h'
    obtain ⟨-, rfl, rfl⟩ := h'
    exact h.depth_eq
  output_eq := by
    intro c₁ c₂ h'
    obtain ⟨-, rfl, rfl⟩ := h'
    rfl
  trace := by
    intro c₁ c₂ h' event
    obtain ⟨hcode, rfl, rfl⟩ := h'
    exact ⟨by rwa [c₁.registry_trace], c₁.stack_trace _, c₁.trace_withStack t rfl⟩
  write := by
    intro c₁ c₂ h' text
    obtain ⟨hcode, rfl, rfl⟩ := h'
    exact ⟨hcode, rfl, rfl⟩
  define := by
    intro c₁ c₂ h' symbol params body
    obtain ⟨hcode, rfl, rfl⟩ := h'
    refine ⟨?_, c₁.stack_register _, c₁.register_withStack t _⟩
    rw [c₁.registry_register]
    exact hcode.register (Definition.within_user _ _ _)
  excuses_named := @Coupling.never_named

theorem Stack.Alike.serves {s t : Stack} (h : s.Alike t) : h.coupling.Serves .none where
  excuses _ he := he
  halts _ := trivial
  within h' := h'.1
  register := by
    intro c₁ c₂ h' d hd
    obtain ⟨hcode, hs, rfl⟩ := h'
    refine ⟨?_, by rw [c₁.stack_register, hs], c₁.register_withStack _ d⟩
    rw [c₁.registry_register]
    exact hcode.register hd
  record := by
    intro c₁ c₂ h' e _
    obtain ⟨hcode, hs, rfl⟩ := h'
    exact ⟨hcode, hs, rfl⟩
  frame_eq := False.elim
  bind := False.elim
  isFull_eq := False.elim
  opened := False.elim
  top_eq := False.elim
  pop := False.elim

/-- The couplings of all pairs of stacks that look alike. -/
def Stack.alikePairs : Couplings .none { p : Stack × Stack // p.1.Alike p.2 } where
  coupling p := p.2.coupling
  serves p := p.2.serves
  room_eq := by
    intro p c₁ c₂ h'
    obtain ⟨⟨s, t⟩, h⟩ := p
    obtain ⟨-, rfl, rfl⟩ := h'
    exact (c₁.room_withStack t h.depth_eq.symm).symm
  opens := by
    intro p f
    obtain ⟨⟨s, t⟩, h⟩ := p
    -- the same number of frames is active, so both runs may open one or neither
    have hfull : ∀ {c₁ c₂ : Context}, h.coupling.rel c₁ c₂ → c₁.isFull = c₂.isFull := by
      intro c₁ c₂ h'
      obtain ⟨-, rfl, rfl⟩ := h'
      exact (c₁.isFull_withStack t h.depth_eq.symm).symm
    refine ⟨⟨⟨s.push f, t.push f⟩, h.push f⟩, ?_⟩
    exact
      { overflow := fun hr hf => .inl (hfull hr ▸ hf)
        opened := by
          intro c₁ c₂ h' hf
          have hfree := hfull h' ▸ hf
          obtain ⟨hcode, rfl, rfl⟩ := h'
          refine ⟨hfree, by rwa [c₁.registry_opened], c₁.stack_opened f, ?_⟩
          exact c₁.opened_withStack t f h.depth_eq.symm
        pop := by
          intro c₁ c₂ h'
          obtain ⟨hcode, hs, rfl⟩ := h'
          refine ⟨by rwa [c₁.registry_pop], ?_, c₁.pop_withStack s t f hs h.depth_eq.symm⟩
          rw [c₁.stack_pop, hs, Stack.pop_push]
        excuses := id
        halts := id }

/-! ## §3. Evaluations on stacks that look alike. -/

namespace Stack.Alike

variable {α : Type} {s t : Stack}

/-- Outcomes that agree leave the stack as it was, and differ in nothing but it. -/
theorem eq_of_agree (h : s.Alike t) {o₁ o₂ : Outcome α} (hagree : h.coupling.Agree o₁ o₂) :
    o₁.context.stack = s ∧ o₂ = o₁.mapContext (·.withStack t) := by
  cases hagree with
  | done a hr =>
    obtain ⟨-, hs, rfl⟩ := hr
    exact ⟨hs, rfl⟩
  | failed e hr =>
    obtain ⟨-, hs, rfl⟩ := hr
    exact ⟨hs, rfl⟩
  | halted why _ hr =>
    obtain ⟨-, hs, rfl⟩ := hr
    exact ⟨hs, rfl⟩
  | excused e c o he => exact he.elim

/-- **A step that keeps the coupling gives the stack back, and takes the same course
on both stacks.** -/
theorem run_eq (h : s.Alike t) {act : Eval α} (hact : h.coupling.Matches act act)
    {ctx : Context} (hcode : ctx.registry.Within .none) :
    (act.run (ctx.withStack s)).context.stack = s
      ∧ act.run (ctx.withStack t) = (act.run (ctx.withStack s)).mapContext (·.withStack t) :=
  h.eq_of_agree (hact (ctx.withStack s) (ctx.withStack t) ⟨hcode, rfl, rfl⟩)

/-- Only definitions of the same kind come to be in force. -/
theorem within_run (h : s.Alike t) {act : Eval α} (hact : h.coupling.Matches act act)
    {ctx : Context} (hcode : ctx.registry.Within .none) :
    (act.run (ctx.withStack s)).context.registry.Within .none := by
  have hagree := hact (ctx.withStack s) (ctx.withStack t) ⟨hcode, rfl, rfl⟩
  generalize act.run (ctx.withStack s) = o₁, act.run (ctx.withStack t) = o₂ at hagree
  cases hagree with
  | done _ hr | failed _ hr | halted _ _ hr => exact hr.1
  | excused _ _ _ he => exact he.elim

theorem matches_eval (h : s.Alike t) (n : Node) : h.coupling.Matches n.eval n.eval :=
  Stack.alikePairs.matches_eval ⟨⟨s, t⟩, h⟩ n

theorem drives_withRoom (h : s.Alike t) (calls room : Nat) :
    h.coupling.Drives (.withRoom (Node.evalNested calls) room)
      (.withRoom (Node.evalNested calls) room) :=
  Stack.alikePairs.drives_withRoom (Stack.alikePairs.matches_evalNested calls) room ⟨⟨s, t⟩, h⟩

end Stack.Alike

/-! ## §4. Calls. -/

theorem kind_bindAll (f : Frame) (pairs : List (String × Value)) :
    (f.bindAll pairs).kind = f.kind := by
  induction pairs generalizing f with
  | nil => rfl
  | cons p pairs ih => exact ih (f.bind p.1 p.2)

section

variable {s t : Stack} {ctx : Context} (hcode : ctx.registry.Within .none)

include hcode

/-- Inside the frame of a call, nothing of the frames below it is seen but their
number. -/
theorem run_inFrame_call {α : Type} (hdepth : s.depth = t.depth) {f : Frame}
    (hf : f.kind = .call) {act : Eval α}
    (hact : (Stack.Alike.push_call hdepth hf).coupling.Matches act act) :
    (Eval.inFrame f act).run (ctx.withStack t)
      = ((Eval.inFrame f act).run (ctx.withStack s)).mapContext (·.withStack t) := by
  have hfull : (ctx.withStack t).isFull = (ctx.withStack s).isFull :=
    (ctx.withStack s).isFull_withStack t hdepth.symm
  cases h : (ctx.withStack s).isFull with
  | true =>
    rw [Eval.run_inFrame_of_isFull f act h, Eval.run_inFrame_of_isFull f act (hfull.trans h)]
    rfl
  | false =>
    rw [Eval.run_inFrame f act h, Eval.run_inFrame f act (hfull.trans h)]
    have hopened : (ctx.withStack t).opened f = ((ctx.withStack s).opened f).withStack (t.push f) :=
      (ctx.withStack s).opened_withStack t f hdepth.symm
    have hself : (ctx.withStack s).opened f = ((ctx.withStack s).opened f).withStack (s.push f) :=
      (ctx.withStack s).opened_withStack s f rfl
    have hinside : ((ctx.withStack s).opened f).registry.Within .none := by
      rw [Context.registry_opened]
      exact hcode
    obtain ⟨hstack, hrun⟩ := (Stack.Alike.push_call hdepth hf).run_eq hact hinside
    rw [hopened, hrun, ← hself]
    rw [← hself] at hstack
    -- closing the frame commutes with the change of the stack below it
    have hpop : ∀ c : Context, c.stack = s.push f →
        (c.withStack (t.push f)).pop = c.pop.withStack t :=
      fun c hc => c.pop_withStack s t f hc hdepth.symm
    cases hout : act.run ((ctx.withStack s).opened f) with
    | done a c => rw [hout] at hstack; exact congrArg (Outcome.done a) (hpop c hstack)
    | failed e c => rw [hout] at hstack; exact congrArg (Outcome.failed e) (hpop c hstack)
    | halted why c => rw [hout] at hstack; exact congrArg (Outcome.halted why) (hpop c hstack)

/-- A call of a function of the language, on two stacks of the same depth. -/
theorem run_invoke_user (hdepth : s.depth = t.depth) (calls room : Nat)
    (symbol : String) (params : List String) (body : Node) (args : List Value) :
    ((Definition.user symbol params body).invoke
        (.withRoom (Node.evalNested calls) room) args).run (ctx.withStack t)
      = (((Definition.user symbol params body).invoke
          (.withRoom (Node.evalNested calls) room) args).run (ctx.withStack s)).mapContext
            (·.withStack t) := by
  unfold Definition.invoke
  dsimp only
  -- binding the parameters leaves the frame that of a call
  have hf : ((Frame.empty .call symbol).bindAll (params.zip args)).kind = .call := kind_bindAll _ _
  split
  · cases room with
    | zero => exact run_inFrame_call hcode hdepth hf (Coupling.matches_halt trivial)
    | succ room =>
      have hbody := Coupling.matches_evalWith
        ((Stack.Alike.push_call hdepth hf).drives_withRoom calls room) body
      exact run_inFrame_call hcode hdepth hf hbody
  · rfl

end

/-- **Scopes are isolated.**  Let native code use the context for evaluations, the depth,
visible names, output and definitions only.  On two stacks of the same depth, an
evaluation that finds the same values for all names then takes the same course: it ends
with the same value or error, in contexts that differ in nothing but their stacks.  And a
call of a function of the language with given values takes the same course on them
whatever names their frames bind. -/
theorem scopes_isolated (ctx : Context) (hcode : ctx.registry.Within .none) (s t : Stack)
    (hdepth : s.depth = t.depth) :
    ((∀ name, s.lookup name = t.lookup name) → ∀ n : Node,
        n.eval.run (ctx.withStack t)
          = (n.eval.run (ctx.withStack s)).mapContext (·.withStack t))
      ∧ ∀ (calls room : Nat) (symbol : String) (params : List String) (body : Node)
          (args : List Value),
        ((Definition.user symbol params body).invoke
            (.withRoom (Node.evalNested calls) room) args).run (ctx.withStack t)
          = (((Definition.user symbol params body).invoke
              (.withRoom (Node.evalNested calls) room) args).run (ctx.withStack s)).mapContext
                (·.withStack t) := by
  refine ⟨?_, ?_⟩
  · intro hlookup n
    have h : s.Alike t := ⟨hdepth, hlookup⟩
    exact (h.run_eq (h.matches_eval n) hcode).2
  · intro calls room symbol params body args
    exact run_invoke_user hcode hdepth calls room symbol params body args

/-- The names of a `let` inside a call, and those of a call inside another that
binds one of them to another value. -/
theorem scopes_isolated_let_call :
    let s := (Stack.empty.push ⟨.call, "f", [("y", .int 2)]⟩).push ⟨.scope, "let", [("x", .int 1)]⟩
    let t := (Stack.empty.push ⟨.call, "g", [("x", .int 7)]⟩).push
      ⟨.call, "h", [("y", .int 2), ("x", .int 1)]⟩
    Context.new.registry.Within .none ∧ s.depth = t.depth
      ∧ (∀ name, s.lookup name = t.lookup name) ∧ ∀ n : Node,
      n.eval.run (Context.new.withStack t)
        = (n.eval.run (Context.new.withStack s)).mapContext (·.withStack t) := by
  intro s t
  have hlookup : ∀ name, s.lookup name = t.lookup name := by
    intro name
    by_cases hx : name = "x"
    · subst hx
      rfl
    · by_cases hy : name = "y"
      · subst hy
        rfl
      · have hx' : (name == "x") = false := beq_false_of_ne hx
        have hy' : (name == "y") = false := beq_false_of_ne hy
        simp [s, t, Stack.lookup, Frame.lookupVisible, Frame.lookup, List.lookup_cons, hx', hy']
  exact ⟨Registry.within_core, rfl, hlookup,
    (scopes_isolated Context.new Registry.within_core s t rfl).1 hlookup⟩

end IntLisp
