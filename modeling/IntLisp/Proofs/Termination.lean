/-
  IntLisp.Proofs.Termination
  ──────────────────────────
  **EVALUATION UNDER A LIMIT COMES TO AN END.**

  A program may call itself without end and may redefine everything while it
  runs, so nothing in its text gets smaller.  What gets smaller is the number
  of frames that may still be opened: a body is only evaluated inside a frame
  that has just been opened, and every frame is closed again before the next
  operand is evaluated.  So the recursion of the evaluator goes down in the
  remaining depth, and at the same depth in the node.

  The evaluator without any count of frames is described by an equation: `G`
  evaluates a body as it evaluates any node, by itself.

      (G n).run ctx = (n.evalWith ⟨fun f body => inFrame f (G body), _⟩).run ctx

  An evaluation that never ended would leave its result open in this
  equation.  Under a limit the equation has one solution and no other.

  The end is a value or an error.  Only a stack that native code was at work
  on may bind what is no value of the language, and bring the core to a halt
  that takes it for one.
-/
import IntLisp.Proofs.Chronicle

namespace IntLisp

/-! ## §1. Definitions of the core and of the language. -/

/-- A definition of the core, or a function of the language. -/
def Definition.IsPlain (d : Definition) : Prop :=
  d ∈ Registry.coreDefinitions ∨ ∃ symbol params body, d = .user symbol params body

/-- A registry of the core's definitions and of functions of the language. -/
def Registry.IsPlain (r : Registry) : Prop := ∀ d ∈ r.definitions, d.IsPlain

theorem Registry.IsPlain.register {r : Registry} (h : r.IsPlain) {d : Definition}
    (hd : d.IsPlain) : (r.register d).IsPlain := by
  intro e he
  rcases mem_place he with rfl | he
  · exact hd
  · exact h e he

theorem Registry.isPlain_core : Registry.core.IsPlain := fun _ hd => .inl (mem_of_mem_core hd)

/-- They do nothing with frames that is to be granted. -/
theorem Definition.IsPlain.within {d : Definition} (h : d.IsPlain) {a : Access} : d.Within a := by
  rcases h with h | ⟨symbol, params, body, rfl⟩
  · exact Definition.within_of_mem_core h
  · exact Definition.within_user _ _ _

theorem Registry.IsPlain.within {r : Registry} (h : r.IsPlain) {a : Access} : r.Within a :=
  fun d hd => (h d hd).within

/-- Nothing of them comes from outside. -/
theorem Definition.IsPlain.calls {d : Definition} (h : d.IsPlain) (K : Coupling)
    (e₁ e₂ : Engine) : K.Calls e₁ e₂ d := by
  rcases h with h | ⟨symbol, params, body, rfl⟩
  · simp only [Registry.coreDefinitions, List.mem_cons, List.not_mem_nil, or_false] at h
    rcases h with rfl | rfl | rfl | rfl <;> trivial
  · trivial

theorem Definition.IsPlain.not_code {symbol : String} {arity : Arity} :
    (∀ body, ¬ (Definition.native symbol arity (.code body)).IsPlain)
      ∧ ∀ body, ¬ (Definition.form symbol arity (.code body)).IsPlain := by
  simp [Definition.IsPlain, Registry.code_not_mem_core]

theorem Definition.isPlain_user {symbol : String} {params : List String} {body : Node} :
    (Definition.user symbol params body).IsPlain :=
  .inr ⟨symbol, params, body, rfl⟩

/-- What comes of plain definitions and values of the language. -/
def Standard.plain : Standard :=
  .withoutCode (fun _ => True) Definition.IsPlain (fun _ _ _ => trivial)
    (fun _ _ => Definition.IsPlain.not_code.1) (fun _ _ => Definition.IsPlain.not_code.2)
    (iff_true_intro Definition.isPlain_user)

/-- All that happens then fits. -/
theorem Standard.plain_keeps : Standard.plain.Keeps Registry.IsPlain Deed.Fits where
  found h := h
  registered h hd := h.register hd
  visit _ := trivial
  dispatch h haccepts _ := Form.takes_of_mem_core (h.resolve_right (by simp)) haccepts
  invoke h := h
  apply h haccepts hargs := Native.takes_of_mem_core (h.resolve_right (by simp)) haccepts hargs
  define _ := trivial
  register _ := trivial

/-! ## §2. Contexts under a limit. -/

/-- A context under the limit `m`, with plain definitions only. -/
structure Context.Bounded (m : Nat) (ctx : Context) : Prop where
  limit_eq : ctx.limit = some m
  plain : ctx.registry.IsPlain

namespace Context

namespace Bounded

variable {m : Nat} {ctx : Context}

theorem trace (h : ctx.Bounded m) (event : Context → Event) : (ctx.trace event).Bounded m :=
  ⟨by rw [limit_trace, h.limit_eq], by rw [registry_trace]; exact h.plain⟩

theorem register (h : ctx.Bounded m) {d : Definition} (hd : d.IsPlain) :
    (ctx.register d).Bounded m := by
  have hnext : { ctx with registry := ctx.registry.register d }.Bounded m :=
    ⟨h.limit_eq, h.plain.register hd⟩
  unfold Context.register
  dsimp only
  split
  · exact hnext.trace _
  · exact hnext

theorem opened (h : ctx.Bounded m) (f : Frame) : (ctx.opened f).Bounded m :=
  have hb : { ctx with stack := ctx.stack.push f }.Bounded m := ⟨h.limit_eq, h.plain⟩
  hb.trace _

theorem pop (h : ctx.Bounded m) : ctx.pop.Bounded m := by
  unfold Context.pop
  split
  · exact h
  · have hb : { ctx with stack := ctx.stack.pop }.Bounded m := ⟨h.limit_eq, h.plain⟩
    exact hb.trace _

theorem isFull_iff (h : ctx.Bounded m) : ctx.isFull = true ↔ m ≤ ctx.depth := by
  unfold isFull
  rw [h.limit_eq]
  exact decide_eq_true_iff

/-- The engine has room for all frames that the limit leaves. -/
theorem le_room (h : ctx.Bounded m) : m - ctx.depth ≤ ctx.room := by
  unfold room
  rw [h.limit_eq]
  exact Nat.le_add_left _ _

end Bounded

end Context

/-- The coupling of an evaluation with itself, in a context under the limit `m` with
`d` active frames; it does not run out of room. -/
def boundedAt (m d : Nat) : Coupling where
  rel c₁ c₂ := c₁ = c₂ ∧ c₁.Bounded m ∧ c₁.stack.depth = d
  excuses _ := False
  halts why := why = .misuse
  misuse := rfl
  lookup_eq := by
    intro c₁ c₂ h name
    rw [h.1]
  resolve_eq := by
    intro c₁ c₂ h name
    rw [h.1]
  depth_eq := by
    intro c₁ c₂ h
    rw [h.1]
  output_eq := by
    intro c₁ c₂ h
    rw [h.1]
  trace := by
    intro c c₂ h event
    obtain ⟨rfl, hb, hd⟩ := h
    exact ⟨rfl, hb.trace _, by rw [c.stack_trace, hd]⟩
  write := by
    intro c c₂ h text
    obtain ⟨rfl, hb, hd⟩ := h
    exact ⟨rfl, ⟨hb.limit_eq, hb.plain⟩, hd⟩
  define := by
    intro c c₂ h symbol params body
    obtain ⟨rfl, hb, hd⟩ := h
    refine ⟨rfl, hb.register (.inr ⟨symbol, params, body, rfl⟩), ?_⟩
    rw [c.stack_register, hd]
  excuses_named := @Coupling.never_named

theorem boundedAt_opens (m d : Nat) (f : Frame) :
    (boundedAt m d).Opens (boundedAt m (d + 1)) f where
  overflow := by
    intro c c₂ h hfull
    obtain ⟨rfl, _⟩ := h
    exact .inl hfull
  opened := by
    intro c c₂ h hfull
    obtain ⟨rfl, hb, hd⟩ := h
    exact ⟨hfull, rfl, hb.opened f, by rw [c.stack_opened, Stack.depth_push, hd]⟩
  pop := by
    intro c c₂ h
    obtain ⟨rfl, hb, hd⟩ := h
    exact ⟨rfl, hb.pop, by rw [c.stack_pop, Stack.depth_pop, hd]; rfl⟩
  excuses := id
  halts := id

/-! ## §3. Room enough. -/

/-- In a context that is full, a body is not evaluated at all. -/
theorem matches_inFrame_of_full {m d : Nat} (hfull : m ≤ d) (f : Frame) (act₁ act₂ : Eval Value) :
    (boundedAt m d).Matches (Eval.inFrame f act₁) (Eval.inFrame f act₂) := by
  intro c c₂ h
  obtain ⟨rfl, hb, hd⟩ := h
  have h : c.isFull = true := hb.isFull_iff.2 (le_of_le_of_eq hfull hd.symm)
  rw [Eval.run_inFrame_of_isFull f act₁ h, Eval.run_inFrame_of_isFull f act₂ h]
  exact .failed _ ⟨rfl, hb, hd⟩

/-- **The step of the recursion.**  Two engines agree where `d` frames are active if
they evaluate bodies alike where one more is, or if no more may be. -/
theorem drives_boundedAt {m d : Nat} {e₁ e₂ : Engine} {body₁ body₂ : Node → Eval Value}
    (h₁ : ∀ f b, e₁.enter f b = Eval.inFrame f (body₁ b))
    (h₂ : ∀ f b, e₂.enter f b = Eval.inFrame f (body₂ b))
    (hbody : d < m → ∀ b, (boundedAt m (d + 1)).Matches (body₁ b) (body₂ b)) :
    (boundedAt m d).Drives e₁ e₂ where
  enter f b := by
    rw [h₁, h₂]
    by_cases hd : d < m
    · exact Coupling.matches_inFrame (boundedAt_opens m d f) (hbody hd b)
    · exact matches_inFrame_of_full (Nat.le_of_not_lt hd) f _ _
  calls := by
    intro c c₂ h name d' hd'
    obtain ⟨rfl, hb, _⟩ := h
    exact (hb.plain d' (Registry.mem_of_resolve hd')).calls _ _ _

/-- How an engine with room for `room` frames evaluates bodies. -/
def bodyWithRoom (evaluate : Node → Eval Value) : Nat → Node → Eval Value
  | 0, _ => Eval.halt .noRoom
  | room + 1, body => body.evalWith (.withRoom evaluate room)

theorem enter_withRoom (evaluate : Node → Eval Value) (room : Nat) (f : Frame) (b : Node) :
    (Engine.withRoom evaluate room).enter f b
      = Eval.inFrame f (bodyWithRoom evaluate room b) := by
  cases room <;> rfl

/-- **The remaining depth is room enough**: engines with at least that much room
agree, and do not run out of it. -/
theorem drives_withRoom_boundedAt (m : Nat) (ev₁ ev₂ : Node → Eval Value) (k₁ : Nat) :
    ∀ (k₂ d : Nat), m - d ≤ k₁ → m - d ≤ k₂ →
      (boundedAt m d).Drives (.withRoom ev₁ k₁) (.withRoom ev₂ k₂) := by
  induction k₁ with
  | zero =>
    intro k₂ d hk₁ _
    -- no room is needed only where no frame may be opened
    exact drives_boundedAt (enter_withRoom ev₁ 0) (enter_withRoom ev₂ k₂)
      fun hd => absurd hd (by omega)
  | succ k₁ ih =>
    intro k₂ d hk₁ hk₂
    refine drives_boundedAt (enter_withRoom ev₁ (k₁ + 1)) (enter_withRoom ev₂ k₂) fun hd b => ?_
    -- a body is evaluated one frame deeper, and with room for one frame less
    obtain ⟨k₂, rfl⟩ : ∃ k, k₂ = k + 1 := ⟨k₂ - 1, by omega⟩
    exact Coupling.matches_evalWith (ih k₂ (d + 1) (by omega) (by omega)) b

/-! ## §4. The equation of the evaluator. -/

/-- `G` evaluates nodes under the limit `m` by the rules of the evaluator, and bodies
by itself. -/
def Solves (m : Nat) (evaluate : Node → Eval Value) (G : Node → Eval Value) : Prop :=
  ∀ (n : Node) (ctx : Context), ctx.Bounded m →
    (G n).run ctx = (n.evalWith ⟨fun f body => Eval.inFrame f (G body), evaluate⟩).run ctx

/-- A step that matches itself and a step that it equals under the limit. -/
theorem matches_of_run_eq {m d : Nat} {act₁ act₂ act₃ : Eval Value}
    (h : (boundedAt m d).Matches act₁ act₂)
    (heq : ∀ ctx, ctx.Bounded m → ctx.depth = d → act₃.run ctx = act₂.run ctx) :
    (boundedAt m d).Matches act₁ act₃ := by
  intro c c₂ hrel
  obtain ⟨rfl, hb, hd⟩ := hrel
  rw [heq c hb hd]
  exact h c c ⟨rfl, hb, hd⟩

theorem drives_of_solves {m : Nat} {ev₁ ev₂ G : Node → Eval Value} (hG : Solves m ev₂ G)
    (k : Nat) : ∀ d, m - d ≤ k →
      (boundedAt m d).Drives (.withRoom ev₁ k) ⟨fun f body => Eval.inFrame f (G body), ev₂⟩ := by
  induction k with
  | zero =>
    intro d hk
    exact drives_boundedAt (enter_withRoom ev₁ 0) (fun _ _ => rfl) fun hd => absurd hd (by omega)
  | succ k ih =>
    intro d hk
    -- the equation turns what `G` does with a body into one more step of the evaluator
    refine drives_boundedAt (enter_withRoom ev₁ (k + 1)) (fun _ _ => rfl) fun _ b => ?_
    exact matches_of_run_eq (Coupling.matches_evalWith (ih (d + 1) (by omega)) b)
      fun ctx hb _ => hG b ctx hb

/-- Outcomes that agree under the coupling are the same, and not for want of room. -/
theorem eq_of_agree_boundedAt {m d : Nat} {o₁ o₂ : Outcome Value}
    (h : (boundedAt m d).Agree o₁ o₂) :
    o₂ = o₁ ∧ ((∃ v ctx, o₁ = .done v ctx) ∨ (∃ e ctx, o₁ = .failed e ctx)
      ∨ ∃ ctx, o₁ = .halted .misuse ctx) := by
  cases h with
  | done v h => exact ⟨by rw [h.1], .inl ⟨v, _, rfl⟩⟩
  | failed e h => exact ⟨by rw [h.1], .inr (.inl ⟨e, _, rfl⟩)⟩
  | halted why hw h =>
    obtain rfl : why = .misuse := hw
    exact ⟨by rw [h.1], .inr (.inr ⟨_, rfl⟩)⟩
  | excused e c o he => exact he.elim

/-- The room that a context has is enough for every engine that agrees with one of enough
room. -/
theorem agree_evalHere {m : Nat} {evaluate : Node → Eval Value} {engine : Engine} {ctx : Context}
    (hb : ctx.Bounded m)
    (hd : (boundedAt m ctx.depth).Drives (.withRoom evaluate ctx.room) engine) (n : Node) :
    (boundedAt m ctx.depth).Agree ((n.evalHere evaluate).run ctx)
      ((n.evalWith engine).run ctx) :=
  Coupling.matches_evalWith hd n ctx ctx ⟨rfl, hb, rfl⟩

theorem matches_evalHere (m d : Nat) (evaluate : Node → Eval Value) (n : Node) :
    (boundedAt m d).Matches (n.evalHere evaluate) (n.evalHere evaluate) := by
  intro c c₂ hrel
  obtain ⟨rfl, hb, rfl⟩ := hrel
  exact agree_evalHere hb
    (drives_withRoom_boundedAt m evaluate evaluate _ _ c.depth hb.le_room hb.le_room) n

/-- The evaluator with the room of the context solves the equation. -/
theorem solves_evalHere (m : Nat) (evaluate : Node → Eval Value) :
    Solves m evaluate (Node.evalHere evaluate) := by
  intro n ctx hb
  refine (eq_of_agree_boundedAt (agree_evalHere hb ?_ n)).1.symm
  refine drives_boundedAt (enter_withRoom evaluate _) (fun _ _ => rfl) fun hd b => ?_
  have hroom := hb.le_room
  obtain ⟨k, hk⟩ : ∃ k, ctx.room = k + 1 := ⟨ctx.room - 1, by omega⟩
  rw [hk]
  -- the body of a call is evaluated with at least the room that the new frame leaves
  intro c c₂ hrel
  obtain ⟨rfl, hc, hdepth⟩ := hrel
  have hleft := hc.le_room
  have hdepth : c.depth = ctx.depth + 1 := hdepth
  exact Coupling.matches_evalWith
    (drives_withRoom_boundedAt m evaluate evaluate k c.room (ctx.depth + 1) (by omega) (by omega))
    b c c ⟨rfl, hc, hdepth⟩

theorem eval_eq_within (n : Node) :
    n.eval = Eval.within n (n.evalHere (Node.evalNested (Context.boundlessRoom - 1))) := rfl

/-- Where the stack binds values of the language only, no evaluation is misuse. -/
theorem Registry.IsPlain.not_misuse {ctx : Context} (h : ctx.registry.IsPlain)
    (hstack : ctx.stack.Holds (·.isProper = true)) (n : Node) (ctx' : Context) :
    n.eval.run ctx ≠ .halted .misuse ctx' :=
  (Standard.plain_keeps.eval (fun _ hfits => hfits) (n := n) trivial h hstack).halts ctx'

/-- Under a limit an evaluation ends with a value or an error; only what the stack binds can
bring it to a halt. -/
theorem Node.eval_ends {ctx : Context} {m : Nat} (hlimit : ctx.limit = some m)
    (hplain : ctx.registry.IsPlain) (n : Node) :
    (∃ v ctx', n.eval.run ctx = .done v ctx') ∨ (∃ e ctx', n.eval.run ctx = .failed e ctx')
      ∨ (∃ ctx', n.eval.run ctx = .halted .misuse ctx')
        ∧ ¬ ctx.stack.Holds (·.isProper = true) := by
  have hself := Coupling.matches_within n
    (matches_evalHere m ctx.depth (evalNested (Context.boundlessRoom - 1)) n)
  have hends := (eq_of_agree_boundedAt (hself ctx ctx ⟨rfl, ⟨hlimit, hplain⟩, rfl⟩)).2
  rw [← eval_eq_within] at hends
  refine hends.imp_right (Or.imp_right fun ⟨ctx', hrun⟩ => ⟨⟨ctx', hrun⟩, fun hstack => ?_⟩)
  exact hplain.not_misuse hstack n ctx' hrun

/-- So it ends with a value or an error where the stack binds values of the language only. -/
theorem Node.eval_answers {ctx : Context} {m : Nat} (hlimit : ctx.limit = some m)
    (hplain : ctx.registry.IsPlain) (hstack : ctx.stack.Holds (·.isProper = true)) (n : Node) :
    (∃ v ctx', n.eval.run ctx = .done v ctx') ∨ ∃ e ctx', n.eval.run ctx = .failed e ctx' :=
  (n.eval_ends hlimit hplain).imp_right (·.resolve_right fun h => h.2 hstack)

/-- **Evaluation under a limit ends.**  In a context under a limit, whose definitions
are those of the core and functions of the language, the evaluation of a node ends
with a value or an error, unless a name on the stack has something for its value that
is no value of the language.  The bodies of calls and lets are nested in each other no
deeper than the limit leaves frames: more room than that changes nothing.  And the
evaluator without any count of frames is defined by its equation, which has one
solution under the limit. -/
theorem eval_terminates (ctx : Context) (m : Nat) (hlimit : ctx.limit = some m)
    (hplain : ctx.registry.IsPlain) (n : Node) :
    ((∃ v ctx', n.eval.run ctx = .done v ctx') ∨ (∃ e ctx', n.eval.run ctx = .failed e ctx')
        ∨ (∃ ctx', n.eval.run ctx = .halted .misuse ctx')
          ∧ ¬ ctx.stack.Holds (·.isProper = true))
      ∧ (∀ evaluate room, m - ctx.depth ≤ room →
          (n.evalWith (.withRoom evaluate room)).run ctx = (n.evalHere evaluate).run ctx)
      ∧ ∀ evaluate, Solves m evaluate (Node.evalHere evaluate)
          ∧ ∀ G, Solves m evaluate G → (G n).run ctx = (n.evalHere evaluate).run ctx := by
  have hb : ctx.Bounded m := ⟨hlimit, hplain⟩
  have hroom := fun evaluate room (h : m - ctx.depth ≤ room) =>
    agree_evalHere hb
      (drives_withRoom_boundedAt m evaluate evaluate _ room ctx.depth hb.le_room h) n
  refine ⟨n.eval_ends hlimit hplain, fun evaluate room h => ?_,
    fun evaluate => ⟨solves_evalHere m evaluate, ?_⟩⟩
  · exact (eq_of_agree_boundedAt (hroom evaluate room h)).1
  · intro G hG
    rw [hG n ctx hb]
    exact (eq_of_agree_boundedAt
      (agree_evalHere hb (drives_of_solves hG _ ctx.depth hb.le_room) n)).1

/-- A function that calls itself without end, under a limit of three frames. -/
theorem eval_terminates_endless :
    let loop : Definition :=
      .user "f" ["x"] (.expression none [.symbol none "f", .symbol none "x"])
    let ctx := (Context.new.setOptions ⟨3, false, .working⟩).register loop
    let n : Node := .expression none [.symbol none "f", .int none 1]
    ctx.limit = some 3 ∧ ctx.registry.IsPlain
      ∧ ((∃ v ctx', n.eval.run ctx = .done v ctx') ∨ ∃ e ctx', n.eval.run ctx = .failed e ctx')
      ∧ ∀ evaluate room, 3 - ctx.depth ≤ room →
          (n.evalWith (.withRoom evaluate room)).run ctx = (n.evalHere evaluate).run ctx := by
  intro loop ctx n
  have hnew : (Context.new.setOptions ⟨3, false, .working⟩).Bounded 3 :=
    ⟨rfl, Registry.isPlain_core⟩
  have hb : ctx.Bounded 3 := hnew.register (.inr ⟨_, _, _, rfl⟩)
  obtain ⟨hends, hroom, -⟩ := eval_terminates ctx 3 hb.limit_eq hb.plain n
  have hstack : ctx.stack.Holds (·.isProper = true) := Stack.Holds.empty
  exact ⟨hb.limit_eq, hb.plain, hends.imp_right (·.resolve_right fun h => h.2 hstack), hroom⟩

end IntLisp
