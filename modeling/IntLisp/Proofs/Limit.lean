/-
  IntLisp.Proofs.Limit
  ────────────────────
  **A HIGHER LIMIT ONLY MATTERS TO WHAT OVERFLOWS.**

  Two evaluations of one node, under a limit and under a higher one or none,
  go side by side up to the first frame that the lower limit refuses.  The
  refusal is an error, and no construct of the language catches an error: it
  reaches the end of the first evaluation, at most under the name of the
  expression that was refused the frame.  So an evaluation that ends in any
  other way was refused nothing, and the two went side by side to the end.

      (n.eval.run (ctx.withLimit limit))
        = (n.eval.run ctx).mapContext (·.withLimit limit)

  Where there is no limit there is no number of frames that is always enough.
  What the lower limit left room for is enough here, and more changes
  nothing.
-/
import IntLisp.Proofs.Termination

namespace IntLisp

/-! ## §1. A context under another limit. -/

namespace Context

/-- The context with another limit on its frames. -/
def withLimit (ctx : Context) (limit : Option Nat) : Context := { ctx with limit := limit }

variable (ctx : Context) (limit : Option Nat)

theorem trace_withLimit {event₁ event₂ : Context → Event}
    (h : event₁ (ctx.withLimit limit) = event₂ ctx) :
    (ctx.withLimit limit).trace event₁ = (ctx.trace event₂).withLimit limit := by
  unfold trace
  show (if ctx.tracer.isEnabled then _ else _) = _
  split
  · rw [h]
    rfl
  · rfl

theorem register_withLimit (d : Definition) :
    (ctx.withLimit limit).register d = (ctx.register d).withLimit limit := by
  unfold register
  show (if (ctx.registry.resolve d.symbol).isSome then _ else _) = _
  dsimp only
  split
  · exact trace_withLimit { ctx with registry := ctx.registry.register d } limit rfl
  · rfl

theorem opened_withLimit (f : Frame) :
    (ctx.withLimit limit).opened f = (ctx.opened f).withLimit limit :=
  trace_withLimit { ctx with stack := ctx.stack.push f } limit rfl

theorem pop_withLimit : (ctx.withLimit limit).pop = ctx.pop.withLimit limit := by
  unfold pop
  rw [show (ctx.withLimit limit).stack = ctx.stack from rfl]
  cases ctx.stack.top? with
  | none => rfl
  | some f => exact trace_withLimit { ctx with stack := ctx.stack.pop } limit rfl

end Context

/-- The limit is at least `m`, or there is none. -/
def Admits (m : Nat) (limit : Option Nat) : Prop := ∀ m', limit = some m' → m ≤ m'

theorem Admits.isFull_eq_false {m : Nat} {limit : Option Nat} (h : Admits m limit) {ctx : Context}
    (hdepth : ctx.depth < m) : (ctx.withLimit limit).isFull = false := by
  cases limit with
  | none => rfl
  | some m' =>
    have hm := h m' rfl
    have hfree : ¬ m' ≤ ctx.depth := by omega
    exact decide_eq_false hfree

/-! ## §2. Overflow. -/

theorem Error.isBecause_evaluating (expr : String) (depth : Nat) (e : Error) (reason : Reason) :
    (Error.evaluating expr depth e).isBecause reason = e.isBecause reason := by
  unfold Error.isBecause
  rw [Error.chain, List.contains_cons]
  rfl

/-- An error comes down to the same when it names a node. -/
theorem Eval.isBecause_nameNode (n : Node) (e : Error) (ctx : Context) (reason : Reason) :
    (Eval.nameNode n e ctx).isBecause reason = e.isBecause reason := by
  unfold Eval.nameNode
  split
  · rfl
  · exact Error.isBecause_evaluating _ _ e reason

/-- The coupling of a context under the limit `m` with the same context under another one,
where `d` frames are active; an overflow of the first excuses the second. -/
def raisedAt (m : Nat) (limit : Option Nat) (d : Nat) : Coupling where
  rel c₁ c₂ := c₁.Bounded m ∧ c₁.stack.depth = d ∧ c₂ = c₁.withLimit limit
  excuses e := e.isBecause .stackOverflow = true
  halts why := why = .misuse
  misuse := rfl
  lookup_eq := by
    intro c₁ c₂ h name
    obtain ⟨-, -, rfl⟩ := h
    rfl
  resolve_eq := by
    intro c₁ c₂ h name
    obtain ⟨-, -, rfl⟩ := h
    rfl
  depth_eq := by
    intro c₁ c₂ h
    obtain ⟨-, -, rfl⟩ := h
    rfl
  output_eq := by
    intro c₁ c₂ h
    obtain ⟨-, -, rfl⟩ := h
    rfl
  trace := by
    intro c₁ c₂ h event
    obtain ⟨hb, hd, rfl⟩ := h
    exact ⟨hb.trace _, by rw [c₁.stack_trace, hd], c₁.trace_withLimit limit rfl⟩
  write := by
    intro c₁ c₂ h text
    obtain ⟨hb, hd, rfl⟩ := h
    exact ⟨⟨hb.limit_eq, hb.plain⟩, hd, rfl⟩
  define := by
    intro c₁ c₂ h symbol params body
    obtain ⟨hb, hd, rfl⟩ := h
    refine ⟨hb.register (.inr ⟨symbol, params, body, rfl⟩), ?_, c₁.register_withLimit limit _⟩
    rw [c₁.stack_register, hd]
  excuses_named := by
    intro e he n ctx
    rwa [Eval.isBecause_nameNode]

section

variable {m d : Nat} {limit : Option Nat}

theorem raisedAt_opens (hl : Admits m limit) (f : Frame) :
    (raisedAt m limit d).Opens (raisedAt m limit (d + 1)) f where
  overflow := by
    intro c₁ c₂ _ _
    exact .inr rfl
  opened := by
    intro c₁ c₂ h hfull
    obtain ⟨hb, hd, rfl⟩ := h
    have hdepth : c₁.depth < m := by
      refine Nat.lt_of_not_le fun hge => ?_
      rw [hb.isFull_iff.2 hge] at hfull
      cases hfull
    refine ⟨hl.isFull_eq_false hdepth, hb.opened f, ?_, c₁.opened_withLimit limit f⟩
    rw [c₁.stack_opened, Stack.depth_push, hd]
  pop := by
    intro c₁ c₂ h
    obtain ⟨hb, hd, rfl⟩ := h
    exact ⟨hb.pop, by rw [c₁.stack_pop, Stack.depth_pop, hd]; rfl, c₁.pop_withLimit limit⟩
  excuses := id
  halts := id

/-- A frame that the lower limit refuses excuses whatever happens under the higher one. -/
theorem raisedAt_inFrame_of_full (hfull : m ≤ d) (f : Frame) (act₁ act₂ : Eval Value) :
    (raisedAt m limit d).Matches (Eval.inFrame f act₁) act₂ := by
  intro c₁ c₂ h
  obtain ⟨hb, hd, rfl⟩ := h
  rw [Eval.run_inFrame_of_isFull f act₁ (hb.isFull_iff.2 (le_of_le_of_eq hfull hd.symm))]
  exact .excused _ _ _ rfl

/-- **The room that the lower limit leaves is enough under the higher one.** -/
theorem drives_withRoom_raisedAt (hl : Admits m limit) (ev₁ ev₂ : Node → Eval Value) (k₁ : Nat) :
    ∀ (k₂ d : Nat), m - d ≤ k₁ → m - d ≤ k₂ →
      (raisedAt m limit d).Drives (.withRoom ev₁ k₁) (.withRoom ev₂ k₂) := by
  -- the induction is on the frames that may still be opened, as is the evaluator's own
  induction k₁ with
  | zero =>
    intro k₂ d hk₁ _
    refine ⟨fun f b => ?_, fun h name def' hdef => ?_⟩
    · rw [enter_withRoom]
      exact raisedAt_inFrame_of_full (by omega) f _ _
    · exact (h.1.plain def' (Registry.mem_of_resolve hdef)).calls _ _ _
  | succ k₁ ih =>
    intro k₂ d hk₁ hk₂
    refine ⟨fun f b => ?_, fun h name def' hdef => ?_⟩
    · rw [enter_withRoom, enter_withRoom]
      by_cases hd : d < m
      · obtain ⟨k₂, rfl⟩ : ∃ k, k₂ = k + 1 := ⟨k₂ - 1, by omega⟩
        exact Coupling.matches_inFrame (raisedAt_opens hl f)
          (Coupling.matches_evalWith (ih k₂ (d + 1) (by omega) (by omega)) b)
      · exact raisedAt_inFrame_of_full (Nat.le_of_not_lt hd) f _ _
    · exact (h.1.plain def' (Registry.mem_of_resolve hdef)).calls _ _ _

/-- Outcomes that agree are the same in all but the limit, unless the first overflowed. -/
theorem eq_of_agree_raisedAt {o₁ o₂ : Outcome Value} (h : (raisedAt m limit d).Agree o₁ o₂)
    (hover : ∀ e ctx, o₁ = .failed e ctx → e.isBecause .stackOverflow = false) :
    o₂ = o₁.mapContext (·.withLimit limit) := by
  cases h with
  | done v h => rw [h.2.2]; rfl
  | failed e h => rw [h.2.2]; rfl
  | halted why hw h => rw [h.2.2]; rfl
  | excused e c o he =>
    have hno := hover e c rfl
    rw [show e.isBecause .stackOverflow = true from he] at hno
    cases hno

end

/-! ## §3. Raising the limit. -/

/-- Evaluate a node with room for `room` further frames, whatever the context leaves. -/
def Node.evalInRoom (room : Nat) (n : Node) : Eval Value :=
  Eval.within n (n.evalWith (.withRoom (evalNested (Context.boundlessRoom - 1)) room))

theorem run_eval_eq_evalInRoom (n : Node) (ctx : Context) :
    n.eval.run ctx = (n.evalInRoom ctx.room).run ctx := rfl

/-- **Enough room under a higher limit gives the outcome of the lower one.** -/
theorem run_evalInRoom_withLimit {ctx : Context} {m : Nat} {limit : Option Nat} {n : Node}
    (hb : ctx.Bounded m) (hl : Admits m limit)
    (hover : ∀ e ctx', n.eval.run ctx = .failed e ctx' → e.isBecause .stackOverflow = false)
    {room : Nat} (hroom : m - ctx.depth ≤ room) :
    (n.evalInRoom room).run (ctx.withLimit limit)
      = (n.eval.run ctx).mapContext (·.withLimit limit) := by
  have hdrives := drives_withRoom_raisedAt hl (Node.evalNested (Context.boundlessRoom - 1))
    (Node.evalNested (Context.boundlessRoom - 1)) ctx.room room ctx.depth hb.le_room hroom
  have hmatches := Coupling.matches_within n (Coupling.matches_evalWith hdrives n)
  refine eq_of_agree_raisedAt (m := m) (d := ctx.depth) ?_ hover
  rw [run_eval_eq_evalInRoom]
  exact hmatches ctx (ctx.withLimit limit) ⟨hb, rfl, rfl⟩

/-- **A higher limit changes no evaluation but one that overflows.**  An evaluation of a
node under the limit `m`, with the definitions of the core and functions of the language,
that does not fail for want of frames ends in the same way under every higher limit: with
the same value or error, and in the same context but for the limit.  So it does without a
limit, given the room that `m` leaves, and however much more. -/
theorem limit_raised (ctx : Context) (m : Nat) (hlimit : ctx.limit = some m)
    (hplain : ctx.registry.IsPlain) (n : Node)
    (hover : ∀ e ctx', n.eval.run ctx = .failed e ctx' → e.isBecause .stackOverflow = false) :
    (∀ m', m < m' →
        n.eval.run (ctx.withLimit (some m'))
          = (n.eval.run ctx).mapContext (·.withLimit (some m')))
      ∧ (∀ room, m - ctx.depth ≤ room →
          (n.evalInRoom room).run (ctx.withLimit none)
            = (n.eval.run ctx).mapContext (·.withLimit none))
      ∧ (m - ctx.depth ≤ Context.boundlessRoom →
          n.eval.run (ctx.withLimit none)
            = (n.eval.run ctx).mapContext (·.withLimit none)) := by
  have hb : ctx.Bounded m := ⟨hlimit, hplain⟩
  have hnone : Admits m none := by
    intro m' h
    cases h
  refine ⟨?_, ?_, ?_⟩
  · intro m' hm
    have hsome : Admits m (some m') := by
      intro k hk
      cases hk
      omega
    refine run_evalInRoom_withLimit hb hsome hover ?_
    show m - ctx.depth ≤ Context.boundlessRoom + (m' - ctx.depth)
    omega
  · intro room hroom
    exact run_evalInRoom_withLimit hb hnone hover hroom
  · intro hroom
    exact run_evalInRoom_withLimit hb hnone hover hroom

/-- The value that a step ends with, if it ends with one. -/
def Outcome.value? {α : Type} : Outcome α → Option α
  | .done a _ => some a
  | _ => none

@[simp] theorem Outcome.value?_mapContext {α : Type} (f : Context → Context) (o : Outcome α) :
    (o.mapContext f).value? = o.value? := by
  cases o <;> rfl

/-- A call inside which a `let` is opened, under a limit of just these two frames. -/
theorem limit_raised_let_call :
    let f : Definition :=
      .user "f" ["x"] (.expression none [.symbol none "let",
        .expression none [.expression none [.symbol none "y", .symbol none "x"]],
        .expression none [.symbol none "+", .symbol none "y", .int none 1]])
    let ctx := (Context.new.setOptions ⟨2, false, .working⟩).register f
    let n : Node := .expression none [.symbol none "f", .int none 41]
    (n.eval.run ctx).value? = some (.int 42)
      ∧ (n.eval.run (ctx.withLimit (some 7))).value? = some (.int 42)
      ∧ (n.eval.run (ctx.withLimit none)).value? = some (.int 42) := by
  intro f ctx n
  have hvalue : (n.eval.run ctx).value? = some (.int 42) := by decide +kernel
  have hnew : (Context.new.setOptions ⟨2, false, .working⟩).Bounded 2 :=
    ⟨rfl, Registry.isPlain_core⟩
  have hb : ctx.Bounded 2 := hnew.register (.inr ⟨_, _, _, rfl⟩)
  have hover : ∀ e ctx', n.eval.run ctx = .failed e ctx' →
      e.isBecause .stackOverflow = false := by
    intro e ctx' h
    rw [h] at hvalue
    cases hvalue
  obtain ⟨hraised, -, hboundless⟩ := limit_raised ctx 2 hb.limit_eq hb.plain n hover
  refine ⟨hvalue, ?_, ?_⟩
  · rw [hraised 7 (by decide), Outcome.value?_mapContext, hvalue]
  · rw [hboundless (by decide), Outcome.value?_mapContext, hvalue]

end IntLisp
