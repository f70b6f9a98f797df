/-
  IntLisp.Proofs.Overflow
  ───────────────────────
  **THE LIMIT, AND WHAT AN OVERFLOW MEANS.**

  A frame is needed for the body of a function, once all operands have
  values, and for the body of a `let`, once all bindings are made.  It is
  opened if there are fewer frames than the limit, and refused otherwise:

      depth ≤ limit ≤ depth + room        in every moment of an evaluation,

  so that there are never more frames than the limit, none is refused where
  there are fewer, and the room of the engine is never what runs out first.

  A refusal is an error of the expression that needed the frame.  It is
  named there and passes everything around it unchanged, so an overflow that
  comes out of an evaluation tells which call or `let` was refused its frame.
-/
import IntLisp.Proofs.Blame
import IntLisp.Proofs.Chronicle
import IntLisp.Proofs.Limit

namespace IntLisp

open Eval Relation

/-! ## §1. The limit stays, and the frames do. -/

namespace Context

variable {ctx ctx' ctx'' : Context}

/-- The two contexts have the same frames and the same limit. -/
structure SameFrames (ctx ctx' : Context) : Prop where
  stack_eq : ctx'.stack = ctx.stack
  limit_eq : ctx'.limit = ctx.limit

namespace SameFrames

theorem trans (h : ctx.SameFrames ctx') (h' : ctx'.SameFrames ctx'') : ctx.SameFrames ctx'' :=
  ⟨h'.stack_eq.trans h.stack_eq, h'.limit_eq.trans h.limit_eq⟩

theorem trace (ctx : Context) (event : Context → Event) : ctx.SameFrames (ctx.trace event) :=
  ⟨ctx.stack_trace event, ctx.limit_trace event⟩

theorem depth_eq (h : ctx.SameFrames ctx') : ctx'.depth = ctx.depth :=
  congrArg Stack.depth h.stack_eq

theorem isFull_eq (h : ctx.SameFrames ctx') : ctx'.isFull = ctx.isFull := by
  unfold isFull
  rw [h.limit_eq, h.depth_eq]

end SameFrames

theorem SameFrames.register (ctx : Context) (d : Definition) : ctx.SameFrames (ctx.register d) := by
  refine ⟨ctx.stack_register d, ?_⟩
  unfold Context.register
  dsimp only
  split
  · rw [limit_trace]
  · rfl

theorem depth_opened (ctx : Context) (f : Frame) : (ctx.opened f).depth = ctx.depth + 1 := by
  show (ctx.opened f).stack.depth = _
  rw [stack_opened, Stack.depth_push]
  rfl

/-- There is always room for a frame, if one may be opened. -/
theorem room_pos (ctx : Context) : 0 < ctx.room :=
  Nat.lt_of_lt_of_le (by decide : 0 < boundlessRoom) (Nat.le_add_right _ _)

/-- The limit is `l`, and no more than `d` frames are active unless it allows them. -/
structure Limited (l : Option Nat) (d : Nat) (ctx : Context) : Prop where
  limit_eq : ctx.limit = l
  depth_le : ∀ m, l = some m → ctx.depth ≤ max m d

namespace Limited

variable {l : Option Nat} {d : Nat}

theorem of_sameFrames (h : ctx.Limited l d) (h' : ctx.SameFrames ctx') : ctx'.Limited l d :=
  ⟨h'.limit_eq.trans h.limit_eq, fun m hm => h'.depth_eq ▸ h.depth_le m hm⟩

/-- A frame is opened only where there are fewer than the limit. -/
theorem opened (h : ctx.Limited l d) (hfull : ctx.isFull = false) (f : Frame) :
    (ctx.opened f).Limited l d := by
  refine ⟨(limit_trace _ _).trans h.limit_eq, fun m hm => ?_⟩
  have hlt : ctx.depth < m := by
    unfold isFull at hfull
    rw [h.limit_eq, hm] at hfull
    exact Nat.lt_of_not_le (of_decide_eq_false hfull)
  rw [depth_opened]
  omega

theorem bind (h : ctx.Limited l d) (level : Nat) (name : String) (v : Value) :
    (ctx.bind level name v).Limited l d :=
  ⟨h.limit_eq, fun m hm => (Stack.depth_bind _ _ _ _).trans_le (h.depth_le m hm)⟩

theorem pop (h : ctx.Limited l d) : ctx.pop.Limited l d := by
  refine ⟨?_, fun m hm => ?_⟩
  · unfold Context.pop
    split
    · exact h.limit_eq
    · exact (limit_trace _ _).trans h.limit_eq
  · have hdepth : ctx.pop.depth = ctx.depth - 1 := congrArg Stack.depth ctx.stack_pop
    have hle := h.depth_le m hm
    omega

end Limited

end Context

/-- No more frames are active than the limit allows, now and in all that was visited. -/
def Watch.limited (l : Option Nat) (d : Nat) : Watch .any where
  holds past ctx := ctx.Limited l d ∧ ∀ n c, Deed.visit n c ∈ past → c.Limited l d
  found _ _ _ _ := trivial
  trace h event := ⟨h.1.of_sameFrames (.trace _ event), h.2⟩
  write h text := ⟨h.1.of_sameFrames ⟨rfl, rfl⟩, h.2⟩
  bind h level name v := ⟨h.1.bind level name v, h.2⟩
  opened h hfull f := ⟨h.1.opened hfull f, h.2⟩
  pop h := ⟨h.1.pop, h.2⟩
  visit := by
    intro past ctx n h _
    refine ⟨h.1, fun n' c hc => ?_⟩
    rcases List.mem_append.1 hc with hc | hc
    · exact h.2 n' c hc
    · cases List.mem_singleton.1 hc
      exact h.1
  dispatch h _ _ _ := ⟨h.1, fun n c hc => h.2 n c (by simpa using hc)⟩
  invoke h _ _ := ⟨h.1, fun n c hc => h.2 n c (by simpa using hc)⟩
  apply h _ _ _ := ⟨h.1, fun n c hc => h.2 n c (by simpa using hc)⟩
  define h _ := ⟨h.1.of_sameFrames (.register _ _), fun n c hc => h.2 n c (by simpa using hc)⟩
  register h _ := ⟨h.1.of_sameFrames (.register _ _), fun n c hc => h.2 n c (by simpa using hc)⟩

theorem Watch.limited_start (ctx : Context) : (Watch.limited ctx.limit ctx.depth).Stands [] ctx :=
  ⟨⟨⟨rfl, fun m _ => Nat.le_max_right m _⟩, nofun⟩, ctx.stack.holds_any⟩

namespace Moment

variable {m m' who : Moment} {name : String} {frame : Frame} {body : Node} {ctx ctx' : Context}
  {ns : List Node} {e : Error}

theorem limit_of_tells {α : Type} {P : α → Prop} {act : Eval α} {a : α} {story : Chronicle}
    (hact : ∀ {l d}, (Watch.limited l d).Tells P act story) (h : act.run ctx = .done a ctx') :
    ctx'.limit = ctx.limit := by
  have hends := (hact [] ctx (Watch.limited_start ctx)).stands.holds.1.limit_eq
  rwa [h] at hends

theorem covers_engine (m : Moment) {S : Standard} (W : Watch S) :
    W.Covers m.engine (.withRoom (Node.evalNested m.calls) (Node.chronicleNested m.calls) m.room) :=
  Watch.covers_withRoom (fun hn => Watch.tells_evalNested m.calls hn) m.room

/-- Operands leave the frames as they are. -/
theorem sameFrames_of_evaluates {vs : List Value} (hcode : ctx.registry.Within .looking)
    (h : Evaluates m.engine ns ctx vs ctx') : ctx.SameFrames ctx' where
  stack_eq := by
    have hstack := stack_run_of_matches (fun s => Coupling.matches_evalAll
      (Stack.survives_eq.drives_withRoom m.calls m.room s) ns) hcode
    have hrun : (Node.evalAll (.withRoom (Node.evalNested m.calls) m.room) ns).run ctx
      = .done vs ctx' := evaluates_iff.1 h
    rwa [hrun] at hstack
  limit_eq := limit_of_tells
    (fun {_ _} => Watch.tells_evalAll (m.covers_engine _) ns fun _ _ => trivial) (evaluates_iff.1 h)

/-- So do bindings. -/
theorem sameFrames_of_evalBindings {form : String} {frame frame' : Frame}
    (hcode : ctx.registry.Within .looking)
    (h : (Node.evalBindings m.engine form frame ns).run ctx = .done frame' ctx') :
    ctx.SameFrames ctx' where
  stack_eq := by
    have hstack := stack_run_of_matches (fun s => Coupling.matches_evalBindings
      (Stack.survives_eq.drives_withRoom m.calls m.room s) form frame ns) hcode
    have hrun : (Node.evalBindings (.withRoom (Node.evalNested m.calls) m.room) form frame ns).run
      ctx = .done frame' ctx' := h
    rwa [hrun] at hstack
  limit_eq := limit_of_tells
    (fun {_ _} => Watch.tells_evalBindings (m.covers_engine _) form (fun _ _ => trivial) ns
      fun _ _ => trivial) h

/-! ## §2. Frames that are needed. -/

theorem sameFrames_begun (m : Moment) (name : String) : m.ctx.SameFrames (m.begun name) :=
  .trace _ _

/-- A frame is asked for on the frames that the evaluation began with. -/
theorem Asks.sameFrames (hcode : m.ctx.registry.Within .looking) (h : m.Asks frame body ctx) :
    m.ctx.SameFrames ctx := by
  have hbegun := within_begun hcode
  cases h with
  | call _ _ hargs _ =>
    exact ((m.sameFrames_begun _).trans (sameFrames_of_evaluates (hbegun _) hargs)).trans
      (.trace _ _)
  | scope _ _ hbindings =>
    exact (m.sameFrames_begun _).trans (sameFrames_of_evalBindings (hbegun _) hbindings)

theorem Asks.isExpression (h : m.Asks frame body ctx) : m.node.isExpression = true := by
  cases h with
  | call hcalls _ _ _ | scope hcalls _ _ => exact hcalls.isExpression

/-- **What is demanded begins on the same frames, or in one that was asked for.** -/
theorem Demands.same_or_enters (hcode : m.ctx.registry.Within .looking) (h : m.Demands m') :
    (m'.room = m.room ∧ m.ctx.SameFrames m'.ctx)
      ∨ ∃ frame body ctx, m.Asks frame body ctx ∧ m.Enters ctx frame body m' := by
  have hbegun := within_begun hcode
  cases h with
  | item _ hbefore => exact .inl ⟨rfl, sameFrames_of_evaluates hcode hbefore⟩
  | operand _ _ hbefore =>
    exact .inl ⟨rfl, (m.sameFrames_begun _).trans (sameFrames_of_evaluates (hbegun _) hbefore)⟩
  | letValue _ _ hbefore =>
    exact .inl
      ⟨rfl, (m.sameFrames_begun _).trans (sameFrames_of_evalBindings (hbegun _) hbefore)⟩
  | body hcalls hfound hargs hlen henters =>
    exact .inr ⟨_, _, _, .call hcalls hfound hargs hlen, henters⟩
  | letBody hcalls hlet hbindings henters =>
    exact .inr ⟨_, _, _, .scope hcalls hlet hbindings, henters⟩

/-- Where a frame may be opened and there is room, a body is evaluated in it. -/
theorem exists_enters (frame : Frame) (body : Node) (hroom : 0 < m.room)
    (hfree : ctx.isFull = false) : ∃ m', m.Enters ctx frame body m' := by
  obtain ⟨room, hroom⟩ : ∃ room, m.room = room + 1 := ⟨m.room - 1, by omega⟩
  exact ⟨⟨body, ctx.opened frame, room, m.calls⟩, hfree, hroom, rfl, rfl, rfl⟩

/-! ## §3. Depth and room. -/

/-- The limit is `limit`, there are no more frames than that, and room for all that it leaves;
and native code does no more than look around and write. -/
structure Fits (limit : Nat) (m : Moment) : Prop where
  limit_eq : m.ctx.limit = some limit
  depth_le : m.ctx.depth ≤ limit
  le_room : limit ≤ m.ctx.depth + m.room
  observing : m.ctx.AllDefined Definition.IsObserving

variable {limit : Nat}

theorem fits_ofNode (n : Node) (hlimit : ctx.limit = some limit) (hdepth : ctx.depth ≤ limit)
    (hobs : ctx.AllDefined Definition.IsObserving) : (ofNode n ctx).Fits limit := by
  refine ⟨hlimit, hdepth, ?_, hobs⟩
  show limit ≤ ctx.depth + ctx.room
  rw [Context.room, hlimit]
  dsimp only
  omega

theorem Fits.isFull_iff (h : m.Fits limit) : m.ctx.isFull = true ↔ m.ctx.depth = limit := by
  have hdepth := h.depth_le
  unfold Context.isFull
  rw [h.limit_eq]
  dsimp only
  rw [decide_eq_true_iff]
  omega

/-- **A frame more is room for one less.** -/
theorem Demands.fits (h : m.Demands m') (hm : m.Fits limit) : m'.Fits limit := by
  have hcode := hm.observing.within
  have hdepth := hm.depth_le
  have hle := hm.le_room
  have hobs := h.allDefined m.keeps_engine_observing hm.observing
  rcases h.same_or_enters hcode with ⟨hroom, hsame⟩ | ⟨frame, body, ctx, hasks, henters⟩
  · refine ⟨hsame.limit_eq.trans hm.limit_eq, ?_, ?_, hobs⟩
    · rwa [hsame.depth_eq]
    · rwa [hsame.depth_eq, hroom]
  · have hsame := hasks.sameFrames hcode
    have hdepth' : m'.ctx.depth = m.ctx.depth + 1 := by
      rw [henters.ctx_eq, Context.depth_opened, hsame.depth_eq]
    -- there were fewer frames than the limit, for one more was opened
    have hfree : m.ctx.isFull = false := hsame.isFull_eq ▸ henters.free
    have hne : m.ctx.depth ≠ limit := fun hfull => by
      rw [hm.isFull_iff.2 hfull] at hfree
      cases hfree
    have hroom := henters.room_eq
    refine ⟨?_, by omega, by omega, hobs⟩
    rw [henters.ctx_eq]
    exact (Context.limit_trace _ _).trans (hsame.limit_eq.trans hm.limit_eq)

/-- **In every moment the limit is between the depth and what there is room for.** -/
theorem Reaches.fits (h : m.Reaches m') (hm : m.Fits limit) : m'.Fits limit := by
  induction h with
  | refl => exact hm
  | tail _ hdemands ih => exact hdemands.fits ih

/-! ## §4. Overflows. -/

/-- The error `e` is that of the evaluation `who`, which was refused a frame for a body: all that
comes before the body was evaluated, and nothing of the body. -/
structure Refused (limit : Nat) (who : Moment) (e : Error) : Prop where
  asks : ∃ frame body ctx, who.Asks frame body ctx ∧ ctx.isFull = true
  depth_eq : who.ctx.depth = limit
  error_eq : e = .evaluating who.node.encode limit (.because .stackOverflow)
  outside : ∀ m', who.Demands m' → m'.ctx.stack = who.ctx.stack

/-- Who asks for a frame where the limit is reached is refused it. -/
theorem Fits.refused (h : m.Fits limit) (hasks : m.Asks frame body ctx)
    (hfull : ctx.isFull = true) : m.Refused limit (m.naming (.because .stackOverflow)) := by
  have hcode := h.observing.within
  have hisFull : m.ctx.isFull = true := (hasks.sameFrames hcode).isFull_eq ▸ hfull
  have hdepth : m.ctx.depth = limit := h.isFull_iff.1 hisFull
  refine ⟨⟨frame, body, ctx, hasks, hfull⟩, hdepth, ?_, fun m' hdemands => ?_⟩
  · rw [naming, if_pos hasks.isExpression, ← hdepth]
    rfl
  · rcases hdemands.same_or_enters hcode with ⟨-, hsame⟩ | ⟨_, _, _, hasks', henters⟩
    · exact hsame.stack_eq
    · have hfree := henters.free
      rw [(hasks'.sameFrames hcode).isFull_eq, hisFull] at hfree
      cases hfree

/-- **An overflow is that of a moment which was refused a frame.** -/
theorem Fails.refused (hfits : m.Fits limit) (h : m.Fails e)
    (hover : e.isBecause .stackOverflow = true) :
    ∃ who, m.Reaches who ∧ who.Refused limit e := by
  -- the error is followed to the moment that it arose in
  induction m using wellFounded_demands.induction generalizing e with
  | h m ih =>
    have hcause : ∀ {e'}, e = m.naming e' → e'.isBecause .stackOverflow = true := by
      intro e' he
      rw [he, naming] at hover
      split at hover
      · rwa [isBecause_nameNode] at hover
      · exact hover
    rcases demands_or_owns hfits.observing h with ⟨m', e', hdemands, hfails, he⟩ | ⟨e', howns, he⟩
    · obtain ⟨who, hreaches, hrefused⟩ := ih m' hdemands (hdemands.fits hfits) hfails (hcause he)
      have hsame : m.naming e' = e' := by
        rw [naming, nameNode_of_isTraced (hrefused.error_eq ▸ rfl), ite_self]
      exact ⟨who, .head hdemands hreaches, by rwa [he, hsame]⟩
    · have hover := hcause he
      cases howns with
      | refused hasks hfull => exact ⟨m, .refl, he ▸ hfits.refused hasks hfull⟩
      | unbound _ _ => cases hover
      | other hown =>
        rw [hown.calm] at hover
        cases hover

end Moment

/-! ## §5. Evaluations under a limit. -/

/-- What holds of an evaluation under a limit as it begins. -/
structure Moment.IsWithin (limit : Nat) (who : Moment) : Prop where
  depth_le : who.ctx.depth ≤ limit
  /-- What is called with the values of its operands sees just as many frames. -/
  seen : ∀ name operands args ctx, Evaluates who.engine operands (who.begun name) args ctx →
    ctx.depth = who.ctx.depth
  /-- Below the limit a frame that is needed is opened, and the body is evaluated. -/
  granted : who.ctx.depth < limit → ∀ frame body ctx, who.Asks frame body ctx →
    ∃ m', who.Enters ctx frame body m' ∧ who.Demands m'

theorem Moment.Fits.isWithin {limit : Nat} {who : Moment} (h : who.Fits limit) :
    who.IsWithin limit where
  depth_le := h.depth_le
  seen := by
    intro name operands args ctx hargs
    have hbegun := within_begun h.observing.within name
    exact ((who.sameFrames_begun name).trans (sameFrames_of_evaluates hbegun hargs)).depth_eq
  granted := by
    intro hlt frame body ctx hasks
    have hle := h.le_room
    have hroom : 0 < who.room := by omega
    have hfree : ctx.isFull = false := by
      rw [(hasks.sameFrames h.observing.within).isFull_eq, ← Bool.not_eq_true, h.isFull_iff]
      omega
    obtain ⟨m', henters⟩ := exists_enters frame body hroom hfree
    exact ⟨m', henters, hasks.demands henters⟩

/-- **The limit bounds the depth, and an overflow tells who was refused a frame.**  Let no more
frames be active than the limit, and let there be the core, functions of the language, and native
functions that do no more than look around and write.  Then in everything that is visited there
are no more frames than the limit, and no call or `let` below it is refused one.  If an evaluation
ends with an overflow, its error names the call or `let` that was refused a frame: under as many
frames as the limit, with all operands or bindings evaluated, and nothing of the body. -/
theorem overflow_only_at_limit (n : Node) {ctx : Context} {limit : Nat}
    (hlimit : ctx.limit = some limit) (hdepth : ctx.depth ≤ limit)
    (hobs : ctx.AllDefined Definition.IsObserving) :
    (∀ n' c, Deed.visit n' c ∈ n.chronicle ctx → c.depth ≤ limit)
      ∧ (∀ who, (Moment.ofNode n ctx).Reaches who → who.IsWithin limit)
      ∧ ∀ e ctx', n.eval.run ctx = .failed e ctx' → e.isBecause .stackOverflow = true →
          ∃ who, (Moment.ofNode n ctx).Reaches who ∧ who.Refused limit e := by
  have hfits := Moment.fits_ofNode n hlimit hdepth hobs
  refine ⟨fun n' c hvisit => ?_, fun who hreaches => (hreaches.fits hfits).isWithin,
    fun e ctx' hrun hover => ?_⟩
  · have htells := Watch.tells_eval (W := Watch.limited ctx.limit ctx.depth) (n := n) trivial
    have hlimited := (htells [] ctx (Watch.limited_start ctx)).stands.holds.2 n' c hvisit
    exact (hlimited.depth_le limit hlimit).trans (Nat.max_le.2 ⟨Nat.le_refl _, hdepth⟩)
  · obtain ⟨e', hfails, rfl⟩ := Moment.failed_eval hobs.within hrun
    rw [isBecause_nameNode] at hover
    obtain ⟨who, hreaches, hrefused⟩ := hfails.refused hfits hover
    -- the error names the one that was refused, and nothing else names it again
    rw [nameNode_of_isTraced (hrefused.error_eq ▸ rfl)]
    exact ⟨who, hreaches, hrefused⟩

/-- The error that a step ends with, if it does. -/
def Outcome.error? {α : Type} : Outcome α → Option Error
  | .failed e _ => some e
  | _ => none

theorem Outcome.error?_eq_some {α : Type} {o : Outcome α} {e : Error} (h : o.error? = some e) :
    ∃ ctx, o = .failed e ctx := by
  cases o with
  | failed e' ctx =>
    cases h
    exact ⟨ctx, rfl⟩
  | done _ _ | halted _ _ => cases h

/-- A function that calls itself without end, with an operand that looks at the number of
frames. -/
theorem overflow_only_at_limit_endless :
    let f : Definition := .user "f" ["x"] (.expression none [.symbol none "f",
      .expression none [.symbol none "+", .symbol none "x",
        .expression none [.symbol none "depth"]]])
    let ctx := ((Context.new.setOptions ⟨2, false, .working⟩).register
      (.native "depth" (.exactly 0) .depth)).register f
    let n : Node := .expression none [.symbol none "f", .int none 0]
    let e : Error := .evaluating "(f (+ x (depth)))" 2 (.because .stackOverflow)
    ctx.limit = some 2 ∧ ctx.depth ≤ 2 ∧ ctx.AllDefined Definition.IsObserving
      ∧ (n.eval.run ctx).error? = some e
      ∧ ∃ who, (Moment.ofNode n ctx).Reaches who ∧ who.Refused 2 e := by
  intro f ctx n e
  have hnew : (Context.new.setOptions ⟨2, false, .working⟩).AllDefined Definition.IsObserving :=
    fun d hd => .inl (Registry.isPlain_core d hd)
  have hlooks : (Definition.native "depth" (.exactly 0) .depth).IsObserving := by
    refine .inr ⟨_, _, _, rfl, fun args => ?_⟩
    rw [Code.Observes]
    intro d
    rw [Code.Observes]
    trivial
  have hobs : ctx.AllDefined Definition.IsObserving :=
    (hnew.register hlooks).register (.inl (.inr ⟨_, _, _, rfl⟩))
  have hsame : (Context.new.setOptions ⟨2, false, .working⟩).SameFrames ctx :=
    (Context.SameFrames.register _ _).trans (.register _ f)
  have hlimit : ctx.limit = some 2 := hsame.limit_eq
  have hdepth : ctx.depth ≤ 2 := by
    rw [hsame.depth_eq]
    decide
  have herror : (n.eval.run ctx).error? = some e := by decide +kernel
  obtain ⟨ctx', hrun⟩ := Outcome.error?_eq_some herror
  obtain ⟨-, -, hrefused⟩ := overflow_only_at_limit n hlimit hdepth hobs
  exact ⟨hlimit, hdepth, hobs, herror, hrefused e ctx' hrun rfl⟩

end IntLisp
