/-
  IntLisp.Proofs.Brackets
  ───────────────────────
  **STEPS AND THE FRAMES THEY ASK FOR.**

  With tracing on, a frame is logged when it is opened and when it is
  closed, each time with the number of frames there are then:

      pushed f (d + 1)   …   popped f d

  with brackets of their own in between.  A frame that is refused is not
  logged at all.  So a step is described by the frames that it asks for, in
  order; what it logs are brackets, one pair for each frame that is granted.
  The list is put together as steps are, and no frame is in it twice, since
  there is more in the log each time.
-/
import IntLisp.Proofs.Overflow

namespace IntLisp

open Eval

variable {α β : Type}

/-! ## §1. Brackets. -/

namespace Event

/-- A frame has been opened. -/
def isPush : Event → Bool
  | pushed _ _ => true
  | _ => false

/-- A frame has been closed. -/
def isPop : Event → Bool
  | popped _ _ => true
  | _ => false

/-- Each frame that is opened is closed under its name, and so are those in between. -/
inductive Balanced : List Event → Prop where
  | nil : Balanced []
  | cons {name : String} {d d' : Nat} {inside behind : List Event} (hinside : Balanced inside)
      (hbehind : Balanced behind) : Balanced (pushed name d :: (inside ++ popped name d' :: behind))

/-- Balanced events, each with the number of frames there are then, if there were `depth`. -/
inductive Nested : Nat → List Event → Prop where
  | nil {depth : Nat} : Nested depth []
  | cons {depth : Nat} {name : String} {inside behind : List Event}
      (hinside : Nested (depth + 1) inside) (hbehind : Nested depth behind) :
      Nested depth (pushed name (depth + 1) :: (inside ++ popped name depth :: behind))

variable {depth : Nat} {es es' inside inside' : List Event}

theorem Nested.balanced (h : Nested depth es) : Balanced es := by
  induction h with
  | nil => exact .nil
  | cons _ _ ihinside ihbehind => exact .cons ihinside ihbehind

theorem Nested.append (h : Nested depth es) (h' : Nested depth es') : Nested depth (es ++ es') := by
  induction h with
  | nil => exact h'
  | cons hinside _ _ ihbehind =>
    rw [List.cons_append, List.append_assoc, List.cons_append]
    exact .cons hinside (ihbehind h')

theorem Balanced.countP_eq (h : Balanced es) : es.countP isPop = es.countP isPush := by
  induction h with
  | nil => rfl
  | cons _ _ ihinside ihbehind =>
    simp only [List.countP_cons, List.countP_append, isPush, isPop, ihinside, ihbehind, if_true,
      Bool.false_eq_true, if_false]
    omega

/-- **A frame is closed once.**  Of what follows it, only one part is balanced and ends where a
frame is closed. -/
theorem Balanced.eq_of_append (h : Balanced inside) (h' : Balanced inside') {name name' : String}
    {d d' : Nat} {behind behind' : List Event}
    (heq : inside ++ popped name d :: behind = inside' ++ popped name' d' :: behind') :
    inside = inside' ∧ popped name d :: behind = popped name' d' :: behind' := by
  induction h generalizing inside' name name' d d' behind behind' with
  | nil =>
    cases h' with
    | nil => exact ⟨rfl, heq⟩
    | cons _ _ => cases heq
  | cons _ _ ihinside ihbehind =>
    cases h' with
    | nil => cases heq
    | cons hinside' hbehind' =>
      -- both begin with one frame, which is closed at one place, and go on behind it
      simp only [List.cons_append, List.append_assoc, List.cons.injEq] at heq
      obtain ⟨hpush, hafter⟩ := heq
      cases hpush
      obtain ⟨rfl, hclosed⟩ := ihinside hinside' hafter
      injection hclosed with hpop hrest
      cases hpop
      obtain ⟨rfl, hpops⟩ := ihbehind hbehind' hrest
      exact ⟨rfl, hpops⟩

/-- The events are balanced, and count frames on top of `depth`. -/
structure WellBracketed (depth : Nat) (es : List Event) : Prop where
  balanced : Balanced es
  /-- A frame is the last of those that are open when it is opened. -/
  depth_pushed : ∀ before name d after, es = before ++ pushed name d :: after →
    d + before.countP isPop = depth + before.countP isPush + 1
  /-- It is closed once, under the same name, when all in between are. -/
  closed_once : ∀ before name d after, es = before ++ pushed name d :: after →
    ∃! inside, Balanced inside ∧ ∃ d' behind, after = inside ++ popped name d' :: behind
  /-- There is one frame less then. -/
  depth_popped : ∀ before name d after inside d' behind,
    es = before ++ pushed name d :: after → Balanced inside →
    after = inside ++ popped name d' :: behind → d = d' + 1

/-- What follows a frame that is opened, up to where it is closed. -/
theorem Nested.split (h : Nested depth es) {before after : List Event} {name : String} {d : Nat}
    (heq : es = before ++ pushed name d :: after) :
    d + before.countP isPop = depth + before.countP isPush + 1
      ∧ ∃ inside d' behind, Balanced inside ∧ after = inside ++ popped name d' :: behind
        ∧ d = d' + 1 := by
  induction h generalizing before after with
  | nil => simp at heq
  | @cons depth name' inside behind hinside _ ihinside ihbehind =>
    cases before with
    | nil =>
      cases heq
      exact ⟨by simp, inside, depth, behind, hinside.balanced, rfl, rfl⟩
    | cons e before =>
      rw [List.cons_append] at heq
      injection heq with he heq
      subst he
      -- the frame is opened inside of the first one, or behind it
      rcases List.append_eq_append_iff.1 heq with ⟨c, rfl, hc⟩ | ⟨c, rfl, hc⟩
      · cases c with
        | nil => cases hc
        | cons e c =>
          rw [List.cons_append] at hc
          injection hc with he hc
          subst he
          obtain ⟨hdepth, hclosed⟩ := ihbehind hc
          have hcount := hinside.balanced.countP_eq
          refine ⟨?_, hclosed⟩
          simp only [List.countP_cons, List.countP_append, isPush, isPop, if_true,
            Bool.false_eq_true, if_false]
          omega
      · cases c with
        | nil => cases hc
        | cons e c =>
          rw [List.cons_append] at hc
          injection hc with he hc
          subst he
          obtain ⟨hdepth, inside', d', behind', hbalanced, rfl, hd⟩ := ihinside rfl
          refine ⟨?_, inside', d', behind' ++ popped name' depth :: behind, hbalanced, ?_, hd⟩
          · simp only [List.countP_cons, isPush, isPop, if_true, Bool.false_eq_true, if_false]
            omega
          · rw [hc, List.append_assoc, List.cons_append]

/-- **Nested events are well bracketed.** -/
theorem Nested.wellBracketed (h : Nested depth es) : WellBracketed depth es where
  balanced := h.balanced
  depth_pushed := fun _ _ _ _ heq => (h.split heq).1
  closed_once := by
    intro before name d after heq
    obtain ⟨-, inside, d', behind, hinside, rfl, -⟩ := h.split heq
    refine ⟨inside, ⟨hinside, d', behind, rfl⟩, ?_⟩
    rintro inside' ⟨hinside', d'', behind', heq'⟩
    exact (hinside'.eq_of_append hinside heq'.symm).1
  depth_popped := by
    intro before name d after inside d' behind heq hinside hafter
    obtain ⟨-, inside', d'', behind', hinside', rfl, rfl⟩ := h.split heq
    obtain ⟨-, hpop⟩ := hinside'.eq_of_append hinside hafter
    cases hpop
    rfl

end Event

/-- What an entry says about frames. -/
def Entry.frameEvent? : Entry → Option Event
  | trace (.pushed name depth) => some (.pushed name depth)
  | trace (.popped name depth) => some (.popped name depth)
  | _ => none

/-- What a log says about frames. -/
def Entry.frameEvents (log : List Entry) : List Event := log.filterMap frameEvent?

theorem Entry.frameEvents_append (log log' : List Entry) :
    frameEvents (log ++ log') = frameEvents log ++ frameEvents log' :=
  List.filterMap_append

theorem Entry.frameEvents_bracket (name : String) (d d' : Nat) (log : List Entry) :
    frameEvents (.trace (.pushed name d) :: (log ++ [.trace (.popped name d')]))
      = .pushed name d :: (frameEvents log ++ [.popped name d']) := by
  simp [frameEvents, frameEvent?]

/-! ## §2. Contexts that are followed. -/

namespace Context

/-- Tracing is on, and there are no definitions but those of the core and functions of the
language. -/
structure IsFollowed (ctx : Context) : Prop where
  active : ctx.tracer = .active
  plain : ctx.registry.IsPlain

variable {ctx ctx' : Context}

@[simp] theorem tracer_trace (ctx : Context) (event : Context → Event) :
    (ctx.trace event).tracer = ctx.tracer := by
  unfold trace
  split <;> rfl

theorem toList_log_trace (h : ctx.tracer = .active) (event : Context → Event) :
    (ctx.trace event).log.toList = ctx.log.toList ++ [.trace (event ctx)] := by
  unfold trace
  rw [h]
  exact Array.toList_push

theorem pop_eq {stack : Stack} {f : Frame} (hstack : ctx.stack = stack.push f) :
    ctx.pop = { ctx with stack := stack }.trace fun ctx => .popped f.name ctx.depth := by
  unfold pop
  rw [hstack, Stack.top?_push, Stack.pop_push]

namespace IsFollowed

theorem trace (h : ctx.IsFollowed) (event : Context → Event) : (ctx.trace event).IsFollowed :=
  ⟨(ctx.tracer_trace event).trans h.active, (ctx.registry_trace event).symm ▸ h.plain⟩

theorem withStack (h : ctx.IsFollowed) (stack : Stack) :
    { ctx with stack := stack }.IsFollowed :=
  ⟨h.active, h.plain⟩

/-- A new frame is logged with its number. -/
theorem toList_log_opened (h : ctx.IsFollowed) (f : Frame) :
    (ctx.opened f).log.toList = ctx.log.toList ++ [.trace (.pushed f.name (ctx.depth + 1))] := by
  refine toList_log_trace ?_ _
  exact h.active

theorem opened (h : ctx.IsFollowed) (f : Frame) : (ctx.opened f).IsFollowed :=
  (h.withStack (ctx.stack.push f)).trace _

/-- A frame that is closed is logged with the number of those around it. -/
theorem toList_log_pop (h : ctx.IsFollowed) {stack : Stack} {f : Frame}
    (hstack : ctx.stack = stack.push f) :
    ctx.pop.log.toList = ctx.log.toList ++ [.trace (.popped f.name stack.depth)] := by
  rw [pop_eq hstack]
  refine toList_log_trace ?_ _
  exact h.active

theorem pop (h : ctx.IsFollowed) {stack : Stack} {f : Frame} (hstack : ctx.stack = stack.push f) :
    ctx.pop.IsFollowed := by
  rw [pop_eq hstack]
  exact (h.withStack stack).trace _

theorem register (h : ctx.IsFollowed) {d : Definition} (hd : d.IsPlain) :
    (ctx.register d).IsFollowed := by
  refine ⟨?_, (ctx.registry_register d).symm ▸ h.plain.register hd⟩
  unfold Context.register
  dsimp only
  split
  · rw [tracer_trace]
    exact h.active
  · exact h.active

/-- A definition is logged if it replaces another, and never as a frame. -/
theorem toList_log_register (h : ctx.IsFollowed) (d : Definition) :
    ∃ gained, (ctx.register d).log.toList = ctx.log.toList ++ gained
      ∧ Entry.frameEvents gained = [] := by
  unfold Context.register
  dsimp only
  split
  · refine ⟨_, toList_log_trace ?_ _, rfl⟩
    exact h.active
  · exact ⟨[], (List.append_nil _).symm, rfl⟩

end IsFollowed

end Context

/-! ## §3. Frames that a step asks for. -/

/-- A frame that an evaluation asks for in a context, for a body. -/
structure Request where
  who : Moment
  frame : Frame
  body : Node
  ctx : Context

namespace Request

/-- The frame is opened. -/
def isGranted (r : Request) : Bool := !r.ctx.isFull

/-- How the frame is logged when it is opened. -/
def pushed (r : Request) : Event := .pushed r.frame.name (r.ctx.depth + 1)

/-- How much was logged when the frame was asked for. -/
def time (r : Request) : Nat := r.ctx.log.size

end Request

/-- The frames that were asked for between a context and the end of a step, in order; those
that were granted, and only those, are logged, with brackets around what is inside of them. -/
structure Outcome.Records (ctx : Context) (rs : List Request) (o : Outcome α) : Prop where
  followed : o.context.IsFollowed
  stack_eq : o.context.stack = ctx.stack
  logged : ∃ gained, o.context.log.toList = ctx.log.toList ++ gained
    ∧ Event.Nested ctx.depth (Entry.frameEvents gained)
    ∧ (Entry.frameEvents gained).filter Event.isPush
        = (rs.filter Request.isGranted).map Request.pushed
  since : ∀ r ∈ rs, ctx.log.size ≤ r.time
  ascending : rs.Pairwise fun r r' => r.time < r'.time
  /-- A frame that is refused is an error, so that something is logged behind all others. -/
  before_end : ∀ a ctx', o = .done a ctx' → ∀ r ∈ rs, r.time < ctx'.log.size

namespace Outcome.Records

variable {ctx ctx' : Context} {o : Outcome α} {rs rs' : List Request}

theorem size_le (h : o.Records ctx rs) : ctx.log.size ≤ o.context.log.size := by
  obtain ⟨gained, hlog, -⟩ := h.logged
  have hlen := congrArg List.length hlog
  simp only [Array.length_toList, List.length_append] at hlen
  omega

/-- Nothing is asked for, and nothing is logged about frames. -/
theorem of_quiet {gained : List Entry} (hfollowed : o.context.IsFollowed)
    (hstack : o.context.stack = ctx.stack)
    (hlog : o.context.log.toList = ctx.log.toList ++ gained)
    (hquiet : Entry.frameEvents gained = []) : o.Records ctx [] where
  followed := hfollowed
  stack_eq := hstack
  logged := ⟨gained, hlog, by rw [hquiet]; exact .nil, by rw [hquiet]; rfl⟩
  since := by simp
  ascending := .nil
  before_end := by simp

/-- A step that does not end with a value ends in the context of another one. -/
theorem of_context {o' : Outcome β} (h : o.Records ctx rs) (hcontext : o'.context = o.context)
    (hend : ∀ b ctx', o' ≠ .done b ctx') : o'.Records ctx rs where
  followed := hcontext ▸ h.followed
  stack_eq := hcontext ▸ h.stack_eq
  logged := hcontext ▸ h.logged
  since := h.since
  ascending := h.ascending
  before_end := fun b ctx' heq => absurd heq (hend b ctx')

/-- One step behind another. -/
theorem append {a : α} {o' : Outcome β} (h : (Outcome.done a ctx').Records ctx rs)
    (h' : o'.Records ctx' rs') : o'.Records ctx (rs ++ rs') := by
  have hdepth : ctx'.depth = ctx.depth := congrArg Stack.depth h.stack_eq
  obtain ⟨gained, hlog, hnested, hpushes⟩ := h.logged
  obtain ⟨gained', hlog', hnested', hpushes'⟩ := h'.logged
  have hsize := h.size_le
  have hbefore := h.before_end a ctx' rfl
  refine ⟨h'.followed, h'.stack_eq.trans h.stack_eq, ⟨gained ++ gained', ?_, ?_, ?_⟩, ?_, ?_, ?_⟩
  · have hlog : ctx'.log.toList = ctx.log.toList ++ gained := hlog
    rw [hlog', hlog, List.append_assoc]
  · rw [Entry.frameEvents_append]
    rw [hdepth] at hnested'
    exact hnested.append hnested'
  · rw [Entry.frameEvents_append, List.filter_append, hpushes, hpushes', List.filter_append,
      List.map_append]
  · intro r hr
    rcases List.mem_append.1 hr with hr | hr
    · exact h.since r hr
    · exact hsize.trans (h'.since r hr)
  · -- the first step has ended when the second one asks for its first frame
    refine List.pairwise_append.2 ⟨h.ascending, h'.ascending, fun r hr r' hr' => ?_⟩
    exact (hbefore r hr).trans_le (h'.since r' hr')
  · intro b c hend r hr
    rcases List.mem_append.1 hr with hr | hr
    · have hsize' := h'.size_le
      rw [hend] at hsize'
      exact (hbefore r hr).trans_le hsize'
    · exact h'.before_end b c hend r hr

/-- **A frame that is opened is closed behind all that is asked for inside of it.** -/
theorem inFrame {f : Frame} (who : Moment) (body : Node) (hctx : ctx.IsFollowed)
    (hfree : ctx.isFull = false) (h : o.Records (ctx.opened f) rs) :
    (o.mapContext Context.pop).Records ctx (⟨who, f, body, ctx⟩ :: rs) := by
  have hstack : o.context.stack = ctx.stack.push f := h.stack_eq.trans (ctx.stack_opened f)
  have hcontext : (o.mapContext Context.pop).context = o.context.pop := by
    cases o <;> rfl
  obtain ⟨gained, hlog, hnested, hpushes⟩ := h.logged
  have hopened := hctx.toList_log_opened f
  have hpop := h.followed.toList_log_pop hstack
  -- the log grows where the frame is opened and where it is closed
  have hopens : (ctx.opened f).log.size = ctx.log.size + 1 := by
    simpa using congrArg List.length hopened
  have hcloses : o.context.pop.log.size = o.context.log.size + 1 := by
    simpa using congrArg List.length hpop
  have hsize := h.size_le
  refine ⟨?_, ?_, ⟨.trace (.pushed f.name (ctx.depth + 1))
    :: (gained ++ [.trace (.popped f.name ctx.depth)]), ?_, ?_, ?_⟩, ?_, ?_, ?_⟩
  · rw [hcontext]
    exact h.followed.pop hstack
  · rw [hcontext, Context.stack_pop, hstack, Stack.pop_push]
  · rw [hcontext, hpop, hlog, hopened, List.append_assoc, List.append_assoc]
    rfl
  · rw [Context.depth_opened] at hnested
    rw [Entry.frameEvents_bracket]
    exact .cons hnested .nil
  · have hgranted : Request.isGranted ⟨who, f, body, ctx⟩ = true := by
      rw [Request.isGranted, hfree]
      rfl
    rw [Entry.frameEvents_bracket, List.filter_cons_of_pos rfl, List.filter_append, hpushes,
      List.filter_cons_of_pos hgranted, List.map_cons]
    exact congrArg _ (List.append_nil _)
  · intro r hr
    rcases List.mem_cons.1 hr with rfl | hr
    · exact Nat.le_refl _
    · have hsince := h.since r hr
      omega
  · refine List.pairwise_cons.2 ⟨fun r hr => ?_, h.ascending⟩
    have hsince := h.since r hr
    show ctx.log.size < r.time
    omega
  · intro a ctx' hend r hr
    cases o with
    | failed _ _ | halted _ _ => cases hend
    | done _ c =>
      cases hend
      have hcloses : c.pop.log.size = c.log.size + 1 := hcloses
      rcases List.mem_cons.1 hr with rfl | hr
      · show ctx.log.size < c.pop.log.size
        have hsize : (ctx.opened f).log.size ≤ c.log.size := hsize
        omega
      · have hbefore := h.before_end _ c rfl r hr
        omega

end Outcome.Records

namespace Eval

/-- The frames that the step asks for are those that `R` holds of. -/
def Requests (act : Eval α) (ctx : Context) (R : Request → Prop) : Prop :=
  ∃ rs, (act.run ctx).Records ctx rs ∧ ∀ r, r ∈ rs ↔ R r

variable {act : Eval α} {ctx : Context} {R : Request → Prop}

theorem Requests.congr {R' : Request → Prop} (h : act.Requests ctx R) (hiff : ∀ r, R r ↔ R' r) :
    act.Requests ctx R' := by
  obtain ⟨rs, hrecords, hmem⟩ := h
  exact ⟨rs, hrecords, fun r => (hmem r).trans (hiff r)⟩

theorem Requests.of_run_eq {act' : Eval α} (h : act.Requests ctx R)
    (hrun : act'.run ctx = act.run ctx) : act'.Requests ctx R := by
  obtain ⟨rs, hrecords, hmem⟩ := h
  exact ⟨rs, hrun ▸ hrecords, hmem⟩

/-- A step that changes nothing of what is followed asks for no frame. -/
theorem requests_quiet (gained : List Entry) (hfollowed : (act.run ctx).context.IsFollowed)
    (hstack : (act.run ctx).context.stack = ctx.stack)
    (hlog : (act.run ctx).context.log.toList = ctx.log.toList ++ gained)
    (hquiet : Entry.frameEvents gained = []) : act.Requests ctx fun _ => False :=
  ⟨[], .of_quiet hfollowed hstack hlog hquiet, by simp⟩

theorem requests_still (hctx : ctx.IsFollowed) (hstill : (act.run ctx).context = ctx) :
    act.Requests ctx fun _ => False :=
  requests_quiet [] (hstill.symm ▸ hctx) (by rw [hstill])
    (by rw [hstill, List.append_nil]) rfl

theorem requests_trace (hctx : ctx.IsFollowed) {event : Context → Event}
    (hevent : Entry.frameEvent? (.trace (event ctx)) = none) :
    (trace event).Requests ctx fun _ => False := by
  refine requests_quiet _ (hctx.trace event) (ctx.stack_trace event)
    (Context.toList_log_trace hctx.active event) ?_
  simp [Entry.frameEvents, hevent]

theorem requests_write (hctx : ctx.IsFollowed) (text : String) :
    (write text).Requests ctx fun _ => False := by
  cases houtput : ctx.output with
  | working =>
    have hrun : (write text).run ctx = .done () (ctx.write text) := by
      simp [write, run_bind, houtput]
    exact requests_quiet [] (hrun ▸ ⟨hctx.active, hctx.plain⟩) (hrun ▸ rfl)
      (by rw [hrun, List.append_nil]; rfl) rfl
  | broken reason =>
    have hrun : (write text).run ctx = .failed (.external reason) ctx := by
      simp [write, run_bind, houtput]
    exact requests_still hctx (by rw [hrun]; rfl)

/-- **Steps in a row ask for the frames of both**, if the second one is reached. -/
theorem requests_bind {next : α → Eval β} {R' : α → Context → Request → Prop}
    (hact : act.Requests ctx R)
    (hnext : ∀ a ctx', act.run ctx = .done a ctx' → ctx'.IsFollowed →
      (next a).Requests ctx' (R' a ctx')) :
    (act >>= next).Requests ctx
      fun r => R r ∨ ∃ a ctx', act.run ctx = .done a ctx' ∧ R' a ctx' r := by
  obtain ⟨rs, hrecords, hmem⟩ := hact
  unfold Requests
  rw [run_bind]
  cases hrun : act.run ctx with
  | done a ctx' =>
    rw [hrun] at hrecords
    obtain ⟨rs', hrecords', hmem'⟩ := hnext a ctx' hrun hrecords.followed
    refine ⟨rs ++ rs', hrecords.append hrecords', fun r => ?_⟩
    rw [List.mem_append, hmem, hmem']
    simp
  | failed e ctx' =>
    rw [hrun] at hrecords
    exact ⟨rs, hrecords.of_context rfl (by simp), fun r => by simp [hmem]⟩
  | halted why ctx' =>
    rw [hrun] at hrecords
    exact ⟨rs, hrecords.of_context rfl (by simp), fun r => by simp [hmem]⟩

/-- A further step that asks for nothing. -/
theorem requests_bind_pure {f : α → β} (hact : act.Requests ctx R) :
    (act >>= fun a => pure (f a)).Requests ctx R := by
  have hpure : ∀ a ctx', act.run ctx = .done a ctx' → ctx'.IsFollowed →
      (pure (f a) : Eval β).Requests ctx' fun _ => False :=
    fun _ _ _ hctx' => requests_still hctx' rfl
  exact (requests_bind hact hpure).congr (by simp)

/-- A step behind an event that is not about frames. -/
theorem requests_trace_bind {event : Context → Event} (hctx : ctx.IsFollowed)
    (hevent : Entry.frameEvent? (.trace (event ctx)) = none)
    (hact : act.Requests (ctx.trace event) R) :
    (trace event >>= fun _ => act).Requests ctx R := by
  have hnext : ∀ a ctx', (trace event).run ctx = .done a ctx' → ctx'.IsFollowed →
      act.Requests ctx' R := by
    intro a ctx' hrun _
    cases hrun
    exact hact
  exact (requests_bind (requests_trace hctx hevent) hnext).congr (by simp [trace])

theorem requests_within {n : Node} (hact : act.Requests ctx R) :
    (act.within n).Requests ctx R := by
  obtain ⟨rs, hrecords, hmem⟩ := hact
  refine ⟨rs, ?_, hmem⟩
  unfold within recover
  dsimp only
  generalize act.run ctx = o at hrecords
  cases o with
  | done a ctx' => exact hrecords
  | halted why ctx' => exact hrecords
  | failed e ctx' =>
    show (Outcome.failed (nameNode n e ctx') ctx').Records ctx rs
    exact hrecords.of_context rfl (by simp)

/-- **A frame is asked for, and if it is granted, so are those inside of it.** -/
theorem requests_inFrame {frame : Frame} (who : Moment) (body : Node) (hctx : ctx.IsFollowed)
    (hact : ctx.isFull = false → act.Requests (ctx.opened frame) R) :
    (inFrame frame act).Requests ctx
      fun r => r = ⟨who, frame, body, ctx⟩ ∨ ctx.isFull = false ∧ R r := by
  unfold Requests
  cases hfull : ctx.isFull with
  | true =>
    rw [run_inFrame_of_isFull frame act hfull]
    refine ⟨[⟨who, frame, body, ctx⟩], ⟨hctx, rfl, ⟨[], ?_, .nil, ?_⟩, ?_, ?_, ?_⟩, ?_⟩
    · exact (List.append_nil _).symm
    · simp [Entry.frameEvents, Request.isGranted, hfull]
    · simp [Request.time]
    · simp
    · simp
    · simp
  | false =>
    obtain ⟨rs, hrecords, hmem⟩ := hact hfull
    rw [run_inFrame frame act hfull]
    exact ⟨_, hrecords.inFrame who body hctx hfull, fun r => by simp [hmem]⟩

end Eval

end IntLisp
