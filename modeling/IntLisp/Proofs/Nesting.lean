/-
  IntLisp.Proofs.Nesting
  ──────────────────────
  **THE TRACE OF AN EVALUATION SHOWS ITS FRAMES.**

  A frame is asked for by a call, once its operands have values, and by a
  `let`, once its bindings are made.  Every moment asks for the frames that
  are asked for while it lasts, and for no others; this is shown from the
  inside out, for each moment from those that it demands:

      a list    what its nodes ask for, as far as they are reached,
      a call    what its operands ask for, and then the frame of the body,
      a `let`   what its values ask for, and then the frame of the body.

  So the trace of an evaluation, however it ends, is well bracketed and has
  one pair of brackets for each frame that was asked for and granted.
-/
import IntLisp.Proofs.Brackets

namespace IntLisp

open Eval Relation

/-! ## §1. Frames that are asked for. -/

namespace Moment

variable {m m' : Moment} {name : String} {operands : List Node} {ctx : Context}

/-- The frame is asked for by the evaluation, or by one that begins while it lasts. -/
structure IsAsked (m : Moment) (r : Request) : Prop where
  reached : m.Reaches r.who
  asks : r.who.Asks r.frame r.body r.ctx

theorem isAsked_iff {who : Moment} {frame : Frame} {body : Node} :
    m.IsAsked ⟨who, frame, body, ctx⟩
      ↔ (who = m ∧ m.Asks frame body ctx)
        ∨ ∃ m', m.Demands m' ∧ m'.IsAsked ⟨who, frame, body, ctx⟩ := by
  constructor
  · rintro ⟨hreaches, hasks⟩
    rcases ReflTransGen.cases_head hreaches with rfl | ⟨next, hdemands, hreaches⟩
    · exact .inl ⟨rfl, hasks⟩
    · exact .inr ⟨next, hdemands, hreaches, hasks⟩
  · rintro (⟨rfl, hasks⟩ | ⟨next, hdemands, hreaches, hasks⟩)
    · exact ⟨.refl, hasks⟩
    · exact ⟨.head hdemands hreaches, hasks⟩

/-- An evaluation asks for one frame at most. -/
theorem Asks.unique {frame frame' : Frame} {body body' : Node} {ctx' : Context}
    (h : m.Asks frame body ctx) (h' : m.Asks frame' body' ctx') :
    frame = frame' ∧ body = body' ∧ ctx = ctx' := by
  cases h with
  | call hcalls hfound hargs _ =>
    cases h' with
    | call hcalls' hfound' hargs' _ =>
      obtain ⟨rfl, rfl⟩ := hcalls.unique hcalls'
      rw [hfound] at hfound'
      cases hfound'
      obtain ⟨rfl, rfl⟩ := hargs.unique hargs'
      exact ⟨rfl, rfl, rfl⟩
    | scope hcalls' hlet' => exact absurd hlet' (hcalls.not_isLet (.of_user hfound) hcalls')
  | scope hcalls hlet hbindings =>
    cases h' with
    | call hcalls' hfound' =>
      exact absurd hlet (hcalls'.not_isLet (.of_user hfound') hcalls)
    | scope hcalls' _ hbindings' =>
      obtain ⟨rfl, heq⟩ := hcalls.unique hcalls'
      cases heq
      rw [hbindings] at hbindings'
      cases hbindings'
      exact ⟨rfl, rfl, rfl⟩

/-- The frame is that of a body which is reached in `ctx`, or asked for inside of it. -/
def IsAskedFrom (m : Moment) (ctx : Context) (frame : Frame) (body : Node) (r : Request) : Prop :=
  r = ⟨m, frame, body, ctx⟩ ∨ ∃ m', m.Enters ctx frame body m' ∧ m'.IsAsked r

/-- The frames that the evaluation asks for are those that are asked for while it lasts. -/
def Accounts (m : Moment) : Prop := (m.node.evalWith m.engine).Requests m.ctx m.IsAsked

/-! ## §2. Rows of nodes, and bodies. -/

/-- Of nodes in a row the evaluation of `n` begins, once those before it have values. -/
inductive BeginsNode (engine : Engine) (ns : List Node) (ctx : Context) :
    Node → Context → Prop where
  | intro {before after : List Node} {n : Node} {vs : List Value} {ctx' : Context}
      (hns : ns = before ++ n :: after) (hbefore : Evaluates engine before ctx vs ctx') :
      BeginsNode engine ns ctx n ctx'

theorem beginsNode_nil {engine : Engine} {n : Node} {ctx' : Context} :
    ¬ BeginsNode engine [] ctx n ctx' := by
  rintro ⟨hns, -⟩
  simp at hns

theorem beginsNode_cons {engine : Engine} {n n' : Node} {ns : List Node} {ctx' : Context} :
    BeginsNode engine (n :: ns) ctx n' ctx' ↔ (n' = n ∧ ctx' = ctx)
      ∨ ∃ v ctx₁, (n.evalWith engine).run ctx = .done v ctx₁
        ∧ BeginsNode engine ns ctx₁ n' ctx' := by
  constructor
  · rintro ⟨hns, hbefore⟩
    cases hbefore with
    | nil =>
      cases hns
      exact .inl ⟨rfl, rfl⟩
    | cons hn hbefore =>
      cases hns
      exact .inr ⟨_, _, hn, .intro rfl hbefore⟩
  · rintro (⟨rfl, rfl⟩ | ⟨v, ctx₁, hn, hns, hbefore⟩)
    · exact .intro (List.nil_append _).symm (.nil _)
    · exact .intro (by rw [hns, ← List.cons_append]) (.cons hn hbefore)

/-- Nodes in a row ask for what those of them ask for whose evaluation begins. -/
theorem requests_evalAll (m : Moment) (ns : List Node) (hctx : ctx.IsFollowed)
    (h : ∀ n ctx', BeginsNode m.engine ns ctx n ctx' → ctx'.IsFollowed →
      Accounts { m with node := n, ctx := ctx' }) :
    (Node.evalAll m.engine ns).Requests ctx fun r => ∃ n ctx',
      BeginsNode m.engine ns ctx n ctx' ∧ IsAsked { m with node := n, ctx := ctx' } r := by
  induction ns generalizing ctx with
  | nil => exact (requests_still hctx rfl).congr (by simp [beginsNode_nil])
  | cons n ns ih =>
    have hfirst : (n.evalWith m.engine).Requests ctx (IsAsked { m with node := n, ctx := ctx }) :=
      h n ctx (beginsNode_cons.2 (.inl ⟨rfl, rfl⟩)) hctx
    refine (requests_bind hfirst fun v ctx₁ hn hctx₁ => requests_bind_pure (ih hctx₁ ?_)).congr ?_
    · intro n' ctx' hbegins
      exact h n' ctx' (beginsNode_cons.2 (.inr ⟨v, ctx₁, hn, hbegins⟩))
    · intro r
      simp only [beginsNode_cons]
      constructor
      · rintro (hasked | ⟨v, ctx₁, hn, n', ctx', hbegins, hasked⟩)
        · exact ⟨n, ctx, .inl ⟨rfl, rfl⟩, hasked⟩
        · exact ⟨n', ctx', .inr ⟨v, ctx₁, hn, hbegins⟩, hasked⟩
      · rintro ⟨n', ctx', ⟨rfl, rfl⟩ | ⟨v, ctx₁, hn, hbegins⟩, hasked⟩
        · exact .inl hasked
        · exact .inr ⟨v, ctx₁, hn, n', ctx', hbegins, hasked⟩

/-- The node pairs a name that the frame does not bind with a value. -/
def Pairs (frame : Frame) (pair value : Node) : Prop :=
  ∃ token key x, pair = .expression token [key, value] ∧ key.symbol? = some x
    ∧ frame.lookup x = none

/-- Whatever else stands among the bindings of a `let` is an error. -/
theorem evalBinding_of_not_pairs (engine : Engine) (form : String) {frame : Frame} {pair : Node}
    (h : ∀ value, ¬ Pairs frame pair value) :
    ∃ e, Node.evalBinding engine form frame pair = Eval.fail e := by
  match pair with
  | .expression token [key, value] =>
    rw [Node.evalBinding]
    cases hkey : key.symbol? with
    | none => exact ⟨_, rfl⟩
    | some x =>
      cases hfresh : frame.lookup x with
      | none => exact absurd ⟨token, key, x, rfl, hkey, hfresh⟩ (h value)
      | some v => exact ⟨_, if_pos (by rw [hfresh]; rfl)⟩
  | .expression _ [] | .expression _ [_] | .expression _ (_ :: _ :: _ :: _)
  | .int _ _ | .symbol _ _ | .list _ _ | .foreign _ _ _ => exact ⟨_, rfl⟩

/-- A binding asks for what its value asks for. -/
theorem requests_evalBinding (m : Moment) (form : String) (frame : Frame) (pair : Node)
    (hctx : ctx.IsFollowed)
    (h : ∀ value, Pairs frame pair value → Accounts { m with node := value, ctx := ctx }) :
    (Node.evalBinding m.engine form frame pair).Requests ctx fun r => ∃ value,
      Pairs frame pair value ∧ IsAsked { m with node := value, ctx := ctx } r := by
  by_cases hpair : ∃ value, Pairs frame pair value
  · obtain ⟨value, hvalue⟩ := hpair
    have haccounts : (value.evalWith m.engine).Requests ctx
      (IsAsked { m with node := value, ctx := ctx }) := h value hvalue
    obtain ⟨token, key, x, rfl, hkey, hfresh⟩ := hvalue
    rw [evalBinding_pair hkey hfresh]
    refine (requests_bind_pure haccounts).congr fun r => ?_
    constructor
    · intro hasked
      exact ⟨value, ⟨token, key, x, rfl, hkey, hfresh⟩, hasked⟩
    · rintro ⟨value', ⟨_, _, _, heq, -⟩, hasked⟩
      cases heq
      exact hasked
  · obtain ⟨e, he⟩ := evalBinding_of_not_pairs m.engine form (not_exists.1 hpair)
    rw [he]
    refine (requests_still hctx rfl).congr fun r => ?_
    simp only [false_iff]
    rintro ⟨value, hvalue, -⟩
    exact hpair ⟨value, hvalue⟩

/-- Of bindings in a row the evaluation of a value begins, once those before it are made. -/
inductive BeginsValue (engine : Engine) (form : String) (frame : Frame) (pairs : List Node)
    (ctx : Context) : Node → Context → Prop where
  | intro {before after : List Node} {pair value : Node} {frame' : Frame} {ctx' : Context}
      (hpairs : pairs = before ++ pair :: after)
      (hbefore : (Node.evalBindings engine form frame before).run ctx = .done frame' ctx')
      (hpair : Pairs frame' pair value) : BeginsValue engine form frame pairs ctx value ctx'

theorem beginsValue_nil {engine : Engine} {form : String} {frame : Frame} {value : Node}
    {ctx' : Context} : ¬ BeginsValue engine form frame [] ctx value ctx' := by
  rintro ⟨hpairs, -, -⟩
  simp at hpairs

theorem beginsValue_cons {engine : Engine} {form : String} {frame : Frame} {pair value : Node}
    {pairs : List Node} {ctx' : Context} :
    BeginsValue engine form frame (pair :: pairs) ctx value ctx'
      ↔ (Pairs frame pair value ∧ ctx' = ctx)
      ∨ ∃ frame₁ ctx₁, (Node.evalBinding engine form frame pair).run ctx = .done frame₁ ctx₁
        ∧ BeginsValue engine form frame₁ pairs ctx₁ value ctx' := by
  constructor
  · intro h
    cases h with
    | @intro before after _ _ frame' _ hpairs hbefore hpair =>
      cases before with
      | nil =>
        cases hpairs
        cases hbefore
        exact .inl ⟨hpair, rfl⟩
      | cons _ before =>
        cases hpairs
        rw [Node.evalBindings, run_bind_eq_done] at hbefore
        obtain ⟨frame₁, ctx₁, hfirst, hbefore⟩ := hbefore
        exact .inr ⟨frame₁, ctx₁, hfirst, .intro rfl hbefore hpair⟩
  · rintro (⟨hpair, rfl⟩ | ⟨frame₁, ctx₁, hfirst, hpairs, hbefore, hpair⟩)
    · exact .intro (List.nil_append _).symm rfl hpair
    · refine .intro (by rw [hpairs, ← List.cons_append]) ?_ hpair
      rw [Node.evalBindings, run_bind_eq_done]
      exact ⟨frame₁, ctx₁, hfirst, hbefore⟩

/-- Bindings in a row ask for what those values ask for whose evaluation begins. -/
theorem requests_evalBindings (m : Moment) (form : String) (frame : Frame) (pairs : List Node)
    (hctx : ctx.IsFollowed)
    (h : ∀ value ctx', BeginsValue m.engine form frame pairs ctx value ctx' → ctx'.IsFollowed →
      Accounts { m with node := value, ctx := ctx' }) :
    (Node.evalBindings m.engine form frame pairs).Requests ctx fun r => ∃ value ctx',
      BeginsValue m.engine form frame pairs ctx value ctx'
        ∧ IsAsked { m with node := value, ctx := ctx' } r := by
  induction pairs generalizing frame ctx with
  | nil => exact (requests_still hctx rfl).congr (by simp [beginsValue_nil])
  | cons pair pairs ih =>
    have hfirst := m.requests_evalBinding form frame pair hctx fun value hpair =>
      h value ctx (beginsValue_cons.2 (.inl ⟨hpair, rfl⟩)) hctx
    refine (requests_bind hfirst fun frame₁ ctx₁ hrun hctx₁ => ih frame₁ hctx₁ ?_).congr ?_
    · intro value ctx' hbegins
      exact h value ctx' (beginsValue_cons.2 (.inr ⟨frame₁, ctx₁, hrun, hbegins⟩))
    · intro r
      simp only [beginsValue_cons]
      constructor
      · rintro (⟨value, hpair, hasked⟩ | ⟨frame₁, ctx₁, hrun, value, ctx', hbegins, hasked⟩)
        · exact ⟨value, ctx, .inl ⟨hpair, rfl⟩, hasked⟩
        · exact ⟨value, ctx', .inr ⟨frame₁, ctx₁, hrun, hbegins⟩, hasked⟩
      · rintro ⟨value, ctx', ⟨hpair, rfl⟩ | ⟨frame₁, ctx₁, hrun, hbegins⟩, hasked⟩
        · exact .inl ⟨value, hpair, hasked⟩
        · exact .inr ⟨frame₁, ctx₁, hrun, value, ctx', hbegins, hasked⟩

/-- A body asks for its frame, and inside of it for what its evaluation asks for. -/
theorem requests_enter (frame : Frame) (body : Node) (hctx : ctx.IsFollowed)
    (h : ∀ m', m.Enters ctx frame body m' → m'.Accounts) :
    (m.engine.enter frame body).Requests ctx (m.IsAskedFrom ctx frame body) := by
  rw [engine, enter_withRoom]
  cases hroom : m.room with
  | zero =>
    -- the frame is opened, and the evaluation stops in it
    have hnone : ∀ m', ¬ m.Enters ctx frame body m' := by
      intro m' henters
      have hroom' := henters.room_eq
      omega
    refine (requests_inFrame m body hctx fun _ => requests_still (hctx.opened frame) rfl).congr ?_
    simp [IsAskedFrom, hnone]
  | succ room =>
    let inner : Moment := ⟨body, ctx.opened frame, room, m.calls⟩
    have henters : ctx.isFull = false → m.Enters ctx frame body inner :=
      fun hfree => ⟨hfree, hroom, rfl, rfl, rfl⟩
    refine (requests_inFrame m body hctx fun hfree => h inner (henters hfree)).congr fun r => ?_
    constructor
    · rintro (heq | ⟨hfree, hasked⟩)
      · exact .inl heq
      · exact .inr ⟨inner, henters hfree, hasked⟩
    · rintro (heq | ⟨m', hm', hasked⟩)
      · exact .inl heq
      · have hfree := hm'.free
        rw [hm'.unique (henters hfree)] at hasked
        exact .inr ⟨hfree, hasked⟩

/-! ## §3. Moment by moment. -/

/-- **Only lists, calls and `let`s ask for frames.** -/
theorem IsAsked.cases {r : Request} (h : m.IsAsked r) :
    (∃ token ns, m.node = .list token ns)
      ∨ (∃ name operands, m.Calls name operands ∧ m.IsCall name)
      ∨ ∃ name token pairs body rest, m.Calls name (.expression token pairs :: body :: rest)
        ∧ m.IsLet name (.expression token pairs :: body :: rest) := by
  obtain ⟨who, frame, body, ctx⟩ := r
  rcases isAsked_iff.1 h with ⟨-, hasks⟩ | ⟨m', hdemands, -⟩
  · cases hasks with
    | call hcalls hfound => exact .inr (.inl ⟨_, _, hcalls, .of_user hfound⟩)
    | scope hcalls hlet => exact .inr (.inr ⟨_, _, _, _, _, hcalls, hlet⟩)
  · cases hdemands with
    | item hnode => exact .inl ⟨_, _, hnode⟩
    | operand hcalls hcall => exact .inr (.inl ⟨_, _, hcalls, hcall⟩)
    | body hcalls hfound => exact .inr (.inl ⟨_, _, hcalls, .of_user hfound⟩)
    | letValue hcalls hlet | letBody hcalls hlet =>
      exact .inr (.inr ⟨_, _, _, _, _, hcalls, hlet⟩)

theorem isAsked_list {r : Request} {token : Option Token} {ns : List Node}
    (hnode : m.node = .list token ns) :
    m.IsAsked r ↔ ∃ n ctx', BeginsNode m.engine ns m.ctx n ctx'
      ∧ IsAsked { m with node := n, ctx := ctx' } r := by
  obtain ⟨who, frame, body, ctx⟩ := r
  rw [isAsked_iff]
  constructor
  · rintro (⟨-, hasks⟩ | ⟨m', hdemands, hasked⟩)
    · cases hasks with
      | call h | scope h => exact absurd hnode h.ne_list
    · cases hdemands with
      | item hnode' hbefore =>
        rw [hnode] at hnode'
        cases hnode'
        exact ⟨_, _, .intro rfl hbefore, hasked⟩
      | operand h | body h | letValue h | letBody h => exact absurd hnode h.ne_list
  · rintro ⟨n, ctx', ⟨rfl, hbefore⟩, hasked⟩
    exact .inr ⟨_, .item hnode hbefore, hasked⟩

/-- A call asks for what its operands ask for, and then for the frame of the function. -/
theorem isAsked_call {r : Request} (hcalls : m.Calls name operands) (hcall : m.IsCall name) :
    m.IsAsked r ↔ (∃ n ctx', BeginsNode m.engine operands (m.begun name) n ctx'
        ∧ IsAsked { m with node := n, ctx := ctx' } r)
      ∨ ∃ args ctx', (Node.evalAll m.engine operands).run (m.begun name) = .done args ctx'
        ∧ ∃ symbol params body, m.ctx.registry.resolve name = some (.user symbol params body)
          ∧ args.length = params.length
          ∧ m.IsAskedFrom (ctx'.trace fun _ => .applying name args)
              ((Frame.empty .call symbol).bindAll (params.zip args)) body r := by
  obtain ⟨who, frame, body, ctx⟩ := r
  rw [isAsked_iff]
  constructor
  · rintro (⟨rfl, hasks⟩ | ⟨m', hdemands, hasked⟩)
    · cases hasks with
      | call h hfound hargs hlen =>
        obtain ⟨rfl, rfl⟩ := hcalls.unique h
        exact .inr ⟨_, _, evaluates_iff.1 hargs, _, _, _, hfound, hlen, .inl rfl⟩
      | scope h hlet => exact absurd hlet (hcalls.not_isLet hcall h)
    · cases hdemands with
      | item hnode => exact absurd hnode hcalls.ne_list
      | operand h _ hbefore =>
        obtain ⟨rfl, rfl⟩ := hcalls.unique h
        exact .inl ⟨_, _, .intro rfl hbefore, hasked⟩
      | body h hfound hargs hlen henters =>
        obtain ⟨rfl, rfl⟩ := hcalls.unique h
        exact .inr ⟨_, _, evaluates_iff.1 hargs, _, _, _, hfound, hlen, .inr ⟨m', henters, hasked⟩⟩
      | letValue h hlet | letBody h hlet => exact absurd hlet (hcalls.not_isLet hcall h)
  · rintro (⟨n, ctx', ⟨rfl, hbefore⟩, hasked⟩ | ⟨args, ctx', hargs, symbol, params, body, hfound,
      hlen, heq | ⟨m', henters, hasked⟩⟩)
    · exact .inr ⟨_, .operand hcalls hcall hbefore, hasked⟩
    · cases heq
      exact .inl ⟨rfl, .call hcalls hfound (evaluates_iff.2 hargs) hlen⟩
    · exact .inr ⟨m', .body hcalls hfound (evaluates_iff.2 hargs) hlen henters, hasked⟩

/-- A `let` asks for what its values ask for, and then for its own frame. -/
theorem isAsked_let {r : Request} {token : Option Token} {pairs rest : List Node} {body : Node}
    (hcalls : m.Calls name (.expression token pairs :: body :: rest))
    (hlet : m.IsLet name (.expression token pairs :: body :: rest)) :
    m.IsAsked r ↔ (∃ value ctx', BeginsValue m.engine name (Frame.empty .scope name) pairs
          (m.begun name) value ctx' ∧ IsAsked { m with node := value, ctx := ctx' } r)
      ∨ ∃ frame ctx', (Node.evalBindings m.engine name (Frame.empty .scope name) pairs).run
          (m.begun name) = .done frame ctx' ∧ m.IsAskedFrom ctx' frame body r := by
  obtain ⟨who, frame, body, ctx⟩ := r
  rw [isAsked_iff]
  constructor
  · rintro (⟨rfl, hasks⟩ | ⟨m', hdemands, hasked⟩)
    · cases hasks with
      | call h hfound => exact absurd hlet (h.not_isLet (.of_user hfound) hcalls)
      | scope h _ hbindings =>
        obtain ⟨rfl, heq⟩ := hcalls.unique h
        cases heq
        exact .inr ⟨_, _, hbindings, .inl rfl⟩
    · cases hdemands with
      | item hnode => exact absurd hnode hcalls.ne_list
      | operand h hcall => exact absurd hlet (h.not_isLet hcall hcalls)
      | body h hfound => exact absurd hlet (h.not_isLet (.of_user hfound) hcalls)
      | letValue h _ hbefore hkey hfresh =>
        obtain ⟨rfl, heq⟩ := hcalls.unique h
        cases heq
        exact .inl ⟨_, _, .intro rfl hbefore ⟨_, _, _, rfl, hkey, hfresh⟩, hasked⟩
      | letBody h _ hbindings henters =>
        obtain ⟨rfl, heq⟩ := hcalls.unique h
        cases heq
        exact .inr ⟨_, _, hbindings, .inr ⟨m', henters, hasked⟩⟩
  · rintro (⟨value, ctx', ⟨rfl, hbefore, token', key, x, rfl, hkey, hfresh⟩, hasked⟩ |
      ⟨frame, ctx', hbindings, heq | ⟨m', henters, hasked⟩⟩)
    · exact .inr ⟨_, .letValue hcalls hlet hbefore hkey hfresh, hasked⟩
    · cases heq
      exact .inl ⟨rfl, .scope hcalls hlet hbindings⟩
    · exact .inr ⟨m', .letBody hcalls hlet hbindings henters, hasked⟩

/-! ## §4. Evaluations account for their frames. -/

/-- What the core does by itself asks for no frame. -/
theorem requests_apply {evaluate : Node → Eval Value} {function : Native} {symbol : String}
    {arity : Arity} (hplain : (Definition.native symbol arity function).IsPlain)
    (args : List Value) (hctx : ctx.IsFollowed) :
    (function.apply evaluate symbol args).Requests ctx fun _ => False := by
  cases function with
  | add =>
    exact Native.apply_add_cases (motive := fun act => act.Requests ctx fun _ => False) _ symbol
      args (fun _ => requests_still hctx rfl) (fun _ => requests_still hctx rfl)
      (requests_still hctx rfl)
  | print =>
    exact Native.apply_print_cases (motive := fun act => act.Requests ctx fun _ => False) _ symbol
      args (fun _ => requests_bind_pure (requests_write hctx _)) (requests_still hctx rfl)
  | code body => exact absurd hplain (Definition.IsPlain.not_code.1 body)

theorem requests_define (name : String) (operands : List Node) (hctx : ctx.IsFollowed) :
    (Eval.define name operands).Requests ctx fun _ => False := by
  match operands with
  | f :: params :: body :: more =>
    have hrun := Eval.run_define name f params body more ctx
    cases hdef : Node.definition name f params body with
    | error e =>
      rw [hdef] at hrun
      exact requests_still hctx (by rw [hrun]; rfl)
    | ok d =>
      rw [hdef] at hrun
      obtain ⟨symbol, names, rfl⟩ := Node.definition_eq_ok hdef
      obtain ⟨gained, hlog, hquiet⟩ := hctx.toList_log_register (.user symbol names body)
      refine requests_quiet gained ?_ ?_ ?_ hquiet
      · rw [hrun]
        exact hctx.register (.inr ⟨symbol, names, body, rfl⟩)
      · rw [hrun]
        exact ctx.stack_register _
      · rw [hrun]
        exact hlog
  | [] | [_] | [_, _] => exact requests_still hctx rfl

/-- What was found for a name asks for a frame if it is a function of the language that has as
many parameters as there are values. -/
theorem requests_callFound (hplain : m.ctx.registry.IsPlain) (hcall : m.IsCall name)
    (args : List Value) (hctx : ctx.IsFollowed)
    (h : ∀ symbol params body m', m.ctx.registry.resolve name = some (.user symbol params body) →
      args.length = params.length →
      m.Enters (ctx.trace fun _ => .applying name args)
        ((Frame.empty .call symbol).bindAll (params.zip args)) body m' → m'.Accounts) :
    (callFound m.engine name (m.ctx.registry.resolve name) args).Requests ctx
      fun r => ∃ symbol params body,
        m.ctx.registry.resolve name = some (.user symbol params body)
          ∧ args.length = params.length
          ∧ m.IsAskedFrom (ctx.trace fun _ => .applying name args)
              ((Frame.empty .call symbol).bindAll (params.zip args)) body r := by
  cases hfound : m.ctx.registry.resolve name with
  | none => exact (requests_still hctx rfl).congr (by simp)
  | some d =>
    have hd := hplain d (Registry.mem_of_resolve hfound)
    have happlying := hctx.trace fun _ => Event.applying name args
    rw [callFound]
    cases d with
    | native symbol arity function =>
      -- the values may be too few or too many, and then the function is not called at all
      have hinvoke : ((Definition.native symbol arity function).invoke m.engine args).Requests
          (ctx.trace fun _ => .applying name args) fun _ => False := by
        rw [Definition.invoke]
        split
        · exact requests_apply hd args happlying
        · exact requests_still happlying rfl
      exact (requests_trace_bind hctx rfl hinvoke).congr (by simp)
    | form symbol arity form => exact absurd hfound (hcall symbol arity form)
    | foreign symbol kind =>
      exact (requests_trace_bind hctx rfl (requests_still happlying rfl)).congr (by simp)
    | user symbol params body =>
      rw [Definition.invoke]
      by_cases hlen : args.length = params.length
      · rw [if_pos hlen]
        have henter := requests_enter ((Frame.empty .call symbol).bindAll (params.zip args)) body
          happlying fun m' => h symbol params body m' hfound hlen
        refine (requests_trace_bind hctx rfl henter).congr fun r => ?_
        constructor
        · intro hasked
          exact ⟨symbol, params, body, rfl, hlen, hasked⟩
        · rintro ⟨symbol', params', body', heq, -, hasked⟩
          cases heq
          exact hasked
      · rw [if_neg hlen]
        refine (requests_trace_bind hctx rfl (requests_still happlying rfl)).congr fun r => ?_
        simp only [false_iff]
        rintro ⟨symbol', params', body', heq, hlen', -⟩
        cases heq
        exact hlen hlen'

theorem requests_call (hctx : m.ctx.IsFollowed) (hcalls : m.Calls name operands)
    (hcall : m.IsCall name) (ih : ∀ m', m.Demands m' → m'.ctx.IsFollowed → m'.Accounts) :
    (Coupling.behindHead m.engine name operands).Requests (m.begun name) m.IsAsked := by
  have hbegun : (m.begun name).IsFollowed := hctx.trace _
  have hoperands := m.requests_evalAll operands hbegun fun n ctx' hbegins hctx' => by
    obtain ⟨rfl, hbefore⟩ := hbegins
    exact ih _ (.operand hcalls hcall hbefore) hctx'
  have hrow := requests_bind hoperands fun args ctx' hargs hctx' =>
    requests_callFound hctx.plain hcall args hctx' fun _ _ _ m' hfound hlen henters => by
      refine ih m' (.body hcalls hfound (evaluates_iff.2 hargs) hlen henters) ?_
      rw [henters.ctx_eq]
      exact (hctx'.trace _).opened _
  exact (hrow.of_run_eq (hcall.run_behindHead operands)).congr
    fun r => (isAsked_call hcalls hcall).symm

theorem requests_let {token : Option Token} {pairs rest : List Node} {body : Node}
    (hctx : m.ctx.IsFollowed) (hcalls : m.Calls name (.expression token pairs :: body :: rest))
    (hlet : m.IsLet name (.expression token pairs :: body :: rest))
    (ih : ∀ m', m.Demands m' → m'.ctx.IsFollowed → m'.Accounts) :
    (Coupling.behindHead m.engine name (.expression token pairs :: body :: rest)).Requests
      (m.begun name) m.IsAsked := by
  have hbegun : (m.begun name).IsFollowed := hctx.trace _
  have hvalues := m.requests_evalBindings name (Frame.empty .scope name) pairs hbegun
    fun value ctx' hbegins hctx' => by
      obtain ⟨rfl, hbefore, token', key, x, rfl, hkey, hfresh⟩ := hbegins
      exact ih _ (.letValue hcalls hlet hbefore hkey hfresh) hctx'
  have hrow := requests_bind hvalues fun frame ctx' hbindings hctx' =>
    requests_enter frame body hctx' fun m' henters => by
      refine ih m' (.letBody hcalls hlet hbindings henters) ?_
      rw [henters.ctx_eq]
      exact hctx'.opened frame
  exact (hrow.of_run_eq hlet.run_behindHead).congr fun r => (isAsked_let hcalls hlet).symm

/-- A form that is no `let` asks for no frame. -/
theorem requests_form {symbol : String} {arity : Arity} {form : Form} (hctx : m.ctx.IsFollowed)
    (hcalls : m.Calls name operands)
    (hfound : m.ctx.registry.resolve name = some (.form symbol arity form))
    (hnot : ∀ token pairs body rest, operands = .expression token pairs :: body :: rest →
      ¬ m.IsLet name operands) :
    (Coupling.behindHead m.engine name operands).Requests (m.begun name) m.IsAsked := by
  have hbegun : (m.begun name).IsFollowed := hctx.trace _
  have hnone : ∀ r, ¬ m.IsAsked r := by
    intro r hasked
    rcases hasked.cases with ⟨token, ns, hnode⟩ | ⟨name', operands', hcalls', hcall⟩ |
      ⟨name', token, pairs, body, rest, hcalls', hlet⟩
    · exact hcalls.ne_list hnode
    · obtain ⟨rfl, rfl⟩ := hcalls.unique hcalls'
      exact hcall symbol arity form hfound
    · obtain ⟨rfl, rfl⟩ := hcalls.unique hcalls'
      exact hnot token pairs body rest rfl hlet
  refine Requests.congr (R := fun _ => False) ?_ (by simp [hnone])
  refine Requests.of_run_eq ?_ (run_form hfound)
  split
  · next haccepts =>
    cases form with
    | define => exact requests_define name operands hbegun
    | code body =>
      exact absurd (hctx.plain _ (Registry.mem_of_resolve hfound))
        (Definition.IsPlain.not_code.2 body)
    | letIn =>
      -- operands that are not those of a `let` are an error
      refine requests_still hbegun ?_
      match operands with
      | .expression token pairs :: body :: rest =>
        exact absurd ⟨symbol, arity, hfound, haccepts⟩ (hnot token pairs body rest rfl)
      | .int _ _ :: _ :: _ | .symbol _ _ :: _ :: _ | .list _ _ :: _ :: _
      | .foreign _ _ _ :: _ :: _ | [] | [_] => rfl
  · exact requests_still hbegun rfl

/-- **What is behind the head of a call asks for just the frames of the moment.** -/
theorem requests_behindHead (hctx : m.ctx.IsFollowed) (hcalls : m.Calls name operands)
    (ih : ∀ m', m.Demands m' → m'.ctx.IsFollowed → m'.Accounts) :
    (Coupling.behindHead m.engine name operands).Requests (m.begun name) m.IsAsked := by
  by_cases hcall : m.IsCall name
  · exact requests_call hctx hcalls hcall ih
  · obtain ⟨symbol, arity, form, hfound⟩ :
        ∃ symbol arity form, m.ctx.registry.resolve name = some (.form symbol arity form) := by
      simpa [IsCall] using hcall
    by_cases hlet : ∃ token pairs body rest, operands = .expression token pairs :: body :: rest
        ∧ m.IsLet name operands
    · obtain ⟨token, pairs, body, rest, rfl, hlet⟩ := hlet
      exact requests_let hctx hcalls hlet ih
    · refine requests_form hctx hcalls hfound fun token pairs body rest hoperands his => ?_
      exact hlet ⟨token, pairs, body, rest, hoperands, his⟩

/-- Whatever is neither a list nor a call leaves the context as it is. -/
theorem context_outcome (hlist : ∀ token ns, m.node ≠ .list token ns)
    (hcalls : ∀ name operands, ¬ m.Calls name operands) : m.outcome.context = m.ctx := by
  unfold outcome
  cases hnode : m.node with
  | int token value => rfl
  | symbol token x =>
    rw [Node.evalWith, run_bind, run_view]
    dsimp only
    cases m.ctx.lookup x <;> rfl
  | foreign token code content => rfl
  | list token ns => exact absurd hnode (hlist token ns)
  | expression token children =>
    match children with
    | [] => rfl
    | head :: operands =>
      cases hhead : head.symbol? with
      | some name => exact absurd ⟨token, head, hnode, hhead⟩ (hcalls name operands)
      | none =>
        rw [Node.evalWith, hhead]
        rfl

/-- **Every moment asks for just the frames that are asked for while it lasts.** -/
theorem accounts (m : Moment) (hctx : m.ctx.IsFollowed) : m.Accounts := by
  -- whatever a moment asks for besides its own frame is asked for by moments that it demands
  induction m using wellFounded_demands.induction with
  | h m ih =>
    by_cases hcalls : ∃ name operands, m.Calls name operands
    · obtain ⟨name, operands, hcalls⟩ := hcalls
      have hbehind := requests_behindHead hctx hcalls ih
      obtain ⟨token, head, hnode, hhead⟩ := hcalls
      unfold Accounts
      rw [begun, hnode] at hbehind
      rw [hnode, Coupling.evalWith_call m.engine token hhead]
      exact requests_within (requests_trace_bind hctx rfl hbehind)
    · by_cases hlist : ∃ token ns, m.node = .list token ns
      · obtain ⟨token, ns, hnode⟩ := hlist
        have hrow := m.requests_evalAll ns hctx fun n ctx' hbegins hctx' => by
          obtain ⟨rfl, hbefore⟩ := hbegins
          exact ih _ (.item hnode hbefore) hctx'
        unfold Accounts
        rw [hnode, Node.evalWith, Node.evalLast_eq, map_eq_pure_bind]
        exact (requests_bind_pure hrow).congr fun r => (isAsked_list hnode).symm
      · have hnone : ∀ r, ¬ m.IsAsked r := by
          intro r hasked
          rcases hasked.cases with h | ⟨name, operands, h, -⟩ | ⟨name, _, _, _, _, h, -⟩
          · exact hlist h
          · exact hcalls ⟨name, operands, h⟩
          · exact hcalls ⟨name, _, h⟩
        simp only [not_exists] at hcalls hlist
        exact (requests_still hctx (context_outcome hlist hcalls)).congr (by simp [hnone])

/-! ## §5. Whole evaluations. -/

/-- A frame that is refused is an error of whoever asked for it. -/
theorem Asks.overflows {frame : Frame} {body : Node} (h : m.Asks frame body ctx)
    (hcode : m.ctx.registry.Within .looking) (hfull : ctx.isFull = true) :
    m.Fails (m.naming (.because .stackOverflow)) := by
  have henter : (m.engine.enter frame body).run ctx = .failed (.because .stackOverflow) ctx := by
    rw [engine, enter_withRoom]
    exact run_inFrame_of_isFull frame _ hfull
  -- the frame is refused to the engine, and what is behind the head of the node fails with that
  cases h with
  | call hcalls hfound hargs hlen =>
    have hrun := run_user hfound hargs
    rw [Definition.invoke, if_pos hlen, henter] at hrun
    exact (hcalls.fails_iff hcode).2 ⟨_, _, hrun, rfl⟩
  | scope hcalls hlet hbindings =>
    have hrun := hlet.run_behindHead
    rw [Node.evalLet, run_bind, hbindings] at hrun
    exact (hcalls.fails_iff hcode).2 ⟨_, _, hrun.trans henter, rfl⟩

/-- The frames that are asked for while `start` lasts: just the calls and `let`s that come to
need one are in the list, each of them once, with the frame that it asks for.  One that is
refused its frame ends with an overflow. -/
structure Tallies (start : Moment) (rs : List Request) : Prop where
  nodup : (rs.map Request.who).Nodup
  asked : ∀ m, m ∈ rs.map Request.who
    ↔ start.Reaches m ∧ ∃ frame body ctx, m.Asks frame body ctx
  asks : ∀ r ∈ rs, r.who.Asks r.frame r.body r.ctx
  refused : ∀ r ∈ rs, r.isGranted = false → r.who.Fails (r.who.naming (.because .stackOverflow))

theorem Reaches.isPlain (h : m.Reaches m') (hplain : m.ctx.registry.IsPlain) :
    m'.ctx.registry.IsPlain := by
  induction h with
  | refl => exact hplain
  | tail _ hdemands ih => exact hdemands.isPlain ih

theorem tallies {rs : List Request} (hplain : m.ctx.registry.IsPlain)
    (hmem : ∀ r, r ∈ rs ↔ m.IsAsked r)
    (hascending : rs.Pairwise fun r r' => r.time < r'.time) : m.Tallies rs where
  nodup := by
    -- whoever asks does so once, and no two frames are asked for at one time
    refine List.pairwise_map.2 (hascending.imp_of_mem fun {r r'} hr hr' hlt heq => ?_)
    have hasks := ((hmem r).1 hr).asks
    rw [heq] at hasks
    obtain ⟨-, -, hctx⟩ := hasks.unique ((hmem r').1 hr').asks
    rw [Request.time, Request.time, hctx] at hlt
    exact Nat.lt_irrefl _ hlt
  asked := by
    intro who
    rw [List.mem_map]
    constructor
    · rintro ⟨r, hr, rfl⟩
      obtain ⟨hreaches, hasks⟩ := (hmem r).1 hr
      exact ⟨hreaches, _, _, _, hasks⟩
    · rintro ⟨hreaches, frame, body, ctx, hasks⟩
      exact ⟨⟨who, frame, body, ctx⟩, (hmem _).2 ⟨hreaches, hasks⟩, rfl⟩
  asks := fun r hr => ((hmem r).1 hr).asks
  refused := by
    intro r hr hrefused
    obtain ⟨hreaches, hasks⟩ := (hmem r).1 hr
    exact hasks.overflows (hreaches.isPlain hplain).within
      (by simpa [Request.isGranted] using hrefused)

end Moment

/-- The frames of all moments of an evaluation are those it asks for. -/
theorem requests_eval (n : Node) {ctx : Context} (hctx : ctx.IsFollowed) :
    n.eval.Requests ctx (Moment.ofNode n ctx).IsAsked := by
  have haccounts : (n.evalWith (Moment.ofNode n ctx).engine).Requests ctx _ :=
    (Moment.ofNode n ctx).accounts hctx
  rw [eval_eq_within]
  exact requests_within (haccounts.of_run_eq rfl)

/-- **The frames of an evaluation are logged as brackets.**  With tracing on, and no definitions
but the core and functions of the language, what an evaluation logs about frames is well
bracketed on top of the frames there are, however it ends.  The brackets are, in the order in
which they open, those of the frames that are asked for and granted: one pair for each call of a
function whose operands have values, as many as it has parameters, and one for each `let` whose
bindings are made.  A frame that is refused is not logged. -/
theorem frames_well_bracketed (n : Node) (ctx : Context) (htracer : ctx.tracer = .active)
    (hplain : ctx.registry.IsPlain) :
    ∃ gained rs, (n.eval.run ctx).context.log.toList = ctx.log.toList ++ gained
      ∧ Event.WellBracketed ctx.depth (Entry.frameEvents gained)
      ∧ (Moment.ofNode n ctx).Tallies rs
      ∧ (Entry.frameEvents gained).filter Event.isPush
          = (rs.filter Request.isGranted).map Request.pushed := by
  obtain ⟨rs, hrecords, hmem⟩ := requests_eval n ⟨htracer, hplain⟩
  obtain ⟨gained, hlog, hnested, hpushes⟩ := hrecords.logged
  have htallies := Moment.tallies hplain hmem hrecords.ascending
  exact ⟨gained, rs, hlog, hnested.wellBracketed, htallies, hpushes⟩

/-- A function is called twice, first for a binding and then inside of the `let`, where there is
room for its frame, and none for that of the `let` in its body. -/
theorem frames_well_bracketed_refused :
    let f : Definition := .user "f" ["x"] (.expression none
      [.symbol none "let", .expression none [], .symbol none "x"])
    let ctx := (Context.new.setOptions ⟨2, true, .working⟩).register f
    let n : Node := .expression none [.symbol none "let",
      .expression none [.expression none [.symbol none "a",
        .expression none [.symbol none "f", .int none 7]]],
      .expression none [.symbol none "f", .symbol none "a"]]
    let es : List Event := [.pushed "f" 1, .pushed "let" 2, .popped "let" 1, .popped "f" 0,
      .pushed "let" 1, .pushed "f" 2, .popped "f" 1, .popped "let" 0]
    ctx.tracer = .active ∧ ctx.registry.IsPlain
      ∧ (n.eval.run ctx).error? = some (.evaluating "(let () x)" 2 (.because .stackOverflow))
      ∧ Entry.frameEvents (n.eval.run ctx).context.log.toList = es
      ∧ Event.WellBracketed 0 es
      ∧ ∃ rs, (Moment.ofNode n ctx).Tallies rs
        ∧ (rs.filter Request.isGranted).map Request.pushed
            = [.pushed "f" 1, .pushed "let" 2, .pushed "let" 1, .pushed "f" 2] := by
  intro f ctx n es
  have hplain : ctx.registry.IsPlain := Registry.isPlain_core.register (.inr ⟨_, _, _, rfl⟩)
  have herror : (n.eval.run ctx).error?
      = some (.evaluating "(let () x)" 2 (.because .stackOverflow)) := by
    decide +kernel
  have hevents : Entry.frameEvents (n.eval.run ctx).context.log.toList = es := by decide +kernel
  obtain ⟨gained, rs, hlog, hbracketed, htallies, hpushes⟩ := frames_well_bracketed n ctx rfl hplain
  have hgained : Entry.frameEvents gained = es := by
    rw [hlog] at hevents
    exact hevents
  rw [hgained] at hbracketed hpushes
  exact ⟨rfl, hplain, herror, hevents, hbracketed, rs, htallies, hpushes.symm⟩

end IntLisp
