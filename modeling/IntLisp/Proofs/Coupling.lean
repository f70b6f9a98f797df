/-
  IntLisp.Proofs.Coupling
  ───────────────────────
  **TWO EVALUATIONS SIDE BY SIDE.**

  A coupling says which contexts belong together when the same node is
  evaluated twice.  The evaluator only looks names, definitions, the depth
  and the output up, and only traces, writes and defines; a coupling that
  agrees on the first and is kept by the second is kept by every evaluation,
  as long as it is kept by what happens inside frames and in native code:

      Engine.Drives K e₁ e₂  →  K.Matches (n.evalWith e₁) (n.evalWith e₂)

  This is the only induction over the evaluator.  An invariant is a coupling
  of an evaluation with itself, and a property of two runs is a coupling of
  their two contexts.
-/
import IntLisp.Eval.Run
import IntLisp.Proofs.Access

namespace IntLisp

variable {α β : Type}

/-! ## §1. Couplings, and steps that match under one. -/

/-- Contexts that belong together, closed under what the evaluator itself does to
a context. -/
structure Coupling where
  rel : Context → Context → Prop
  /-- The errors of the first run after which nothing is asked of the second. -/
  excuses : Error → Prop
  /-- The halts that may occur. -/
  halts : Halt → Prop
  misuse : halts .misuse
  lookup_eq : ∀ {c₁ c₂}, rel c₁ c₂ → ∀ name, c₁.lookup name = c₂.lookup name
  resolve_eq : ∀ {c₁ c₂}, rel c₁ c₂ →
    ∀ name, c₁.registry.resolve name = c₂.registry.resolve name
  depth_eq : ∀ {c₁ c₂}, rel c₁ c₂ → c₁.depth = c₂.depth
  output_eq : ∀ {c₁ c₂}, rel c₁ c₂ → c₁.output = c₂.output
  trace : ∀ {c₁ c₂}, rel c₁ c₂ →
    ∀ event : Event, rel (c₁.trace fun _ => event) (c₂.trace fun _ => event)
  write : ∀ {c₁ c₂}, rel c₁ c₂ → ∀ text, rel (c₁.write text) (c₂.write text)
  define : ∀ {c₁ c₂}, rel c₁ c₂ → ∀ symbol params body,
    rel (c₁.register (.user symbol params body)) (c₂.register (.user symbol params body))
  excuses_named : ∀ {e}, excuses e → ∀ n ctx, excuses (Eval.nameNode n e ctx)

namespace Coupling

/-- Where no error is excused, none is when it names a node. -/
theorem never_named {e : Error} (he : False) (n : Node) (ctx : Context) :
    (fun _ : Error => False) (Eval.nameNode n e ctx) := he

/-- Two outcomes that agree: the same end in contexts that belong together, or an
end of the first run that excuses the second. -/
inductive Agree (K : Coupling) : Outcome α → Outcome α → Prop where
  | done (a : α) {c₁ c₂ : Context} (h : K.rel c₁ c₂) : Agree K (.done a c₁) (.done a c₂)
  | failed (e : Error) {c₁ c₂ : Context} (h : K.rel c₁ c₂) :
      Agree K (.failed e c₁) (.failed e c₂)
  | halted (why : Halt) {c₁ c₂ : Context} (hw : K.halts why) (h : K.rel c₁ c₂) :
      Agree K (.halted why c₁) (.halted why c₂)
  | excused (e : Error) (c₁ : Context) (o : Outcome α) (he : K.excuses e) :
      Agree K (.failed e c₁) o

/-- Two steps that end alike in all contexts that belong together. -/
def Matches (K : Coupling) (act₁ act₂ : Eval α) : Prop :=
  ∀ c₁ c₂, K.rel c₁ c₂ → K.Agree (act₁.run c₁) (act₂.run c₂)

variable {K : Coupling}

/-! ## §2. Matching steps put together. -/

theorem matches_pure (a : α) : K.Matches (pure a) (pure a) := by
  intro c₁ c₂ h
  exact .done a h

theorem matches_fail (e : Error) : K.Matches (Eval.fail e : Eval α) (Eval.fail e) := by
  intro c₁ c₂ h
  exact .failed e h

theorem matches_halt {why : Halt} (hw : K.halts why) :
    K.Matches (Eval.halt why : Eval α) (Eval.halt why) := by
  intro c₁ c₂ h
  exact .halted why hw h

theorem matches_ofExcept (r : Except Error α) :
    K.Matches (Eval.ofExcept r) (Eval.ofExcept r) := by
  cases r with
  | ok a => exact matches_pure a
  | error e => exact matches_fail e

theorem matches_bind {act₁ act₂ : Eval α} {next₁ next₂ : α → Eval β}
    (hact : K.Matches act₁ act₂) (hnext : ∀ a, K.Matches (next₁ a) (next₂ a)) :
    K.Matches (act₁ >>= next₁) (act₂ >>= next₂) := by
  intro c₁ c₂ h
  rw [Eval.run_bind, Eval.run_bind]
  -- both runs end their first step in the same way, unless the second is excused
  match act₁.run c₁, act₂.run c₂, hact c₁ c₂ h with
  | _, _, .done a h' => exact hnext a _ _ h'
  | _, _, .failed e h' => exact .failed e h'
  | _, _, .halted why hw h' => exact .halted why hw h'
  | _, _, .excused e c₁' _ he => exact .excused e c₁' _ he

theorem matches_map {act₁ act₂ : Eval α} (f : α → β) (hact : K.Matches act₁ act₂) :
    K.Matches (f <$> act₁) (f <$> act₂) :=
  matches_bind hact fun a => matches_pure (f a)

/-- What the continuation is given may be taken from either context. -/
theorem matches_view_bind {f : Context → α} {next₁ next₂ : α → Eval β}
    (hf : ∀ {c₁ c₂}, K.rel c₁ c₂ → f c₁ = f c₂)
    (hnext : ∀ {c₁ c₂}, K.rel c₁ c₂ → K.Matches (next₁ (f c₁)) (next₂ (f c₁))) :
    K.Matches (Eval.view f >>= next₁) (Eval.view f >>= next₂) := by
  intro c₁ c₂ h
  show K.Agree ((next₁ (f c₁)).run c₁) ((next₂ (f c₂)).run c₂)
  rw [← hf h]
  exact hnext h c₁ c₂ h

theorem matches_modify {f : Context → Context}
    (hf : ∀ {c₁ c₂}, K.rel c₁ c₂ → K.rel (f c₁) (f c₂)) :
    K.Matches (Eval.modify f) (Eval.modify f) := by
  intro c₁ c₂ h
  exact .done () (hf h)

theorem matches_trace (event : Event) :
    K.Matches (Eval.trace fun _ => event) (Eval.trace fun _ => event) :=
  matches_modify fun h => K.trace h event

theorem matches_within (n : Node) {act₁ act₂ : Eval α} (hact : K.Matches act₁ act₂) :
    K.Matches (act₁.within n) (act₂.within n) := by
  intro c₁ c₂ h
  unfold Eval.within Eval.recover
  dsimp only
  match act₁.run c₁, act₂.run c₂, hact c₁ c₂ h with
  | _, _, .done a h' => exact .done a h'
  | _, _, .failed e h' =>
    show K.Agree (.failed (Eval.nameNode n e _) _) (.failed (Eval.nameNode n e _) _)
    -- an error that names the node gives nothing of the context but its depth
    unfold Eval.nameNode
    rw [K.depth_eq h']
    exact .failed _ h'
  | _, _, .halted why hw h' => exact .halted why hw h'
  | _, _, .excused e c₁' _ he => exact .excused _ c₁' _ (K.excuses_named he n c₁')

/-- An error that is caught must not be one that excuses the other run. -/
theorem matches_attempt (hx : ∀ e, ¬ K.excuses e) {act₁ act₂ : Eval α}
    (hact : K.Matches act₁ act₂) : K.Matches act₁.attempt act₂.attempt := by
  intro c₁ c₂ h
  unfold Eval.attempt
  dsimp only
  match act₁.run c₁, act₂.run c₂, hact c₁ c₂ h with
  | _, _, .done a h' => exact .done _ h'
  | _, _, .failed e h' => exact .done _ h'
  | _, _, .halted why hw h' => exact .halted why hw h'
  | _, _, .excused e _ _ he => exact absurd he (hx e)

/-! ## §3. Definitions and engines that match. -/

/-- A definition that can be called under the coupling: native code from outside ends alike. -/
def Calls (K : Coupling) (e₁ e₂ : Engine) : Definition → Prop
  | .native symbol _ (.code body) => ∀ args : List Value,
      K.Matches ((body symbol args).run e₁.evaluate) ((body symbol args).run e₂.evaluate)
  | .form _ _ (.code body) => ∀ (name : String) (operands : List Node),
      K.Matches ((body name operands).run e₁.evaluate) ((body name operands).run e₂.evaluate)
  | _ => True

/-- Engines under which bodies, and all definitions in force, match. -/
structure Drives (K : Coupling) (e₁ e₂ : Engine) : Prop where
  enter : ∀ frame body, K.Matches (e₁.enter frame body) (e₂.enter frame body)
  calls : ∀ {c₁ c₂}, K.rel c₁ c₂ →
    ∀ name d, c₁.registry.resolve name = some d → K.Calls e₁ e₂ d

variable {e₁ e₂ : Engine}

theorem matches_write (text : String) : K.Matches (Eval.write text) (Eval.write text) := by
  refine matches_view_bind K.output_eq fun {c₁ _} _ => ?_
  cases c₁.output with
  | working => exact matches_modify fun h => K.write h text
  | broken reason => exact matches_fail _

theorem matches_apply {symbol : String} {arity : Arity} {function : Native}
    (hc : K.Calls e₁ e₂ (.native symbol arity function)) (args : List Value) :
    K.Matches (function.apply e₁.evaluate symbol args) (function.apply e₂.evaluate symbol args) := by
  match function, args with
  | .add, args =>
    refine matches_bind (matches_ofExcept _) fun sum => ?_
    cases sum with
    | some v => exact matches_pure v
    | none => exact matches_halt K.misuse
  | .print, [] | .print, .absent :: _ => exact matches_halt K.misuse
  | .print, .nil :: _ | .print, .int _ :: _ | .print, .number _ :: _ =>
    exact matches_bind (matches_write _) fun _ => matches_pure _
  | .code body, args => exact hc args

theorem matches_invoke (hd : K.Drives e₁ e₂) {d : Definition} (hc : K.Calls e₁ e₂ d)
    (hform : ∀ symbol arity form, d ≠ .form symbol arity form) (args : List Value) :
    K.Matches (d.invoke e₁ args) (d.invoke e₂ args) := by
  cases d with
  | native symbol arity function =>
    unfold Definition.invoke
    dsimp only
    split
    · exact matches_apply hc args
    · exact matches_fail _
  | user symbol params body =>
    unfold Definition.invoke
    dsimp only
    split
    · exact hd.enter _ body
    · exact matches_fail _
  | form symbol arity form => exact absurd rfl (hform symbol arity form)
  | foreign symbol kind => exact matches_fail _

theorem matches_define (name : String) (operands : List Node) :
    K.Matches (Eval.define name operands) (Eval.define name operands) := by
  match operands with
  | f :: params :: body :: more =>
    intro c₁ c₂ h
    rw [Eval.run_define, Eval.run_define]
    -- whether the form is well written does not depend on the context
    cases hdef : Node.definition name f params body with
    | error e => exact .failed e h
    | ok d =>
      obtain ⟨symbol, names, rfl⟩ := Node.definition_eq_ok hdef
      exact .done Value.nil (K.define h symbol names body)
  | [] | [_] | [_, _] => exact matches_halt K.misuse

/-! ## §4. The evaluator. -/

/-- What is evaluated behind the head of an expression: the operands of a call, or
those of a form. -/
def behindHead (engine : Engine) (name : String) (operands : List Node) : Eval Value := do
  match ← Eval.view (·.registry.resolve name) with
  | some (.form formName arity form) =>
    if arity.accepts operands.length then
      match form with
      | .define => Eval.define name operands
      | .letIn => Node.evalLet engine name operands
      | .code body => (body name operands).run engine.evaluate
    else Eval.fail (.arity formName arity operands.length)
  | found => do
    let args ← Node.evalAll engine operands
    match found with
    | none => Eval.fail (.undefinedFunction name)
    | some d =>
      Eval.trace fun _ => .applying name args
      d.invoke engine args

theorem matches_behindHead (hd : K.Drives e₁ e₂) (name : String) (operands : List Node)
    (hargs : K.Matches (Node.evalAll e₁ operands) (Node.evalAll e₂ operands))
    (hlet : K.Matches (Node.evalLet e₁ name operands) (Node.evalLet e₂ name operands)) :
    K.Matches (behindHead e₁ name operands) (behindHead e₂ name operands) := by
  refine matches_view_bind (fun h => K.resolve_eq h name) fun {c₁ c₂} h => ?_
  cases hfound : c₁.registry.resolve name with
  | none => exact matches_bind hargs fun _ => matches_fail _
  | some d =>
    have hc := hd.calls h name d hfound
    -- all that is not a form is called, after its operands
    have hcall (hform : ∀ symbol arity form, d ≠ .form symbol arity form) :
        K.Matches
          (Node.evalAll e₁ operands >>= fun args =>
            Eval.trace (fun _ => .applying name args) >>= fun _ => d.invoke e₁ args)
          (Node.evalAll e₂ operands >>= fun args =>
            Eval.trace (fun _ => .applying name args) >>= fun _ => d.invoke e₂ args) :=
      matches_bind hargs fun args =>
        matches_bind (matches_trace _) fun _ => matches_invoke hd hc hform args
    cases d with
    | native symbol arity function => exact hcall (by simp)
    | user symbol params body => exact hcall (by simp)
    | foreign symbol kind => exact hcall (by simp)
    | form symbol arity form =>
      dsimp only
      split
      · cases form with
        | define => exact matches_define name operands
        | letIn => exact hlet
        | code body => exact hc name operands
      · exact matches_fail _

theorem evalWith_call (engine : Engine) (token : Option Token) {head : Node} {name : String}
    (hhead : head.symbol? = some name) (operands : List Node) :
    (Node.expression token (head :: operands)).evalWith engine =
      Eval.within (.expression token (head :: operands))
        (Eval.trace (fun _ =>
            .calling name (Node.expression token (head :: operands)).components) >>= fun _ =>
          behindHead engine name operands) := by
  rw [Node.evalWith, hhead]
  rfl

mutual
/-- **Evaluations under engines that match do match.** -/
theorem matches_evalWith (hd : K.Drives e₁ e₂) :
    ∀ n : Node, K.Matches (n.evalWith e₁) (n.evalWith e₂)
  | .int _ value => matches_pure (Value.int value)
  | .symbol _ name => by
    refine matches_view_bind (fun h => K.lookup_eq h name) fun {c₁ _} _ => ?_
    cases c₁.lookup name with
    | some v => exact matches_pure v
    | none => exact matches_fail _
  | .expression token [] => matches_within _ (matches_fail _)
  | .expression token (head :: operands) => by
    cases hhead : head.symbol? with
    | none =>
      rw [Node.evalWith, Node.evalWith, hhead]
      exact matches_within _ (matches_fail _)
    | some name =>
      -- the operands are smaller than the node, so the recursion may be used on them
      rw [evalWith_call e₁ token hhead, evalWith_call e₂ token hhead]
      refine matches_within _ (matches_bind (matches_trace _) fun _ => ?_)
      exact matches_behindHead hd name operands (matches_evalAll hd operands)
        (matches_evalLet hd name operands)
  | .list _ children => matches_evalLast hd .nil children
  | .foreign _ _ _ => matches_fail _
theorem matches_evalAll (hd : K.Drives e₁ e₂) :
    ∀ ns : List Node, K.Matches (Node.evalAll e₁ ns) (Node.evalAll e₂ ns)
  | [] => matches_pure []
  | n :: ns =>
    matches_bind (matches_evalWith hd n) fun v =>
      matches_bind (matches_evalAll hd ns) fun vs => matches_pure (v :: vs)
theorem matches_evalLast (hd : K.Drives e₁ e₂) (before : Value) :
    ∀ ns : List Node, K.Matches (Node.evalLast e₁ before ns) (Node.evalLast e₂ before ns)
  | [] => matches_pure before
  | n :: ns => matches_bind (matches_evalWith hd n) fun v => matches_evalLast hd v ns
theorem matches_evalBinding (hd : K.Drives e₁ e₂) (form : String) (frame : Frame) :
    ∀ n : Node, K.Matches (Node.evalBinding e₁ form frame n) (Node.evalBinding e₂ form frame n)
  | .expression _ [name, value] => by
    unfold Node.evalBinding
    cases name.symbol? with
    | none => exact matches_fail _
    | some x =>
      dsimp only
      split
      · exact matches_fail _
      · exact matches_bind (matches_evalWith hd value) fun v => matches_pure (frame.bind x v)
  | .expression _ [] | .expression _ [_] | .expression _ (_ :: _ :: _ :: _) => matches_fail _
  | .int _ _ | .symbol _ _ | .list _ _ | .foreign _ _ _ => matches_fail _
theorem matches_evalBindings (hd : K.Drives e₁ e₂) (form : String) (frame : Frame) :
    ∀ ns : List Node,
      K.Matches (Node.evalBindings e₁ form frame ns) (Node.evalBindings e₂ form frame ns)
  | [] => matches_pure frame
  | n :: ns =>
    matches_bind (matches_evalBinding hd form frame n) fun frame' =>
      matches_evalBindings hd form frame' ns
theorem matches_evalLet (hd : K.Drives e₁ e₂) (form : String) :
    ∀ operands : List Node,
      K.Matches (Node.evalLet e₁ form operands) (Node.evalLet e₂ form operands)
  | .expression _ pairs :: body :: _ =>
    matches_bind (matches_evalBindings hd form (Frame.empty .scope form) pairs) fun frame =>
      hd.enter frame body
  | .int _ _ :: _ :: _ | .symbol _ _ :: _ :: _ | .list _ _ :: _ :: _
  | .foreign _ _ _ :: _ :: _ => matches_fail _
  | [] | [_] => matches_halt K.misuse
end

/-! ## §5. Frames. -/

/-- Opening the frame `f` leads from one coupling into another, and closing it leads
back. -/
structure Opens (K L : Coupling) (f : Frame) : Prop where
  overflow : ∀ {c₁ c₂}, K.rel c₁ c₂ → c₁.isFull = true →
    c₂.isFull = true ∨ K.excuses (.because .stackOverflow)
  opened : ∀ {c₁ c₂}, K.rel c₁ c₂ → c₁.isFull = false →
    c₂.isFull = false ∧ L.rel (c₁.opened f) (c₂.opened f)
  pop : ∀ {c₁ c₂}, L.rel c₁ c₂ → K.rel c₁.pop c₂.pop
  excuses : ∀ {e}, L.excuses e → K.excuses e
  halts : ∀ {why}, L.halts why → K.halts why

theorem matches_inFrame {L : Coupling} {f : Frame} (ho : K.Opens L f) {act₁ act₂ : Eval α}
    (hact : L.Matches act₁ act₂) : K.Matches (Eval.inFrame f act₁) (Eval.inFrame f act₂) := by
  intro c₁ c₂ h
  cases hfull : c₁.isFull with
  | true =>
    -- the frame is refused, to both runs unless that excuses the second
    rw [Eval.run_inFrame_of_isFull f act₁ hfull]
    rcases ho.overflow h hfull with hfull₂ | hx
    · rw [Eval.run_inFrame_of_isFull f act₂ hfull₂]
      exact .failed _ h
    · exact .excused _ c₁ _ hx
  | false =>
    -- into the other coupling, through it, and back however the inside ends
    obtain ⟨hfull₂, hopened⟩ := ho.opened h hfull
    rw [Eval.run_inFrame f act₁ hfull, Eval.run_inFrame f act₂ hfull₂]
    match act₁.run (c₁.opened f), act₂.run (c₂.opened f), hact _ _ hopened with
    | _, _, .done a h' => exact .done a (ho.pop h')
    | _, _, .failed e h' => exact .failed e (ho.pop h')
    | _, _, .halted why hw h' => exact .halted why (ho.halts hw) (ho.pop h')
    | _, _, .excused e c₁' _ he => exact .excused e _ _ (ho.excuses he)

/-! ## §6. Native code. -/

/-- A coupling that asks of the definitions in force only that their native code is within
the access `a`: nothing is excused, every halt and every log entry apart from tracing is
allowed, and what is granted keeps the coupling. -/
structure Serves (K : Coupling) (a : Access) : Prop where
  excuses : ∀ e, ¬ K.excuses e
  halts : ∀ why, K.halts why
  within : ∀ {c₁ c₂}, K.rel c₁ c₂ → c₁.registry.Within a
  register : ∀ {c₁ c₂}, K.rel c₁ c₂ → ∀ d, d.Within a → K.rel (c₁.register d) (c₂.register d)
  record : ∀ {c₁ c₂}, K.rel c₁ c₂ →
    ∀ e : Entry, e.isTrace = false → K.rel (c₁.record e) (c₂.record e)
  frame_eq : a.looks → ∀ {c₁ c₂}, K.rel c₁ c₂ → ∀ level, c₁.frameAt? level = c₂.frameAt? level
  bind : a.binds → ∀ {c₁ c₂}, K.rel c₁ c₂ →
    ∀ level name v, K.rel (c₁.bind level name v) (c₂.bind level name v)
  isFull_eq : a.opens → ∀ {c₁ c₂}, K.rel c₁ c₂ → c₁.isFull = c₂.isFull
  opened : a.opens → ∀ {c₁ c₂}, K.rel c₁ c₂ → ∀ f, K.rel (c₁.opened f) (c₂.opened f)
  top_eq : a.opens → ∀ {c₁ c₂}, K.rel c₁ c₂ → c₁.frame? = c₂.frame?
  pop : a.opens → ∀ {c₁ c₂}, K.rel c₁ c₂ → K.rel c₁.pop c₂.pop

variable {a : Access}

theorem matches_push (hopens : a.opens) (hs : K.Serves a) (f : Frame) :
    K.Matches (Eval.push f) (Eval.push f) := by
  intro c₁ c₂ h
  unfold Eval.push Context.push
  dsimp only
  rw [hs.isFull_eq hopens h]
  cases c₂.isFull with
  | true => exact .failed _ h
  | false => exact .done () (hs.opened hopens h f)

/-- Writing succeeds, or the output is broken. -/
theorem matches_attempt_write (text : String) {next₁ next₂ : Except Error Unit → Eval α}
    (hok : K.Matches (next₁ (.ok ())) (next₂ (.ok ())))
    (hbroken : ∀ reason,
      K.Matches (next₁ (.error (.external reason))) (next₂ (.error (.external reason)))) :
    K.Matches ((Eval.write text).attempt >>= next₁) ((Eval.write text).attempt >>= next₂) := by
  intro c₁ c₂ h
  have hsame := K.output_eq h
  unfold Eval.write
  simp only [Eval.run_bind, Eval.attempt, Eval.run_view, ← hsame]
  cases c₁.output with
  | working => exact hok _ _ (K.write h text)
  | broken reason => exact hbroken reason _ _ h

/-- **Native code ends alike**, as long as it does with frames what is granted. -/
theorem matches_code (hs : K.Serves a) {ev₁ ev₂ : Node → Eval Value}
    (hev : ∀ n, K.Matches (ev₁ n) (ev₂ n)) :
    ∀ code : Code, code.Within a → K.Matches (code.run ev₁) (code.run ev₂)
  | .done v, _ => matches_pure v
  | .fail e, _ => matches_fail e
  | .evaluate n next, h => by
    rw [Code.Within] at h
    exact matches_bind (matches_attempt hs.excuses (hev n)) fun r =>
      matches_code hs hev (next r) (h r)
  | .depth next, h => by
    rw [Code.Within] at h
    exact matches_view_bind K.depth_eq fun {c₁ _} _ => matches_code hs hev (next c₁.depth) (h _)
  | .lookup name next, h => by
    rw [Code.Within] at h
    exact matches_view_bind (fun h => K.lookup_eq h name) fun {c₁ _} _ =>
      matches_code hs hev (next (c₁.lookup name)) (h _)
  | .frame level next, h => by
    rw [Code.Within] at h
    exact matches_view_bind (fun hc => hs.frame_eq h.1 hc level) fun {c₁ _} _ =>
      matches_code hs hev (next (c₁.frameAt? level)) (h.2 _)
  | .bind level name v next, h => by
    rw [Code.Within] at h
    exact matches_bind (matches_modify fun hc => hs.bind h.1 hc level name v) fun _ =>
      matches_code hs hev next h.2
  | .push f next, h => by
    rw [Code.Within] at h
    exact matches_bind (matches_attempt hs.excuses (matches_push h.1 hs f)) fun r =>
      matches_code hs hev (next r) (h.2 r)
  | .pop next, h => by
    rw [Code.Within] at h
    exact matches_view_bind (hs.top_eq h.1) fun {c₁ _} _ =>
      matches_bind (matches_modify (hs.pop h.1)) fun _ =>
        matches_code hs hev (next c₁.frame?) (h.2 _)
  | .write text next, h => by
    rw [Code.Within] at h
    exact matches_attempt_write text (matches_code hs hev (next (.ok ())) h.1) fun reason =>
      matches_code hs hev (next (.error (.external reason))) (h.2 reason)
  | .register d next, h => by
    rw [Code.Within] at h
    exact matches_bind (matches_modify fun hc => hs.register hc d h.1) fun _ =>
      matches_code hs hev next h.2

theorem calls_of_serves (hs : K.Serves a)
    (hev : ∀ n, K.Matches (e₁.evaluate n) (e₂.evaluate n)) {d : Definition} (hd : d.Within a) :
    K.Calls e₁ e₂ d := by
  match d with
  | .native symbol _ (.code body) =>
    rw [Definition.Within, Native.Within] at hd
    exact fun args => matches_code hs hev (body symbol args) (hd args)
  | .form _ _ (.code body) =>
    rw [Definition.Within, Form.Within] at hd
    exact fun name operands => matches_code hs hev (body name operands) (hd name operands)
  | .native _ _ .add | .native _ _ .print | .form _ _ .define | .form _ _ .letIn
  | .user _ _ _ | .foreign _ _ => trivial

theorem calls_of_rel (hs : K.Serves a) (hev : ∀ n, K.Matches (e₁.evaluate n) (e₂.evaluate n))
    {c₁ c₂ : Context} (h : K.rel c₁ c₂) (name : String) (d : Definition)
    (hd : c₁.registry.resolve name = some d) : K.Calls e₁ e₂ d :=
  calls_of_serves hs hev ((hs.within h).resolve hd)

end Coupling

/-! ## §7. Whole evaluations. -/

/-- Couplings that lead into each other as frames are opened and closed, and are kept by
native code within the access `a`. -/
structure Couplings (a : Access) (ι : Type) where
  coupling : ι → Coupling
  serves : ∀ i, (coupling i).Serves a
  room_eq : ∀ i {c₁ c₂}, (coupling i).rel c₁ c₂ → c₁.room = c₂.room
  opens : ∀ i f, ∃ j, (coupling i).Opens (coupling j) f

/-- A coupling under which everything may be granted leads into itself. -/
def Coupling.Serves.couplings {K : Coupling} (hs : K.Serves .any)
    (hroom : ∀ {c₁ c₂}, K.rel c₁ c₂ → c₁.room = c₂.room) : Couplings .any Unit where
  coupling _ := K
  serves _ := hs
  room_eq _ _ _ h := hroom h
  opens _ f :=
    ⟨(),
      { overflow := fun h hfull => .inl (hs.isFull_eq trivial h ▸ hfull)
        opened := fun h hfull => ⟨hs.isFull_eq trivial h ▸ hfull, hs.opened trivial h f⟩
        pop := hs.pop trivial
        excuses := id
        halts := id }⟩

namespace Couplings

open Coupling

variable {a : Access} {ι : Type} (F : Couplings a ι)

theorem drives_withRoom {ev₁ ev₂ : Node → Eval Value}
    (hev : ∀ i n, (F.coupling i).Matches (ev₁ n) (ev₂ n)) (room : Nat) :
    ∀ i, (F.coupling i).Drives (.withRoom ev₁ room) (.withRoom ev₂ room) := by
  -- the frames that there is room for are opened one inside the other
  induction room with
  | zero =>
    intro i
    refine ⟨fun frame _ => ?_, calls_of_rel (F.serves i) (hev i)⟩
    obtain ⟨j, hj⟩ := F.opens i frame
    exact matches_inFrame hj (matches_halt ((F.serves j).halts _))
  | succ room ih =>
    intro i
    refine ⟨fun frame body => ?_, calls_of_rel (F.serves i) (hev i)⟩
    obtain ⟨j, hj⟩ := F.opens i frame
    exact matches_inFrame hj (matches_evalWith (ih j) body)

theorem matches_evalNested (calls : Nat) :
    ∀ i n, (F.coupling i).Matches (Node.evalNested calls n) (Node.evalNested calls n) := by
  induction calls with
  | zero =>
    intro i n
    exact matches_halt ((F.serves i).halts _)
  | succ calls ih =>
    intro i n
    refine matches_within n (matches_view_bind (F.room_eq i) fun {c₁ _} _ => ?_)
    exact matches_evalWith (F.drives_withRoom ih c₁.room i) n

/-- **Every evaluation of a node keeps the couplings.** -/
theorem matches_eval (i : ι) (n : Node) : (F.coupling i).Matches n.eval n.eval :=
  F.matches_evalNested _ i n

theorem matches_source_eval (i : ι) (src : Source) :
    (F.coupling i).Matches src.eval src.eval :=
  matches_bind (matches_ofExcept _) fun n => F.matches_eval i n

theorem matches_statement_eval (i : ι) (s : Statement) :
    (F.coupling i).Matches s.eval s.eval := by
  unfold Statement.eval
  cases s.error with
  | some e => exact matches_fail e
  | none =>
    refine matches_bind (matches_trace _) fun _ => ?_
    refine matches_bind (F.matches_source_eval i _) fun v => ?_
    exact matches_bind (matches_trace _) fun _ => matches_pure v

theorem matches_exec (i : ι) (s : Statement) : (F.coupling i).Matches s.exec s.exec := by
  refine matches_bind
    (matches_attempt (F.serves i).excuses (F.matches_statement_eval i s)) fun r => ?_
  cases r with
  | ok v => exact matches_pure _
  | error e =>
    refine matches_bind (matches_modify fun h => (F.serves i).record h _ rfl) fun _ => ?_
    exact matches_pure _

theorem matches_execAll (i : ι) (ss : List Statement) :
    (F.coupling i).Matches (Statement.execAll ss) (Statement.execAll ss) := by
  induction ss with
  | nil => exact matches_pure []
  | cons s ss ih =>
    exact matches_bind (F.matches_exec i s) fun r =>
      matches_bind ih fun rs => matches_pure (r :: rs)

theorem matches_unreadable (i : ι) (e : Error) :
    (F.coupling i).Matches (Eval.unreadable e : Eval (List StatementResult))
      (Eval.unreadable e) :=
  matches_bind (matches_modify fun h => (F.serves i).record h _ rfl) fun _ => matches_fail e

theorem matches_source_run (i : ι) (src : Source) :
    (F.coupling i).Matches src.run src.run := by
  unfold Source.run
  cases src.statements with
  | ok ss => exact F.matches_execAll i ss
  | error e => exact F.matches_unreadable i e

/-- **Every run of a whole text keeps the couplings.** -/
theorem matches_run (i : ι) (input : Input) : (F.coupling i).Matches input.run input.run := by
  unfold Input.run
  cases input.contents with
  | ok src => exact F.matches_source_run i src
  | error e => exact F.matches_unreadable i e

end Couplings

end IntLisp
