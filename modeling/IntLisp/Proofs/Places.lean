/-
  IntLisp.Proofs.Places
  ─────────────────────
  **EVALUATION DOES NOT SEE WHERE A NODE STANDS.**

  A node that was read from a text remembers the tokens it began with.  They
  are kept in the bodies of functions and show up in the errors of forms that
  are not well written.  Nothing else depends on them.

  Places are forgotten by functions, `Node.bare` and the many `unplaced`, so
  that "the same but for places" is an equation.  The evaluator is run with a
  node beside the node without its places, in two contexts that are the same
  but for places:

      n.evalWith e₁   beside   n.bare.evalWith e₂

  The relation between the two runs can be turned around and put together, so
  it holds for any two nodes that are the same but for places.

  Native code from outside is given nodes as they are and may look at their
  places, so the definitions in force are those of the core and functions of
  the language.
-/
import IntLisp.Proofs.Reading
import IntLisp.Proofs.Termination
import IntLisp.Session

namespace IntLisp

variable {α β : Type}

/-! ## §1. Forgetting places. -/

/-- The error without the places of what it is about. -/
def Error.unplaced : Error → Error
  | located _ cause note => located .unknown cause.unplaced note
  | evaluating expr depth cause => evaluating expr depth cause.unplaced
  | under symbol cause => under symbol cause.unplaced
  | e => e

/-- The definition with a body without places. -/
def Definition.bare : Definition → Definition
  | user symbol params body => user symbol params body.bare
  | d => d

/-- The registry with bodies without places. -/
def Registry.bare (r : Registry) : Registry := ⟨r.definitions.map Definition.bare⟩

/-- The entry without the places in its error; where a statement stands is kept. -/
def Entry.unplaced : Entry → Entry
  | unreadable e => unreadable e.unplaced
  | failed pos text e => failed pos text e.unplaced
  | entry => entry

/-- The context without the places in its definitions and in its log. -/
def Context.unplaced (ctx : Context) : Context :=
  { ctx with registry := ctx.registry.bare, log := ctx.log.map Entry.unplaced }

/-- The result of a statement without the places in its error. -/
def StatementResult.unplaced (r : StatementResult) : StatementResult :=
  ⟨r.statement, r.outcome.mapError Error.unplaced⟩

/-- The answer without the places in its errors and its definition. -/
def Answer.unplaced : Answer → Answer
  | results rs => results (rs.map StatementResult.unplaced)
  | definition d => definition (d.map Definition.bare)
  | answer => answer

/-- The outcome without places; `f` forgets those in the value. -/
def Outcome.unplaced (f : α → α) : Outcome α → Outcome α
  | done a ctx => done (f a) ctx.unplaced
  | failed e ctx => failed e.unplaced ctx.unplaced
  | halted why ctx => halted why ctx.unplaced

/-! ### What does not depend on places. -/

namespace Node

mutual
@[simp] theorem encode_bare : ∀ n : Node, n.bare.encode = n.encode
  | int _ _ | symbol _ _ | foreign _ _ _ => rfl
  | expression _ children => by rw [bare, encode, encode, encodeAll_bareAll children]
  | list _ children => by rw [bare, encode, encode, encodeAll_bareAll children]
@[simp] theorem encodeAll_bareAll : ∀ ns : List Node, encodeAll (bareAll ns) = encodeAll ns
  | [] => rfl
  | n :: ns => by rw [bareAll, encodeAll, encodeAll, encode_bare n, encodeAll_bareAll ns]
end

mutual
theorem bare_bare : ∀ n : Node, n.bare.bare = n.bare
  | int _ _ | symbol _ _ | foreign _ _ _ => rfl
  | expression _ children => by rw [bare, bare, bareAll_bareAll children]
  | list _ children => by rw [bare, bare, bareAll_bareAll children]
theorem bareAll_bareAll : ∀ ns : List Node, bareAll (bareAll ns) = bareAll ns
  | [] => rfl
  | n :: ns => by rw [bareAll, bareAll, bare_bare n, bareAll_bareAll ns]
end

@[simp] theorem symbol?_bare (n : Node) : n.bare.symbol? = n.symbol? := by
  cases n <;> rfl

@[simp] theorem pos_bare (n : Node) : n.bare.pos = .unknown := by
  cases n <;> rfl

@[simp] theorem length_bareAll (ns : List Node) : (bareAll ns).length = ns.length := by
  rw [bareAll_eq_map, List.length_map]

theorem malformed_bare (n : Node) (note : String) :
    n.bare.malformed note = (n.malformed note).unplaced := by
  unfold malformed
  rw [pos_bare]
  rfl

theorem paramNames_bareAll (title : String) (seen : List String) (ns : List Node) :
    paramNames title seen (bareAll ns) = (paramNames title seen ns).mapError Error.unplaced := by
  induction ns generalizing seen with
  | nil => rfl
  | cons n ns ih =>
    rw [bareAll, paramNames, paramNames, symbol?_bare, encode_bare]
    cases n.symbol? with
    | none =>
      dsimp only
      rw [malformed_bare]
      rfl
    | some name =>
      dsimp only
      rw [malformed_bare]
      split
      · rfl
      · exact ih (name :: seen)

theorem definition_bare (symbol : String) (name params body : Node) :
    definition symbol name.bare params.bare body.bare
      = ((definition symbol name params body).mapError Error.unplaced).map Definition.bare := by
  -- the error of parameters that are no list is the same for all kinds of nodes
  have hother : ∀ (title : String) (n : Node),
      (.error (n.bare.malformed (title ++ n.bare.encode)) : Except Error Definition)
        = ((.error (n.malformed (title ++ n.encode))
            : Except Error Definition).mapError Error.unplaced).map Definition.bare := by
    intro title n
    rw [encode_bare, malformed_bare]
    rfl
  unfold definition
  rw [symbol?_bare]
  cases name.symbol? with
  | none => exact hother _ name
  | some f =>
    cases params with
    | expression token ns =>
      dsimp only [bare]
      rw [paramNames_bareAll]
      cases paramNames (symbol ++ " " ++ f) [] ns <;> rfl
    | int token value => exact hother _ (.int token value)
    | symbol token name => exact hother _ (.symbol token name)
    | list token ns => exact hother _ (.list token ns)
    | foreign token code content => exact hother _ (.foreign token code content)

end Node

theorem Error.unplaced_unplaced (e : Error) : e.unplaced.unplaced = e.unplaced := by
  induction e with
  | located _ _ _ ih => rw [unplaced, unplaced, ih]
  | evaluating _ _ _ ih => rw [unplaced, unplaced, ih]
  | under _ _ ih => rw [unplaced, unplaced, ih]
  | _ => rfl

theorem Error.isTraced_unplaced (e : Error) : e.unplaced.isTraced = e.isTraced := by
  induction e with
  | located pos cause note ih =>
    simpa [unplaced, isTraced, chain, namesExpression] using ih
  | evaluating expr depth cause ih => simp [unplaced, isTraced, chain, namesExpression]
  | under symbol cause ih =>
    simpa [unplaced, isTraced, chain, namesExpression] using ih
  | _ => rfl

/-- An error that names a node without its place is the error that names the node. -/
theorem Error.unplaced_nameNode {n₁ n₂ : Node} {e₁ e₂ : Error} {c₁ c₂ : Context}
    (hn : n₁.encode = n₂.encode) (he : e₁.unplaced = e₂.unplaced) (hdepth : c₁.depth = c₂.depth) :
    (Eval.nameNode n₁ e₁ c₁).unplaced = (Eval.nameNode n₂ e₂ c₂).unplaced := by
  have htraced : e₁.isTraced = e₂.isTraced := by
    rw [← isTraced_unplaced e₁, he, isTraced_unplaced]
  unfold Eval.nameNode
  rw [htraced, hn, hdepth]
  split
  · exact he
  · rw [unplaced, unplaced, he]

@[simp] theorem Definition.symbol_bare (d : Definition) : d.bare.symbol = d.symbol := by
  cases d <;> rfl

/-- A definition of the core holds no places, and a function only its body does. -/
theorem Definition.IsPlain.eq_of_bare {d₁ d₂ : Definition} (h : d₁.IsPlain)
    (heq : d₁.bare = d₂.bare) :
    d₁ ∈ Registry.coreDefinitions ∧ d₂ = d₁
      ∨ ∃ symbol params body₁ body₂, d₁ = .user symbol params body₁
        ∧ d₂ = .user symbol params body₂ ∧ body₁.bare = body₂.bare := by
  rcases h with h | ⟨symbol, params, body, rfl⟩
  · refine .inl ⟨h, ?_⟩
    simp only [Registry.coreDefinitions, List.mem_cons, List.not_mem_nil, or_false] at h
    rcases h with rfl | rfl | rfl | rfl <;> cases d₂ <;> cases heq <;> rfl
  · cases d₂ with
    | user symbol' params' body' =>
      simp only [Definition.bare, Definition.user.injEq] at heq
      obtain ⟨rfl, rfl, hbody⟩ := heq
      exact .inr ⟨symbol, params, body, body', rfl, rfl, hbody⟩
    | native _ _ _ | form _ _ _ | foreign _ _ => cases heq

/-- Of the native functions only those of the core are plain. -/
theorem Definition.IsPlain.eq_add_or_print {symbol : String} {arity : Arity} {function : Native}
    (h : (Definition.native symbol arity function).IsPlain) :
    function = .add ∨ function = .print := by
  rcases h with h | ⟨_, _, _, h⟩
  · simp only [Registry.coreDefinitions, List.mem_cons, List.not_mem_nil, or_false,
      reduceCtorEq, Definition.native.injEq] at h
    exact h.imp (fun h => h.2.2) fun h => h.2.2
  · cases h

namespace Registry

theorem resolve_bare (r : Registry) (symbol : String) :
    r.bare.resolve symbol = (r.resolve symbol).map Definition.bare := by
  unfold resolve bare
  rw [List.find?_map]
  congr 2
  funext d
  simp

theorem symbols_bare (r : Registry) : r.bare.symbols = r.symbols := by
  simp [symbols, bare]

theorem bare_register (r : Registry) (d : Definition) :
    (r.register d).bare = r.bare.register d.bare := by
  have hplace : ∀ ds : List Definition,
      (place d ds).map Definition.bare = place d.bare (ds.map Definition.bare) := by
    intro ds
    induction ds with
    | nil => rfl
    | cons e es ih =>
      rw [List.map_cons, place, place, Definition.symbol_bare, Definition.symbol_bare, ← ih]
      split
      · rfl
      · split <;> rfl
  unfold register bare
  rw [hplace]

end Registry

/-! ## §2. Two runs that are the same but for places. -/

/-- Contexts with plain definitions that are the same but for places. -/
structure Context.Twins (c₁ c₂ : Context) : Prop where
  plain₁ : c₁.registry.IsPlain
  plain₂ : c₂.registry.IsPlain
  registry_eq : c₁.registry.bare = c₂.registry.bare
  stack_eq : c₁.stack = c₂.stack
  limit_eq : c₁.limit = c₂.limit
  tracer_eq : c₁.tracer = c₂.tracer
  output_eq : c₁.output = c₂.output
  printed_eq : c₁.printed = c₂.printed
  log_eq : c₁.log.map Entry.unplaced = c₂.log.map Entry.unplaced

namespace Context.Twins

variable {c₁ c₂ c₃ : Context}

theorem refl {ctx : Context} (h : ctx.registry.IsPlain) : ctx.Twins ctx :=
  ⟨h, h, rfl, rfl, rfl, rfl, rfl, rfl, rfl⟩

theorem symm (h : c₁.Twins c₂) : c₂.Twins c₁ :=
  ⟨h.plain₂, h.plain₁, h.registry_eq.symm, h.stack_eq.symm, h.limit_eq.symm, h.tracer_eq.symm,
    h.output_eq.symm, h.printed_eq.symm, h.log_eq.symm⟩

theorem trans (h : c₁.Twins c₂) (h' : c₂.Twins c₃) : c₁.Twins c₃ :=
  ⟨h.plain₁, h'.plain₂, h.registry_eq.trans h'.registry_eq, h.stack_eq.trans h'.stack_eq,
    h.limit_eq.trans h'.limit_eq, h.tracer_eq.trans h'.tracer_eq,
    h.output_eq.trans h'.output_eq, h.printed_eq.trans h'.printed_eq, h.log_eq.trans h'.log_eq⟩

theorem unplaced_eq (h : c₁.Twins c₂) : c₁.unplaced = c₂.unplaced := by
  unfold Context.unplaced
  rw [h.registry_eq, h.stack_eq, h.limit_eq, h.tracer_eq, h.output_eq, h.printed_eq, h.log_eq]

theorem depth_eq (h : c₁.Twins c₂) : c₁.depth = c₂.depth := congrArg Stack.depth h.stack_eq

theorem room_eq (h : c₁.Twins c₂) : c₁.room = c₂.room := by
  unfold Context.room
  rw [h.limit_eq, h.depth_eq]

theorem isFull_eq (h : c₁.Twins c₂) : c₁.isFull = c₂.isFull := by
  unfold Context.isFull
  rw [h.limit_eq, h.depth_eq]

theorem frame?_eq (h : c₁.Twins c₂) : c₁.frame? = c₂.frame? := congrArg Stack.top? h.stack_eq

theorem lookup_eq (h : c₁.Twins c₂) (name : String) : c₁.lookup name = c₂.lookup name :=
  congrArg (·.lookup name) h.stack_eq

/-- A name is defined in both or in neither, and then by definitions that are the same
but for places. -/
theorem resolve_eq (h : c₁.Twins c₂) (name : String) :
    (c₁.registry.resolve name).map Definition.bare
      = (c₂.registry.resolve name).map Definition.bare := by
  rw [← Registry.resolve_bare, ← Registry.resolve_bare, h.registry_eq]

theorem record (h : c₁.Twins c₂) {e₁ e₂ : Entry} (he : e₁.unplaced = e₂.unplaced) :
    (c₁.record e₁).Twins (c₂.record e₂) := by
  refine { h with log_eq := ?_ }
  unfold Context.record
  rw [Array.map_push, Array.map_push, h.log_eq, he]

theorem trace (h : c₁.Twins c₂) {event₁ event₂ : Context → Event}
    (he : event₁ c₁ = event₂ c₂) : (c₁.trace event₁).Twins (c₂.trace event₂) := by
  unfold Context.trace
  rw [h.tracer_eq, he]
  split
  · exact h.record rfl
  · exact h

theorem write (h : c₁.Twins c₂) (text : String) : (c₁.write text).Twins (c₂.write text) :=
  { h with printed_eq := congrArg (· ++ text) h.printed_eq }

theorem setOptions (h : c₁.Twins c₂) (o : Options) :
    (c₁.setOptions o).Twins (c₂.setOptions o) :=
  { h with limit_eq := rfl, tracer_eq := rfl, output_eq := rfl }

theorem register (h : c₁.Twins c₂) {d₁ d₂ : Definition} (h₁ : d₁.IsPlain) (h₂ : d₂.IsPlain)
    (heq : d₁.bare = d₂.bare) : (c₁.register d₁).Twins (c₂.register d₂) := by
  have hsymbol : d₁.symbol = d₂.symbol := by
    rw [← d₁.symbol_bare, heq, d₂.symbol_bare]
  -- the name had a definition before in both contexts or in neither
  have hknown : (c₁.registry.resolve d₁.symbol).isSome
      = (c₂.registry.resolve d₂.symbol).isSome := by
    have hresolve := congrArg Option.isSome (h.resolve_eq d₂.symbol)
    rw [Option.isSome_map, Option.isSome_map] at hresolve
    rw [hsymbol, hresolve]
  have hnext : Twins { c₁ with registry := c₁.registry.register d₁ }
      { c₂ with registry := c₂.registry.register d₂ } := by
    refine { h with
      plain₁ := h.plain₁.register h₁, plain₂ := h.plain₂.register h₂, registry_eq := ?_ }
    rw [Registry.bare_register, Registry.bare_register, h.registry_eq, heq]
  unfold Context.register
  dsimp only
  rw [hknown]
  split
  · exact hnext.trace (congrArg Event.redefined hsymbol)
  · exact hnext

theorem opened (h : c₁.Twins c₂) (f : Frame) : (c₁.opened f).Twins (c₂.opened f) := by
  have hpushed : Twins { c₁ with stack := c₁.stack.push f }
      { c₂ with stack := c₂.stack.push f } :=
    { h with stack_eq := congrArg (·.push f) h.stack_eq }
  exact hpushed.trace (congrArg (Event.pushed f.name) hpushed.depth_eq)

theorem pop (h : c₁.Twins c₂) : c₁.pop.Twins c₂.pop := by
  have hpopped : Twins { c₁ with stack := c₁.stack.pop } { c₂ with stack := c₂.stack.pop } :=
    { h with stack_eq := congrArg Stack.pop h.stack_eq }
  have htop : c₁.stack.top? = c₂.stack.top? := h.frame?_eq
  unfold Context.pop
  rw [← htop]
  cases c₁.stack.top? with
  | none => exact h
  | some f => exact hpopped.trace (congrArg (Event.popped f.name) hpopped.depth_eq)

end Context.Twins

/-- Outcomes that are the same but for places; `R` says when values are. -/
inductive Outcome.Twins (R : α → α → Prop) : Outcome α → Outcome α → Prop where
  | done {a₁ a₂ : α} {c₁ c₂ : Context} (ha : R a₁ a₂) (h : c₁.Twins c₂) :
      Twins R (.done a₁ c₁) (.done a₂ c₂)
  | failed {e₁ e₂ : Error} {c₁ c₂ : Context} (he : e₁.unplaced = e₂.unplaced)
      (h : c₁.Twins c₂) : Twins R (.failed e₁ c₁) (.failed e₂ c₂)
  | halted (why : Halt) {c₁ c₂ : Context} (h : c₁.Twins c₂) :
      Twins R (.halted why c₁) (.halted why c₂)

namespace Outcome.Twins

variable {o₁ o₂ : Outcome α}

theorem context {R : α → α → Prop} (h : o₁.Twins R o₂) : o₁.context.Twins o₂.context := by
  cases h <;> assumption

theorem unplaced_eq {f : α → α} (h : o₁.Twins (fun a₁ a₂ => f a₁ = f a₂) o₂) :
    o₁.unplaced f = o₂.unplaced f := by
  cases h with
  | done ha h => simp only [Outcome.unplaced, ha, h.unplaced_eq]
  | failed he h => simp only [Outcome.unplaced, he, h.unplaced_eq]
  | halted why h => simp only [Outcome.unplaced, h.unplaced_eq]

end Outcome.Twins

namespace Eval

/-- Steps that end alike, but for places, in all contexts that are the same but for
places. -/
def Twins (R : α → α → Prop) (act₁ act₂ : Eval α) : Prop :=
  ∀ c₁ c₂, c₁.Twins c₂ → (act₁.run c₁).Twins R (act₂.run c₂)

variable {R : α → α → Prop} {S : β → β → Prop} {act₁ act₂ act₃ : Eval α}

theorem Twins.symm (h : Twins Eq act₁ act₂) : Twins Eq act₂ act₁ := by
  intro c₁ c₂ hc
  match act₁.run c₂, act₂.run c₁, h c₂ c₁ hc.symm with
  | _, _, .done ha h' => exact .done ha.symm h'.symm
  | _, _, .failed he h' => exact .failed he.symm h'.symm
  | _, _, .halted why h' => exact .halted why h'.symm

theorem Twins.trans (h : Twins Eq act₁ act₂) (h' : Twins Eq act₂ act₃) : Twins Eq act₁ act₃ := by
  intro c₁ c₂ hc
  -- the step in the middle is taken in the second context
  match act₁.run c₁, act₂.run c₂, act₃.run c₂, h c₁ c₂ hc, h' c₂ c₂ (.refl hc.plain₂) with
  | _, _, _, .done ha h₁, .done ha' h₂ => exact .done (ha.trans ha') (h₁.trans h₂)
  | _, _, _, .failed he h₁, .failed he' h₂ => exact .failed (he.trans he') (h₁.trans h₂)
  | _, _, _, .halted why h₁, .halted _ h₂ => exact .halted why (h₁.trans h₂)

theorem twins_pure {a₁ a₂ : α} (ha : R a₁ a₂) : Twins R (pure a₁) (pure a₂) := by
  intro c₁ c₂ h
  exact .done ha h

theorem twins_fail {e₁ e₂ : Error} (he : e₁.unplaced = e₂.unplaced) :
    Twins R (fail e₁ : Eval α) (fail e₂) := by
  intro c₁ c₂ h
  exact .failed he h

theorem twins_halt (why : Halt) : Twins R (halt why : Eval α) (halt why) := by
  intro c₁ c₂ h
  exact .halted why h

theorem twins_ofExcept (r : Except Error α) : Twins Eq (ofExcept r) (ofExcept r) := by
  cases r with
  | ok a => exact twins_pure rfl
  | error e => exact twins_fail rfl

theorem twins_bind {next₁ next₂ : α → Eval β} (hact : Twins R act₁ act₂)
    (hnext : ∀ a₁ a₂, R a₁ a₂ → Twins S (next₁ a₁) (next₂ a₂)) :
    Twins S (act₁ >>= next₁) (act₂ >>= next₂) := by
  intro c₁ c₂ h
  rw [run_bind, run_bind]
  match act₁.run c₁, act₂.run c₂, hact c₁ c₂ h with
  | _, _, .done ha h' => exact hnext _ _ ha _ _ h'
  | _, _, .failed he h' => exact .failed he h'
  | _, _, .halted why h' => exact .halted why h'

theorem twins_bind_eq {next₁ next₂ : α → Eval β} (hact : Twins Eq act₁ act₂)
    (hnext : ∀ a, Twins S (next₁ a) (next₂ a)) :
    Twins S (act₁ >>= next₁) (act₂ >>= next₂) := by
  refine twins_bind hact fun a₁ a₂ ha => ?_
  rw [ha]
  exact hnext a₂

theorem twins_view {f : Context → α} (hf : ∀ {c₁ c₂}, c₁.Twins c₂ → R (f c₁) (f c₂)) :
    Twins R (view f) (view f) := by
  intro c₁ c₂ h
  exact .done (hf h) h

theorem twins_modify {f₁ f₂ : Context → Context} {R : Unit → Unit → Prop}
    (hf : ∀ {c₁ c₂}, c₁.Twins c₂ → (f₁ c₁).Twins (f₂ c₂)) (hR : R () ()) :
    Twins R (modify f₁) (modify f₂) := by
  intro c₁ c₂ h
  exact .done hR (hf h)

theorem twins_trace {event₁ event₂ : Event} (h : event₁ = event₂) :
    Twins Eq (trace fun _ => event₁) (trace fun _ => event₂) :=
  twins_modify (fun hc => hc.trace h) rfl

theorem twins_within {n₁ n₂ : Node} (hn : n₁.encode = n₂.encode) (hact : Twins R act₁ act₂) :
    Twins R (act₁.within n₁) (act₂.within n₂) := by
  intro c₁ c₂ h
  unfold within recover
  dsimp only
  match act₁.run c₁, act₂.run c₂, hact c₁ c₂ h with
  | _, _, .done ha h' => exact .done ha h'
  | _, _, .failed he h' => exact .failed (Error.unplaced_nameNode hn he h'.depth_eq) h'
  | _, _, .halted why h' => exact .halted why h'

theorem twins_attempt (hact : Twins Eq act₁ act₂) :
    Twins (fun r₁ r₂ => r₁.mapError Error.unplaced = r₂.mapError Error.unplaced)
      act₁.attempt act₂.attempt := by
  intro c₁ c₂ h
  unfold attempt
  dsimp only
  match act₁.run c₁, act₂.run c₂, hact c₁ c₂ h with
  | _, _, .done ha h' => exact .done (by rw [ha]) h'
  | _, _, .failed he h' => exact .done (congrArg Except.error he) h'
  | _, _, .halted why h' => exact .halted why h'

theorem twins_push (f : Frame) : Twins Eq (push f) (push f) := by
  intro c₁ c₂ h
  unfold push Context.push
  dsimp only
  rw [h.isFull_eq]
  cases c₂.isFull with
  | true => exact .failed rfl h
  | false => exact .done rfl (h.opened f)

theorem twins_inFrame (f : Frame) (hact : Twins R act₁ act₂) :
    Twins R (inFrame f act₁) (inFrame f act₂) := by
  refine twins_bind_eq (twins_push f) fun _ c₁ c₂ h => ?_
  unfold ensuring
  dsimp only
  match act₁.run c₁, act₂.run c₂, hact c₁ c₂ h with
  | _, _, .done ha h' => exact .done ha h'.pop
  | _, _, .failed he h' => exact .failed he h'.pop
  | _, _, .halted why h' => exact .halted why h'.pop

theorem twins_write (text : String) : Twins Eq (write text) (write text) := by
  refine twins_bind_eq (twins_view fun h => h.output_eq) fun output => ?_
  cases output with
  | working => exact twins_modify (fun h => h.write text) rfl
  | broken reason => exact twins_fail rfl

end Eval

/-! ## §3. The evaluator. -/

/-- Engines that evaluate bodies alike that are the same but for places. -/
def Engine.Twins (e₁ e₂ : Engine) : Prop :=
  ∀ frame body₁ body₂, body₁.bare = body₂.bare →
    Eval.Twins Eq (e₁.enter frame body₁) (e₂.enter frame body₂)

namespace Eval

variable {e₁ e₂ : Engine}

theorem twins_apply {symbol : String} {arity : Arity} {function : Native}
    (h : (Definition.native symbol arity function).IsPlain) (ev₁ ev₂ : Node → Eval Value)
    (args : List Value) :
    Twins Eq (function.apply ev₁ symbol args) (function.apply ev₂ symbol args) := by
  rcases h.eq_add_or_print with rfl | rfl
  · exact Native.apply_add_cases (motive := fun act => Twins Eq act act) ev₁ symbol args
      (fun _ => twins_fail rfl) (fun _ => twins_pure rfl) (twins_halt _)
  · rw [Native.apply_print_eq ev₂ ev₁]
    exact Native.apply_print_cases (motive := fun act => Twins Eq act act) ev₁ symbol args
      (fun _ => twins_bind_eq (twins_write _) fun _ => twins_pure rfl) (twins_halt _)

theorem twins_invoke (he : e₁.Twins e₂) {d₁ d₂ : Definition} (h : d₁.IsPlain)
    (heq : d₁.bare = d₂.bare) (args : List Value) :
    Twins Eq (d₁.invoke e₁ args) (d₂.invoke e₂ args) := by
  rcases h.eq_of_bare heq with ⟨hcore, rfl⟩ | ⟨symbol, params, body₁, body₂, rfl, rfl, hbody⟩
  · cases d₂ with
    | native symbol arity function =>
      unfold Definition.invoke
      dsimp only
      split
      · exact twins_apply h _ _ args
      · exact twins_fail rfl
    | form symbol arity form => exact twins_halt _
    | user symbol params body => exact absurd hcore Registry.user_not_mem_core
    | foreign symbol kind => exact twins_fail rfl
  · unfold Definition.invoke
    dsimp only
    split
    · exact he _ body₁ body₂ hbody
    · exact twins_fail rfl

theorem twins_define (name : String) (operands : List Node) :
    Twins Eq (define name operands) (define name (Node.bareAll operands)) := by
  match operands with
  | f :: params :: body :: more =>
    intro c₁ c₂ h
    rw [Node.bareAll, Node.bareAll, Node.bareAll, run_define, run_define, Node.definition_bare]
    -- whether the form is well written does not depend on where it stands
    cases hdef : Node.definition name f params body with
    | error e => exact .failed e.unplaced_unplaced.symm h
    | ok d =>
      obtain ⟨symbol, names, rfl⟩ := Node.definition_eq_ok hdef
      refine .done rfl (h.register (.inr ⟨_, _, _, rfl⟩) (.inr ⟨_, _, _, rfl⟩) ?_)
      rw [Definition.bare, Definition.bare, Node.bare_bare]
  | [] | [_] | [_, _] => exact twins_halt _

/-- Behind a head that is the same, operands are treated alike that are the same but for
places. -/
theorem twins_behindHead (he : e₁.Twins e₂) (name : String) (operands : List Node)
    (hargs : Twins Eq (Node.evalAll e₁ operands) (Node.evalAll e₂ (Node.bareAll operands)))
    (hlet : Twins Eq (Node.evalLet e₁ name operands)
      (Node.evalLet e₂ name (Node.bareAll operands))) :
    Twins Eq (Coupling.behindHead e₁ name operands)
      (Coupling.behindHead e₂ name (Node.bareAll operands)) := by
  refine twins_bind (R := fun found₁ found₂ => found₁.map Definition.bare
      = found₂.map Definition.bare ∧ ∀ d, found₁ = some d → d.IsPlain)
    (twins_view fun h => ⟨h.resolve_eq name, fun d hd =>
      h.plain₁ d (Registry.mem_of_resolve hd)⟩) ?_
  rintro (_ | d₁) (_ | d₂) ⟨heq, hplain⟩
  · exact twins_bind_eq hargs fun _ => twins_fail rfl
  · cases heq
  · cases heq
  · have hd := hplain d₁ rfl
    have hbare : d₁.bare = d₂.bare := Option.some.inj heq
    have hinvoke : ∀ args, Twins Eq
        (trace (fun _ => .applying name args) >>= fun _ => d₁.invoke e₁ args)
        (trace (fun _ => .applying name args) >>= fun _ => d₂.invoke e₂ args) :=
      fun args => twins_bind_eq (twins_trace rfl) fun _ => twins_invoke he hd hbare args
    rcases hd.eq_of_bare hbare with ⟨hcore, rfl⟩ | ⟨symbol, params, body₁, body₂, rfl, rfl, _⟩
    · -- a definition of the core is the same in both registries
      simp only [Registry.coreDefinitions, List.mem_cons, List.not_mem_nil, or_false] at hcore
      rcases hcore with rfl | rfl | rfl | rfl
      · exact twins_bind_eq hargs hinvoke
      · exact twins_bind_eq hargs hinvoke
      · dsimp only
        rw [Node.length_bareAll]
        split
        · exact twins_define name operands
        · exact twins_fail rfl
      · dsimp only
        rw [Node.length_bareAll]
        split
        · exact hlet
        · exact twins_fail rfl
    · exact twins_bind_eq hargs hinvoke

/-- The error of a node that does not have the shape it needs says where it stands, and
otherwise the same. -/
theorem twins_fail_malformed {R : α → α → Prop} (n : Node) (title : String) :
    Twins R (fail (n.malformed (title ++ n.encode)) : Eval α)
      (fail (n.bare.malformed (title ++ n.bare.encode))) := by
  refine twins_fail ?_
  rw [Node.encode_bare, Node.malformed_bare, Error.unplaced_unplaced]

mutual
/-- **A node is evaluated as it is without its places.** -/
theorem twins_evalWith (he : e₁.Twins e₂) :
    ∀ n : Node, Twins Eq (n.evalWith e₁) (n.bare.evalWith e₂)
  | .int _ value => twins_pure rfl
  | .symbol _ name => by
    refine twins_bind_eq (twins_view fun h => h.lookup_eq name) fun v => ?_
    cases v with
    | some v => exact twins_pure rfl
    | none => exact twins_fail rfl
  | .expression token [] => twins_within (Node.encode_bare _).symm (twins_fail rfl)
  | .expression token (head :: operands) => by
    cases hhead : head.symbol? with
    | none =>
      have hbare : head.bare.symbol? = none := head.symbol?_bare.trans hhead
      rw [Node.bare, Node.bareAll, Node.evalWith, Node.evalWith, hhead, hbare]
      refine twins_within ?_ (twins_fail rfl)
      exact (Node.encode_bare (.expression token (head :: operands))).symm
    | some name =>
      have hbare : head.bare.symbol? = some name := head.symbol?_bare.trans hhead
      rw [Node.bare, Node.bareAll, Coupling.evalWith_call e₁ token hhead,
        Coupling.evalWith_call e₂ none hbare]
      refine twins_within (Node.encode_bare (.expression token (head :: operands))).symm ?_
      refine twins_bind_eq (twins_trace ?_) fun _ => ?_
      · exact congrArg (Event.calling name) (Node.encodeAll_bareAll (head :: operands)).symm
      · exact twins_behindHead he name operands (twins_evalAll he operands)
          (twins_evalLet he name operands)
  | .list _ children => twins_evalLast he .nil children
  | .foreign _ _ _ => twins_fail rfl
theorem twins_evalAll (he : e₁.Twins e₂) :
    ∀ ns : List Node, Twins Eq (Node.evalAll e₁ ns) (Node.evalAll e₂ (Node.bareAll ns))
  | [] => twins_pure rfl
  | n :: ns =>
    twins_bind_eq (twins_evalWith he n) fun _ =>
      twins_bind_eq (twins_evalAll he ns) fun _ => twins_pure rfl
theorem twins_evalLast (he : e₁.Twins e₂) (before : Value) : ∀ ns : List Node,
    Twins Eq (Node.evalLast e₁ before ns) (Node.evalLast e₂ before (Node.bareAll ns))
  | [] => twins_pure rfl
  | n :: ns => twins_bind_eq (twins_evalWith he n) fun v => twins_evalLast he v ns
theorem twins_evalBinding (he : e₁.Twins e₂) (form : String) (frame : Frame) : ∀ n : Node,
    Twins Eq (Node.evalBinding e₁ form frame n) (Node.evalBinding e₂ form frame n.bare)
  | .expression token [name, value] => by
    rw [Node.bare, Node.bareAll, Node.bareAll, Node.bareAll, Node.evalBinding, Node.evalBinding,
      Node.symbol?_bare]
    cases name.symbol? with
    | none => exact twins_fail_malformed name _
    | some x =>
      dsimp only
      split
      · refine twins_fail ?_
        rw [Node.malformed_bare, Error.unplaced_unplaced]
      · exact twins_bind_eq (twins_evalWith he value) fun _ => twins_pure rfl
  | .expression token [] => twins_fail_malformed (.expression token []) _
  | .expression token [n] => twins_fail_malformed (.expression token [n]) _
  | .expression token (n :: m :: k :: ns) =>
    twins_fail_malformed (.expression token (n :: m :: k :: ns)) _
  | .int token value => twins_fail_malformed (.int token value) _
  | .symbol token name => twins_fail_malformed (.symbol token name) _
  | .list token ns => twins_fail_malformed (.list token ns) _
  | .foreign token code content => twins_fail_malformed (.foreign token code content) _
theorem twins_evalBindings (he : e₁.Twins e₂) (form : String) (frame : Frame) :
    ∀ ns : List Node,
      Twins Eq (Node.evalBindings e₁ form frame ns)
        (Node.evalBindings e₂ form frame (Node.bareAll ns))
  | [] => twins_pure rfl
  | n :: ns =>
    twins_bind_eq (twins_evalBinding he form frame n) fun frame' =>
      twins_evalBindings he form frame' ns
theorem twins_evalLet (he : e₁.Twins e₂) (form : String) : ∀ operands : List Node,
    Twins Eq (Node.evalLet e₁ form operands) (Node.evalLet e₂ form (Node.bareAll operands))
  | .expression _ pairs :: body :: _ =>
    twins_bind_eq (twins_evalBindings he form (Frame.empty .scope form) pairs) fun frame =>
      he frame body body.bare body.bare_bare.symm
  | .int token value :: _ :: _ => twins_fail_malformed (.int token value) _
  | .symbol token name :: _ :: _ => twins_fail_malformed (.symbol token name) _
  | .list token ns :: _ :: _ => twins_fail_malformed (.list token ns) _
  | .foreign token code content :: _ :: _ =>
    twins_fail_malformed (.foreign token code content) _
  | [] => twins_halt _
  | [_] => twins_halt _
end

/-- Nodes that are the same but for places are evaluated alike. -/
theorem twins_evalWith_of_bare (he : e₁.Twins e₂) {n₁ n₂ : Node} (hn : n₁.bare = n₂.bare)
    (hrefl : e₂.Twins e₂) : Twins Eq (n₁.evalWith e₁) (n₂.evalWith e₂) := by
  have h₁ := twins_evalWith he n₁
  rw [hn] at h₁
  exact h₁.trans (twins_evalWith hrefl n₂).symm

end Eval

theorem Engine.twins_withRoom (ev₁ ev₂ : Node → Eval Value) (room : Nat) :
    (Engine.withRoom ev₁ room).Twins (.withRoom ev₂ room) := by
  induction room generalizing ev₁ with
  | zero =>
    intro frame body₁ body₂ _
    exact Eval.twins_inFrame frame (Eval.twins_halt _)
  | succ room ih =>
    intro frame body₁ body₂ hbody
    exact Eval.twins_inFrame frame (Eval.twins_evalWith_of_bare (ih ev₁) hbody (ih ev₂))

namespace Eval

/-- **Nodes that are the same but for places are evaluated alike**, but for places, with
the room that the context leaves. -/
theorem twins_eval {n₁ n₂ : Node} (hn : n₁.bare = n₂.bare) : Twins Eq n₁.eval n₂.eval := by
  have hencode : n₁.encode = n₂.encode := by
    rw [← n₁.encode_bare, hn, n₂.encode_bare]
  rw [eval_eq_within, eval_eq_within]
  refine twins_within hencode (twins_bind_eq (twins_view fun h => h.room_eq) fun room => ?_)
  exact twins_evalWith_of_bare (Engine.twins_withRoom _ _ room) hn (Engine.twins_withRoom _ _ room)

end Eval

end IntLisp
