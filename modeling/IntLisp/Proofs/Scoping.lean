/-
  IntLisp.Proofs.Scoping
  ──────────────────────
  **WELL-SCOPED PROGRAMS FIND ALL THEIR NAMES.**

  Whether every name of a node will be bound can be judged before it is
  evaluated, from the names that are visible then: a body of a function sees
  its parameters and nothing else, and the body of a `let` sees its names
  beside those around it.  The judgement must hold of all functions in force,
  and it does so for good: a well-scoped node only defines functions whose
  bodies are well scoped, and does not touch the two forms that the judgement
  knows about.

  The property of a context that every evaluation keeps is that its registry
  is well scoped and that its stack is the one at hand, with more bindings at
  most.  With the stack the names that are visible on it are kept, operand
  after operand.
-/
import IntLisp.Proofs.Calls
import IntLisp.Proofs.Promise
import IntLisp.Proofs.Restoration

namespace IntLisp

variable {α : Type}

/-! ## §1. Well-scoped nodes. -/

namespace Node

/-- The names that a list of parameters holds, if all of them are symbols. -/
def parameters? : Node → Option (List String)
  | expression _ ns => ns.mapM symbol?
  | _ => none

/-- The name that a binding is for. -/
def boundName? : Node → Option String
  | expression _ [name, _] => name.symbol?
  | _ => none

/-- The names that bindings are for. -/
def boundNames : Node → List String
  | expression _ pairs => pairs.filterMap boundName?
  | _ => []

mutual
/-- Whether the node only uses `names`, and the names bound inside it, as values. -/
def isScoped (names : List String) : Node → Bool
  | int _ _ => true
  | symbol _ name => name ∈ names
  | expression _ [] => true
  | expression _ (head :: operands) =>
    match head.symbol? with
    | none => true
    | some name =>
      if name = "defun" then isScopedDefinition operands
      else if name = "let" ∧ operands.length = 2 then isScopedLet names operands
      else allScoped names operands
  | list _ children => allScoped names children
  | foreign _ _ _ => true
/-- Whether all nodes of a list are well scoped. -/
def allScoped (names : List String) : List Node → Bool
  | [] => true
  | n :: ns => isScoped names n && allScoped names ns
/-- Whether the operands of a definition, if they have a name and parameters, define
neither of the forms, and a body that uses its parameters only. -/
def isScopedDefinition : List Node → Bool
  | name :: params :: rest =>
    match name.symbol?, params.parameters? with
    | some f, some ps => f ≠ "defun" && f ≠ "let" && isScopedBody ps rest
    | _, _ => true
  | _ => true
/-- Whether the body, if there is one, is well scoped. -/
def isScopedBody (names : List String) : List Node → Bool
  | [] => true
  | body :: _ => isScoped names body
/-- Whether the operands of a `let` are well scoped: its values without the names it binds,
and its body with them. -/
def isScopedLet (names : List String) : List Node → Bool
  | bindings :: body :: _ =>
    areScopedBindings names bindings && isScoped (names ++ bindings.boundNames) body
  | _ => true
/-- Whether the values of bindings are well scoped. -/
def areScopedBindings (names : List String) : Node → Bool
  | expression _ pairs => allScopedPairs names pairs
  | _ => true
/-- Whether the values of all pairs are well scoped. -/
def allScopedPairs (names : List String) : List Node → Bool
  | [] => true
  | n :: ns => isScopedPair names n && allScopedPairs names ns
/-- Whether the value of a binding is well scoped. -/
def isScopedPair (names : List String) : Node → Bool
  | expression _ [_, value] => isScoped names value
  | _ => true
end

end Node

/-! ## §2. Well-scoped definitions. -/

/-- The error does not come from a name that no visible frame binds. -/
def Error.AllBound (e : Error) : Prop := ∀ name, Error.unboundSymbol name ∉ e.chain

mutual
/-- Native code that is well scoped: it has only nodes evaluated that need no names, does
not make up errors of unbound names, defines what is well scoped, and opens and closes no
frames. -/
def Code.IsScoped : Code → Prop
  | .done _ => True
  | .fail e => e.AllBound
  | .evaluate n next => n.isScoped [] = true
      ∧ ∀ r : Except Error Value, (∀ e, r = .error e → e.AllBound) → (next r).IsScoped
  | .depth next => ∀ d, (next d).IsScoped
  | .lookup _ next => ∀ v, (next v).IsScoped
  | .frame _ next => ∀ f, (next f).IsScoped
  | .bind _ _ _ next => next.IsScoped
  | .push _ _ | .pop _ => False
  | .write _ next =>
      ∀ r : Except Error Unit, (∀ e, r = .error e → e.AllBound) → (next r).IsScoped
  | .register d next =>
      d.symbol ≠ "defun" ∧ d.symbol ≠ "let" ∧ d.IsScoped ∧ next.IsScoped
/-- Native functions that are well scoped. -/
def Native.IsScoped : Native → Prop
  | .add | .print => True
  | .code body => ∀ symbol args, (body symbol args).IsScoped
/-- Definitions, other than the two forms of the core, that are well scoped. -/
def Definition.IsScoped : Definition → Prop
  | .native _ _ function => function.IsScoped
  | .form _ _ _ => False
  | .user _ params body => body.isScoped params = true
  | .foreign _ _ => True
end

/-- The forms of the core are in force, no other form is, and all functions are well
scoped. -/
structure Registry.IsScoped (r : Registry) : Prop where
  defun_eq : r.resolve "defun" = some (.form "defun" ⟨3, 3⟩ .define)
  let_eq : r.resolve "let" = some (.form "let" ⟨2, 2⟩ .letIn)
  others : ∀ name d, name ≠ "defun" → name ≠ "let" → r.resolve name = some d → d.IsScoped

theorem Registry.IsScoped.register {r : Registry} (h : r.IsScoped) {d : Definition}
    (hdefun : d.symbol ≠ "defun") (hlet : d.symbol ≠ "let") (hd : d.IsScoped) :
    (r.register d).IsScoped where
  defun_eq := by rw [resolve_register, if_neg hdefun, h.defun_eq]
  let_eq := by rw [resolve_register, if_neg hlet, h.let_eq]
  others := by
    intro name e hname hname' he
    rw [resolve_register] at he
    split at he
    · cases he
      exact hd
    · exact h.others name e hname hname' he

theorem Registry.isScoped_core : Registry.core.IsScoped where
  defun_eq := rfl
  let_eq := rfl
  others := by
    intro name d hdefun hlet hd
    simp only [core, coreDefinitions, List.foldl_cons, List.foldl_nil, resolve_register] at hd
    split at hd
    · next h => exact absurd h.symm hlet
    split at hd
    · next h => exact absurd h.symm hdefun
    -- of the core only its two functions are left
    split at hd
    · cases hd
      trivial
    split at hd
    · cases hd
      trivial
    · cases hd

/-! ## §3. Errors that are no fault of a name. -/

namespace Error.AllBound

variable {e : Error}

theorem because (reason : Reason) : (Error.because reason).AllBound := by
  intro name h
  simp [Error.chain] at h

theorem located (h : e.AllBound) (pos : Position) (note : String) :
    (Error.located pos e note).AllBound := by
  intro name hmem
  rw [Error.chain] at hmem
  rcases List.mem_cons.1 hmem with hmem | hmem
  · cases hmem
  · exact h name hmem

theorem evaluating (h : e.AllBound) (expr : String) (depth : Nat) :
    (Error.evaluating expr depth e).AllBound := by
  intro name hmem
  rw [Error.chain] at hmem
  rcases List.mem_cons.1 hmem with hmem | hmem
  · cases hmem
  · exact h name hmem

theorem nameNode (h : e.AllBound) (n : Node) (ctx : Context) : (Eval.nameNode n e ctx).AllBound := by
  unfold Eval.nameNode
  split
  · exact h
  · exact h.evaluating _ _

/-- Errors that wrap no other. -/
theorem single (hchain : e.chain = [e]) (he : ∀ name, e ≠ .unboundSymbol name) : e.AllBound := by
  intro name hmem
  rw [hchain] at hmem
  exact he name (List.mem_singleton.1 hmem).symm

theorem nilArgument (symbol : String) (index : Nat) :
    (Error.nilArgument symbol index).AllBound := by
  intro name h
  simp [Error.chain] at h

theorem malformed (n : Node) (note : String) : (n.malformed note).AllBound :=
  (because _).located _ _

end Error.AllBound

/-! ## §4. Visible names. -/

/-- The frame `g` binds what `f` binds, and `names`. -/
structure Frame.Gains (f g : Frame) (names : List String) : Prop where
  kind_eq : g.kind = f.kind
  lookup : ∀ x, (f.lookup x).isSome = true ∨ x ∈ names → (g.lookup x).isSome = true

namespace Frame.Gains

variable {f g h : Frame} {names names' : List String}

theorem refl (f : Frame) : f.Gains f [] :=
  ⟨rfl, fun _ hx => hx.resolve_right List.not_mem_nil⟩

theorem bind (f : Frame) (x : String) (v : Value) : f.Gains (f.bind x v) [x] := by
  refine ⟨rfl, fun y hy => ?_⟩
  rw [lookup_bind]
  split
  · rfl
  · next hne => exact hy.resolve_right fun hmem => hne (List.mem_singleton.1 hmem)

theorem trans (hf : f.Gains g names) (hg : g.Gains h names') : f.Gains h (names ++ names') := by
  refine ⟨hg.kind_eq.trans hf.kind_eq, fun x hx => hg.lookup x ?_⟩
  rcases hx with hx | hx
  · exact .inl (hf.lookup x (.inl hx))
  · rcases List.mem_append.1 hx with hx | hx
    · exact .inl (hf.lookup x (.inr hx))
    · exact .inr hx

theorem bindAll (f : Frame) (pairs : List (String × Value)) :
    f.Gains (f.bindAll pairs) (pairs.map Prod.fst) := by
  induction pairs generalizing f with
  | nil => exact refl f
  | cons p pairs ih => exact (bind f p.1 p.2).trans (ih (f.bind p.1 p.2))

end Frame.Gains

/-- All of `names` are visible on the stack. -/
def Stack.Sees (s : Stack) (names : List String) : Prop :=
  ∀ x ∈ names, (s.lookup x).isSome = true

namespace Stack

variable {s : Stack} {f : Frame} {names : List String}

/-- What a frame binds is visible inside it. -/
theorem isSome_lookup_push {x : String} (h : (f.lookup x).isSome = true) :
    ((s.push f).lookup x).isSome = true := by
  obtain ⟨v, hv⟩ := Option.isSome_iff_exists.1 h
  show (Frame.lookupVisible x (f :: s.frames)).isSome = true
  rw [Frame.lookupVisible, hv]
  rfl

/-- A name stays visible when frames gain bindings. -/
theorem GrowsTo.isSome_lookup {t : Stack} (h : s.GrowsTo t) {x : String}
    (hx : (s.lookup x).isSome = true) : (t.lookup x).isSome = true := by
  show (Frame.lookupVisible x t.frames).isSome = true
  have hx : (Frame.lookupVisible x s.frames).isSome = true := hx
  unfold GrowsTo at h
  generalize s.frames = fs, t.frames = gs at h hx ⊢
  induction h with
  | nil => exact hx
  | @cons f g fs gs hfg _ ih =>
    obtain ⟨pairs, rfl⟩ := hfg
    have hgains := Frame.Gains.bindAll f pairs
    rw [Frame.lookupVisible] at hx ⊢
    cases hg : (f.bindAll pairs).lookup x with
    | some v => rfl
    | none =>
      -- what the frame does not bind now it did not bind before, so the name is further out
      cases hf : f.lookup x with
      | some v =>
        have hbound := hgains.lookup x (.inl (by rw [hf]; rfl))
        rw [hg] at hbound
        cases hbound
      | none =>
        rw [hf] at hx
        dsimp only at hx ⊢
        rw [hgains.kind_eq]
        split at hx
        · cases hx
        · next hkind =>
          rw [if_neg hkind]
          exact ih hx

/-- The names of a `let` are visible in its frame beside those around it. -/
theorem Sees.push {bound : List String} (h : s.Sees names) {form : String}
    (hf : (Frame.empty .scope form).Gains f bound) : (s.push f).Sees (names ++ bound) := by
  intro x hx
  cases hlookup : f.lookup x with
  | some v => exact isSome_lookup_push (by rw [hlookup]; rfl)
  | none =>
    rcases List.mem_append.1 hx with hx | hx
    · -- the frame of a `let` is looked through
      have hkind : f.kind ≠ .call := by simp [hf.kind_eq, Frame.empty]
      show (Frame.lookupVisible x (f :: s.frames)).isSome = true
      simp only [Frame.lookupVisible, hlookup, if_neg hkind]
      exact h x hx
    · have hbound := hf.lookup x (.inr hx)
      rw [hlookup] at hbound
      cases hbound

/-- The parameters of a function are visible in the frame of a call of it. -/
theorem sees_push_call {params : List String} {args : List Value} (symbol : String)
    (hlen : args.length = params.length) :
    (s.push ((Frame.empty .call symbol).bindAll (params.zip args))).Sees params := by
  intro x hx
  refine isSome_lookup_push ((Frame.Gains.bindAll _ _).lookup x (.inr ?_))
  rwa [List.map_fst_zip (Nat.le_of_eq hlen.symm)]

end Stack

/-! ## §5. Definitions. -/

namespace Node

theorem error_of_paramNames {title : String} {seen : List String} {ns : List Node} {e : Error}
    (h : paramNames title seen ns = .error e) : e.AllBound := by
  induction ns generalizing seen with
  | nil => cases h
  | cons n ns ih =>
    unfold paramNames at h
    split at h
    · cases h
      exact .malformed _ _
    · split at h
      · cases h
        exact .malformed _ _
      · exact ih h

/-- Parameters that are accepted are the symbols that are written. -/
theorem ok_of_paramNames {title : String} {seen names : List String} {ns : List Node}
    (h : paramNames title seen ns = .ok names) :
    ∃ ps, ns.mapM symbol? = some ps ∧ names = seen.reverse ++ ps := by
  induction ns generalizing seen with
  | nil =>
    cases h
    exact ⟨[], rfl, (List.append_nil _).symm⟩
  | cons n ns ih =>
    unfold paramNames at h
    split at h
    · cases h
    · next x hx =>
      split at h
      · cases h
      · obtain ⟨ps, hps, hnames⟩ := ih h
        refine ⟨x :: ps, ?_, ?_⟩
        · rw [List.mapM_cons, hx, hps]
          rfl
        · rw [hnames, List.reverse_cons, List.append_assoc]
          rfl

theorem error_of_definition {symbol : String} {name params body : Node} {e : Error}
    (h : definition symbol name params body = .error e) : e.AllBound := by
  unfold definition at h
  split at h
  · cases h
    exact .malformed _ _
  · next f _ =>
    dsimp only at h
    split at h
    · next ns =>
      cases hnames : paramNames (symbol ++ " " ++ f) [] ns with
      | error e' =>
        rw [hnames] at h
        cases h
        exact error_of_paramNames hnames
      | ok names => rw [hnames] at h; cases h
    · cases h
      exact .malformed _ _

/-- A definition that is accepted has the name, the parameters and the body that are
written. -/
theorem ok_of_definition {symbol : String} {name params body : Node} {d : Definition}
    (h : definition symbol name params body = .ok d) :
    ∃ f ps, name.symbol? = some f ∧ params.parameters? = some ps ∧ d = .user f ps body := by
  unfold definition at h
  split at h
  · cases h
  · next f hf =>
    dsimp only at h
    split at h
    · next ns =>
      cases hnames : paramNames (symbol ++ " " ++ f) [] ns with
      | error e => rw [hnames] at h; cases h
      | ok names =>
        rw [hnames] at h
        cases h
        obtain ⟨ps, hps, heq⟩ := ok_of_paramNames hnames
        exact ⟨f, ps, hf, hps, congrArg (Definition.user f · body) heq⟩
    · cases h

end Node

/-! ## §6. Steps that keep contexts well scoped. -/

/-- The registry is well scoped, and the frames of `s` are active, with more bindings at
most. -/
structure Context.ScopedAt (s : Stack) (ctx : Context) : Prop where
  registry : ctx.registry.IsScoped
  stack : s.GrowsTo ctx.stack

namespace Context.ScopedAt

variable {s : Stack} {ctx : Context}

theorem trace (h : ctx.ScopedAt s) (event : Context → Event) : (ctx.trace event).ScopedAt s :=
  ⟨by rw [registry_trace]; exact h.registry, by rw [stack_trace]; exact h.stack⟩

theorem register (h : ctx.ScopedAt s) {d : Definition} (hdefun : d.symbol ≠ "defun")
    (hlet : d.symbol ≠ "let") (hd : d.IsScoped) : (ctx.register d).ScopedAt s :=
  ⟨by rw [registry_register]; exact h.registry.register hdefun hlet hd,
    by rw [stack_register]; exact h.stack⟩

theorem bind (h : ctx.ScopedAt s) (level : Nat) (name : String) (v : Value) :
    (ctx.bind level name v).ScopedAt s :=
  ⟨h.registry, Stack.survives_growsTo.bind trivial h.stack level name v⟩

theorem opened (h : ctx.ScopedAt s) (f : Frame) : (ctx.opened f).ScopedAt (s.push f) :=
  ⟨by rw [registry_opened]; exact h.registry, by
    rw [stack_opened]; exact Stack.survives_growsTo.push h.stack f⟩

theorem pop {f : Frame} (h : ctx.ScopedAt (s.push f)) : ctx.pop.ScopedAt s :=
  ⟨by rw [registry_pop]; exact h.registry, by
    rw [stack_pop]; exact Stack.survives_growsTo.pop h.stack⟩

end Context.ScopedAt

namespace Eval

/-- On the stack `s` the step keeps the registry well scoped and gives the frames back, and
it fails for no name that is not bound. -/
def SafeAt (s : Stack) (act : Eval α) : Prop :=
  act.Promises (Context.ScopedAt s) Error.AllBound fun _ => True

variable {s : Stack}

theorem safeAt_trace (event : Context → Event) : (trace event).SafeAt s :=
  promises_modify (fun _ h => h.trace event) trivial

theorem safeAt_within (n : Node) {act : Eval α} (h : act.SafeAt s) : (act.within n).SafeAt s :=
  promises_within n h fun _ ctx he => he.nameNode n ctx

theorem safeAt_inFrame {f : Frame} {act : Eval α} (h : act.SafeAt (s.push f)) :
    (inFrame f act).SafeAt s :=
  promises_inFrame h (fun _ h => h.opened f) (fun _ h => h.pop) (.because _)

theorem safeAt_write (text : String) : (write text).SafeAt s :=
  promises_write text (fun _ h => ⟨h.registry, h.stack⟩) (fun _ => .single rfl (by simp)) trivial

end Eval

open Eval

/-- On the stack `s` the engine evaluates what is well scoped safely. -/
structure Engine.SafeAt (s : Stack) (engine : Engine) : Prop where
  enter : ∀ f body names, body.isScoped names = true → (s.push f).Sees names →
    (engine.enter f body).SafeAt s
  evaluate : ∀ n, n.isScoped [] = true → (engine.evaluate n).SafeAt s

section

variable {s : Stack} {engine : Engine}

theorem safeAt_code {evaluate : Node → Eval Value}
    (hev : ∀ n, n.isScoped [] = true → (evaluate n).SafeAt s) :
    ∀ code : Code, code.IsScoped → (code.run evaluate).SafeAt s
  | .done v, _ => promises_pure trivial
  | .fail e, h => by
    rw [Code.IsScoped] at h
    exact promises_fail h
  | .evaluate n next, h => by
    rw [Code.IsScoped] at h
    exact promises_bind (promises_attempt (hev n h.1)) fun r hr =>
      safeAt_code hev (next r) (h.2 r hr.2)
  | .depth next, h => by
    rw [Code.IsScoped] at h
    exact promises_view_bind fun ctx _ => safeAt_code hev (next ctx.depth) (h _)
  | .lookup name next, h => by
    rw [Code.IsScoped] at h
    exact promises_view_bind fun ctx _ => safeAt_code hev (next (ctx.lookup name)) (h _)
  | .frame level next, h => by
    rw [Code.IsScoped] at h
    exact promises_view_bind fun ctx _ => safeAt_code hev (next (ctx.frameAt? level)) (h _)
  | .bind level name v next, h => by
    rw [Code.IsScoped] at h
    exact promises_bind (Q := fun _ => True)
      (promises_modify (fun _ hctx => hctx.bind level name v) trivial)
      fun _ _ => safeAt_code hev next h
  | .push _ _, h | .pop _, h => by
    rw [Code.IsScoped] at h
    exact h.elim
  | .write text next, h => by
    rw [Code.IsScoped] at h
    exact promises_bind (promises_attempt (safeAt_write text)) fun r hr =>
      safeAt_code hev (next r) (h r hr.2)
  | .register d next, h => by
    rw [Code.IsScoped] at h
    obtain ⟨hdefun, hlet, hd, hnext⟩ := h
    exact promises_bind (Q := fun _ => True)
      (promises_modify (fun _ hctx => hctx.register hdefun hlet hd) trivial)
      fun _ _ => safeAt_code hev next hnext

theorem safeAt_apply (he : engine.SafeAt s) {function : Native} (h : function.IsScoped)
    (symbol : String) (args : List Value) :
    (function.apply engine.evaluate symbol args).SafeAt s := by
  cases function with
  | add =>
    exact Native.apply_add_cases _ symbol args (fun i => promises_fail (.nilArgument symbol i))
      (fun _ => promises_pure trivial) (promises_halt _)
  | print =>
    exact Native.apply_print_cases _ symbol args
      (fun _ => promises_bind (safeAt_write _) fun _ _ => promises_pure trivial) (promises_halt _)
  | code body =>
    rw [Native.IsScoped] at h
    exact safeAt_code he.evaluate (body symbol args) (h symbol args)

theorem safeAt_invoke (he : engine.SafeAt s) {d : Definition} (hd : d.IsScoped)
    (args : List Value) : (d.invoke engine args).SafeAt s := by
  cases d with
  | native symbol arity function =>
    rw [Definition.IsScoped] at hd
    unfold Definition.invoke
    dsimp only
    split
    · exact safeAt_apply he hd symbol args
    · exact promises_fail (.single rfl (by simp))
  | form symbol arity form =>
    rw [Definition.IsScoped] at hd
    exact hd.elim
  | user symbol params body =>
    rw [Definition.IsScoped] at hd
    unfold Definition.invoke
    dsimp only
    split
    · next hlen => exact he.enter _ body params hd (Stack.sees_push_call symbol hlen)
    · exact promises_fail (.single rfl (by simp))
  | foreign symbol kind => exact promises_fail (.single rfl (by simp))

/-- A well-scoped definition puts a well-scoped function in force. -/
theorem safeAt_define (symbol : String) {f params body : Node} {more : List Node}
    (h : Node.isScopedDefinition (f :: params :: body :: more) = true) :
    (Eval.define symbol (f :: params :: body :: more)).SafeAt s := by
  intro ctx hctx
  rw [Eval.run_define]
  cases hdef : Node.definition symbol f params body with
  | error e => exact .failed hctx (Node.error_of_definition hdef)
  | ok d =>
    obtain ⟨g, ps, hg, hps, rfl⟩ := Node.ok_of_definition hdef
    rw [Node.isScopedDefinition, hg, hps] at h
    simp only [Node.isScopedBody, Bool.and_eq_true, decide_eq_true_eq] at h
    obtain ⟨⟨hdefun, hlet⟩, hbody⟩ := h
    refine .done (hctx.register hdefun hlet ?_) trivial
    rw [Definition.IsScoped]
    exact hbody

/-- Behind the head stand the operands of a definition, of a `let`, or of a call. -/
theorem safeAt_behindHead (he : engine.SafeAt s) (name : String) (operands : List Node)
    (hdefine : name = "defun" → operands.length = 3 → (Eval.define name operands).SafeAt s)
    (hlet : name = "let" → operands.length = 2 → (Node.evalLet engine name operands).SafeAt s)
    (hargs : name ≠ "defun" → name ≠ "let" → (Node.evalAll engine operands).SafeAt s) :
    (Coupling.behindHead engine name operands).SafeAt s := by
  refine promises_view_bind fun ctx hctx => ?_
  -- an arity of just `k` accepts `k` operands and no other number of them
  have hexactly : ∀ (k n : Nat), (⟨k, k⟩ : Arity).accepts n = true → n = k := by
    intro k n h
    simp [Arity.accepts] at h
    omega
  by_cases hname : name = "defun"
  · rw [hname, hctx.registry.defun_eq, ← hname]
    dsimp only
    split
    · next haccepts => exact hdefine hname (hexactly 3 _ haccepts)
    · exact promises_fail (.single rfl (by simp))
  by_cases hname' : name = "let"
  · rw [hname', hctx.registry.let_eq, ← hname']
    dsimp only
    split
    · next haccepts => exact hlet hname' (hexactly 2 _ haccepts)
    · exact promises_fail (.single rfl (by simp))
  · cases hfound : ctx.registry.resolve name with
    | none =>
      exact promises_bind (hargs hname hname') fun _ _ => promises_fail (.single rfl (by simp))
    | some d =>
      have hd := hctx.registry.others name d hname hname' hfound
      have hcall : (Node.evalAll engine operands >>= fun args =>
          Eval.trace (fun _ => .applying name args) >>= fun _ => d.invoke engine args).SafeAt s :=
        promises_bind (hargs hname hname') fun args _ =>
          promises_bind (safeAt_trace _) fun _ _ => safeAt_invoke he hd args
      cases d with
      | form symbol arity form =>
        rw [Definition.IsScoped] at hd
        exact hd.elim
      | native symbol arity function => exact hcall
      | user symbol params body => exact hcall
      | foreign symbol kind => exact hcall

/-! ## §7. Evaluations. -/

mutual
/-- **A well-scoped node is evaluated safely** where the names it needs are visible. -/
theorem safeAt_evalWith (he : engine.SafeAt s) {names : List String} (hs : s.Sees names) :
    ∀ n : Node, n.isScoped names = true → (n.evalWith engine).SafeAt s
  | .int _ value, _ => promises_pure trivial
  | .symbol _ name, h => by
    refine promises_view_bind fun ctx hctx => ?_
    rw [Node.isScoped, decide_eq_true_eq] at h
    obtain ⟨v, hv⟩ := Option.isSome_iff_exists.1 (hctx.stack.isSome_lookup (hs name h))
    rw [Context.lookup, hv]
    exact promises_pure trivial
  | .expression token [], _ => safeAt_within _ (promises_fail ((Error.AllBound.because _).located _ _))
  | .expression token (head :: operands), h => by
    cases hhead : head.symbol? with
    | none =>
      rw [Node.evalWith, hhead]
      exact safeAt_within _ (promises_fail (.because _))
    | some name =>
      rw [Coupling.evalWith_call engine token hhead]
      refine safeAt_within _ (promises_bind (safeAt_trace _) fun _ _ => ?_)
      rw [Node.isScoped, hhead] at h
      dsimp only at h
      refine safeAt_behindHead he name operands ?_ ?_ ?_
      · intro hname hlen
        rw [if_pos hname] at h
        match operands, hlen with
        | [f, params, body], _ => exact safeAt_define name h
      · intro hname hlen
        rw [if_neg (by simp [hname]), if_pos ⟨hname, hlen⟩] at h
        exact safeAt_evalLet he hs name operands h
      · intro hname hname'
        rw [if_neg hname, if_neg fun hlet => hname' hlet.1] at h
        exact safeAt_evalAll he hs operands h
  | .list _ children, h => by
    rw [Node.isScoped] at h
    exact safeAt_evalLast he hs .nil children h
  | .foreign _ _ _, _ => promises_fail (.single rfl (by simp))
theorem safeAt_evalAll (he : engine.SafeAt s) {names : List String} (hs : s.Sees names) :
    ∀ ns : List Node, Node.allScoped names ns = true → (Node.evalAll engine ns).SafeAt s
  | [], _ => promises_pure trivial
  | n :: ns, h => by
    rw [Node.allScoped, Bool.and_eq_true] at h
    exact promises_bind (safeAt_evalWith he hs n h.1) fun v _ =>
      promises_bind (safeAt_evalAll he hs ns h.2) fun vs _ => promises_pure trivial
theorem safeAt_evalLast (he : engine.SafeAt s) {names : List String} (hs : s.Sees names)
    (before : Value) :
    ∀ ns : List Node, Node.allScoped names ns = true → (Node.evalLast engine before ns).SafeAt s
  | [], _ => promises_pure trivial
  | n :: ns, h => by
    rw [Node.allScoped, Bool.and_eq_true] at h
    exact promises_bind (safeAt_evalWith he hs n h.1) fun v _ => safeAt_evalLast he hs v ns h.2
theorem promises_evalBinding (he : engine.SafeAt s) {names : List String} (hs : s.Sees names)
    (form : String) (f : Frame) :
    ∀ n : Node, Node.isScopedPair names n = true →
      (Node.evalBinding engine form f n).Promises (Context.ScopedAt s) Error.AllBound
        fun g => f.Gains g n.boundName?.toList
  | .expression _ [name, value], h => by
    rw [Node.isScopedPair] at h
    unfold Node.evalBinding
    cases hname : name.symbol? with
    | none => exact promises_fail (.malformed _ _)
    | some x =>
      dsimp only
      split
      · exact promises_fail (.malformed _ _)
      · refine promises_bind (safeAt_evalWith he hs value h) fun v _ => promises_pure ?_
        rw [Node.boundName?, hname]
        exact .bind f x v
  | .expression _ [], _ | .expression _ [_], _ | .expression _ (_ :: _ :: _ :: _), _
  | .int _ _, _ | .symbol _ _, _ | .list _ _, _ | .foreign _ _ _, _ =>
    promises_fail (.malformed _ _)
theorem promises_evalBindings (he : engine.SafeAt s) {names : List String} (hs : s.Sees names)
    (form : String) (f : Frame) :
    ∀ ns : List Node, Node.allScopedPairs names ns = true →
      (Node.evalBindings engine form f ns).Promises (Context.ScopedAt s) Error.AllBound
        fun g => f.Gains g (ns.filterMap Node.boundName?)
  | [], _ => promises_pure (.refl f)
  | n :: ns, h => by
    rw [Node.allScopedPairs, Bool.and_eq_true] at h
    refine promises_bind (promises_evalBinding he hs form f n h.1) fun g hg => ?_
    refine (promises_evalBindings he hs form g ns h.2).imp fun g' hg' => ?_
    have hgains := hg.trans hg'
    cases hname : n.boundName? <;> simpa [hname] using hgains
theorem safeAt_evalLet (he : engine.SafeAt s) {names : List String} (hs : s.Sees names)
    (form : String) :
    ∀ operands : List Node, Node.isScopedLet names operands = true →
      (Node.evalLet engine form operands).SafeAt s
  | .expression _ pairs :: body :: _, h => by
    rw [Node.isScopedLet, Node.areScopedBindings, Bool.and_eq_true] at h
    exact promises_bind (promises_evalBindings he hs form _ pairs h.1) fun f hf =>
      he.enter f body _ h.2 (hs.push hf)
  | .int _ _ :: _ :: _, _ | .symbol _ _ :: _ :: _, _ | .list _ _ :: _ :: _, _
  | .foreign _ _ _ :: _ :: _, _ => promises_fail (.malformed _ _)
  | [], _ | [_], _ => promises_halt _
end

theorem safeAt_withRoom {evaluate : Node → Eval Value}
    (hev : ∀ (s : Stack) n, n.isScoped [] = true → (evaluate n).SafeAt s) (room : Nat) :
    ∀ s, (Engine.withRoom evaluate room).SafeAt s := by
  -- the frames that there is room for are opened one inside the other
  induction room with
  | zero =>
    intro s
    exact ⟨fun f body names _ _ => safeAt_inFrame (promises_halt _), hev s⟩
  | succ room ih =>
    intro s
    refine ⟨fun f body names hbody hnames => ?_, hev s⟩
    exact safeAt_inFrame (safeAt_evalWith (ih (s.push f)) hnames body hbody)

theorem safeAt_evalNested (calls : Nat) :
    ∀ (s : Stack) (names : List String) (n : Node), s.Sees names → n.isScoped names = true →
      (n.evalNested calls).SafeAt s := by
  induction calls with
  | zero =>
    intro s names n _ _
    exact promises_halt _
  | succ calls ih =>
    intro s names n hs hn
    have hev : ∀ (s : Stack) n, n.isScoped [] = true → (Node.evalNested calls n).SafeAt s :=
      fun s n => ih s [] n fun x hx => absurd hx List.not_mem_nil
    refine safeAt_within n (promises_view_bind fun ctx _ => ?_)
    exact safeAt_evalWith (safeAt_withRoom hev ctx.room s) hs n hn

end

/-- **A well-scoped program never meets a name that is not bound.**  Let the forms of the
core be the only forms in force, and all functions in force be well scoped.  Then the
evaluation of a node that is well scoped in names visible on the stack does not fail with an
unbound symbol, in itself or in what its error wraps; and however it ends, the definitions
in force are again of this kind. -/
theorem scoped_never_unbound (ctx : Context) (hregistry : ctx.registry.IsScoped)
    (names : List String) (hnames : ∀ x ∈ names, (ctx.lookup x).isSome = true) (n : Node)
    (hn : n.isScoped names = true) :
    (∀ e ctx', n.eval.run ctx = .failed e ctx' → ∀ name, Error.unboundSymbol name ∉ e.chain)
      ∧ (n.eval.run ctx).context.registry.IsScoped := by
  have hsafe : n.eval.SafeAt ctx.stack := safeAt_evalNested _ ctx.stack names n hnames hn
  have hmeets := hsafe ctx ⟨hregistry, ctx.stack.growsTo_refl⟩
  refine ⟨?_, hmeets.context.registry⟩
  intro e ctx' h
  exact hmeets.error h

/-- A function is defined inside a `let`, uses its parameter only, and is called with a name
of the `let`; a name that a frame binds is used beside it. -/
theorem scoped_never_unbound_inner :
    let ctx := Context.new.opened ⟨.scope, "let", [("x", .int 1)]⟩
    let n : Node := .list none
      [.expression none [.symbol none "let",
        .expression none [.expression none [.symbol none "y", .symbol none "x"]],
        .expression none [.symbol none "+", .symbol none "y",
          .expression none [.symbol none "defun", .symbol none "f",
            .expression none [.symbol none "z"], .symbol none "z"]]],
       .expression none [.symbol none "f", .symbol none "x"]]
    ctx.registry.IsScoped ∧ (∀ x ∈ ["x"], (ctx.lookup x).isSome = true)
      ∧ n.isScoped ["x"] = true
      ∧ (∀ e ctx', n.eval.run ctx = .failed e ctx' → ∀ name, Error.unboundSymbol name ∉ e.chain)
      ∧ (n.eval.run ctx).context.registry.IsScoped := by
  intro ctx n
  have hregistry : ctx.registry.IsScoped := Registry.isScoped_core
  have hnames : ∀ x ∈ ["x"], (ctx.lookup x).isSome = true := by decide
  have hn : n.isScoped ["x"] = true := by decide
  exact ⟨hregistry, hnames, hn, scoped_never_unbound ctx hregistry ["x"] hnames n hn⟩

end IntLisp
