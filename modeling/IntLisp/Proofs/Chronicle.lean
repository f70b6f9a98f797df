/-
  IntLisp.Proofs.Chronicle
  ────────────────────────
  **ALL THAT HAPPENS IN AN EVALUATION, IN ORDER.**

  An evaluation ends with a value or an error in some context, and shows
  nothing of what was done on the way.  Its chronicle lists that: which nodes
  were visited, what was called and with what, and what was put in force.
  The contexts in which all this happens are those of the evaluator itself.

  A watch is a property of what has happened so far and the context that it
  led to.  One that every single deed keeps is kept by every evaluation:

      W.Tells (n.evalWith engine) (n.chronicleWith engine annals)

  And an evaluation that halts for misuse has done something that does not
  fit, so the chronicle leaves nothing of that kind out.
-/
import IntLisp.Proofs.Relocation
import IntLisp.Proofs.Coupling
import IntLisp.Proofs.Sums

namespace IntLisp

variable {α β : Type}

/-! ## §1. Deeds. -/

/-- One thing that happens in an evaluation. -/
inductive Deed where
  /-- The evaluation of a node begins in a context. -/
  | visit (n : Node) (ctx : Context)
  /-- A form is given its operands. -/
  | dispatch (form : Form) (operands : List Node)
  /-- A definition is called with the values of the operands. -/
  | invoke (d : Definition) (args : List Value)
  /-- A native function is run on its arguments. -/
  | apply (function : Native) (args : List Value)
  /-- A function that the operands of a form describe is put in force. -/
  | define (d : Definition)
  /-- A definition from outside is put in force. -/
  | register (d : Definition)

/-- The arguments are such that the function can be run on them. -/
def Native.Takes : Native → List Value → Prop
  | add, args => args ≠ [] ∧ ∀ v ∈ args, v.isProper = true
  | print, args => ∃ v vs, args = v :: vs ∧ v ≠ .absent
  | code _, _ => True

/-- The number of operands is one that the form can be given. -/
def Form.Takes : Form → Nat → Prop
  | define, n => 3 ≤ n
  | letIn, n => 2 ≤ n
  | code _, _ => True

namespace Node

/-- What the kind of a node says is there: an integer, a name, or a place for other nodes. -/
structure HoldsKind (n : Node) : Prop where
  int : n.kindName = "int" → ∃ z, n.int? = some z
  symbol : n.kindName = "symbol" → ∃ name, n.symbol? = some name
  vector : n.kindName = "expression" ∨ n.kindName = "list" → n.isVector = true

/-- The node and all nodes inside it hold what their kinds say. -/
def IsHonest (n : Node) : Prop := ∀ m : Node, m.Inside n → m.HoldsKind

theorem IsHonest.child {n m : Node} (h : n.IsHonest) (hm : m ∈ n.children) : m.IsHonest :=
  fun k hk => h k (.deeper hm hk)

end Node

namespace Deed

/-- What is called or dispatched to can be, and is given what it takes. -/
def Fits : Deed → Prop
  | dispatch form operands => form.Takes operands.length
  | invoke d _ => ∀ symbol arity form, d ≠ .form symbol arity form
  | apply function args => function.Takes args
  | visit _ _ | define _ | register _ => True

/-- The nodes in question hold what their kinds say. -/
def IsHonest : Deed → Prop
  | visit n _ => n.IsHonest
  | dispatch _ operands => ∀ n ∈ operands, n.IsHonest
  | invoke _ _ | apply _ _ | define _ | register _ => True

end Deed

/-! ## §2. Chronicles. -/

/-- What happens in a step, by the context it is taken in. -/
abbrev Chronicle := Context → List Deed

namespace Chronicle

/-- Nothing happens. -/
def nothing : Chronicle := fun _ => []

/-- One thing happens before all others. -/
def led (deed : Context → Deed) (rest : Chronicle) : Chronicle := fun ctx => deed ctx :: rest ctx

/-- What happens in the step `act`, and then in the next one, if that is reached. -/
def andThen (first : Chronicle) (act : Eval α) (next : α → Chronicle) : Chronicle := fun ctx =>
  first ctx ++
    match act.run ctx with
    | .done a ctx' => next a ctx'
    | _ => []

/-- What happens behind a step in which nothing does. -/
def after (act : Eval α) (next : α → Chronicle) : Chronicle := nothing.andThen act next

/-- What happens inside a frame, if that is opened. -/
def inFrame (f : Frame) (inside : Chronicle) : Chronicle := fun ctx =>
  if ctx.isFull then [] else inside (ctx.opened f)

/-- What happens when the operands are those of a definition. -/
def ofDefinition (symbol : String) : List Node → Chronicle
  | name :: params :: body :: _ =>
    match Node.definition symbol name params body with
    | .ok d => led (fun _ => .define d) nothing
    | .error _ => nothing
  | _ => nothing

end Chronicle

open Chronicle

/-- What happens where nodes are evaluated that are not part of the node at hand. -/
structure Annals where
  enter : Frame → Node → Chronicle
  evaluate : Node → Chronicle

/-- What happens when native code from outside is run. -/
def Code.chronicle (evaluate : Node → Eval Value) (asked : Node → Chronicle) : Code → Chronicle
  | .done _ => nothing
  | .fail _ => nothing
  | .evaluate n next =>
    (asked n).andThen (evaluate n).attempt fun r => (next r).chronicle evaluate asked
  | .depth next => after (Eval.view Context.depth) fun d => (next d).chronicle evaluate asked
  | .lookup name next =>
    after (Eval.view (·.lookup name)) fun v => (next v).chronicle evaluate asked
  | .frame level next =>
    after (Eval.view (·.frameAt? level)) fun f => (next f).chronicle evaluate asked
  | .bind level name v next =>
    after (Eval.modify (·.bind level name v)) fun _ => next.chronicle evaluate asked
  | .push f next => after (Eval.push f).attempt fun r => (next r).chronicle evaluate asked
  | .pop next =>
    after (Eval.view Context.frame?) fun f =>
      after (Eval.modify Context.pop) fun _ => (next f).chronicle evaluate asked
  | .write text next => after (Eval.write text).attempt fun r => (next r).chronicle evaluate asked
  | .register d next =>
    (led (fun _ => .register d) nothing).andThen (Eval.modify (·.register d)) fun _ =>
      next.chronicle evaluate asked

/-- What happens when a native function is run. -/
def Native.chronicle (evaluate : Node → Eval Value) (asked : Node → Chronicle)
    (function : Native) (symbol : String) (args : List Value) : Chronicle :=
  led (fun _ => .apply function args) <|
    match function with
    | .code body => (body symbol args).chronicle evaluate asked
    | _ => Chronicle.nothing

/-- What happens when the definition `d` is called. -/
def Definition.chronicle (engine : Engine) (annals : Annals) (d : Definition)
    (args : List Value) : Chronicle :=
  led (fun _ => .invoke d args) <|
    match d with
    | .native symbol arity function =>
      if arity.accepts args.length then
        function.chronicle engine.evaluate annals.evaluate symbol args
      else nothing
    | .user symbol params body =>
      if args.length = params.length then
        annals.enter ((Frame.empty .call symbol).bindAll (params.zip args)) body
      else nothing
    | _ => nothing

/-- What happens behind the head of an expression; `ofOperands` and `ofLet` are what happens
when the operands are evaluated, and when they are those of a `let`. -/
def Chronicle.behindHead (engine : Engine) (annals : Annals) (name : String)
    (operands : List Node) (ofOperands ofLet : Chronicle) : Chronicle :=
  after (Eval.view (·.registry.resolve name)) fun
    | some (.form _ arity form) =>
      if arity.accepts operands.length then
        led (fun _ => .dispatch form operands) <|
          match form with
          | .define => ofDefinition name operands
          | .letIn => ofLet
          | .code body => (body name operands).chronicle engine.evaluate annals.evaluate
      else nothing
    | found =>
      ofOperands.andThen (Node.evalAll engine operands) fun args =>
        match found with
        | none => nothing
        | some d =>
          after (Eval.trace fun _ => .applying name args) fun _ => d.chronicle engine annals args

namespace Node

mutual
/-- What happens when a node is evaluated under an engine. -/
def chronicleWith (engine : Engine) (annals : Annals) : Node → Chronicle
  | int token value => led (.visit (int token value)) nothing
  | symbol token name => led (.visit (symbol token name)) nothing
  | expression token children =>
    led (.visit (expression token children)) <|
      match children with
      | [] => nothing
      | head :: operands =>
        match head.symbol? with
        | none => nothing
        | some name =>
          after (Eval.trace fun _ =>
              .calling name (expression token (head :: operands)).components) fun _ =>
            Chronicle.behindHead engine annals name operands
              (chronicleAll engine annals operands) (chronicleLet engine annals name operands)
  | list token children =>
    led (.visit (list token children)) (chronicleAll engine annals children)
  | foreign token code content => led (.visit (foreign token code content)) nothing
/-- What happens when nodes are evaluated from left to right. -/
def chronicleAll (engine : Engine) (annals : Annals) : List Node → Chronicle
  | [] => nothing
  | n :: ns =>
    (chronicleWith engine annals n).andThen (n.evalWith engine) fun _ =>
      chronicleAll engine annals ns
/-- What happens when a binding is evaluated. -/
def chronicleBinding (engine : Engine) (annals : Annals) (frame : Frame) : Node → Chronicle
  | expression _ [name, value] =>
    match name.symbol? with
    | none => nothing
    | some x =>
      if (frame.lookup x).isSome then nothing else chronicleWith engine annals value
  | _ => nothing
/-- What happens when bindings are evaluated from left to right. -/
def chronicleBindings (engine : Engine) (annals : Annals) (form : String) (frame : Frame) :
    List Node → Chronicle
  | [] => nothing
  | n :: ns =>
    (chronicleBinding engine annals frame n).andThen (evalBinding engine form frame n)
      fun frame' => chronicleBindings engine annals form frame' ns
/-- What happens when the operands are those of a `let`. -/
def chronicleLet (engine : Engine) (annals : Annals) (form : String) : List Node → Chronicle
  | bindings :: body :: _ =>
    match bindings with
    | expression _ pairs =>
      (chronicleBindings engine annals form (Frame.empty .scope form) pairs).andThen
        (evalBindings engine form (Frame.empty .scope form) pairs) fun frame =>
          annals.enter frame body
    | _ => nothing
  | _ => nothing
end

end Node

/-- What happens under the engine with room for `room` further frames. -/
def Annals.withRoom (evaluate : Node → Eval Value) (asked : Node → Chronicle) : Nat → Annals
  | 0 => ⟨fun _ _ => nothing, asked⟩
  | room + 1 =>
    ⟨fun frame body => Chronicle.inFrame frame
        (body.chronicleWith (.withRoom evaluate room) (withRoom evaluate asked room)), asked⟩

namespace Node

/-- What happens when a node is evaluated, with native code nested at most `calls` deep. -/
def chronicleNested : Nat → Node → Chronicle
  | 0, _ => nothing
  | calls + 1, n =>
    after (Eval.view Context.room) fun room =>
      n.chronicleWith (.withRoom (evalNested calls) room)
        (.withRoom (evalNested calls) (chronicleNested calls) room)

/-- What happens when a node is evaluated. -/
def chronicle (n : Node) : Chronicle := n.chronicleNested Context.boundlessRoom

end Node

/-! ## §3. Values in frames. -/

/-- All values that the frame binds have the property `P`. -/
def Frame.Holds (P : Value → Prop) (f : Frame) : Prop := ∀ v ∈ f.values, P v

/-- All values that the active frames bind have the property `P`. -/
def Stack.Holds (P : Value → Prop) (s : Stack) : Prop := ∀ f ∈ s.frames, f.Holds P

section

variable {P : Value → Prop}

namespace Frame.Holds

variable {f : Frame}

theorem empty (kind : Frame.Kind) (name : String) : (Frame.empty kind name).Holds P :=
  fun _ hv => absurd hv List.not_mem_nil

theorem bind (h : f.Holds P) (name : String) {v : Value} (hv : P v) : (f.bind name v).Holds P := by
  have hassign : ∀ bs : List (String × Value), (∀ w ∈ bs.map Prod.snd, P w) →
      ∀ w ∈ (Frame.assign name v bs).map Prod.snd, P w := by
    intro bs
    induction bs with
    | nil => exact fun _ => List.forall_mem_singleton.2 hv
    | cons b bs ih =>
      intro hbs
      obtain ⟨hb, hrest⟩ := List.forall_mem_cons.1 hbs
      unfold Frame.assign
      split
      · exact List.forall_mem_cons.2 ⟨hv, hrest⟩
      · exact List.forall_mem_cons.2 ⟨hb, ih hrest⟩
  exact hassign f.bindings h

theorem bindAll (h : f.Holds P) {pairs : List (String × Value)}
    (hpairs : ∀ p ∈ pairs, P p.2) : (f.bindAll pairs).Holds P := by
  induction pairs generalizing f with
  | nil => exact h
  | cons p pairs ih =>
    obtain ⟨hp, hrest⟩ := List.forall_mem_cons.1 hpairs
    exact ih (h.bind p.1 hp) hrest

theorem lookup (h : f.Holds P) {name : String} {v : Value} (hv : f.lookup name = some v) : P v := by
  have hbindings : ∀ bs : List (String × Value), bs.lookup name = some v → v ∈ bs.map Prod.snd := by
    intro bs hbs
    induction bs with
    | nil => cases hbs
    | cons b bs ih =>
      rw [Frame.lookup_cons] at hbs
      split at hbs
      · cases hbs
        exact .head _
      · exact .tail _ (ih hbs)
  exact h v (hbindings f.bindings hv)

end Frame.Holds

namespace Stack.Holds

variable {s : Stack}

theorem empty : Stack.empty.Holds P := fun _ hf => absurd hf List.not_mem_nil

theorem push (h : s.Holds P) {f : Frame} (hf : f.Holds P) : (s.push f).Holds P :=
  List.forall_mem_cons.2 ⟨hf, h⟩

theorem pop (h : s.Holds P) : s.pop.Holds P := fun f hf => h f (List.mem_of_mem_tail hf)

theorem bind (h : s.Holds P) (level : Nat) (name : String) {v : Value} (hv : P v) :
    (s.bind level name v).Holds P := by
  intro f hf
  obtain ⟨i, hi, rfl⟩ := List.mem_iff_getElem.1 hf
  simp only [Stack.frames_bind, List.getElem_modify]
  have hold := h _ (List.getElem_mem (by simpa using hi))
  split
  · exact hold.bind name hv
  · exact hold

theorem frameAt? (h : s.Holds P) {level : Nat} {f : Frame} (hf : s.frameAt? level = some f) :
    f.Holds P :=
  h f (List.mem_of_getElem? hf)

theorem top? (h : s.Holds P) {f : Frame} (hf : s.top? = some f) : f.Holds P :=
  h f (List.mem_of_mem_head? hf)

theorem lookup (h : s.Holds P) {name : String} {v : Value} (hv : s.lookup name = some v) : P v := by
  have hv : Frame.lookupVisible name s.frames = some v := hv
  unfold Stack.Holds at h
  generalize s.frames = fs at h hv
  induction fs with
  | nil => cases hv
  | cons f fs ih =>
    obtain ⟨hf, hfs⟩ := List.forall_mem_cons.1 h
    rw [Frame.lookupVisible] at hv
    cases hlookup : f.lookup name with
    | some w =>
      rw [hlookup] at hv
      cases hv
      exact hf.lookup hlookup
    | none =>
      rw [hlookup] at hv
      dsimp only at hv
      split at hv
      · cases hv
      · exact ih hfs hv

end Stack.Holds

end

/-! ## §4. Watching. -/

/-- Which nodes, native code, definitions and values may take part.  What they lead to may
too. -/
structure Standard where
  node : Node → Prop
  code : Code → Prop
  definition : Definition → Prop
  value : Value → Prop
  nil : value .nil
  int : ∀ z, value (.int z)
  inside : ∀ {n}, node n → ∀ m ∈ n.children, node m
  done : ∀ {v}, code (.done v) → value v
  evaluate : ∀ {n next}, code (.evaluate n next) →
    node n ∧ ∀ r, (∀ v, r = .ok v → value v) → code (next r)
  depth : ∀ {next}, code (.depth next) → ∀ d, code (next d)
  lookup : ∀ {name next}, code (.lookup name next) →
    ∀ r, (∀ v, r = some v → value v) → code (next r)
  frame : ∀ {level next}, code (.frame level next) →
    ∀ r, (∀ f, r = some f → f.Holds value) → code (next r)
  bind : ∀ {level name v next}, code (.bind level name v next) → value v ∧ code next
  push : ∀ {f next}, code (.push f next) → f.Holds value ∧ ∀ r, code (next r)
  pop : ∀ {next}, code (.pop next) → ∀ r, (∀ f, r = some f → f.Holds value) → code (next r)
  write : ∀ {text next}, code (.write text next) → ∀ r, code (next r)
  register : ∀ {d next}, code (.register d next) → definition d ∧ code next
  function : ∀ {symbol arity body}, definition (.native symbol arity (.code body)) →
    ∀ args, (∀ v ∈ args, value v) → code (body symbol args)
  form : ∀ {symbol arity body}, definition (.form symbol arity (.code body)) →
    ∀ name operands, (∀ n ∈ operands, node n) → code (body name operands)
  body : ∀ {symbol params body}, definition (.user symbol params body) ↔ node body

/-- Everything may take part. -/
def Standard.any : Standard where
  node _ := True
  code _ := True
  definition _ := True
  value _ := True
  nil := trivial
  int _ := trivial
  inside _ _ _ := trivial
  done _ := trivial
  evaluate _ := ⟨trivial, fun _ _ => trivial⟩
  depth _ _ := trivial
  lookup _ _ _ := trivial
  frame _ _ _ := trivial
  bind _ := ⟨trivial, trivial⟩
  push _ := ⟨fun _ _ => trivial, fun _ => trivial⟩
  pop _ _ _ := trivial
  write _ _ := trivial
  register _ := ⟨trivial, trivial⟩
  function _ _ _ := trivial
  form _ _ _ _ := trivial
  body := Iff.rfl

theorem Stack.holds_any (s : Stack) : s.Holds Standard.any.value := fun _ _ _ _ => trivial

/-- A property of what has happened so far and of the context that it led to, which every
single deed of what may take part keeps. -/
structure Watch (S : Standard) where
  holds : List Deed → Context → Prop
  found : ∀ {past ctx}, holds past ctx →
    ∀ {name d}, ctx.registry.resolve name = some d → S.definition d
  trace : ∀ {past ctx}, holds past ctx → ∀ event, holds past (ctx.trace event)
  write : ∀ {past ctx}, holds past ctx → ∀ text, holds past (ctx.write text)
  bind : ∀ {past ctx}, holds past ctx → ∀ level name v, holds past (ctx.bind level name v)
  opened : ∀ {past ctx}, holds past ctx → ctx.isFull = false → ∀ f, holds past (ctx.opened f)
  pop : ∀ {past ctx}, holds past ctx → holds past ctx.pop
  visit : ∀ {past ctx n}, holds past ctx → S.node n → holds (past ++ [.visit n ctx]) ctx
  dispatch : ∀ {past ctx symbol arity form} {operands : List Node}, holds past ctx →
    S.definition (.form symbol arity form) → arity.accepts operands.length = true →
    (∀ n ∈ operands, S.node n) → holds (past ++ [.dispatch form operands]) ctx
  invoke : ∀ {past ctx d args}, holds past ctx → S.definition d →
    (∀ symbol arity form, d ≠ .form symbol arity form) → holds (past ++ [.invoke d args]) ctx
  apply : ∀ {past ctx symbol arity function} {args : List Value}, holds past ctx →
    S.definition (.native symbol arity function) → arity.accepts args.length = true →
    (∀ v ∈ args, S.value v) → holds (past ++ [.apply function args]) ctx
  define : ∀ {past ctx d}, holds past ctx → S.definition d →
    holds (past ++ [.define d]) (ctx.register d)
  register : ∀ {past ctx d}, holds past ctx → S.definition d →
    holds (past ++ [.register d]) (ctx.register d)

namespace Watch

variable {S : Standard} {W : Watch S}

/-- The watch holds, and the active frames bind only values that may take part. -/
structure Stands (W : Watch S) (past : List Deed) (ctx : Context) : Prop where
  holds : W.holds past ctx
  stack : ctx.stack.Holds S.value

/-- The watch still stands at the end of a step in which `story` happened, a value of the step has
the property `P`, and if the step halted for misuse, something in its story does not fit. -/
structure Ends (W : Watch S) (P : α → Prop) (past story : List Deed) (o : Outcome α) : Prop where
  stands : W.Stands (past ++ story) o.context
  value : ∀ a ctx', o = .done a ctx' → P a
  blames : ∀ ctx', o = .halted .misuse ctx' → ∃ deed ∈ story, ¬ deed.Fits

/-- The chronicle tells what happens in the step, wherever the watch stands. -/
def Tells (W : Watch S) (P : α → Prop) (act : Eval α) (story : Chronicle) : Prop :=
  ∀ past ctx, W.Stands past ctx → W.Ends P past (story ctx) (act.run ctx)

namespace Stands

variable {past : List Deed} {ctx : Context}

theorem trace (h : W.Stands past ctx) (event : Context → Event) : W.Stands past (ctx.trace event) :=
  ⟨W.trace h.holds event, by rw [ctx.stack_trace]; exact h.stack⟩

theorem opened (h : W.Stands past ctx) (hfree : ctx.isFull = false) {f : Frame}
    (hf : f.Holds S.value) : W.Stands past (ctx.opened f) :=
  ⟨W.opened h.holds hfree f, by rw [ctx.stack_opened]; exact h.stack.push hf⟩

theorem pop (h : W.Stands past ctx) : W.Stands past ctx.pop :=
  ⟨W.pop h.holds, by rw [ctx.stack_pop]; exact h.stack.pop⟩

theorem bind (h : W.Stands past ctx) (level : Nat) (name : String) {v : Value} (hv : S.value v) :
    W.Stands past (ctx.bind level name v) :=
  ⟨W.bind h.holds level name v, h.stack.bind level name hv⟩

end Stands

variable {P : α → Prop} {Q : β → Prop}

/-! ### Steps in a row -/

theorem Tells.imp {P' : α → Prop} {act : Eval α} {story : Chronicle} (hact : W.Tells P act story)
    (h : ∀ a, P a → P' a) : W.Tells P' act story := by
  intro past ctx hstands
  have hends := hact past ctx hstands
  exact ⟨hends.stands, fun a c hrun => h a (hends.value a c hrun), hends.blames⟩

/-- A step in which nothing happens. -/
theorem tells_nothing {act : Eval α}
    (hkeeps : ∀ past ctx, W.Stands past ctx → W.Stands past (act.run ctx).context)
    (hvalue : ∀ past ctx, W.Stands past ctx → ∀ a ctx', act.run ctx = .done a ctx' → P a)
    (hends : ∀ ctx ctx', act.run ctx ≠ .halted .misuse ctx') : W.Tells P act nothing := by
  intro past ctx h
  refine ⟨?_, hvalue past ctx h, fun ctx' hrun => absurd hrun (hends ctx ctx')⟩
  rw [nothing, List.append_nil]
  exact hkeeps past ctx h

theorem tells_pure {a : α} (ha : P a) : W.Tells P (pure a) nothing :=
  tells_nothing (fun _ _ h => h) (fun _ _ _ b _ hb => by cases hb; exact ha) (by simp)

theorem tells_fail (e : Error) : W.Tells P (Eval.fail e : Eval α) nothing :=
  tells_nothing (fun _ _ h => h) (fun _ _ _ _ _ hb => by cases hb) (by simp)

theorem tells_modify {f : Context → Context}
    (h : ∀ past ctx, W.Stands past ctx → W.Stands past (f ctx)) :
    W.Tells (fun _ => True) (Eval.modify f) nothing :=
  tells_nothing h (fun _ _ _ _ _ _ => trivial) (by simp)

theorem tells_trace (event : Context → Event) :
    W.Tells (fun _ => True) (Eval.trace event) nothing :=
  tells_modify fun _ _ h => h.trace event

theorem tells_write (text : String) : W.Tells (fun _ => True) (Eval.write text) nothing := by
  intro past ctx h
  unfold Eval.write
  rw [Eval.run_bind, Eval.run_view]
  cases ctx.output with
  | working => exact tells_modify (fun _ _ h => ⟨W.write h.holds text, h.stack⟩) past ctx h
  | broken reason => exact tells_fail _ past ctx h

/-- One thing happens before a step, and the watch allows it. -/
theorem tells_led {act : Eval α} {deed : Context → Deed} {rest : Chronicle}
    (hdeed : ∀ past ctx, W.holds past ctx → W.holds (past ++ [deed ctx]) ctx)
    (hact : W.Tells P act rest) : W.Tells P act (led deed rest) := by
  intro past ctx h
  obtain ⟨hstands, hvalue, hblames⟩ := hact _ ctx ⟨hdeed past ctx h.holds, h.stack⟩
  refine ⟨?_, hvalue, fun ctx' hrun => ?_⟩
  · rwa [List.append_assoc] at hstands
  · obtain ⟨d, hd, hbad⟩ := hblames ctx' hrun
    exact ⟨d, .tail _ hd, hbad⟩

/-- What does not fit may end in a halt. -/
theorem tells_misuse {deed : Deed} (hbad : ¬ deed.Fits)
    (hdeed : ∀ past ctx, W.holds past ctx → W.holds (past ++ [deed]) ctx) :
    W.Tells P (Eval.halt .misuse : Eval α) (led (fun _ => deed) nothing) := by
  intro past ctx h
  exact ⟨⟨hdeed past ctx h.holds, h.stack⟩, nofun, fun _ _ => ⟨deed, .head _, hbad⟩⟩

theorem tells_bind {act : Eval α} {next : α → Eval β} {first : Chronicle} {rest : α → Chronicle}
    (hact : W.Tells P act first) (hnext : ∀ a, P a → W.Tells Q (next a) (rest a)) :
    W.Tells Q (act >>= next) (first.andThen act rest) := by
  intro past ctx h
  obtain ⟨hstands, hvalue, hblames⟩ := hact past ctx h
  rw [Eval.run_bind, andThen]
  generalize act.run ctx = o at hstands hvalue hblames
  cases o with
  | done a ctx' =>
    -- the second step begins where the first ends, with all that happened in it
    obtain ⟨hstands', hvalue', hblames'⟩ := hnext a (hvalue a ctx' rfl) _ ctx' hstands
    refine ⟨by rwa [List.append_assoc] at hstands', hvalue', fun c hrun => ?_⟩
    obtain ⟨d, hd, hbad⟩ := hblames' c hrun
    exact ⟨d, List.mem_append_right _ hd, hbad⟩
  | failed e ctx' =>
    dsimp only
    rw [List.append_nil]
    exact ⟨hstands, nofun, nofun⟩
  | halted why ctx' =>
    dsimp only
    rw [List.append_nil]
    refine ⟨hstands, nofun, fun c hrun => ?_⟩
    cases hrun
    exact hblames _ rfl

/-- A further step in which nothing happens. -/
theorem tells_bind_nothing {act : Eval α} {next : α → Eval β} {story : Chronicle}
    (hact : W.Tells P act story) (hnext : ∀ a, P a → W.Tells Q (next a) nothing) :
    W.Tells Q (act >>= next) story := by
  have h : W.Tells Q (act >>= next) _ := tells_bind hact hnext
  have hstory : story.andThen act (fun _ => nothing) = story := by
    funext ctx
    unfold andThen nothing
    cases act.run ctx <;> exact List.append_nil _
  rwa [hstory] at h

theorem tells_map {act : Eval α} {story : Chronicle} {f : α → β} (hact : W.Tells P act story)
    (hf : ∀ a, P a → Q (f a)) : W.Tells Q (f <$> act) story :=
  tells_bind_nothing hact fun a ha => tells_pure (hf a ha)

/-- What the continuation is given is seen in a context where the watch stands. -/
theorem tells_view_bind {f : Context → α} {next : α → Eval β} {rest : α → Chronicle}
    (hnext : ∀ past ctx, W.Stands past ctx → W.Tells Q (next (f ctx)) (rest (f ctx))) :
    W.Tells Q (Eval.view f >>= next) (after (Eval.view f) rest) := by
  intro past ctx h
  exact hnext past ctx h past ctx h

theorem tells_within (n : Node) {act : Eval α} {story : Chronicle} (hact : W.Tells P act story) :
    W.Tells P (act.within n) story := by
  intro past ctx h
  obtain ⟨hstands, hvalue, hblames⟩ := hact past ctx h
  unfold Eval.within Eval.recover
  dsimp only
  generalize act.run ctx = o at hstands hvalue hblames ⊢
  cases o with
  | done a c => exact ⟨hstands, hvalue, hblames⟩
  | failed e c => exact ⟨hstands, nofun, nofun⟩
  | halted why c => exact ⟨hstands, hvalue, hblames⟩

theorem tells_attempt {act : Eval α} {story : Chronicle} (hact : W.Tells P act story) :
    W.Tells (fun r => ∀ a, r = .ok a → P a) act.attempt story := by
  intro past ctx h
  obtain ⟨hstands, hvalue, hblames⟩ := hact past ctx h
  unfold Eval.attempt
  dsimp only
  generalize act.run ctx = o at hstands hvalue hblames ⊢
  cases o with
  | done a c =>
    refine ⟨hstands, fun r c' ho b hb => ?_, nofun⟩
    cases ho
    cases hb
    exact hvalue a c rfl
  | failed e c =>
    refine ⟨hstands, fun r c' ho b hb => ?_, nofun⟩
    cases ho
    cases hb
  | halted why c =>
    refine ⟨hstands, nofun, fun c' ho => ?_⟩
    cases ho
    exact hblames c rfl

theorem tells_push {f : Frame} (hf : f.Holds S.value) :
    W.Tells (fun _ => True) (Eval.push f) nothing := by
  intro past ctx h
  unfold Eval.push Context.push
  dsimp only
  cases hfull : ctx.isFull with
  | true => exact tells_fail (α := Unit) (.because .stackOverflow) past ctx h
  | false => exact tells_pure (a := ()) trivial past _ (h.opened hfull hf)

theorem tells_inFrame {f : Frame} (hf : f.Holds S.value) {act : Eval α} {inside : Chronicle}
    (hact : W.Tells P act inside) :
    W.Tells P (Eval.inFrame f act) (Chronicle.inFrame f inside) := by
  intro past ctx h
  unfold Chronicle.inFrame
  cases hfull : ctx.isFull with
  | true =>
    rw [Eval.run_inFrame_of_isFull f act hfull]
    exact tells_fail _ past ctx h
  | false =>
    rw [Eval.run_inFrame f act hfull]
    obtain ⟨hstands, hvalue, hblames⟩ := hact past _ (h.opened hfull hf)
    generalize act.run (ctx.opened f) = o at hstands hvalue hblames ⊢
    cases o with
    | done a c =>
      refine ⟨hstands.pop, fun b c' ho => ?_, nofun⟩
      cases ho
      exact hvalue a c rfl
    | failed e c => exact ⟨hstands.pop, nofun, nofun⟩
    | halted why c =>
      refine ⟨hstands.pop, nofun, fun c' ho => ?_⟩
      cases ho
      exact hblames c rfl

/-! ## §5. The evaluator. -/

/-- The annals tell what happens under the engine. -/
structure Covers (W : Watch S) (engine : Engine) (annals : Annals) : Prop where
  enter : ∀ {frame body}, frame.Holds S.value → S.node body →
    W.Tells S.value (engine.enter frame body) (annals.enter frame body)
  evaluate : ∀ {n}, S.node n → W.Tells S.value (engine.evaluate n) (annals.evaluate n)

variable {engine : Engine} {annals : Annals}

theorem tells_code {evaluate : Node → Eval Value} {asked : Node → Chronicle}
    (hev : ∀ {n}, S.node n → W.Tells S.value (evaluate n) (asked n)) :
    ∀ code : Code, S.code code →
      W.Tells S.value (code.run evaluate) (code.chronicle evaluate asked)
  | .done v, h => tells_pure (S.done h)
  | .fail e, _ => tells_fail e
  | .evaluate n next, h =>
    tells_bind (tells_attempt (hev (S.evaluate h).1)) fun r hr =>
      tells_code hev (next r) ((S.evaluate h).2 r hr)
  | .depth next, h => tells_view_bind fun _ ctx _ => tells_code hev (next ctx.depth) (S.depth h _)
  | .lookup name next, h =>
    tells_view_bind fun _ ctx hctx =>
      tells_code hev (next (ctx.lookup name)) (S.lookup h _ fun _ => hctx.stack.lookup)
  | .frame level next, h =>
    tells_view_bind fun _ ctx hctx =>
      tells_code hev (next (ctx.frameAt? level)) (S.frame h _ fun _ => hctx.stack.frameAt?)
  | .bind level name v next, h =>
    tells_bind (tells_modify fun _ _ hctx => hctx.bind level name (S.bind h).1) fun _ _ =>
      tells_code hev next (S.bind h).2
  | .push f next, h =>
    tells_bind (tells_attempt (tells_push (S.push h).1)) fun r _ =>
      tells_code hev (next r) ((S.push h).2 r)
  | .pop next, h =>
    tells_view_bind fun _ ctx hctx =>
      tells_bind (tells_modify fun _ _ h => h.pop) fun _ _ =>
        tells_code hev (next ctx.frame?) (S.pop h _ fun _ => hctx.stack.top?)
  | .write text next, h =>
    tells_bind (tells_attempt (tells_write text)) fun r _ => tells_code hev (next r) (S.write h r)
  | .register d next, h => by
    refine tells_bind (P := fun _ => True) ?_ fun _ _ => tells_code hev next (S.register h).2
    intro past ctx hctx
    refine ⟨⟨W.register hctx.holds (S.register h).1, ?_⟩, fun _ _ _ => trivial, nofun⟩
    show (ctx.register d).stack.Holds S.value
    rw [ctx.stack_register]
    exact hctx.stack

theorem tells_add {evaluate : Node → Eval Value} {asked : Node → Chronicle} (symbol : String)
    {args : List Value} (hargs : ∀ v ∈ args, S.value v)
    (hdeed : ∀ past ctx, W.holds past ctx → W.holds (past ++ [.apply .add args]) ctx) :
    W.Tells S.value (Native.add.apply evaluate symbol args)
      (Native.add.chronicle evaluate asked symbol args) := by
  cases hsum : Value.sum symbol args with
  | error e =>
    refine tells_led hdeed ?_
    simp only [Native.apply, hsum]
    exact tells_fail e
  | ok sum =>
    cases sum with
    | some v =>
      refine tells_led hdeed ?_
      simp only [Native.apply, hsum]
      refine tells_pure ?_
      rcases Value.mem_or_int_of_sum hsum with hv | ⟨z, rfl⟩
      · exact hargs v hv
      · exact S.int z
    | none =>
      -- values of the language would have had an answer
      have hbad : ¬ (Deed.apply .add args).Fits :=
        fun hfits => Value.sum_ne_none hfits.1 hfits.2 hsum
      have hrun : Native.add.apply evaluate symbol args = Eval.halt .misuse := by
        simp only [Native.apply, hsum]
        rfl
      rw [hrun]
      exact tells_misuse hbad hdeed

theorem tells_print {evaluate : Node → Eval Value} {asked : Node → Chronicle} (symbol : String)
    {args : List Value} (hargs : ∀ v ∈ args, S.value v)
    (hdeed : ∀ past ctx, W.holds past ctx → W.holds (past ++ [.apply .print args]) ctx) :
    W.Tells S.value (Native.print.apply evaluate symbol args)
      (Native.print.chronicle evaluate asked symbol args) := by
  cases args with
  | nil =>
    refine tells_misuse (fun hfits => ?_) hdeed
    obtain ⟨v, vs, hcons, -⟩ := hfits
    cases hcons
  | cons v vs =>
    cases v with
    | absent =>
      refine tells_misuse (fun hfits => ?_) hdeed
      obtain ⟨w, ws, hcons, hw⟩ := hfits
      cases hcons
      exact hw rfl
    | nil | int _ | number _ =>
      exact tells_led hdeed
        (tells_bind_nothing (tells_write _) fun _ _ => tells_pure (hargs _ (.head _)))

/-- The code of a native function is run on as many arguments as it was registered for. -/
theorem tells_apply (hc : W.Covers engine annals) {symbol : String} {arity : Arity}
    {function : Native} (hd : S.definition (.native symbol arity function)) {args : List Value}
    (hargs : ∀ v ∈ args, S.value v) (haccepts : arity.accepts args.length = true) :
    W.Tells S.value (function.apply engine.evaluate symbol args)
      (function.chronicle engine.evaluate annals.evaluate symbol args) := by
  have hdeed : ∀ past ctx, W.holds past ctx →
      W.holds (past ++ [.apply function args]) ctx := fun _ _ h => W.apply h hd haccepts hargs
  cases function with
  | add => exact tells_add symbol hargs hdeed
  | print => exact tells_print symbol hargs hdeed
  | code body => exact tells_led hdeed (tells_code hc.evaluate _ (S.function hd args hargs))

theorem tells_invoke (hc : W.Covers engine annals) {d : Definition} (hd : S.definition d)
    (hform : ∀ symbol arity form, d ≠ .form symbol arity form) {args : List Value}
    (hargs : ∀ v ∈ args, S.value v) :
    W.Tells S.value (d.invoke engine args) (d.chronicle engine annals args) := by
  refine tells_led (fun _ _ h => W.invoke h hd hform) ?_
  cases d with
  | native symbol arity function =>
    unfold Definition.invoke
    dsimp only
    split
    · next haccepts => exact tells_apply hc hd hargs haccepts
    · exact tells_fail _
  | user symbol params body =>
    unfold Definition.invoke
    dsimp only
    split
    · refine hc.enter ((Frame.Holds.empty _ _).bindAll fun p hp => ?_) (S.body.1 hd)
      exact hargs p.2 (List.of_mem_zip hp).2
    · exact tells_fail _
  | form symbol arity form => exact absurd rfl (hform symbol arity form)
  | foreign symbol kind => exact tells_fail _

theorem tells_define (symbol : String) {operands : List Node} (hoperands : ∀ n ∈ operands, S.node n)
    (hdeed : ∀ past ctx, W.holds past ctx → W.holds (past ++ [.dispatch .define operands]) ctx) :
    W.Tells S.value (Eval.define symbol operands)
      (led (fun _ => .dispatch .define operands) (ofDefinition symbol operands)) := by
  match operands with
  | f :: params :: body :: more =>
    refine tells_led hdeed ?_
    intro past ctx h
    rw [Eval.run_define, ofDefinition]
    cases hdef : Node.definition symbol f params body with
    | error e => exact tells_fail (α := Value) e past ctx h
    | ok d =>
      obtain ⟨g, names, rfl⟩ := Node.definition_eq_ok hdef
      have hbody : S.node body := hoperands body (.tail _ (.tail _ (.head _)))
      refine ⟨⟨W.define h.holds (S.body.2 hbody), ?_⟩, fun v c hrun => ?_, nofun⟩
      · show (ctx.register _).stack.Holds S.value
        rw [ctx.stack_register]
        exact h.stack
      · cases hrun
        exact S.nil
  | [] | [_] | [_, _] =>
    refine tells_misuse ?_ hdeed
    simp [Deed.Fits, Form.Takes]

theorem tells_behindHead (hc : W.Covers engine annals) (name : String) {operands : List Node}
    (hoperands : ∀ n ∈ operands, S.node n) {ofOperands ofLet : Chronicle}
    (hargs : W.Tells (fun vs => ∀ v ∈ vs, S.value v) (Node.evalAll engine operands) ofOperands)
    (hlet : (∀ past ctx, W.holds past ctx → W.holds (past ++ [.dispatch .letIn operands]) ctx) →
      W.Tells S.value (Node.evalLet engine name operands)
        (led (fun _ => .dispatch .letIn operands) ofLet)) :
    W.Tells S.value (Coupling.behindHead engine name operands)
      (Chronicle.behindHead engine annals name operands ofOperands ofLet) := by
  refine tells_view_bind fun past ctx h => ?_
  cases hfound : ctx.registry.resolve name with
  | none => exact tells_bind hargs fun _ _ => tells_fail _
  | some d =>
    have hd := W.found h.holds hfound
    -- all that is not a form is called, after its operands
    have hcall (hform : ∀ symbol arity form, d ≠ .form symbol arity form) :
        W.Tells S.value
          (Node.evalAll engine operands >>= fun args =>
            Eval.trace (fun _ => .applying name args) >>= fun _ => d.invoke engine args)
          (ofOperands.andThen (Node.evalAll engine operands) fun args =>
            after (Eval.trace fun _ => .applying name args) fun _ =>
              d.chronicle engine annals args) :=
      tells_bind hargs fun args hvs =>
        tells_bind (tells_trace _) fun _ _ => tells_invoke hc hd hform hvs
    cases d with
    | native symbol arity function => exact hcall (by simp)
    | user symbol params body => exact hcall (by simp)
    | foreign symbol kind => exact hcall (by simp)
    | form symbol arity form =>
      dsimp only
      split
      · next haccepts =>
        have hdeed : ∀ past ctx, W.holds past ctx →
            W.holds (past ++ [.dispatch form operands]) ctx :=
          fun _ _ h => W.dispatch h hd haccepts hoperands
        cases form with
        | define => exact tells_define name hoperands hdeed
        | letIn => exact hlet hdeed
        | code body => exact tells_led hdeed (tells_code hc.evaluate _ (S.form hd _ _ hoperands))
      · exact tells_fail _

mutual
/-- **The chronicle of a node tells what happens when it is evaluated.** -/
theorem tells_evalWith (hc : W.Covers engine annals) :
    ∀ n : Node, S.node n → W.Tells S.value (n.evalWith engine) (n.chronicleWith engine annals)
  | .int _ value, hn => tells_led (fun _ _ h => W.visit h hn) (tells_pure (S.int value))
  | .symbol _ name, hn => by
    refine tells_led (fun _ _ h => W.visit h hn) ?_
    intro past ctx h
    rw [Node.evalWith, Eval.run_bind, Eval.run_view]
    cases hlookup : ctx.lookup name with
    | some v => exact tells_pure (h.stack.lookup hlookup) past ctx h
    | none => exact tells_fail (α := Value) _ past ctx h
  | .expression token [], hn =>
    tells_led (fun _ _ h => W.visit h hn) (tells_within _ (tells_fail _))
  | .expression token (head :: operands), hn => by
    have hoperands : ∀ n ∈ operands, S.node n := fun n h => S.inside hn n (.tail _ h)
    rw [Node.chronicleWith]
    refine tells_led (fun _ _ h => W.visit h hn) ?_
    cases hhead : head.symbol? with
    | none =>
      rw [Node.evalWith, hhead]
      exact tells_within _ (tells_fail _)
    | some name =>
      rw [Coupling.evalWith_call engine token hhead]
      refine tells_within _ (tells_bind (tells_trace _) fun _ _ => ?_)
      exact tells_behindHead hc name hoperands (tells_evalAll hc operands hoperands)
        (tells_evalLet hc name operands hoperands)
  | .list _ children, hn =>
    tells_led (fun _ _ h => W.visit h hn) (tells_evalLast hc S.nil children (S.inside hn))
  | .foreign _ _ _, hn => tells_led (fun _ _ h => W.visit h hn) (tells_fail _)
theorem tells_evalAll (hc : W.Covers engine annals) :
    ∀ ns : List Node, (∀ n ∈ ns, S.node n) →
      W.Tells (fun vs => ∀ v ∈ vs, S.value v) (Node.evalAll engine ns)
        (Node.chronicleAll engine annals ns)
  | [], _ => tells_pure (List.forall_mem_nil _)
  | n :: ns, hns =>
    tells_bind (tells_evalWith hc n (hns n (.head _))) fun _ hv =>
      tells_map (tells_evalAll hc ns fun m hm => hns m (.tail _ hm)) fun _ hvs =>
        List.forall_mem_cons.2 ⟨hv, hvs⟩
theorem tells_evalLast (hc : W.Covers engine annals) {before : Value} (hbefore : S.value before) :
    ∀ ns : List Node, (∀ n ∈ ns, S.node n) →
      W.Tells S.value (Node.evalLast engine before ns) (Node.chronicleAll engine annals ns)
  | [], _ => tells_pure hbefore
  | n :: ns, hns =>
    tells_bind (tells_evalWith hc n (hns n (.head _))) fun _ hv =>
      tells_evalLast hc hv ns fun m hm => hns m (.tail _ hm)
theorem tells_evalBinding (hc : W.Covers engine annals) (form : String) {frame : Frame}
    (hframe : frame.Holds S.value) :
    ∀ n : Node, S.node n →
      W.Tells (Frame.Holds S.value) (Node.evalBinding engine form frame n)
        (n.chronicleBinding engine annals frame)
  | .expression _ [name, value], hn => by
    unfold Node.evalBinding Node.chronicleBinding
    cases name.symbol? with
    | none => exact tells_fail _
    | some x =>
      dsimp only
      split
      · exact tells_fail _
      · exact tells_map (tells_evalWith hc value (S.inside hn value (.tail _ (.head _))))
          fun _ hv => hframe.bind x hv
  | .expression _ [], _ | .expression _ [_], _ | .expression _ (_ :: _ :: _ :: _), _
  | .int _ _, _ | .symbol _ _, _ | .list _ _, _ | .foreign _ _ _, _ => tells_fail _
theorem tells_evalBindings (hc : W.Covers engine annals) (form : String) {frame : Frame}
    (hframe : frame.Holds S.value) :
    ∀ ns : List Node, (∀ n ∈ ns, S.node n) →
      W.Tells (Frame.Holds S.value) (Node.evalBindings engine form frame ns)
        (Node.chronicleBindings engine annals form frame ns)
  | [], _ => tells_pure hframe
  | n :: ns, hns =>
    tells_bind (tells_evalBinding hc form hframe n (hns n (.head _))) fun _ hframe' =>
      tells_evalBindings hc form hframe' ns fun m hm => hns m (.tail _ hm)
theorem tells_evalLet (hc : W.Covers engine annals) (form : String) :
    ∀ operands : List Node, (∀ n ∈ operands, S.node n) →
      (∀ past ctx, W.holds past ctx → W.holds (past ++ [.dispatch .letIn operands]) ctx) →
      W.Tells S.value (Node.evalLet engine form operands)
        (led (fun _ => .dispatch .letIn operands) (Node.chronicleLet engine annals form operands))
  | .expression token pairs :: body :: _, hns, hdeed =>
    tells_led hdeed <| tells_bind
      (tells_evalBindings hc form (Frame.Holds.empty .scope form) pairs
        (S.inside (n := .expression token pairs) (hns _ (.head _)))) fun _ hframe =>
      hc.enter hframe (hns body (.tail _ (.head _)))
  | .int _ _ :: _ :: _, _, hdeed | .symbol _ _ :: _ :: _, _, hdeed
  | .list _ _ :: _ :: _, _, hdeed | .foreign _ _ _ :: _ :: _, _, hdeed =>
    tells_led hdeed (tells_fail _)
  | [], _, hdeed | [_], _, hdeed => tells_misuse (by simp [Deed.Fits, Form.Takes]) hdeed
end

theorem tells_halt_noRoom : W.Tells P (Eval.halt .noRoom : Eval α) nothing :=
  tells_nothing (fun _ _ h => h) (fun _ _ _ _ _ hb => by cases hb) (by simp)

theorem covers_withRoom {evaluate : Node → Eval Value} {asked : Node → Chronicle}
    (hev : ∀ {n}, S.node n → W.Tells S.value (evaluate n) (asked n)) (room : Nat) :
    W.Covers (.withRoom evaluate room) (.withRoom evaluate asked room) := by
  induction room with
  | zero =>
    refine ⟨fun {frame body} hframe _ => ?_, hev⟩
    have h : W.Tells S.value _ (Chronicle.inFrame frame nothing) :=
      tells_inFrame hframe tells_halt_noRoom
    have hstory : Chronicle.inFrame frame nothing = nothing := by
      funext ctx
      unfold Chronicle.inFrame
      split <;> rfl
    rwa [hstory] at h
  | succ room ih => exact ⟨fun hframe h => tells_inFrame hframe (tells_evalWith ih _ h), hev⟩

theorem tells_evalNested (calls : Nat) :
    ∀ {n : Node}, S.node n → W.Tells S.value (n.evalNested calls) (n.chronicleNested calls) := by
  induction calls with
  | zero =>
    intro n _
    exact tells_halt_noRoom
  | succ calls ih =>
    intro n hn
    refine tells_within n (tells_view_bind fun _ ctx _ => ?_)
    exact tells_evalWith (covers_withRoom ih ctx.room) n hn

/-- **A watch is kept by every evaluation**, and no misuse goes unseen. -/
theorem tells_eval {n : Node} (hn : S.node n) : W.Tells S.value n.eval n.chronicle :=
  tells_evalNested _ hn

end Watch

/-! ## §6. Rules that are kept. -/

/-- What may take part keeps to rules: the registry always meets `R`, and every deed has the
property `P`. -/
structure Standard.Keeps (S : Standard) (R : Registry → Prop) (P : Deed → Prop) : Prop where
  found : ∀ {r}, R r → ∀ d ∈ r.definitions, S.definition d
  registered : ∀ {r d}, R r → S.definition d → R (r.register d)
  visit : ∀ {n ctx}, S.node n → P (.visit n ctx)
  dispatch : ∀ {symbol arity form} {operands : List Node},
    S.definition (.form symbol arity form) → arity.accepts operands.length = true →
    (∀ n ∈ operands, S.node n) → P (.dispatch form operands)
  invoke : ∀ {d args}, (∀ symbol arity form, d ≠ .form symbol arity form) → P (.invoke d args)
  apply : ∀ {symbol arity function} {args : List Value},
    S.definition (.native symbol arity function) → arity.accepts args.length = true →
    (∀ v ∈ args, S.value v) → P (.apply function args)
  define : ∀ d, P (.define d)
  register : ∀ d, P (.register d)

theorem Deed.forall_concat {P : Deed → Prop} {past : List Deed} {deed : Deed}
    (h : ∀ deed ∈ past, P deed) (hdeed : P deed) : ∀ d ∈ past ++ [deed], P d :=
  List.forall_mem_append.2 ⟨h, by simpa using hdeed⟩

/-- All that happened has the property `P`, and the registry meets `R`. -/
def Watch.rules {S : Standard} {R : Registry → Prop} {P : Deed → Prop} (hS : S.Keeps R P) :
    Watch S where
  holds past ctx := (∀ deed ∈ past, P deed) ∧ R ctx.registry
  found h _ _ hfound := hS.found h.2 _ (Registry.mem_of_resolve hfound)
  trace h event := ⟨h.1, by rw [Context.registry_trace]; exact h.2⟩
  write h _ := h
  bind h _ _ _ := h
  opened h _ f := ⟨h.1, by rw [Context.registry_opened]; exact h.2⟩
  pop h := ⟨h.1, by rw [Context.registry_pop]; exact h.2⟩
  visit h hn := ⟨Deed.forall_concat h.1 (hS.visit hn), h.2⟩
  dispatch h hd haccepts hoperands :=
    ⟨Deed.forall_concat h.1 (hS.dispatch hd haccepts hoperands), h.2⟩
  invoke h _ hform := ⟨Deed.forall_concat h.1 (hS.invoke hform), h.2⟩
  apply h hd haccepts hargs := ⟨Deed.forall_concat h.1 (hS.apply hd haccepts hargs), h.2⟩
  define h hd := ⟨Deed.forall_concat h.1 (hS.define _), by
    rw [Context.registry_register]; exact hS.registered h.2 hd⟩
  register h hd := ⟨Deed.forall_concat h.1 (hS.register _), by
    rw [Context.registry_register]; exact hS.registered h.2 hd⟩

/-- What is seen of the evaluation of a node where rules are kept. -/
structure Standard.Kept (S : Standard) (R : Registry → Prop) (P : Deed → Prop) (n : Node)
    (ctx : Context) : Prop where
  deeds : ∀ deed ∈ n.chronicle ctx, P deed
  registry : R (n.eval.run ctx).context.registry
  stack : (n.eval.run ctx).context.stack.Holds S.value
  value : ∀ v ctx', n.eval.run ctx = .done v ctx' → S.value v
  halts : ∀ ctx', n.eval.run ctx ≠ .halted .misuse ctx'

/-- **Rules that every deed keeps are kept by every evaluation**, and if they have it that every
deed fits, no evaluation is misuse. -/
theorem Standard.Keeps.eval {S : Standard} {R : Registry → Prop} {P : Deed → Prop}
    (hS : S.Keeps R P) (hfits : ∀ deed, P deed → deed.Fits) {n : Node} (hn : S.node n)
    {ctx : Context} (hregistry : R ctx.registry) (hstack : ctx.stack.Holds S.value) :
    S.Kept R P n ctx := by
  obtain ⟨⟨⟨hdeeds, hregistry⟩, hstack⟩, hvalue, hblames⟩ :=
    Watch.tells_eval (W := Watch.rules hS) hn [] ctx
      ⟨⟨List.forall_mem_nil _, hregistry⟩, hstack⟩
  refine ⟨hdeeds, hregistry, hstack, hvalue, fun ctx' hrun => ?_⟩
  obtain ⟨deed, hdeed, hbad⟩ := hblames ctx' hrun
  exact hbad (hfits deed (hdeeds deed hdeed))

/-- The functions of the core are given what they take, by their arities, if all arguments are
values of the language. -/
theorem Native.takes_of_mem_core {symbol : String} {arity : Arity} {function : Native}
    (h : Definition.native symbol arity function ∈ Registry.coreDefinitions) {args : List Value}
    (haccepts : arity.accepts args.length = true) (hargs : ∀ v ∈ args, v.isProper = true) :
    function.Takes args := by
  have hmin := Arity.min_le_of_accepts haccepts
  simp only [Registry.coreDefinitions, List.mem_cons, List.not_mem_nil, or_false,
    Definition.native.injEq, reduceCtorEq] at h
  rcases h with ⟨-, rfl, rfl⟩ | ⟨-, rfl, rfl⟩
  · have hmin : (2 : Int) ≤ args.length := hmin
    exact ⟨List.ne_nil_of_length_pos (by omega), hargs⟩
  · have hmin : (1 : Int) ≤ args.length := hmin
    obtain ⟨v, vs, rfl⟩ := List.exists_cons_of_length_pos (l := args) (by omega)
    refine ⟨v, vs, rfl, ?_⟩
    rintro rfl
    cases hargs _ (.head _)

/-- So are the forms of the core. -/
theorem Form.takes_of_mem_core {symbol : String} {arity : Arity} {form : Form}
    (h : Definition.form symbol arity form ∈ Registry.coreDefinitions) {n : Nat}
    (haccepts : arity.accepts n = true) : form.Takes n := by
  have hmin := Arity.min_le_of_accepts haccepts
  simp only [Registry.coreDefinitions, List.mem_cons, List.not_mem_nil, or_false,
    Definition.form.injEq, reduceCtorEq, false_or] at h
  rcases h with ⟨-, rfl, rfl⟩ | ⟨-, rfl, rfl⟩
  · have hmin : (3 : Int) ≤ n := hmin
    show 3 ≤ n
    omega
  · have hmin : (2 : Int) ≤ n := hmin
    show 2 ≤ n
    omega

/-- No code from outside takes part, and the values are those of the language. -/
def Standard.withoutCode (N : Node → Prop) (D : Definition → Prop)
    (inside : ∀ {n}, N n → ∀ m ∈ n.children, N m)
    (function : ∀ symbol arity body, ¬ D (.native symbol arity (.code body)))
    (form : ∀ symbol arity body, ¬ D (.form symbol arity (.code body)))
    (body : ∀ {symbol params body}, D (.user symbol params body) ↔ N body) : Standard where
  node := N
  code _ := False
  definition := D
  value v := v.isProper = true
  nil := Value.isProper_nil
  int := Value.isProper_int
  inside := inside
  done h := h.elim
  evaluate h := h.elim
  depth h := h.elim
  lookup h := h.elim
  frame h := h.elim
  bind h := h.elim
  push h := h.elim
  pop h := h.elim
  write h := h.elim
  register h := h.elim
  function h := (function _ _ _ h).elim
  form h := (form _ _ _ h).elim
  body := body

/-! ## §7. Statements and texts. -/

/-- What happens when the only statement of a source is evaluated. -/
def Source.chronicle (src : Source) : Chronicle :=
  match src.parseStatement with
  | .ok n => n.chronicle
  | .error _ => nothing

namespace Statement

/-- What happens when a statement is evaluated. -/
def chronicle (s : Statement) : Chronicle :=
  match s.error with
  | some _ => nothing
  | none => after (Eval.trace fun _ => .starting s.text) fun _ => (Source.ofString s.text).chronicle

/-- What happens when statements are evaluated in order. -/
def chronicleAll : List Statement → Chronicle
  | [] => nothing
  | s :: ss => s.chronicle.andThen s.exec fun _ => chronicleAll ss

end Statement

/-- What happens when the statements of a source are run. -/
def Source.chronicleAll (src : Source) : Chronicle :=
  match src.statements with
  | .ok ss => Statement.chronicleAll ss
  | .error _ => nothing

/-- What happens when the text that an input holds is run. -/
def Input.chronicle (input : Input) : Chronicle :=
  match input.contents with
  | .ok src => src.chronicleAll
  | .error _ => nothing

namespace Watch

variable {S : Standard} {W : Watch S} {P : α → Prop}

theorem tells_source (src : Source) (hread : ∀ n, src.parseStatement = .ok n → S.node n) :
    W.Tells S.value src.eval src.chronicle := by
  unfold Source.eval Source.chronicle
  cases hparse : src.parseStatement with
  | ok n => exact tells_eval (hread n hparse)
  | error e => exact tells_fail e

theorem tells_statement (s : Statement)
    (hread : ∀ n, (Source.ofString s.text).parseStatement = .ok n → S.node n) :
    W.Tells S.value s.eval s.chronicle := by
  unfold Statement.eval Statement.chronicle
  cases s.error with
  | some e => exact tells_fail e
  | none =>
    refine tells_bind (tells_trace _) fun _ _ =>
      tells_bind_nothing (tells_source _ hread) fun v hv => ?_
    exact tells_bind_nothing (tells_trace _) fun _ _ => tells_pure hv

variable (hread : ∀ (src : Source) n, src.parseStatement = .ok n → S.node n)
  (hrecord : ∀ past ctx entry, W.holds past ctx → W.holds past (ctx.record entry))

include hrecord

theorem tells_record (entry : Entry) :
    W.Tells (fun _ => True) (Eval.modify (·.record entry)) nothing :=
  tells_modify fun past ctx h => ⟨hrecord past ctx entry h.holds, h.stack⟩

theorem tells_unreadable (e : Error) : W.Tells P (Eval.unreadable e : Eval α) nothing :=
  tells_bind_nothing (tells_record hrecord _) fun _ _ => tells_fail e

include hread

theorem tells_exec (s : Statement) : W.Tells (fun _ => True) s.exec s.chronicle := by
  refine tells_bind_nothing (tells_attempt (tells_statement s (hread _))) fun r _ => ?_
  cases r with
  | ok v => exact tells_pure trivial
  | error e => exact tells_bind_nothing (tells_record hrecord _) fun _ _ => tells_pure trivial

theorem tells_execAll :
    ∀ ss : List Statement,
      W.Tells (fun _ => True) (Statement.execAll ss) (Statement.chronicleAll ss)
  | [] => tells_pure trivial
  | s :: ss =>
    tells_bind (tells_exec hread hrecord s) fun _ _ =>
      tells_map (tells_execAll ss) fun _ _ => trivial

theorem tells_runAll (src : Source) : W.Tells (fun _ => True) src.run src.chronicleAll := by
  unfold Source.run Source.chronicleAll
  cases src.statements with
  | error e => exact tells_unreadable hrecord e
  | ok ss => exact tells_execAll hread hrecord ss

theorem tells_run (input : Input) : W.Tells (fun _ => True) input.run input.chronicle := by
  unfold Input.run Input.chronicle
  cases input.contents with
  | error e => exact tells_unreadable hrecord e
  | ok src => exact tells_runAll hread hrecord src

end Watch

end IntLisp
