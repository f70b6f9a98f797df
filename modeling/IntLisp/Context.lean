/-
  IntLisp.Context
  ───────────────
  **THE STATE OF AN INTERPRETER.**

  A context holds the definitions in force, the active frames and what has
  been written so far.  Its options set how many frames may be active at
  once, whether the evaluation is traced, and whether output can be written.
-/
import IntLisp.Log
import IntLisp.Registry
import IntLisp.Stack

namespace IntLisp

/-! ## §1. Options. -/

/-- Where printed lines go. -/
inductive Output where
  | working
  /-- Writing fails, in its own words. -/
  | broken (reason : String)
deriving DecidableEq

/-- How a context behaves. -/
structure Options where
  /-- The number of frames that may be active; zero stands for the default, and
  a negative number for no limit. -/
  maxDepth : Int
  debug : Bool
  output : Output
deriving DecidableEq

namespace Options

/-- The number of frames that may be active unless the options say otherwise. -/
def defaultDepth : Nat := 10000

/-- The options of a new context. -/
def default : Options := ⟨0, false, .working⟩

/-- The number of frames that may be active, if there is a limit. -/
def limit (o : Options) : Option Nat :=
  if o.maxDepth = 0 then some defaultDepth
  else if o.maxDepth < 0 then none
  else some o.maxDepth.toNat

/-- The tracer that the options ask for. -/
def tracer (o : Options) : Tracer := if o.debug then .active else .absent

end Options

/-! ## §2. Contexts. -/

/-- The state of an interpreter. -/
structure Context where
  registry : Registry
  stack : Stack
  /-- How many frames may be active. -/
  limit : Option Nat
  tracer : Tracer
  output : Output
  /-- All that was printed. -/
  printed : String
  /-- All that was logged. -/
  log : Array Entry

namespace Context

/-- The context with other options; what it holds stays. -/
def setOptions (ctx : Context) (o : Options) : Context :=
  { ctx with limit := o.limit, tracer := o.tracer, output := o.output }

/-- A context with the core definitions and nothing else. -/
def new : Context :=
  { registry := .core
    stack := .empty
    limit := Options.default.limit
    tracer := Options.default.tracer
    output := Options.default.output
    printed := ""
    log := #[] }

/-- The number of active frames. -/
def depth (ctx : Context) : Nat := ctx.stack.depth

/-- Whether no further frame may be opened. -/
def isFull (ctx : Context) : Bool :=
  match ctx.limit with
  | none => false
  | some m => m ≤ ctx.depth

/-- Add an entry to the log. -/
def record (ctx : Context) (e : Entry) : Context := { ctx with log := ctx.log.push e }

/-- Add an event, described by the context it happens in, to the log if tracing is on. -/
@[inline] def trace (ctx : Context) (event : Context → Event) : Context :=
  if ctx.tracer.isEnabled then ctx.record (.trace (event ctx)) else ctx

/-- Add a text to what was printed. -/
def write (ctx : Context) (text : String) : Context := { ctx with printed := ctx.printed ++ text }

/-- The context with nothing written yet. -/
def forget (ctx : Context) : Context := { ctx with printed := "", log := #[] }

/-- Put a definition in force. -/
def register (ctx : Context) (d : Definition) : Context :=
  -- a redefinition is one if the registry as it was knows the name
  let next := { ctx with registry := ctx.registry.register d }
  if (ctx.registry.resolve d.symbol).isSome then next.trace fun _ => .redefined d.symbol
  else next

/-- The innermost frame. -/
def frame? (ctx : Context) : Option Frame := ctx.stack.top?

/-- The active frame that `level` others are inside of. -/
def frameAt? (ctx : Context) (level : Nat) : Option Frame := ctx.stack.frameAt? level

/-- Bind a name in the active frame that `level` others are inside of. -/
def bind (ctx : Context) (level : Nat) (name : String) (v : Value) : Context :=
  { ctx with stack := ctx.stack.bind level name v }

/-- The value of a visible name. -/
def lookup (ctx : Context) (name : String) : Option Value := ctx.stack.lookup name

/-- The context inside a new frame. -/
def opened (ctx : Context) (f : Frame) : Context :=
  { ctx with stack := ctx.stack.push f }.trace fun ctx => .pushed f.name ctx.depth

/-- Open a frame, unless the context is full. -/
def push (ctx : Context) (f : Frame) : Except Error Context :=
  if ctx.isFull then .error (.because .stackOverflow) else .ok (ctx.opened f)

/-- Close the innermost frame, if there is one. -/
def pop (ctx : Context) : Context :=
  match ctx.stack.top? with
  | none => ctx
  | some f => { ctx with stack := ctx.stack.pop }.trace fun ctx => .popped f.name ctx.depth

/-! ## §3. What the operations leave alone. -/

section

variable (ctx : Context)

@[simp] theorem stack_trace (event : Context → Event) : (ctx.trace event).stack = ctx.stack := by
  unfold trace
  split <;> rfl

@[simp] theorem limit_trace (event : Context → Event) : (ctx.trace event).limit = ctx.limit := by
  unfold trace
  split <;> rfl

@[simp] theorem registry_trace (event : Context → Event) :
    (ctx.trace event).registry = ctx.registry := by
  unfold trace
  split <;> rfl

@[simp] theorem stack_register (d : Definition) : (ctx.register d).stack = ctx.stack := by
  unfold register
  dsimp only
  split
  · rw [stack_trace]
  · rfl

@[simp] theorem registry_register (d : Definition) :
    (ctx.register d).registry = ctx.registry.register d := by
  unfold register
  dsimp only
  split
  · rw [registry_trace]
  · rfl

@[simp] theorem registry_opened (f : Frame) : (ctx.opened f).registry = ctx.registry := by
  unfold opened
  rw [registry_trace]

@[simp] theorem registry_pop : ctx.pop.registry = ctx.registry := by
  unfold pop
  split
  · rfl
  · rw [registry_trace]

@[simp] theorem stack_opened (f : Frame) : (ctx.opened f).stack = ctx.stack.push f := by
  unfold opened
  rw [stack_trace]

@[simp] theorem stack_pop : ctx.pop.stack = ctx.stack.pop := by
  unfold pop
  cases htop : ctx.stack.top? with
  | none =>
    -- no frame is active, and closing none leaves none
    have hframes : ctx.stack.frames = [] := List.head?_eq_none_iff.1 htop
    exact Stack.ext (by rw [Stack.frames_pop, hframes]; rfl)
  | some f =>
    dsimp only
    rw [stack_trace]

end

end Context

end IntLisp
