/-
  IntLisp.Eval
  ────────────
  **STEPS OF AN EVALUATION.**

  A step takes a context and ends with a value, with an error of the program
  that is evaluated, or with a halt, and always with the context as it is
  then: what was printed, logged or defined before an error stays.  A halt is
  not an error of the program and cannot be caught by it; it says that the
  evaluation could not go on at all.
-/
import IntLisp.Context

namespace IntLisp

/-- Why an evaluation could not go on. -/
inductive Halt where
  /-- A frame, or a nested call of native code, was needed that nothing forbids
  and there is no room for. -/
  | noRoom
  /-- A native function or form was given less, or something else, than it is
  made for. -/
  | misuse
deriving DecidableEq

/-- How a step ends. -/
inductive Outcome (α : Type) where
  | done (value : α) (ctx : Context)
  | failed (error : Error) (ctx : Context)
  | halted (why : Halt) (ctx : Context)

namespace Outcome

variable {α : Type}

/-- The context that a step leaves behind. -/
def context : Outcome α → Context
  | done _ ctx | failed _ ctx | halted _ ctx => ctx

/-- The same end in another context. -/
@[inline] def mapContext (f : Context → Context) : Outcome α → Outcome α
  | done a ctx => done a (f ctx)
  | failed e ctx => failed e (f ctx)
  | halted why ctx => halted why (f ctx)

end Outcome

/-- A step of an evaluation. -/
structure Eval (α : Type) where
  /-- Take the step in a context. -/
  run : Context → Outcome α

namespace Eval

variable {α β : Type}

/-! ## §1. Sequencing. -/

instance : Monad Eval where
  pure a := ⟨fun ctx => .done a ctx⟩
  bind act next := ⟨fun ctx =>
    match act.run ctx with
    | .done a ctx' => (next a).run ctx'
    | .failed e ctx' => .failed e ctx'
    | .halted why ctx' => .halted why ctx'⟩

@[simp] theorem run_pure (a : α) (ctx : Context) : (pure a : Eval α).run ctx = .done a ctx := rfl

theorem run_bind (act : Eval α) (next : α → Eval β) (ctx : Context) :
    (act >>= next).run ctx =
      match act.run ctx with
      | .done a ctx' => (next a).run ctx'
      | .failed e ctx' => .failed e ctx'
      | .halted why ctx' => .halted why ctx' := rfl

/-- A step is what it does in each context. -/
theorem ext {act₁ act₂ : Eval α} (h : ∀ ctx, act₁.run ctx = act₂.run ctx) : act₁ = act₂ := by
  cases act₁
  cases act₂
  exact congrArg Eval.mk (funext h)

/-- Steps in a row may be grouped at will. -/
instance : LawfulMonad Eval :=
  LawfulMonad.mk' Eval
    (by
      intro α act
      refine ext fun ctx => ?_
      show (act >>= fun a => pure (id a)).run ctx = _
      rw [run_bind]
      cases act.run ctx <;> rfl)
    (by
      intro α β a next
      rfl)
    (by
      intro α β γ act next last
      refine ext fun ctx => ?_
      rw [run_bind, run_bind, run_bind]
      cases act.run ctx <;> rfl)

theorem run_bind_eq_done {act : Eval α} {next : α → Eval β} {ctx ctx' : Context} {b : β} :
    (act >>= next).run ctx = .done b ctx' ↔
      ∃ a ctx₁, act.run ctx = .done a ctx₁ ∧ (next a).run ctx₁ = .done b ctx' := by
  rw [run_bind]
  cases act.run ctx <;> simp [and_assoc]

theorem run_bind_eq_failed {act : Eval α} {next : α → Eval β} {ctx ctx' : Context} {e : Error} :
    (act >>= next).run ctx = .failed e ctx' ↔
      act.run ctx = .failed e ctx'
        ∨ ∃ a ctx₁, act.run ctx = .done a ctx₁ ∧ (next a).run ctx₁ = .failed e ctx' := by
  rw [run_bind]
  cases act.run ctx <;> simp [and_assoc]

/-- End with an error. -/
@[inline] def fail (e : Error) : Eval α := ⟨fun ctx => .failed e ctx⟩

/-- End without an answer. -/
@[inline] def halt (why : Halt) : Eval α := ⟨fun ctx => .halted why ctx⟩

/-- End as `r` says. -/
@[inline] def ofExcept : Except Error α → Eval α
  | .ok a => pure a
  | .error e => fail e

@[simp] theorem run_fail (e : Error) (ctx : Context) :
    (fail e : Eval α).run ctx = .failed e ctx := rfl

@[simp] theorem run_halt (why : Halt) (ctx : Context) :
    (halt why : Eval α).run ctx = .halted why ctx := rfl

/-! ## §2. The context of a step. -/

/-- What `f` sees in the context. -/
@[inline] def view (f : Context → α) : Eval α := ⟨fun ctx => .done (f ctx) ctx⟩

/-- Change the context. -/
@[inline] def modify (f : Context → Context) : Eval Unit := ⟨fun ctx => .done () (f ctx)⟩

@[simp] theorem run_view (f : Context → α) (ctx : Context) :
    (view f).run ctx = .done (f ctx) ctx := rfl

@[simp] theorem run_modify (f : Context → Context) (ctx : Context) :
    (modify f).run ctx = .done () (f ctx) := rfl

/-- Log an event if tracing is on. -/
@[inline] def trace (event : Context → Event) : Eval Unit := modify (·.trace event)

/-- Open a frame. -/
def push (f : Frame) : Eval Unit := ⟨fun ctx =>
  match ctx.push f with
  | .ok ctx' => .done () ctx'
  | .error e => .failed e ctx⟩

/-- Change the context after a step, however it ends. -/
@[inline] def ensuring (act : Eval α) (f : Context → Context) : Eval α :=
  ⟨fun ctx => (act.run ctx).mapContext f⟩

/-- Evaluate inside a frame, which is closed however that ends. -/
@[inline] def inFrame (f : Frame) (act : Eval α) : Eval α := do
  push f
  act.ensuring Context.pop

theorem run_inFrame_of_isFull (f : Frame) (act : Eval α) {ctx : Context} (h : ctx.isFull = true) :
    (inFrame f act).run ctx = .failed (.because .stackOverflow) ctx := by
  simp [inFrame, push, Context.push, run_bind, h]

theorem run_inFrame (f : Frame) (act : Eval α) {ctx : Context} (h : ctx.isFull = false) :
    (inFrame f act).run ctx = (act.run (ctx.opened f)).mapContext Context.pop := by
  simp [inFrame, ensuring, push, Context.push, run_bind, h]

/-! ## §3. Errors. -/

/-- Go on with `handler` after an error. -/
@[inline] def recover (act : Eval α) (handler : Error → Eval α) : Eval α := ⟨fun ctx =>
  match act.run ctx with
  | .done a ctx' => .done a ctx'
  | .failed e ctx' => (handler e).run ctx'
  | .halted why ctx' => .halted why ctx'⟩

/-- The outcome of a step as a value. -/
@[inline] def attempt (act : Eval α) : Eval (Except Error α) := ⟨fun ctx =>
  match act.run ctx with
  | .done a ctx' => .done (.ok a) ctx'
  | .failed e ctx' => .done (.error e) ctx'
  | .halted why ctx' => .halted why ctx'⟩

/-- The error `e` of the node `n`: it names the node, unless an expression
inside it was named already. -/
def nameNode (n : Node) (e : Error) (ctx : Context) : Error :=
  if e.isTraced then e else .evaluating n.encode ctx.depth e

/-- Evaluate as the node `n`: an error names it. -/
@[inline] def within (n : Node) (act : Eval α) : Eval α :=
  act.recover fun e => do fail (← view (nameNode n e))

end Eval

end IntLisp
