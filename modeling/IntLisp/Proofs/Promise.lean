/-
  IntLisp.Proofs.Promise
  ──────────────────────
  **WHAT A STEP PROMISES.**

  A step promises something if, taken in a context with a property, it ends
  in one that has it again, with a value or an error of the kind that is
  promised.  It may always halt.  Promises are put together as steps are: the
  value that a step promises is all that the next one may rely on.

  Unlike a coupling, a promise may depend on the node that is evaluated.
-/
import IntLisp.Eval.Native

namespace IntLisp

variable {α β : Type}

/-- The outcome is in a context with `I`, and has a value with `Q` or an error with `E`,
if it has one. -/
inductive Outcome.Meets (I : Context → Prop) (E : Error → Prop) (Q : α → Prop) :
    Outcome α → Prop where
  | done {a : α} {ctx : Context} (h : I ctx) (ha : Q a) : Meets I E Q (.done a ctx)
  | failed {e : Error} {ctx : Context} (h : I ctx) (he : E e) : Meets I E Q (.failed e ctx)
  | halted {why : Halt} {ctx : Context} (h : I ctx) : Meets I E Q (.halted why ctx)

namespace Outcome.Meets

variable {I : Context → Prop} {E : Error → Prop} {Q : α → Prop} {o : Outcome α}

theorem context (h : o.Meets I E Q) : I o.context := by
  cases h <;> assumption

theorem error (h : o.Meets I E Q) {e : Error} {ctx : Context} (ho : o = .failed e ctx) : E e := by
  subst ho
  cases h
  assumption

end Outcome.Meets

namespace Eval

/-- Taken in a context with `I`, the step ends in one with `I`, with a value with `Q` or an
error with `E`, or it halts. -/
def Promises (I : Context → Prop) (E : Error → Prop) (Q : α → Prop) (act : Eval α) : Prop :=
  ∀ ctx, I ctx → (act.run ctx).Meets I E Q

variable {I J : Context → Prop} {E : Error → Prop} {Q : α → Prop} {R : β → Prop}

theorem Promises.imp {Q' : α → Prop} {act : Eval α} (hact : act.Promises I E Q)
    (h : ∀ a, Q a → Q' a) : act.Promises I E Q' := by
  intro ctx hctx
  match act.run ctx, hact ctx hctx with
  | _, .done h' ha => exact .done h' (h _ ha)
  | _, .failed h' he => exact .failed h' he
  | _, .halted h' => exact .halted h'

theorem promises_pure {a : α} (ha : Q a) : (pure a : Eval α).Promises I E Q := by
  intro ctx h
  exact .done h ha

theorem promises_fail {e : Error} (he : E e) : (fail e : Eval α).Promises I E Q := by
  intro ctx h
  exact .failed h he

theorem promises_halt (why : Halt) : (halt why : Eval α).Promises I E Q := by
  intro ctx h
  exact .halted h

theorem promises_bind {act : Eval α} {next : α → Eval β} (hact : act.Promises I E Q)
    (hnext : ∀ a, Q a → (next a).Promises I E R) : (act >>= next).Promises I E R := by
  intro ctx h
  rw [run_bind]
  match act.run ctx, hact ctx h with
  | _, .done h' ha => exact hnext _ ha _ h'
  | _, .failed h' he => exact .failed h' he
  | _, .halted h' => exact .halted h'

/-- What the continuation is given is seen in a context with the property. -/
theorem promises_view_bind {f : Context → α} {next : α → Eval β}
    (hnext : ∀ ctx, I ctx → (next (f ctx)).Promises I E R) :
    (view f >>= next).Promises I E R := by
  intro ctx h
  exact hnext ctx h ctx h

theorem promises_modify {f : Context → Context} {Q : Unit → Prop}
    (hf : ∀ ctx, I ctx → I (f ctx)) (hQ : Q ()) : (modify f).Promises I E Q := by
  intro ctx h
  exact .done (hf ctx h) hQ

theorem promises_within {E' : Error → Prop} (n : Node) {act : Eval α} (hact : act.Promises I E Q)
    (hname : ∀ e ctx, E e → E' (nameNode n e ctx)) : (act.within n).Promises I E' Q := by
  intro ctx h
  unfold within recover
  dsimp only
  match act.run ctx, hact ctx h with
  | _, .done h' ha => exact .done h' ha
  | _, .failed h' he => exact .failed h' (hname _ _ he)
  | _, .halted h' => exact .halted h'

/-- What is caught is a value or an error of the kind that was promised, and then any other
kind of error can be. -/
theorem promises_attempt {E' : Error → Prop} {act : Eval α} (hact : act.Promises I E Q) :
    act.attempt.Promises I E' fun r => (∀ a, r = .ok a → Q a) ∧ ∀ e, r = .error e → E e := by
  intro ctx h
  unfold attempt
  dsimp only
  match act.run ctx, hact ctx h with
  | _, .done h' ha =>
    refine .done h' ⟨fun a h => ?_, fun e h => ?_⟩ <;> cases h
    exact ha
  | _, .failed h' he =>
    refine .done h' ⟨fun a h => ?_, fun e h => ?_⟩ <;> cases h
    exact he
  | _, .halted h' => exact .halted h'

theorem promises_push {f : Frame} {Q : Unit → Prop} (hopened : ∀ ctx, I ctx → I (ctx.opened f))
    (hfull : E (.because .stackOverflow)) (hQ : Q ()) : (push f).Promises I E Q := by
  intro ctx h
  unfold push Context.push
  dsimp only
  cases ctx.isFull with
  | true => exact .failed h hfull
  | false => exact .done (hopened ctx h) hQ

theorem promises_write {Q : Unit → Prop} (text : String)
    (hwrite : ∀ ctx, I ctx → I (ctx.write text)) (hbroken : ∀ reason, E (.external reason))
    (hQ : Q ()) : (write text).Promises I E Q :=
  promises_view_bind fun ctx _ => by
    cases ctx.output with
    | working => exact promises_modify hwrite hQ
    | broken reason => exact promises_fail (hbroken reason)

/-- A step that goes on whether a frame was opened or refused. -/
theorem promises_attempt_push {f : Frame} {next : Except Error Unit → Eval α}
    (hopened : ∀ ctx, I ctx → I (ctx.opened f)) (hok : (next (.ok ())).Promises I E Q)
    (hfull : (next (.error (.because .stackOverflow))).Promises I E Q) :
    ((push f).attempt >>= next).Promises I E Q := by
  have hpush : (push f).Promises I (fun e => e = .because .stackOverflow) fun _ => True :=
    promises_push hopened rfl trivial
  refine promises_bind (promises_attempt hpush) fun r hr => ?_
  cases r with
  | ok _ => exact hok
  | error e =>
    obtain rfl := hr.2 e rfl
    exact hfull

/-- A step that goes on whether a text was written or not. -/
theorem promises_attempt_write {text : String} {next : Except Error Unit → Eval α}
    (hwrite : ∀ ctx, I ctx → I (ctx.write text)) (hok : (next (.ok ())).Promises I E Q)
    (hbroken : ∀ reason, (next (.error (.external reason))).Promises I E Q) :
    ((write text).attempt >>= next).Promises I E Q := by
  have hact : (write text).Promises I (fun e => ∃ reason, e = .external reason) fun _ => True :=
    promises_write text hwrite (fun reason => ⟨reason, rfl⟩) trivial
  refine promises_bind (promises_attempt hact) fun r hr => ?_
  cases r with
  | ok _ => exact hok
  | error e =>
    obtain ⟨reason, rfl⟩ := hr.2 e rfl
    exact hbroken reason

/-- Opening the frame leads from one property to another, and closing it leads back. -/
theorem promises_inFrame {f : Frame} {act : Eval α} (hact : act.Promises J E Q)
    (hopened : ∀ ctx, I ctx → J (ctx.opened f)) (hpop : ∀ ctx, J ctx → I ctx.pop)
    (hfull : E (.because .stackOverflow)) : (inFrame f act).Promises I E Q := by
  intro ctx h
  cases hisFull : ctx.isFull with
  | true =>
    rw [run_inFrame_of_isFull f act hisFull]
    exact .failed h hfull
  | false =>
    rw [run_inFrame f act hisFull]
    match act.run (ctx.opened f), hact _ (hopened ctx h) with
    | _, .done h' ha => exact .done (hpop _ h') ha
    | _, .failed h' he => exact .failed (hpop _ h') he
    | _, .halted h' => exact .halted (hpop _ h')

end Eval

end IntLisp
