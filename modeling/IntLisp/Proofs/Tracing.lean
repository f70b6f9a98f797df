/-
  IntLisp.Proofs.Tracing
  ──────────────────────
  **TRACING ADDS TO THE LOG AND DOES NOTHING ELSE.**

  The same steps are taken twice, with tracing on and with tracing off.  Side
  by side the two contexts hold the same definitions, frames and output, and
  of what the first has logged the second has logged the entries that are not
  there because of tracing.  Every step keeps them so, also one that fails,
  halts or changes the options.

  Both runs begin with one log, which may hold a trace of earlier steps; only
  what is logged from there on is compared.
-/
import IntLisp.Proofs.Coupling
import IntLisp.Session
import Mathlib.Data.List.Forall2

namespace IntLisp

/-! ## §1. A context without its trace. -/

namespace Context

/-- The context with tracing on or off. -/
def tracing (ctx : Context) (on : Bool) : Context :=
  { ctx with tracer := if on then .active else .absent }

/-- The context with tracing off that has logged, behind `base`, what of `gained` is not
there because of tracing. -/
def silenced (ctx : Context) (base gained : Array Entry) : Context :=
  { ctx with tracer := .absent, log := base ++ gained.filter (!·.isTrace) }

/-- The context `off` is the context `on` without what was traced since `base` was logged. -/
structure Silences (base : Array Entry) (on off : Context) : Prop where
  active : on.tracer = .active
  eq_silenced : ∃ gained, on.log = base ++ gained ∧ off = on.silenced base gained

namespace Silences

variable {base : Array Entry} {on off : Context}

theorem refl (ctx : Context) : Silences ctx.log (ctx.tracing true) (ctx.tracing false) :=
  ⟨rfl, #[], by simp [tracing], by simp [tracing, silenced]⟩

/-- An entry is logged in both. -/
theorem record (h : Silences base on off) {e : Entry} (he : e.isTrace = false) :
    Silences base (on.record e) (off.record e) := by
  obtain ⟨hactive, gained, hlog, rfl⟩ := h
  refine ⟨hactive, gained.push e, ?_, ?_⟩
  · simp [Context.record, hlog]
  · simp [Context.record, silenced, he]

/-- An event is logged where tracing is on, and only there. -/
theorem trace (h : Silences base on off) (event₁ event₂ : Context → Event) :
    Silences base (on.trace event₁) (off.trace event₂) := by
  obtain ⟨hactive, gained, hlog, rfl⟩ := h
  have hon : on.trace event₁ = on.record (.trace (event₁ on)) := by
    unfold Context.trace
    rw [hactive]
    rfl
  rw [hon, show (on.silenced base gained).trace event₂ = on.silenced base gained from rfl]
  refine ⟨hactive, gained.push (.trace (event₁ on)), ?_, ?_⟩
  · simp [Context.record, hlog]
  · simp [Context.record, silenced, Entry.isTrace]

theorem register (h : Silences base on off) (d : Definition) :
    Silences base (on.register d) (off.register d) := by
  obtain ⟨hactive, gained, hlog, rfl⟩ := h
  have hnext : Silences base { on with registry := on.registry.register d }
      { on.silenced base gained with registry := on.registry.register d } :=
    ⟨hactive, gained, hlog, rfl⟩
  unfold Context.register
  show Silences base (if (on.registry.resolve d.symbol).isSome then _ else _)
    (if (on.registry.resolve d.symbol).isSome then _ else _)
  split
  · exact hnext.trace _ _
  · exact hnext

theorem opened (h : Silences base on off) (f : Frame) :
    Silences base (on.opened f) (off.opened f) := by
  obtain ⟨hactive, gained, hlog, rfl⟩ := h
  have hpushed : Silences base { on with stack := on.stack.push f }
      { on.silenced base gained with stack := on.stack.push f } :=
    ⟨hactive, gained, hlog, rfl⟩
  exact hpushed.trace _ _

theorem pop (h : Silences base on off) : Silences base on.pop off.pop := by
  obtain ⟨hactive, gained, hlog, rfl⟩ := h
  unfold Context.pop
  rw [show (on.silenced base gained).stack = on.stack from rfl]
  cases on.stack.top? with
  | none => exact ⟨hactive, gained, hlog, rfl⟩
  | some f =>
    have hpopped : Silences base { on with stack := on.stack.pop }
        { on.silenced base gained with stack := on.stack.pop } :=
      ⟨hactive, gained, hlog, rfl⟩
    exact hpopped.trace _ _

/-- Tracing stays on in the one and off in the other, whatever else the options say. -/
theorem setOptions (h : Silences base on off) (o : Options) :
    Silences base (on.setOptions { o with debug := true })
      (off.setOptions { o with debug := false }) := by
  obtain ⟨-, gained, hlog, rfl⟩ := h
  exact ⟨rfl, gained, hlog, rfl⟩

end Silences

end Context

/-! ## §2. Evaluations side by side. -/

open Context

/-- The coupling of a context with tracing on with the same context without its trace. -/
def Coupling.traced (base : Array Entry) : Coupling where
  rel := Silences base
  excuses _ := False
  halts _ := True
  misuse := trivial
  lookup_eq := by
    intro c₁ c₂ h name
    obtain ⟨-, gained, -, rfl⟩ := h
    rfl
  resolve_eq := by
    intro c₁ c₂ h name
    obtain ⟨-, gained, -, rfl⟩ := h
    rfl
  depth_eq := by
    intro c₁ c₂ h
    obtain ⟨-, gained, -, rfl⟩ := h
    rfl
  output_eq := by
    intro c₁ c₂ h
    obtain ⟨-, gained, -, rfl⟩ := h
    rfl
  trace h event := h.trace _ _
  write := by
    intro c₁ c₂ h text
    obtain ⟨hactive, gained, hlog, rfl⟩ := h
    exact ⟨hactive, gained, hlog, rfl⟩
  define h symbol params body := h.register _
  excuses_named := @never_named

theorem Context.Silences.isFull_eq {base : Array Entry} {on off : Context}
    (h : Silences base on off) : on.isFull = off.isFull := by
  obtain ⟨-, gained, -, rfl⟩ := h
  rfl

theorem Coupling.traced_serves (base : Array Entry) : (traced base).Serves .any where
  excuses _ he := he
  halts _ := trivial
  within _ := Registry.within_any _
  register h d _ := h.register d
  record h _ he := h.record he
  frame_eq := by
    intro _ c₁ c₂ h level
    obtain ⟨-, gained, -, rfl⟩ := h
    rfl
  bind := by
    intro _ c₁ c₂ h level name v
    obtain ⟨hactive, gained, hlog, rfl⟩ := h
    exact ⟨hactive, gained, hlog, rfl⟩
  isFull_eq := fun _ _ _ h => h.isFull_eq
  opened := fun _ _ _ h f => h.opened f
  top_eq := by
    intro _ c₁ c₂ h
    obtain ⟨-, gained, -, rfl⟩ := h
    rfl
  pop := fun _ _ _ h => h.pop

/-- No evaluation sees whether it is traced. -/
def Couplings.traced (base : Array Entry) : Couplings .any Unit :=
  (Coupling.traced_serves base).couplings fun h => by
    obtain ⟨-, gained, -, rfl⟩ := h
    rfl

/-! ## §3. Sessions side by side. -/

/-- The step, with tracing kept on or off where it changes the options. -/
def Step.tracing (on : Bool) : Step → Step
  | configure options => configure { options with debug := on }
  | s => s

section

open Coupling

variable {base : Array Entry}

/-- **A step ends alike with tracing on and with tracing off.** -/
theorem Step.matches_perform (base : Array Entry) (s : Step) :
    (Coupling.traced base).Matches (s.tracing true).perform (s.tracing false).perform := by
  have hview : ∀ {α : Type} (f : Context → α) (answer : α → Answer),
      (∀ {c₁ c₂ : Context}, Silences base c₁ c₂ → f c₁ = f c₂) →
      (Coupling.traced base).Matches (answer <$> Eval.view f) (answer <$> Eval.view f) :=
    fun f answer hf => matches_view_bind hf fun _ => matches_pure _
  have hregister : ∀ d : Definition, (Coupling.traced base).Matches
      (Eval.modify (·.register d)) (Eval.modify (·.register d)) :=
    fun d => matches_modify fun h => h.register d
  have hserves := Coupling.traced_serves base
  cases s with
  | evaluate src => exact matches_map _ ((Couplings.traced base).matches_source_eval () src)
  | evaluateAll src =>
    exact matches_bind (matches_ofExcept _) fun root =>
      matches_map _ ((Couplings.traced base).matches_eval () root)
  | evaluateNode n => exact matches_map _ ((Couplings.traced base).matches_eval () n)
  | run input => exact matches_map _ ((Couplings.traced base).matches_run () input)
  | configure options =>
    intro c₁ c₂ h
    exact .done _ (h.setOptions options)
  | register d => exact matches_bind (hregister d) fun _ => matches_pure _
  | define symbol params body =>
    exact matches_bind (matches_ofExcept _) fun node =>
      matches_bind (hregister _) fun _ => matches_pure _
  | push f => exact matches_bind (matches_push trivial hserves f) fun _ => matches_pure _
  | pop =>
    refine matches_view_bind (hserves.top_eq trivial) fun _ => ?_
    exact matches_bind (matches_modify fun h => h.pop) fun _ => matches_pure _
  | top => exact hview _ _ (hserves.top_eq trivial)
  | lookup name => exact hview _ _ fun h => (Coupling.traced base).lookup_eq h name
  | resolve symbol => exact hview _ _ fun h => (Coupling.traced base).resolve_eq h symbol
  | symbols =>
    refine hview _ _ fun h => ?_
    obtain ⟨-, gained, -, rfl⟩ := h
    rfl

/-- Outcomes that agree are the same, and so are their contexts but for the trace. -/
theorem Coupling.eq_of_agree_traced {α : Type} {on off : Outcome α}
    (h : (Coupling.traced base).Agree on off) :
    Silences base on.context off.context
      ∧ ∃ gained, on.context.log = base ++ gained
        ∧ off = on.mapContext (·.silenced base gained) := by
  cases h with
  | done a h =>
    obtain ⟨hactive, gained, hlog, rfl⟩ := h
    exact ⟨⟨hactive, gained, hlog, rfl⟩, gained, hlog, rfl⟩
  | failed e h =>
    obtain ⟨hactive, gained, hlog, rfl⟩ := h
    exact ⟨⟨hactive, gained, hlog, rfl⟩, gained, hlog, rfl⟩
  | halted why hw h =>
    obtain ⟨hactive, gained, hlog, rfl⟩ := h
    exact ⟨⟨hactive, gained, hlog, rfl⟩, gained, hlog, rfl⟩
  | excused e c o he => exact he.elim

/-- **Steps in a row keep the two contexts side by side.** -/
theorem Context.Silences.play {on off : Context} (h : Silences base on off) (steps : List Step) :
    List.Forall₂
      (fun on off : Outcome Answer => ∃ gained, on.context.log = base ++ gained
        ∧ off = on.mapContext (·.silenced base gained))
      (on.play (steps.map (Step.tracing true))) (off.play (steps.map (Step.tracing false))) := by
  induction steps generalizing on off with
  | nil => exact .nil
  | cons s steps ih =>
    obtain ⟨hcontext, hoff⟩ := eq_of_agree_traced (s.matches_perform base on off h)
    exact .cons hoff (ih hcontext)

end

/-- **Tracing is transparent.**  Steps that are taken from any context with tracing on and
with tracing off end alike, one by one: with the same answer or error, and in contexts that
hold the same but for the tracer and the log.  What was logged up to then with tracing off
is what was logged with tracing on, less the trace. -/
theorem tracing_transparent (ctx : Context) (steps : List Step) :
    List.Forall₂
      (fun on off : Outcome Answer => ∃ gained : Array Entry, on.context.log = ctx.log ++ gained
        ∧ off = on.mapContext fun c =>
          { c with tracer := .absent, log := ctx.log ++ gained.filter (!·.isTrace) })
      ((ctx.tracing true).play (steps.map (Step.tracing true)))
      ((ctx.tracing false).play (steps.map (Step.tracing false))) :=
  (Silences.refl ctx).play steps

end IntLisp
