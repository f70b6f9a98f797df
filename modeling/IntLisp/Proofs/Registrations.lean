/-
  IntLisp.Proofs.Registrations
  ────────────────────────────
  **WHAT IS IN FORCE WAS REGISTERED LAST.**

  Definitions are made at any depth of an evaluation, and stay when it fails
  later on.  The chronicle has them all, in order, and the registry is what
  they make of the one before:

      (step.perform.run ctx).context.registry
        = (registrations (step.chronicle ctx)).foldl Registry.register ctx.registry

  The rest is about registrations in a row: they keep the names in the order
  of their bytes, lose none, and the last one of a name decides.
-/
import IntLisp.Session
import IntLisp.Proofs.Chronicle

namespace IntLisp

/-! ## §1. The order of names. -/

namespace Text

theorem bytes_inj {a b : String} (h : bytes a = bytes b) : a = b :=
  String.toByteArray_inj.1 (ByteArray.ext (Array.toList_inj.1 h))

theorem precedes_trans {a b c : String} (h : precedes a b = true) (h' : precedes b c = true) :
    precedes a c = true :=
  decide_eq_true (List.lt_trans (of_decide_eq_true h) (of_decide_eq_true h'))

/-- Of two texts, one comes before the other. -/
theorem precedes_of_not {a b : String} (hne : a ≠ b) (h : ¬ precedes a b = true) :
    precedes b a = true := by
  have hle : bytes b ≤ bytes a := List.not_lt.1 fun hlt => h (decide_eq_true hlt)
  exact decide_eq_true (Std.lt_of_le_of_ne hle fun he => hne (bytes_inj he.symm))

end Text

namespace Registry

variable {r : Registry} {d : Definition}

/-- The definitions stand in the order of their names, no two with the same name. -/
def IsOrdered (r : Registry) : Prop :=
  r.definitions.Pairwise fun d e => Text.precedes d.symbol e.symbol = true

theorem pairwise_place {ds : List Definition}
    (h : ds.Pairwise fun d e => Text.precedes d.symbol e.symbol = true) :
    (place d ds).Pairwise fun d e => Text.precedes d.symbol e.symbol = true := by
  induction ds with
  | nil => exact List.pairwise_singleton _ d
  | cons e es ih =>
    obtain ⟨he, hes⟩ := List.pairwise_cons.1 h
    unfold place
    split
    · next hsymbol => exact List.pairwise_cons.2 ⟨fun c hc => hsymbol ▸ he c hc, hes⟩
    · next hsymbol =>
      split
      · next hbefore =>
        refine List.pairwise_cons.2 ⟨fun c hc => ?_, h⟩
        rcases List.mem_cons.1 hc with rfl | hc
        · exact hbefore
        · exact Text.precedes_trans hbefore (he c hc)
      · next hbefore =>
        -- what is placed behind `e` has its name behind that of `e`
        refine List.pairwise_cons.2 ⟨fun c hc => ?_, ih hes⟩
        rcases mem_place hc with rfl | hc
        · exact Text.precedes_of_not hsymbol hbefore
        · exact he c hc

theorem isOrdered_foldl_register (ds : List Definition) (h : r.IsOrdered) :
    (ds.foldl register r).IsOrdered := by
  induction ds generalizing r with
  | nil => exact h
  | cons d ds ih => exact ih (pairwise_place h)

/-- The names that are listed are those that a definition is found for. -/
theorem mem_symbols_iff {s : String} : s ∈ r.symbols ↔ (r.resolve s).isSome = true := by
  unfold symbols resolve
  rw [List.find?_isSome, List.mem_map]
  simp

/-! ## §2. Registrations in a row. -/

/-- The last definition of a name. -/
def lastFor (s : String) (ds : List Definition) : Option Definition :=
  ds.reverse.find? fun d => d.symbol = s

theorem lastFor_append (s : String) (ds es : List Definition) :
    lastFor s (ds ++ es) = (lastFor s es).or (lastFor s ds) := by
  rw [lastFor, List.reverse_append, List.find?_append]
  rfl

/-- The last registration of a name decides, and where there is none, what was in force. -/
theorem resolve_foldl_register (ds : List Definition) (r : Registry) (s : String) :
    (ds.foldl register r).resolve s = (lastFor s ds).or (r.resolve s) := by
  induction ds generalizing r with
  | nil => rfl
  | cons d ds ih =>
    rw [List.foldl_cons, ih, resolve_register, ← List.singleton_append, lastFor_append,
      Option.or_assoc]
    congr 1
    by_cases h : d.symbol = s <;> simp [lastFor, h]

/-- What the registry is after the registrations `ds`, from none on. -/
structure Follows (r : Registry) (ds : List Definition) : Prop where
  named : ∀ s d, r.resolve s = some d → d.symbol = s
  increasing : r.symbols.Pairwise fun a b => Text.precedes a b = true
  listed : ∀ s, s ∈ r.symbols ↔ (r.resolve s).isSome = true
  last : ∀ s, r.resolve s = lastFor s ds

theorem follows_foldl_register (ds : List Definition) : (ds.foldl register empty).Follows ds where
  named _ _ := symbol_of_resolve
  increasing := List.pairwise_map.2 (isOrdered_foldl_register ds List.Pairwise.nil)
  listed _ := mem_symbols_iff
  last s := by
    rw [resolve_foldl_register]
    exact Option.or_none

end Registry

/-! ## §3. The registrations in a story. -/

/-- The definition that is put in force, if one is. -/
def Deed.registered? : Deed → Option Definition
  | define d | register d => some d
  | _ => none

/-- The definitions that are put in force, in order. -/
def registrations (story : List Deed) : List Definition := story.filterMap Deed.registered?

theorem registrations_append (past story : List Deed) :
    registrations (past ++ story) = registrations past ++ registrations story :=
  List.filterMap_append

theorem mem_registrations {story : List Deed} {d : Definition} :
    d ∈ registrations story ↔ .define d ∈ story ∨ .register d ∈ story := by
  unfold registrations
  rw [List.mem_filterMap]
  constructor
  · rintro ⟨deed, hdeed, h⟩
    cases deed with
    | define e => cases h; exact .inl hdeed
    | register e => cases h; exact .inr hdeed
    | visit _ _ | dispatch _ _ | invoke _ _ | apply _ _ => cases h
  · rintro (h | h)
    · exact ⟨_, h, rfl⟩
    · exact ⟨_, h, rfl⟩

theorem registrations_concat {past : List Deed} {deed : Deed} (h : deed.registered? = none) :
    registrations (past ++ [deed]) = registrations past := by
  have hnone : registrations [deed] = [] := List.filterMap_cons_none h
  rw [registrations_append, hnone, List.append_nil]

theorem registrations_concat_some {past : List Deed} {deed : Deed} {d : Definition}
    (h : deed.registered? = some d) : registrations (past ++ [deed]) = registrations past ++ [d] := by
  have hsome : registrations [deed] = [d] := List.filterMap_cons_some h
  rw [registrations_append, hsome]

/-- The registry is what the registrations so far made of `r₀`. -/
def Watch.ledger (r₀ : Registry) : Watch Standard.any where
  holds past ctx := ctx.registry = (registrations past).foldl Registry.register r₀
  found _ _ _ _ := trivial
  trace h event := by rwa [Context.registry_trace]
  write h _ := h
  bind h _ _ _ := h
  opened h _ f := by rwa [Context.registry_opened]
  pop h := by rwa [Context.registry_pop]
  visit h _ := by rwa [registrations_concat rfl]
  dispatch h _ _ _ := by rwa [registrations_concat rfl]
  invoke h _ _ := by rwa [registrations_concat rfl]
  apply h _ _ _ := by rwa [registrations_concat rfl]
  define h _ := by
    rw [Context.registry_register, registrations_concat_some rfl, List.foldl_concat, h]
  register h _ := by
    rw [Context.registry_register, registrations_concat_some rfl, List.foldl_concat, h]

open Chronicle

/-! ## §4. Steps of a session. -/

/-- What happens in a step. -/
def Step.chronicle : Step → Chronicle
  | evaluate src => src.chronicle
  | evaluateAll src =>
    match src.parse with
    | .ok root => root.chronicle
    | .error _ => nothing
  | evaluateNode n => n.chronicle
  | run input => input.chronicle
  | register d => led (fun _ => .register d) nothing
  | define symbol params body =>
    match body.parseStatement with
    | .ok node => led (fun _ => .register (.user symbol params node)) nothing
    | .error _ => nothing
  | _ => nothing

namespace Watch

theorem tells_register (r₀ : Registry) (d : Definition) :
    (ledger r₀).Tells (fun _ => True) (Eval.modify (·.register d))
      (led (fun _ => .register d) nothing) := by
  intro past ctx h
  exact ⟨⟨(ledger r₀).register h.holds trivial, Stack.holds_any _⟩, fun _ _ _ => trivial, nofun⟩

/-- **The chronicle of a step has all its registrations.** -/
theorem tells_perform (r₀ : Registry) (s : Step) :
    (ledger r₀).Tells (fun _ => True) s.perform s.chronicle := by
  have hview : ∀ {α : Type} (f : Context → α),
      (ledger r₀).Tells (fun _ => True) (Eval.view f) nothing := fun f =>
    tells_nothing (fun _ _ h => h) (fun _ _ _ _ _ _ => trivial) (by simp)
  have hdone : ∀ answer : Answer,
      (ledger r₀).Tells (fun _ => True) (pure answer : Eval Answer) nothing := fun _ =>
    tells_pure trivial
  cases s with
  | evaluate src => exact tells_map (tells_source src fun _ _ => trivial) fun _ _ => trivial
  | evaluateAll src =>
    unfold Step.perform Step.chronicle
    dsimp only
    cases src.parse with
    | ok root => exact tells_map (tells_eval (n := root) trivial) fun _ _ => trivial
    | error e => exact tells_fail e
  | evaluateNode n => exact tells_map (tells_eval trivial) fun _ _ => trivial
  | run input =>
    exact tells_map (tells_run (fun _ _ _ => trivial) (fun _ _ _ h => h) input) fun _ _ => trivial
  | configure options =>
    exact tells_bind_nothing (tells_modify fun _ _ h => ⟨h.holds, h.stack⟩) fun _ _ => hdone _
  | register d => exact tells_bind_nothing (tells_register r₀ d) fun _ _ => hdone _
  | define symbol params body =>
    unfold Step.perform Step.chronicle
    dsimp only
    cases body.parseStatement with
    | ok node =>
      have h := tells_bind_nothing (tells_register r₀ (.user symbol params node))
        fun _ _ => hdone Answer.done
      exact h
    | error e => exact tells_fail e
  | push f => exact tells_bind_nothing (tells_push fun _ _ => trivial) fun _ _ => hdone _
  | pop =>
    refine tells_bind_nothing (hview _) fun f _ => ?_
    exact tells_bind_nothing (tells_modify fun _ _ h => h.pop) fun _ _ => hdone _
  | top => exact tells_map (hview _) fun _ _ => trivial
  | lookup name => exact tells_map (hview _) fun _ _ => trivial
  | resolve symbol => exact tells_map (hview _) fun _ _ => trivial
  | symbols => exact tells_map (hview _) fun _ _ => trivial

end Watch

/-- **The registrations of a step, in order, make the registry that it leaves**, however it
ends. -/
theorem Step.registry_perform (s : Step) (ctx : Context) :
    (s.perform.run ctx).context.registry
      = (registrations (s.chronicle ctx)).foldl Registry.register ctx.registry :=
  (Watch.tells_perform ctx.registry s [] ctx ⟨rfl, ctx.stack.holds_any⟩).stands.holds

/-! ## §5. Sessions. -/

namespace Context

/-- The context that a list of steps leaves behind. -/
def after (ctx : Context) (steps : List Step) : Context :=
  ((ctx.play steps).getLast?.map Outcome.context).getD ctx

/-- What happens in a list of steps, each taken after the one before it. -/
def chronicle : Context → List Step → List Deed
  | _, [] => []
  | ctx, s :: ss => s.chronicle ctx ++ (s.perform.run ctx).context.chronicle ss

theorem after_cons (ctx : Context) (s : Step) (ss : List Step) :
    ctx.after (s :: ss) = (s.perform.run ctx).context.after ss := by
  unfold after
  rw [play, List.getLast?_cons]
  cases ((s.perform.run ctx).context.play ss).getLast? <;> rfl

/-- The registrations of a session, in order, make the registry that it leaves. -/
theorem registry_after (ctx : Context) (steps : List Step) :
    (ctx.after steps).registry
      = (registrations (ctx.chronicle steps)).foldl Registry.register ctx.registry := by
  induction steps generalizing ctx with
  | nil => rfl
  | cons s ss ih =>
    rw [after_cons, ih, s.registry_perform, chronicle, registrations_append, List.foldl_append]

end Context

/-- How a registry develops while all in the story happens. -/
structure Registry.Develops (r r' : Registry) (story : List Deed) : Prop where
  grows : ∀ s ∈ r.symbols, s ∈ r'.symbols
  /-- A name stands for something else only if the story has a registration of it. -/
  changes : ∀ s, r'.resolve s ≠ r.resolve s →
    ∃ d, r'.resolve s = some d ∧ d.symbol = s ∧ (.define d ∈ story ∨ .register d ∈ story)

theorem Registry.develops_foldl_register (r : Registry) (story : List Deed) :
    r.Develops ((registrations story).foldl register r) story where
  grows s hs := by
    rw [mem_symbols_iff] at hs ⊢
    rw [resolve_foldl_register, Option.isSome_or, hs, Bool.or_true]
  changes s hs := by
    rw [resolve_foldl_register] at hs ⊢
    cases hlast : lastFor s (registrations story) with
    | none =>
      rw [hlast] at hs
      exact absurd (Option.none_or) hs
    | some d =>
      have hd : d ∈ registrations story := List.mem_reverse.1 (List.mem_of_find?_eq_some hlast)
      have hsymbol : d.symbol = s := by simpa using List.find?_some hlast
      exact ⟨d, Option.some_or, hsymbol, mem_registrations.1 hd⟩

/-- **The registry over a whole session**: whatever the steps were and however they ended, it
lists in order what it finds, what it finds was registered last, the core's names stay, and a
further step changes what a name stands for only by registering it. -/
theorem Context.registry_session (steps : List Step) :
    let ctx := Context.new.after steps
    ctx.registry.Follows
        (Registry.coreDefinitions ++ registrations (Context.new.chronicle steps))
      ∧ (∀ s ∈ ["+", "print", "defun", "let"], s ∈ ctx.registry.symbols)
      ∧ ∀ step : Step,
        ctx.registry.Develops (step.perform.run ctx).context.registry (step.chronicle ctx) := by
  intro ctx
  have hregistry : ctx.registry
      = (Registry.coreDefinitions ++ registrations (Context.new.chronicle steps)).foldl
          Registry.register .empty := by
    rw [List.foldl_append]
    exact registry_after Context.new steps
  have hfollows := Registry.follows_foldl_register
    (Registry.coreDefinitions ++ registrations (Context.new.chronicle steps))
  rw [← hregistry] at hfollows
  refine ⟨hfollows, fun s hs => ?_, fun step => ?_⟩
  · have hcore : (Registry.lastFor s Registry.coreDefinitions).isSome = true := by
      revert s
      decide
    rw [hfollows.listed, hfollows.last, Registry.lastFor_append, Option.isSome_or, hcore,
      Bool.or_true]
  · rw [step.registry_perform]
    exact Registry.develops_foldl_register ctx.registry _

end IntLisp
