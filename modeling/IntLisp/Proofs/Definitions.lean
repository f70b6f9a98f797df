/-
  IntLisp.Proofs.Definitions
  ──────────────────────────
  **WHAT A DEFINITION DEFINES, AND HOW IT IS CALLED.**

  The operands of a definition describe a function if the first is a name
  and the second a list of distinct names; the third is the body, whatever it
  is.  Then the function is put in force, and nothing else happens.
  Otherwise there is a first node at fault, and nothing happens at all: all
  is read before anything is done.

  The function that was put in force is found by its name, and is called
  with as many values as it has names for them:

      (x, v) ∈ params.zip args  →  x is seen as v in the body,

  and no other name is visible there.
-/
import IntLisp.Proofs.Bindings
import IntLisp.Proofs.Overflow
import IntLisp.Proofs.Stack

namespace IntLisp

open Eval

/-! ## §1. Operands that describe a function. -/

namespace Node

variable {symbol f title note : String} {a b c culprit : Node} {params ps : List String}
  {ns before rest : List Node}

/-- The nodes `a` and `b` are the name of a function and the list of its parameters. -/
structure Describes (a b : Node) (f : String) (params : List String) : Prop where
  name : a.symbol? = some f
  list : ∃ token ns, b = .expression token ns ∧ ns.mapM symbol? = some params
  distinct : params.Nodup

/-- The nodes `a` and `b` describe no function: `culprit` is the first node at fault. -/
inductive Misdescribes (symbol : String) (a b : Node) : Node → String → Prop where
  /-- The function has no name. -/
  | name (ha : a.symbol? = none) :
      Misdescribes symbol a b a (symbol ++ ": function name must be a symbol, got " ++ a.encode)
  /-- There is no list of parameters. -/
  | list {f : String} (ha : a.symbol? = some f) (hb : b.isExpression = false) :
      Misdescribes symbol a b b
        (symbol ++ " " ++ f ++ ": parameters must be a list, got " ++ b.encode)
  /-- A parameter behind others is no name. -/
  | param {f : String} {token : Option Token} {before after : List Node} {n : Node}
      {ps : List String} (ha : a.symbol? = some f)
      (hb : b = .expression token (before ++ n :: after)) (hps : before.mapM symbol? = some ps)
      (hdistinct : ps.Nodup) (hn : n.symbol? = none) :
      Misdescribes symbol a b n
        (symbol ++ " " ++ f ++ ": parameter must be a symbol, got " ++ n.encode)
  /-- A parameter has the name of one in front of it. -/
  | again {f x : String} {token : Option Token} {before after : List Node} {n : Node}
      {ps : List String} (ha : a.symbol? = some f)
      (hb : b = .expression token (before ++ n :: after)) (hps : before.mapM symbol? = some ps)
      (hdistinct : ps.Nodup) (hn : n.symbol? = some x) (hx : x ∈ ps) :
      Misdescribes symbol a b n (symbol ++ " " ++ f ++ ": duplicate parameter " ++ Text.quote x)

theorem mapM_symbol?_cons {n : Node} (h : (n :: ns).mapM symbol? = some ps) :
    ∃ x xs, n.symbol? = some x ∧ ns.mapM symbol? = some xs ∧ ps = x :: xs := by
  rw [List.mapM_cons] at h
  cases hn : n.symbol? with
  | none => rw [hn] at h; cases h
  | some x =>
    cases hns : ns.mapM symbol? with
    | none => rw [hn, hns] at h; cases h
    | some xs =>
      rw [hn, hns] at h
      cases h
      exact ⟨x, xs, rfl, rfl, rfl⟩

/-- Distinct names are read one after the other. -/
theorem paramNames_append (seen : List String) (hps : before.mapM symbol? = some ps)
    (hdistinct : (seen.reverse ++ ps).Nodup) :
    paramNames title seen (before ++ rest) = paramNames title (ps.reverse ++ seen) rest := by
  induction before generalizing seen ps with
  | nil =>
    cases hps
    rfl
  | cons n before ih =>
    obtain ⟨x, xs, hx, hxs, rfl⟩ := mapM_symbol?_cons hps
    have hnot : x ∉ seen := by
      intro hmem
      exact (List.disjoint_of_nodup_append hdistinct) (List.mem_reverse.2 hmem) (.head _)
    have hnext : ((x :: seen).reverse ++ xs).Nodup := by
      rwa [List.reverse_cons, List.append_assoc]
    rw [List.cons_append, paramNames, hx]
    dsimp only
    rw [if_neg hnot, ih (x :: seen) hxs hnext, List.reverse_cons, List.append_assoc]
    rfl

/-- **What is described is defined.** -/
theorem Describes.definition_eq (h : Describes a b f params) (symbol : String) (c : Node) :
    Node.definition symbol a b c = .ok (.user f params c) := by
  obtain ⟨hname, ⟨token, ns, rfl, hns⟩, hdistinct⟩ := h
  have hread : paramNames (symbol ++ " " ++ f) [] ns = .ok params := by
    have happend : paramNames (symbol ++ " " ++ f) [] (ns ++ [])
        = paramNames (symbol ++ " " ++ f) (params.reverse ++ []) [] :=
      paramNames_append [] hns hdistinct
    rw [List.append_nil, List.append_nil] at happend
    rw [happend, paramNames, List.reverse_reverse]
  rw [Node.definition, hname]
  dsimp only
  rw [hread]
  rfl

/-- **The first fault is reported.** -/
theorem Misdescribes.definition_eq (h : Misdescribes symbol a b culprit note) (c : Node) :
    Node.definition symbol a b c = .error (culprit.malformed note) := by
  cases h with
  | name ha => rw [Node.definition, ha]
  | list ha hb =>
    rw [Node.definition, ha]
    cases b with
    | expression _ _ => cases hb
    | int _ _ | symbol _ _ | list _ _ | foreign _ _ _ => rfl
  | param ha hb hps hdistinct hn =>
    subst hb
    rw [Node.definition, ha]
    dsimp only
    rw [paramNames_append [] hps hdistinct, paramNames, hn]
    rfl
  | again ha hb hps hdistinct hn hx =>
    subst hb
    rw [Node.definition, ha]
    dsimp only
    rw [paramNames_append [] hps hdistinct, paramNames, hn]
    dsimp only
    rw [if_pos (by simpa using hx)]
    rfl

/-- **A function is described, or there is a first fault.** -/
theorem describes_or_misdescribes (symbol : String) (a b : Node) :
    (∃ f params, Describes a b f params)
      ∨ ∃ culprit note, Misdescribes symbol a b culprit note := by
  cases ha : a.symbol? with
  | none => exact .inr ⟨a, _, .name ha⟩
  | some f =>
    cases b with
    | expression token ns =>
      rcases holds_or_broken (P := fun ns => ∃ ps, ns.mapM symbol? = some ps ∧ ps.Nodup)
          ⟨[], rfl, List.nodup_nil⟩ ns with
        ⟨ps, hps, hdistinct⟩ | ⟨before, n, after, rfl, ⟨ps, hps, hdistinct⟩, hbroken⟩
      · exact .inl ⟨f, ps, ha, ⟨token, ns, rfl, hps⟩, hdistinct⟩
      · cases hn : n.symbol? with
        | none => exact .inr ⟨n, _, .param ha rfl hps hdistinct hn⟩
        | some x =>
          by_cases hx : x ∈ ps
          · exact .inr ⟨n, _, .again ha rfl hps hdistinct hn hx⟩
          · -- one more name that is not there yet is no fault
            refine absurd ⟨ps ++ [x], ?_, ?_⟩ hbroken
            · rw [List.mapM_append, hps, List.mapM_cons, hn]
              rfl
            · rw [List.nodup_append_comm]
              exact List.nodup_cons.2 ⟨hx, hdistinct⟩
    | int _ _ | symbol _ _ | list _ _ | foreign _ _ _ => exact .inr ⟨_, _, .list ha rfl⟩

end Node

/-! ## §2. Definitions that are evaluated. -/

theorem Context.withoutLog_register_eq (ctx : Context) (d : Definition) :
    (ctx.register d).withoutLog
      = { ctx with registry := ctx.registry.register d }.withoutLog := by
  unfold register
  dsimp only
  split
  · rw [withoutLog_trace]
  · rfl

/-- The evaluation of `n` puts the function `f` in force, and does nothing else. -/
structure Defines (n : Node) (ctx : Context) (f : String) (params : List String) (body : Node)
    (ctx' : Context) : Prop where
  run_eq : n.eval.run ctx = .done .nil ctx'
  found : ctx'.registry.resolve f = some (.user f params body)
  others : ∀ g, g ≠ f → ctx'.registry.resolve g = ctx.registry.resolve g
  printed_eq : ctx'.printed = ctx.printed
  stack_eq : ctx'.stack = ctx.stack

/-- The evaluation of `n` fails for the node `culprit`, and does nothing else. -/
structure Refuses (n : Node) (ctx : Context) (culprit : Node) (note : String) (ctx' : Context) :
    Prop where
  run_eq : n.eval.run ctx = .failed
    (.evaluating n.encode ctx.depth (.located culprit.pos (.because .malformed) note)) ctx'
  unchanged : ctx'.withoutLog = ctx.withoutLog

section

variable {n a b c culprit : Node} {ctx : Context} {f note : String} {params : List String}
  (hdefun : ctx.registry.resolve "defun" = some (.form "defun" ⟨3, 3⟩ .define))
  (hn : (Moment.ofNode n ctx).Calls "defun" [a, b, c])

include hdefun in
theorem run_defun (n a b c : Node) :
    (Coupling.behindHead (Moment.ofNode n ctx).engine "defun" [a, b, c]).run
        ((Moment.ofNode n ctx).begun "defun")
      = (Eval.define "defun" [a, b, c]).run ((Moment.ofNode n ctx).begun "defun") := by
  have hfound : (Moment.ofNode n ctx).ctx.registry.resolve "defun"
    = some (.form "defun" ⟨3, 3⟩ .define) := hdefun
  have haccepts : (⟨3, 3⟩ : Arity).accepts [a, b, c].length = true := rfl
  rw [Moment.run_form hfound, if_pos haccepts]

include hdefun hn

/-- **A function that is described is put in force.** -/
theorem Node.Describes.defines (h : Describes a b f params) :
    ∃ ctx', Defines n ctx f params c ctx' := by
  set begun : Context := (Moment.ofNode n ctx).begun "defun"
  have hregistry : begun.registry = ctx.registry := (Moment.ofNode n ctx).registry_begun "defun"
  refine ⟨begun.register (.user f params c), ?_, ?_, fun g hg => ?_, ?_, ?_⟩
  · rw [hn.run_eval]
    refine run_within_of_done ?_
    rw [run_defun hdefun, Eval.run_define, h.definition_eq]
  · rw [Context.registry_register, Registry.resolve_register]
    exact if_pos rfl
  · have hne : (Definition.user f params c).symbol ≠ g := hg.symm
    rw [Context.registry_register, Registry.resolve_register, if_neg hne, hregistry]
  · have hbegun : begun.withoutLog = ctx.withoutLog := ctx.withoutLog_trace _
    show (begun.register (.user f params c)).withoutLog.printed = ctx.withoutLog.printed
    rw [begun.withoutLog_register_eq, ← hbegun]
    rfl
  · rw [Context.stack_register]
    exact ctx.stack_trace _

/-- **A fault is reported, and nothing is put in force.** -/
theorem Node.Misdescribes.refuses (h : Misdescribes "defun" a b culprit note) :
    ∃ ctx', Refuses n ctx culprit note ctx' := by
  have hbegun := (Moment.ofNode n ctx).sameFrames_begun "defun"
  refine ⟨(Moment.ofNode n ctx).begun "defun", ?_, ctx.withoutLog_trace _⟩
  have hdepth : ((Moment.ofNode n ctx).begun "defun").depth = ctx.depth := hbegun.depth_eq
  rw [← hdepth]
  refine hn.run_eval_failed ?_ rfl
  rw [run_defun hdefun, Eval.run_define, h.definition_eq]
  rfl

end

/-! ## §3. Calls. -/

/-- The frame of a call is the only one that is looked at. -/
theorem Context.lookup_opened_call {f : Frame} (hf : f.kind = .call) (ctx : Context) (x : String) :
    (ctx.opened f).lookup x = f.lookup x := by
  rw [lookup, stack_opened]
  show Frame.lookupVisible x (f :: ctx.stack.frames) = f.lookup x
  rw [Frame.lookupVisible, if_pos hf]
  cases f.lookup x <;> rfl

/-- The evaluation of `n` fails with `e`, under `depth` frames, and nothing that it begins does. -/
structure FailsItself (n : Node) (ctx : Context) (depth : Nat) (e : Error) : Prop where
  run_eq : ∃ ctx', n.eval.run ctx = .failed (.evaluating n.encode depth e) ctx'
  inside : ∀ m' e', (Moment.ofNode n ctx).Demands m' → ¬ m'.Fails e'

/-- The call is the evaluation `m'` of the body, in which each parameter has its value and no other
name has any. -/
structure RunsBody (call : Node) (ctx : Context) (params : List String) (args : List Value)
    (body : Node) (m' : Moment) : Prop where
  demanded : (Moment.ofNode call ctx).Demands m'
  node_eq : m'.node = body
  sees : ∀ x v, (x, v) ∈ params.zip args → m'.ctx.lookup x = some v
  hides : ∀ x, x ∉ params → m'.ctx.lookup x = none
  done : ∀ v c, m'.outcome = .done v c → call.eval.run ctx = .done v c.pop
  failed : ∀ e c, m'.outcome = .failed e c →
    call.eval.run ctx = .failed (nameNode call e c.pop) c.pop
  halted : ∀ why c, m'.outcome = .halted why c → call.eval.run ctx = .halted why c.pop

/-- How a call of the function `f` ends, once its operands have the values `args`, in `ctx'`. -/
structure CallEnds (call : Node) (ctx ctx' : Context) (f : String) (params : List String)
    (args : List Value) (body : Node) : Prop where
  /-- It fails for the number of values exactly if that is not the number of parameters. -/
  arity_iff : ∀ symbol arity got, FailsItself call ctx ctx'.depth (.arity symbol arity got)
    ↔ args.length ≠ params.length
      ∧ symbol = f ∧ arity = .exactly params.length ∧ got = args.length
  overflow : args.length = params.length → ctx'.isFull = true →
    FailsItself call ctx ctx'.depth (.because .stackOverflow)
  entered : args.length = params.length → ctx'.isFull = false →
    ∃ m', RunsBody call ctx params args body m'
  /-- If native code only looks at frames, the frames are the same all along. -/
  frames : ctx.registry.Within .looking →
    ctx.SameFrames ctx' ∧ (call.eval.run ctx).context.stack = ctx.stack

section

variable {call body : Node} {ctx ctx' : Context} {f : String} {params : List String}
  {operands : List Node} {args : List Value}
  (hfound : ctx.registry.resolve f = some (.user f params body))
  (hcalls : (Moment.ofNode call ctx).Calls f operands)
  (hargs : Evaluates (Moment.ofNode call ctx).engine operands
    ((Moment.ofNode call ctx).begun f) args ctx')

include hfound hcalls hargs

/-- Operands that have values do not fail, so if anything does, it is the body. -/
theorem enters_of_fails {m' : Moment} {e : Error} (h : (Moment.ofNode call ctx).Demands m')
    (hfails : m'.Fails e) :
    args.length = params.length ∧ (ctx'.trace fun _ => .applying f args).isFull = false := by
  have hfound : (Moment.ofNode call ctx).ctx.registry.resolve f
    = some (.user f params body) := hfound
  cases h with
  | item hnode _ => exact absurd hnode hcalls.ne_list
  | operand hcalls' _ hbefore =>
    obtain ⟨rfl, rfl⟩ := hcalls.unique hcalls'
    obtain ⟨c, hc⟩ := hfails
    exact absurd hc (hargs.not_failed hbefore)
  | body hcalls' hfound' hargs' hlen henters =>
    obtain ⟨rfl, rfl⟩ := hcalls.unique hcalls'
    rw [hfound] at hfound'
    cases hfound'
    obtain ⟨rfl, rfl⟩ := hargs.unique hargs'
    exact ⟨hlen, henters.free⟩
  | letValue hcalls' hlet | letBody hcalls' hlet =>
    exact absurd hlet (hcalls.not_isLet (.of_user hfound) hcalls')

theorem failsItself_of_length_ne (hlen : args.length ≠ params.length) :
    FailsItself call ctx ctx'.depth (.arity f (.exactly params.length) args.length) := by
  rw [← (Context.SameFrames.trace ctx' fun _ => .applying f args).depth_eq]
  refine ⟨⟨_, hcalls.run_eval_failed ?_ rfl⟩, fun m' e' hdemands hfails => ?_⟩
  · rw [Moment.run_user hfound hargs, Definition.invoke, if_neg hlen]
    rfl
  · exact hlen (enters_of_fails hfound hcalls hargs hdemands hfails).1

theorem failsItself_of_isFull (hlen : args.length = params.length)
    (hfull : ctx'.isFull = true) :
    FailsItself call ctx ctx'.depth (.because .stackOverflow) := by
  have hsame : ctx'.SameFrames (ctx'.trace fun _ => .applying f args) := .trace _ _
  have hfull := hsame.isFull_eq.trans hfull
  rw [← hsame.depth_eq]
  refine ⟨⟨_, hcalls.run_eval_failed ?_ rfl⟩, fun m' e' hdemands hfails => ?_⟩
  · rw [Moment.run_user hfound hargs, Definition.invoke, if_pos hlen, Moment.engine,
      enter_withRoom, run_inFrame_of_isFull _ _ hfull]
  · have hfree := (enters_of_fails hfound hcalls hargs hdemands hfails).2
    rw [hfull] at hfree
    cases hfree

/-- **A call with the right number of values is the evaluation of the body.** -/
theorem exists_runsBody (hdistinct : params.Nodup) (hlen : args.length = params.length)
    (hfree : ctx'.isFull = false) : ∃ m', RunsBody call ctx params args body m' := by
  have hasks : (Moment.ofNode call ctx).Asks
      ((Frame.empty .call f).bindAll (params.zip args)) body
      (ctx'.trace fun _ => .applying f args) := .call hcalls hfound hargs hlen
  have hsame : ctx'.SameFrames (ctx'.trace fun _ => .applying f args) := .trace _ _
  have hroom : 0 < (Moment.ofNode call ctx).room := ctx.room_pos
  obtain ⟨m', henters⟩ := Moment.exists_enters ((Frame.empty .call f).bindAll (params.zip args))
    body hroom (hsame.isFull_eq.trans hfree)
  have hrun : (Coupling.behindHead (Moment.ofNode call ctx).engine f operands).run
      ((Moment.ofNode call ctx).begun f) = m'.outcome.mapContext Context.pop := by
    rw [Moment.run_user hfound hargs, Definition.invoke, if_pos hlen, henters.run_enter]
  have hlookup : ∀ x, m'.ctx.lookup x
      = ((Frame.empty .call f).bindAll (params.zip args)).lookup x := by
    intro x
    rw [henters.ctx_eq, Context.lookup_opened_call (kind_bindAll _ _)]
  have hfst : (params.zip args).map Prod.fst = params := List.map_fst_zip (Nat.le_of_eq hlen.symm)
  refine ⟨m', hasks.demands henters, henters.node_eq, fun x v hx => ?_, fun x hx => ?_,
    fun v c hout => ?_, fun e c hout => ?_, fun why c hout => ?_⟩
  · rw [hlookup]
    exact Frame.lookup_bindAll_of_mem _ (by rwa [hfst]) hx
  · rw [hlookup, Frame.lookup_bindAll_of_not_mem _ (by rwa [hfst])]
    rfl
  · rw [hcalls.run_eval]
    exact run_within_of_done (by rw [hrun, hout]; rfl)
  · have hrun : (Coupling.behindHead (Moment.ofNode call ctx).engine f operands).run
        ((Moment.ofNode call ctx).begun f) = .failed e c.pop := by
      rw [hrun, hout]
      rfl
    rw [hcalls.run_eval, run_within_eq_failed.2 ⟨e, hrun, rfl⟩]
  · rw [hcalls.run_eval]
    unfold within recover
    dsimp only
    rw [hrun, hout]
    rfl

theorem callEnds_of_evaluates (hdistinct : params.Nodup) :
    CallEnds call ctx ctx' f params args body := by
  refine ⟨fun symbol arity got => ⟨fun h => ?_, ?_⟩, fun hlen hfull => ?_, fun hlen hfree => ?_,
    fun hcode => ⟨?_, ?_⟩⟩
  · obtain ⟨⟨c, hrun⟩, hinside⟩ := h
    by_cases hlen : args.length = params.length
    · cases hfull : ctx'.isFull with
      | true =>
        obtain ⟨c', hrun'⟩ := (failsItself_of_isFull hfound hcalls hargs hlen hfull).run_eq
        rw [hrun'] at hrun
        cases hrun
      | false =>
        obtain ⟨m', hbody⟩ := exists_runsBody hfound hcalls hargs hdistinct hlen hfull
        -- the body does not fail, and the call ends as the body does
        cases hout : m'.outcome with
        | done v c' => rw [hbody.done v c' hout] at hrun; cases hrun
        | failed e c' => exact absurd ⟨c', hout⟩ (hinside m' e hbody.demanded)
        | halted why c' => rw [hbody.halted why c' hout] at hrun; cases hrun
    · obtain ⟨c', hrun'⟩ := (failsItself_of_length_ne hfound hcalls hargs hlen).run_eq
      rw [hrun'] at hrun
      cases hrun
      exact ⟨hlen, rfl, rfl, rfl⟩
  · rintro ⟨hlen, rfl, rfl, rfl⟩
    exact failsItself_of_length_ne hfound hcalls hargs hlen
  · exact failsItself_of_isFull hfound hcalls hargs hlen hfull
  · exact exists_runsBody hfound hcalls hargs hdistinct hlen hfree
  · have hbegun := Moment.within_begun (m := Moment.ofNode call ctx) hcode f
    exact ((Moment.ofNode call ctx).sameFrames_begun f).trans
      (Moment.sameFrames_of_evaluates hbegun hargs)
  · exact stack_run_of_matches (fun s => Stack.survives_eq.couplings.matches_eval s call) hcode

end

/-! ## §4. Definitions, and calls of what they define. -/

/-- **A definition defines just what it describes.**  It succeeds exactly if its first operand is a
name and its second a list of distinct names.  Then that function is put in force with the third
operand for its body, and nothing else changes; and wherever it is in force, a call of it fails
for the number of its values exactly if that is not the number of its parameters, and otherwise
evaluates the body with each parameter seen as its own value, unless the limit is reached.  If the
definition does not succeed, it fails at the first node at fault, and nothing changes at all. -/
theorem defun_defines_exactly {n a b c : Node} {ctx : Context}
    (hdefun : ctx.registry.resolve "defun" = some (.form "defun" ⟨3, 3⟩ .define))
    (hn : (Moment.ofNode n ctx).Calls "defun" [a, b, c]) :
    ((∃ v ctx', n.eval.run ctx = .done v ctx') ↔ ∃ f params, a.Describes b f params)
      ∧ (∀ f params, a.Describes b f params → (∃ ctx', Defines n ctx f params c ctx')
        ∧ ∀ (call : Node) (later : Context) (operands : List Node) (args : List Value)
            (later' : Context), later.registry.resolve f = some (.user f params c) →
          (Moment.ofNode call later).Calls f operands →
          Evaluates (Moment.ofNode call later).engine operands
            ((Moment.ofNode call later).begun f) args later' →
          CallEnds call later later' f params args c)
      ∧ ((¬ ∃ f params, a.Describes b f params) →
        ∃ culprit note ctx', a.Misdescribes "defun" b culprit note
          ∧ Refuses n ctx culprit note ctx') := by
  have hrefuses : (¬ ∃ f params, a.Describes b f params) →
      ∃ culprit note ctx', a.Misdescribes "defun" b culprit note
        ∧ Refuses n ctx culprit note ctx' := by
    intro hnot
    rcases Node.describes_or_misdescribes "defun" a b with h | ⟨culprit, note, h⟩
    · exact absurd h hnot
    · obtain ⟨ctx', hctx'⟩ := h.refuses hdefun hn
      exact ⟨culprit, note, ctx', h, hctx'⟩
  refine ⟨⟨?_, ?_⟩, fun f params h => ⟨h.defines hdefun hn, ?_⟩, hrefuses⟩
  · rintro ⟨v, ctx', hrun⟩
    by_contra hnot
    obtain ⟨_, _, _, -, hrefused⟩ := hrefuses hnot
    rw [hrefused.run_eq] at hrun
    cases hrun
  · rintro ⟨f, params, h⟩
    obtain ⟨ctx', hctx'⟩ := h.defines hdefun hn
    exact ⟨_, _, hctx'.run_eq⟩
  · intro call later operands args later' hfound hcalls hargs
    exact callEnds_of_evaluates hfound hcalls hargs h.distinct

/-- A function of two parameters, a call of it, and one with the same parameter twice. -/
theorem defun_defines_exactly_twice :
    let x : Node := .symbol none "x"
    let y : Node := .symbol none "y"
    let f : Node := .symbol none "f"
    let sound : Node := .expression none [.symbol none "defun", f, .expression none [x, y], y]
    let faulty : Node := .expression none [.symbol none "defun", f, .expression none [x, x], y]
    let call : Node := .expression none [f, .int none 1, .int none 2]
    let later := Context.new.register (.user "f" ["x", "y"] y)
    Context.new.registry.resolve "defun" = some (.form "defun" ⟨3, 3⟩ .define)
      ∧ (∃ ctx', Defines sound Context.new "f" ["x", "y"] y ctx')
      ∧ (∃ later', CallEnds call later later' "f" ["x", "y"] [.int 1, .int 2] y)
      ∧ ∃ culprit note ctx', f.Misdescribes "defun" (.expression none [x, x]) culprit note
        ∧ Refuses faulty Context.new culprit note ctx' := by
  intro x y f sound faulty call later
  have hdefun : Context.new.registry.resolve "defun" = some (.form "defun" ⟨3, 3⟩ .define) := rfl
  have hsound : (Moment.ofNode sound Context.new).Calls "defun" [f, .expression none [x, y], y] :=
    ⟨none, .symbol none "defun", rfl, rfl⟩
  have hfaulty : (Moment.ofNode faulty Context.new).Calls "defun" [f, .expression none [x, x], y] :=
    ⟨none, .symbol none "defun", rfl, rfl⟩
  have hdescribes : f.Describes (.expression none [x, y]) "f" ["x", "y"] :=
    ⟨rfl, ⟨none, [x, y], rfl, rfl⟩, by decide⟩
  have hnot : ¬ ∃ g params, f.Describes (.expression none [x, x]) g params := by
    rintro ⟨g, params, -, ⟨token, ns, hb, hns⟩, hdistinct⟩
    obtain ⟨-, rfl⟩ := Node.expression.inj hb
    cases hns
    exact absurd hdistinct (by decide)
  have hfound : later.registry.resolve "f" = some (.user "f" ["x", "y"] y) := by
    rw [Context.registry_register, Registry.resolve_register]
    exact if_pos rfl
  have hcall : (Moment.ofNode call later).Calls "f" [.int none 1, .int none 2] :=
    ⟨none, f, rfl, rfl⟩
  have hargs : Evaluates (Moment.ofNode call later).engine [.int none 1, .int none 2]
      ((Moment.ofNode call later).begun "f") [.int 1, .int 2]
      ((Moment.ofNode call later).begun "f") := .cons rfl (.cons rfl (.nil _))
  obtain ⟨hdefines, hcalls⟩ := (defun_defines_exactly hdefun hsound).2.1 _ _ hdescribes
  refine ⟨hdefun, hdefines, ⟨_, hcalls call later _ _ _ hfound hcall hargs⟩, ?_⟩
  exact (defun_defines_exactly hdefun hfaulty).2.2 hnot

end IntLisp
