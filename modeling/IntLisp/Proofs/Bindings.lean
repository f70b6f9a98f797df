/-
  IntLisp.Proofs.Bindings
  ───────────────────────
  **THE BINDINGS OF A LET, AND THE FIRST THAT IS NOT WELL WRITTEN.**

  A `let` holds a list of pairs, each of a name and a value, and no name
  twice.  If that is what it holds, its frame is made by evaluating the
  values from left to right:

      evalBindings engine form frame pairs
        = (fun vs => frame.bindAll (xs.zip vs)) <$> evalAll engine es

  A binding is looked at when its turn comes, and not before.  So a `let` with
  one that is not well written evaluates the values in front of it, with all
  that they print and define, and fails only then; and if one of these values
  fails, the fault is not reported at all.
-/
import IntLisp.Proofs.Blame
import IntLisp.Proofs.Composition
import Mathlib.Data.List.Nodup

namespace IntLisp

open Eval

/-! ## §1. Frames of many names. -/

namespace Frame

theorem bindAll_cons (f : Frame) (p : String × Value) (pairs : List (String × Value)) :
    f.bindAll (p :: pairs) = (f.bind p.1 p.2).bindAll pairs := rfl

theorem lookup_bindAll_of_not_mem (f : Frame) {pairs : List (String × Value)} {x : String}
    (hx : x ∉ pairs.map Prod.fst) : (f.bindAll pairs).lookup x = f.lookup x := by
  induction pairs generalizing f with
  | nil => rfl
  | cons p pairs ih =>
    rw [List.map_cons, List.mem_cons, not_or] at hx
    rw [bindAll_cons, ih _ hx.2, lookup_bind, if_neg hx.1]

/-- Names that are bound once have the value they were bound to. -/
theorem lookup_bindAll_of_mem (f : Frame) {pairs : List (String × Value)} {x : String} {v : Value}
    (hpairs : (pairs.map Prod.fst).Nodup) (hx : (x, v) ∈ pairs) :
    (f.bindAll pairs).lookup x = some v := by
  induction pairs generalizing f with
  | nil => cases hx
  | cons p pairs ih =>
    obtain ⟨hp, hrest⟩ := List.nodup_cons.1 hpairs
    rw [bindAll_cons]
    rcases List.mem_cons.1 hx with rfl | hx
    · rw [lookup_bindAll_of_not_mem _ hp, lookup_bind, if_pos rfl]
    · exact ih _ hrest hx

end Frame

/-! ## §2. Bindings that are well written. -/

namespace Node

/-- The nodes are pairs that bind the names `xs` to the values of the nodes `es`. -/
inductive Binds : List String → List Node → List Node → Prop where
  | nil : Binds [] [] []
  | cons {x : String} {xs : List String} {e : Node} {es : List Node} {token : Option Token}
      {key : Node} {ns : List Node} (hkey : key.symbol? = some x) (hrest : Binds xs es ns) :
      Binds (x :: xs) (e :: es) (.expression token [key, e] :: ns)

theorem Binds.length_eq {xs : List String} {es ns : List Node} (h : Binds xs es ns) :
    es.length = xs.length := by
  induction h with
  | nil => rfl
  | cons _ _ ih => rw [List.length_cons, List.length_cons, ih]

theorem Binds.concat {xs : List String} {es ns : List Node} (h : Binds xs es ns) {x : String}
    {e key : Node} {token : Option Token} (hkey : key.symbol? = some x) :
    Binds (xs ++ [x]) (es ++ [e]) (ns ++ [.expression token [key, e]]) := by
  induction h with
  | nil => exact .cons hkey .nil
  | cons hfirst _ ih => exact .cons hfirst ih

/-- **Bindings are made by evaluating their values from left to right.** -/
theorem Binds.evalBindings_eq {engine : Engine} {form : String} {xs : List String}
    {es ns : List Node} (h : Binds xs es ns) (hxs : xs.Nodup) (frame : Frame)
    (hfresh : ∀ x ∈ xs, frame.lookup x = none) :
    evalBindings engine form frame ns
      = (fun vs => frame.bindAll (xs.zip vs)) <$> evalAll engine es := by
  induction h generalizing frame with
  | nil =>
    rw [evalBindings, evalAll, map_pure]
    rfl
  | @cons x xs e es token key ns hkey hrest ih =>
    obtain ⟨hx, hxs⟩ := List.nodup_cons.1 hxs
    have hnext : ∀ v, ∀ y ∈ xs, (frame.bind x v).lookup y = none := by
      intro v y hy
      have hne : y ≠ x := fun h => hx (h ▸ hy)
      rw [Frame.lookup_bind, if_neg hne, hfresh y (.tail _ hy)]
    rw [evalBindings, evalBinding_pair hkey (hfresh x (.head _)), evalAll]
    simp only [bind_assoc, pure_bind, map_bind, map_pure, List.zip_cons_cons,
      Frame.bindAll_cons]
    refine congrArg (_ >>= ·) (funext fun v => ?_)
    rw [ih hxs _ (hnext v), map_eq_pure_bind]

/-- The node is a list of pairs, each of a name and a value, and no name is there twice. -/
def IsBindingList (n : Node) : Prop :=
  ∃ token xs es ns, n = .expression token ns ∧ Binds xs es ns ∧ xs.Nodup

/-! ## §3. The first fault. -/

/-- What is true of no elements is true of a list, or there is a first element that breaks it. -/
theorem holds_or_broken {α : Type} {P : List α → Prop} (hnil : P []) (xs : List α) :
    P xs ∨ ∃ before x after, xs = before ++ x :: after ∧ P before ∧ ¬ P (before ++ [x]) := by
  induction xs using List.reverseRecOn with
  | nil => exact .inl hnil
  | append_singleton xs x ih =>
    rcases ih with hxs | ⟨before, y, after, rfl, hbefore, hbroken⟩
    · by_cases h : P (xs ++ [x])
      · exact .inl h
      · exact .inr ⟨xs, x, [], rfl, hxs, h⟩
    · exact .inr ⟨before, y, after ++ [x], by simp, hbefore, hbroken⟩

/-- In a binding behind others of the names `seen`, the node `culprit` is at fault. -/
inductive Misbinds (form : String) (seen : List String) : Node → Node → String → Prop where
  /-- The binding is no pair. -/
  | shape {n : Node} (hn : ∀ token key value, n ≠ .expression token [key, value]) :
      Misbinds form seen n n (form ++ ": binding must be a (name value) pair, got " ++ n.encode)
  /-- What stands for the name is none. -/
  | name {token : Option Token} {key value : Node} (hkey : key.symbol? = none) :
      Misbinds form seen (.expression token [key, value]) key
        (form ++ ": binding name must be a symbol, got " ++ key.encode)
  /-- The name is bound already. -/
  | again {token : Option Token} {key value : Node} {x : String} (hkey : key.symbol? = some x)
      (hx : x ∈ seen) :
      Misbinds form seen (.expression token [key, value]) key
        (form ++ ": duplicate binding " ++ Text.quote x)

/-- What a `let` is given for its bindings is not well written: `culprit` is the first node at
fault, and the values in front of it are `es`. -/
inductive FaultAt (form : String) : Node → List Node → Node → String → Prop where
  /-- There is no list. -/
  | list {n : Node} (hn : n.isExpression = false) :
      FaultAt form n [] n (form ++ ": bindings must be a list, got " ++ n.encode)
  /-- The bindings in front of one are well written, and it is not. -/
  | binding {token : Option Token} {before after : List Node} {n culprit : Node}
      {xs : List String} {es : List Node} {note : String} (hbefore : Binds xs es before)
      (hxs : xs.Nodup) (hn : Misbinds form xs n culprit note) :
      FaultAt form (.expression token (before ++ n :: after)) es culprit note

theorem misbinds_or_pair (form : String) (seen : List String) (n : Node) :
    (∃ culprit note, Misbinds form seen n culprit note)
      ∨ ∃ token key value x, n = .expression token [key, value] ∧ key.symbol? = some x
        ∧ x ∉ seen := by
  by_cases hpair : ∃ token key value, n = .expression token [key, value]
  · obtain ⟨token, key, value, rfl⟩ := hpair
    cases hkey : key.symbol? with
    | none => exact .inl ⟨_, _, .name hkey⟩
    | some x =>
      by_cases hx : x ∈ seen
      · exact .inl ⟨_, _, .again hkey hx⟩
      · exact .inr ⟨token, key, value, x, rfl, hkey, hx⟩
  · exact .inl ⟨_, _, .shape fun token key value hn => hpair ⟨token, key, value, hn⟩⟩

/-- **What is no list of bindings has a first fault.** -/
theorem exists_faultAt (form : String) {n : Node} (h : ¬ n.IsBindingList) :
    ∃ es culprit note, n.FaultAt form es culprit note := by
  cases n with
  | expression token ns =>
    rcases holds_or_broken (P := fun ns => ∃ xs es, Binds xs es ns ∧ xs.Nodup)
        ⟨[], [], .nil, List.nodup_nil⟩ ns with
      ⟨xs, es, hbinds, hxs⟩ | ⟨before, n, after, rfl, ⟨xs, es, hbinds, hxs⟩, hbroken⟩
    · exact absurd ⟨token, xs, es, ns, rfl, hbinds, hxs⟩ h
    · rcases misbinds_or_pair form xs n with ⟨culprit, note, hn⟩ |
        ⟨token', key, e, x, rfl, hkey, hx⟩
      · exact ⟨es, culprit, note, .binding hbinds hxs hn⟩
      · -- a pair with a name of its own is no fault
        have hnodup : (xs ++ [x]).Nodup := by
          rw [List.nodup_append_comm]
          exact List.nodup_cons.2 ⟨hx, hxs⟩
        exact absurd ⟨_, _, hbinds.concat hkey, hnodup⟩ hbroken
  | int _ _ | symbol _ _ | list _ _ | foreign _ _ _ => exact ⟨[], _, _, .list rfl⟩

end Node

/-! ## §4. Lets with a fault. -/

theorem Evaluates.length_eq {engine : Engine} {ns : List Node} {ctx ctx' : Context}
    {vs : List Value} (h : Evaluates engine ns ctx vs ctx') : vs.length = ns.length := by
  induction h with
  | nil => rfl
  | cons _ _ ih => rw [List.length_cons, List.length_cons, ih]

namespace Node

variable {engine : Engine} {form note : String} {n culprit : Node} {es : List Node}

theorem Misbinds.evalBinding_eq {seen : List String} {frame : Frame}
    (h : Misbinds form seen n culprit note)
    (hseen : ∀ x ∈ seen, (frame.lookup x).isSome = true) :
    evalBinding engine form frame n = Eval.fail (culprit.malformed note) := by
  cases h with
  | shape hn =>
    match n, hn with
    | .expression token [key, value], hn => exact absurd rfl (hn token key value)
    | .expression _ [], _ | .expression _ [_], _ | .expression _ (_ :: _ :: _ :: _), _
    | .int _ _, _ | .symbol _ _, _ | .list _ _, _ | .foreign _ _ _, _ => rfl
  | name hkey => rw [evalBinding, hkey]
  | again hkey hx =>
    rw [evalBinding, hkey]
    dsimp only
    rw [if_pos (hseen _ hx)]

/-- **A `let` with a fault evaluates the values in front of it, and then fails.** -/
theorem FaultAt.run_evalLet (h : n.FaultAt form es culprit note) (body : Node) (rest : List Node)
    (ctx : Context) :
    (evalLet engine form (n :: body :: rest)).run ctx
      = (evalAll engine es >>= fun _ => Eval.fail (culprit.malformed note)).run ctx := by
  cases h with
  | list hn =>
    cases n with
    | expression token ns => cases hn
    | int _ _ | symbol _ _ | list _ _ | foreign _ _ _ => rfl
  | @binding token before after n culprit xs es note hbefore hxs hn =>
    rw [evalLet, evalBindings_append, hbefore.evalBindings_eq hxs _ (fun _ _ => rfl)]
    simp only [bind_assoc, bind_map_left]
    rw [run_bind, run_bind]
    cases hrun : (evalAll engine es).run ctx with
    | failed e c => rfl
    | halted why c => rfl
    | done vs c =>
      have hlen : vs.length = xs.length :=
        (evaluates_iff.2 hrun).length_eq.trans hbefore.length_eq
      have hfst : (xs.zip vs).map Prod.fst = xs := List.map_fst_zip (Nat.le_of_eq hlen.symm)
      -- every name in front has its value by now, so a name that is there twice is found
      have hseen : ∀ x ∈ xs,
          (((Frame.empty .scope form).bindAll (xs.zip vs)).lookup x).isSome = true := by
        intro x hx
        rw [← hfst] at hx
        obtain ⟨⟨_, v⟩, hmem, rfl⟩ := List.mem_map.1 hx
        rw [Frame.lookup_bindAll_of_mem _ (by rwa [hfst]) hmem]
        rfl
      dsimp only
      rw [evalBindings, hn.evalBinding_eq hseen]
      rfl

end Node

/-- How the evaluation of the `let` `n` ends, with the node `culprit` at fault behind the values
of `es`. -/
structure StopsAt (n : Node) (ctx : Context) (es : List Node) (culprit : Node) (note : String) :
    Prop where
  /-- The values in front of the fault are evaluated, and nothing else is. -/
  course : n.eval.run ctx
    = ((Node.evalAll (Moment.ofNode n ctx).engine es >>= fun _ =>
        Eval.fail (culprit.malformed note)).within n).run ((Moment.ofNode n ctx).begun "let")
  /-- Once they are there, the fault is reported, and what they printed and defined stays. -/
  reported : ∀ vs ctx',
    Evaluates (Moment.ofNode n ctx).engine es ((Moment.ofNode n ctx).begun "let") vs ctx' →
    n.eval.run ctx = .failed
      (.evaluating n.encode ctx'.depth (.located culprit.pos (.because .malformed) note)) ctx'
  /-- If there are none in front of it, nothing has changed. -/
  untouched : es = [] → ∃ ctx', n.eval.run ctx = .failed
      (.evaluating n.encode ctx.depth (.located culprit.pos (.because .malformed) note)) ctx'
    ∧ ctx'.withoutLog = ctx.withoutLog
  /-- If native code only looks at frames, they are as before. -/
  stack_eq : ctx.registry.Within .looking → (n.eval.run ctx).context.stack = ctx.stack

/-- **A `let` that is not well written stops at its first fault.**  If what a `let` is given for
its bindings is no list of pairs of a name and a value, with no name twice, there is a first node
at fault.  The values in front of it are evaluated; if they end with values, the `let` fails with
the place of that node, and if there are none of them, it leaves all as it was. -/
theorem malformed_let_stops_at_fault {ctx : Context} {token : Option Token}
    {head bindings body : Node}
    (hlet : ctx.registry.resolve "let" = some (.form "let" ⟨2, 2⟩ .letIn))
    (hhead : head.symbol? = some "let") (hbad : ¬ bindings.IsBindingList) :
    ∃ es culprit note, bindings.FaultAt "let" es culprit note
      ∧ StopsAt (.expression token [head, bindings, body]) ctx es culprit note := by
  obtain ⟨es, culprit, note, hfault⟩ := Node.exists_faultAt "let" hbad
  set n : Node := .expression token [head, bindings, body] with hn
  have hcalls : (Moment.ofNode n ctx).Calls "let" [bindings, body] := ⟨token, head, hn, hhead⟩
  have hisLet : (Moment.ofNode n ctx).IsLet "let" [bindings, body] := ⟨"let", ⟨2, 2⟩, hlet, rfl⟩
  have hrun : (Coupling.behindHead (Moment.ofNode n ctx).engine "let" [bindings, body]).run
      ((Moment.ofNode n ctx).begun "let")
        = (Node.evalAll (Moment.ofNode n ctx).engine es >>= fun _ =>
            Eval.fail (culprit.malformed note)).run ((Moment.ofNode n ctx).begun "let") :=
    hisLet.run_behindHead.trans (hfault.run_evalLet body [] _)
  have hreported : ∀ vs ctx',
      Evaluates (Moment.ofNode n ctx).engine es ((Moment.ofNode n ctx).begun "let") vs ctx' →
      n.eval.run ctx = .failed
        (.evaluating n.encode ctx'.depth (.located culprit.pos (.because .malformed) note)) ctx' := by
    intro vs ctx' hes
    refine hcalls.run_eval_failed ?_ rfl
    rw [hrun, run_bind_eq_failed]
    exact .inr ⟨vs, ctx', evaluates_iff.1 hes, rfl⟩
  refine ⟨es, culprit, note, hfault, ?_, hreported, ?_, ?_⟩
  · rw [hcalls.run_eval]
    exact run_within_congr hrun
  · rintro rfl
    have hdepth : ((Moment.ofNode n ctx).begun "let").depth = ctx.depth :=
      congrArg Stack.depth (ctx.stack_trace _)
    exact ⟨_, hdepth ▸ hreported [] _ (.nil _), ctx.withoutLog_trace _⟩
  · exact stack_run_of_matches fun s => Stack.survives_eq.couplings.matches_eval s n

/-- Of three bindings the second is no pair, behind a value that is printed. -/
theorem malformed_let_stops_at_fault_printed :
    let one : Node := .expression none [.symbol none "print", .int none 1]
    let bindings : Node := .expression none
      [.expression none [.symbol none "x", one], .expression none [.symbol none "y"],
        .expression none [.symbol none "x", .int none 2]]
    let n : Node := .expression none [.symbol none "let", bindings, .symbol none "x"]
    Context.new.registry.resolve "let" = some (.form "let" ⟨2, 2⟩ .letIn)
      ∧ ¬ bindings.IsBindingList
      ∧ ∃ es culprit note, bindings.FaultAt "let" es culprit note
        ∧ StopsAt n Context.new es culprit note := by
  intro one bindings n
  have hbad : ¬ bindings.IsBindingList := by
    rintro ⟨token, xs, es, ns, hns, hbinds, -⟩
    obtain ⟨-, rfl⟩ := Node.expression.inj hns
    rcases hbinds with _ | ⟨-, hrest⟩
    rcases hrest
  exact ⟨rfl, hbad, malformed_let_stops_at_fault rfl rfl hbad⟩

/-- A `let` that is not well written can print before it fails. -/
theorem malformed_let_prints :
    let bindings : Node := .expression none
      [.expression none
          [.symbol none "x", .expression none [.symbol none "print", .int none 1]],
        .expression none [.symbol none "y"]]
    let n : Node := .expression none [.symbol none "let", bindings, .int none 0]
    ¬ bindings.IsBindingList ∧ ∃ e ctx', n.eval.run Context.new = .failed e ctx'
      ∧ e.isBecause .malformed = true ∧ Context.new.printed = "" ∧ ctx'.printed = "1\n" := by
  intro bindings n
  refine ⟨?_, _, _, rfl, rfl, rfl, rfl⟩
  rintro ⟨token, xs, es, ns, hns, hbinds, -⟩
  obtain ⟨-, rfl⟩ := Node.expression.inj hns
  rcases hbinds with _ | ⟨-, hrest⟩
  rcases hrest

end IntLisp
