/-
  IntLisp.Proofs.Meaning
  ──────────────────────
  **ONE CANONICAL TEXT, ONE MEANING.**

  A statement and its canonical text differ in blanks, comments and places.
  Read, they differ in places only, and no evaluation sees these: the two end
  alike, and leave behind contexts that no later step can tell apart but by
  the lines and columns in errors and in the bodies of functions.
-/
import IntLisp.Proofs.Canonical
import IntLisp.Proofs.Places

namespace IntLisp

variable {α : Type}

/-! ## §1. Texts and sessions. -/

namespace Eval

theorem twins_source_eval (src : Source) : Twins Eq src.eval src.eval :=
  twins_bind_eq (twins_ofExcept _) fun _ => twins_eval rfl

theorem twins_statement_eval (s : Statement) : Twins Eq s.eval s.eval := by
  unfold Statement.eval
  cases s.error with
  | some e => exact twins_fail rfl
  | none =>
    refine twins_bind_eq (twins_trace rfl) fun _ => ?_
    refine twins_bind_eq (twins_source_eval _) fun v => ?_
    exact twins_bind_eq (twins_trace rfl) fun _ => twins_pure rfl

theorem twins_exec (s : Statement) :
    Twins (fun r₁ r₂ => r₁.unplaced = r₂.unplaced) s.exec s.exec := by
  refine twins_bind (twins_attempt (twins_statement_eval s)) ?_
  rintro (e₁ | v₁) (e₂ | v₂) hr
  · have he : e₁.unplaced = e₂.unplaced := Except.error.inj hr
    refine twins_bind_eq (twins_modify (fun h => h.record ?_) rfl) fun _ => twins_pure ?_
    · exact congrArg (Entry.failed s.pos s.summary) he
    · exact congrArg (StatementResult.mk s ∘ Except.error) he
  · cases hr
  · cases hr
  · cases hr
    exact twins_pure rfl

theorem twins_execAll (ss : List Statement) :
    Twins (fun rs₁ rs₂ => rs₁.map StatementResult.unplaced = rs₂.map StatementResult.unplaced)
      (Statement.execAll ss) (Statement.execAll ss) := by
  induction ss with
  | nil => exact twins_pure rfl
  | cons s ss ih =>
    refine twins_bind (twins_exec s) fun r₁ r₂ hr => twins_bind ih fun rs₁ rs₂ hrs => ?_
    exact twins_pure (by rw [List.map_cons, List.map_cons, hr, hrs])

theorem twins_unreadable {R : α → α → Prop} (e : Error) :
    Twins R (unreadable e : Eval α) (unreadable e) :=
  twins_bind_eq (twins_modify (fun h => h.record rfl) rfl) fun _ => twins_fail rfl

theorem twins_run (input : Input) :
    Twins (fun rs₁ rs₂ => rs₁.map StatementResult.unplaced = rs₂.map StatementResult.unplaced)
      input.run input.run := by
  unfold Input.run
  cases input.contents with
  | error e => exact twins_unreadable e
  | ok src =>
    show Twins _ src.run src.run
    unfold Source.run
    cases src.statements with
    | error e => exact twins_unreadable e
    | ok ss => exact twins_execAll ss

end Eval

/-- A step that brings no native code in. -/
def Step.IsPlain : Step → Prop
  | register d => d.IsPlain
  | _ => True

section

open Eval

/-- **A step ends alike in contexts that are the same but for places.** -/
theorem Step.twins_perform {s : Step} (hs : s.IsPlain) :
    Twins (fun a₁ a₂ => a₁.unplaced = a₂.unplaced) s.perform s.perform := by
  have hregister : ∀ {d : Definition}, d.IsPlain →
      Twins Eq (Eval.modify (·.register d)) (Eval.modify (·.register d)) :=
    fun hd => twins_modify (fun h => h.register hd hd rfl) rfl
  cases s with
  | evaluate src => exact twins_bind_eq (twins_source_eval src) fun _ => twins_pure rfl
  | evaluateAll src =>
    refine twins_bind_eq (twins_ofExcept _) fun root => ?_
    exact twins_bind_eq (twins_eval rfl) fun _ => twins_pure rfl
  | evaluateNode n => exact twins_bind_eq (twins_eval rfl) fun _ => twins_pure rfl
  | run input =>
    exact twins_bind (twins_run input) fun rs₁ rs₂ hrs =>
      twins_pure (congrArg Answer.results hrs)
  | configure options =>
    exact twins_bind_eq (twins_modify (fun h => h.setOptions options) rfl) fun _ =>
      twins_pure rfl
  | register d => exact twins_bind_eq (hregister hs) fun _ => twins_pure rfl
  | define symbol params body =>
    refine twins_bind_eq (twins_ofExcept _) fun node => ?_
    exact twins_bind_eq (hregister (.inr ⟨symbol, params, node, rfl⟩)) fun _ => twins_pure rfl
  | push f => exact twins_bind_eq (twins_push f) fun _ => twins_pure rfl
  | pop =>
    refine twins_bind_eq (twins_view fun h => h.frame?_eq) fun f => ?_
    exact twins_bind_eq (twins_modify (fun h => h.pop) rfl) fun _ => twins_pure rfl
  | top => exact twins_bind_eq (twins_view fun h => h.frame?_eq) fun _ => twins_pure rfl
  | lookup name =>
    exact twins_bind_eq (twins_view fun h => h.lookup_eq name) fun _ => twins_pure rfl
  | resolve symbol =>
    refine twins_bind (R := fun d₁ d₂ => d₁.map Definition.bare = d₂.map Definition.bare)
      (twins_view fun h => h.resolve_eq symbol) fun d₁ d₂ hd => ?_
    exact twins_pure (congrArg Answer.definition hd)
  | symbols =>
    refine twins_bind_eq (twins_view fun {c₁ c₂} h => ?_) fun _ => twins_pure rfl
    rw [← Registry.symbols_bare, h.registry_eq, Registry.symbols_bare]

end

/-- **Steps in a row end alike in contexts that are the same but for places.** -/
theorem Context.Twins.play {c₁ c₂ : Context} (h : c₁.Twins c₂) {steps : List Step}
    (hsteps : ∀ s ∈ steps, s.IsPlain) :
    (c₁.play steps).map (Outcome.unplaced Answer.unplaced)
      = (c₂.play steps).map (Outcome.unplaced Answer.unplaced) := by
  induction steps generalizing c₁ c₂ with
  | nil => rfl
  | cons s steps ih =>
    have hs := Step.twins_perform (hsteps s (.head _)) c₁ c₂ h
    rw [Context.play, Context.play, List.map_cons, List.map_cons, hs.unplaced_eq]
    exact congrArg _ (ih hs.context fun s hs => hsteps s (.tail _ hs))

/-! ## §2. Statements with one canonical text. -/

/-- **The canonical text of a statement is read as the statement**, but for places. -/
theorem Input.parseStatement_encode {stmt : Input} {n : Node}
    (h : stmt.source.parseStatement = .ok n) (hmark : n.encode.toList.head? ≠ some '\uFEFF') :
    ∃ m, (Input.ofString n.encode).source.parseStatement = .ok m ∧ m.bare = n.bare := by
  -- what was read is spellable, so its canonical text is read back
  obtain ⟨ns, hlist, hns⟩ := Input.allSpellable_of_parse (Source.parseStatement_eq_ok_iff.1 h)
  cases hlist
  have hencode : (Node.list none [n]).encode = n.encode := by
    simp [Node.encode, Node.encodeAll]
  have hnul : '\x00' ∉ n.encode.toList := by
    rw [← hencode, Node.encode, ← Node.flatten_piecesAll]
    exact Node.nul_not_mem_piecesAll [n] hns
  obtain ⟨root, hread, hbare⟩ := Source.parse_encode hns none
  rw [hencode, ← Source.ofString_unmarked (decide_eq_false hmark) hnul, ← source_ofString] at hread
  obtain ⟨-, ms, rfl, -⟩ := Source.parse_eq_ok_iff.1 hread
  match ms, hread, hbare with
  | [m], hread, hbare =>
    simp only [Node.bare, Node.bareAll, Node.list.injEq, List.cons.injEq] at hbare
    exact ⟨m, Source.parseStatement_eq_ok_iff.2 hread, hbare.2.1⟩
  | [], _, hbare => simp [Node.bare, Node.bareAll] at hbare
  | _ :: _ :: _, _, hbare => simp [Node.bare, Node.bareAll] at hbare

theorem Source.eval_of_parseStatement {src : Source} {n : Node}
    (h : src.parseStatement = .ok n) : src.eval = n.eval := by
  unfold eval
  rw [h]
  rfl

/-- **A statement means what its canonical text means.**  A statement that can be read has a
canonical text.  Unless that begins with a byte order mark, evaluating the statement and
evaluating its canonical text, in one context with plain definitions, ends alike: with the
same value, or with the same error but for the places in it, and in contexts that hold the
same frames, output and definitions but for the places in bodies.  Under a limit there is
such an end, unless a name on the stack has something for its value that is no value of the
language.  And whatever steps are taken from there, they end alike but for places. -/
theorem canonical_text_means_same (stmt : Input) (n : Node) (ctx : Context)
    (hstmt : stmt.source.parseStatement = .ok n) (hplain : ctx.registry.IsPlain) :
    ∃ text, stmt.source.canonicalize = .ok text ∧ (text.toList.head? ≠ some '\uFEFF' →
      let asWritten := stmt.source.eval.run ctx
      let asCanonical := (Input.ofString text).source.eval.run ctx
      asWritten.unplaced id = asCanonical.unplaced id
        ∧ (∀ m, ctx.limit = some m →
            (∃ v ctx', asWritten = .done v ctx') ∨ (∃ e ctx', asWritten = .failed e ctx')
              ∨ (∃ ctx', asWritten = .halted .misuse ctx')
                ∧ ¬ ctx.stack.Holds (·.isProper = true))
        ∧ ∀ steps : List Step, (∀ s ∈ steps, s.IsPlain) →
            (asWritten.context.play steps).map (Outcome.unplaced Answer.unplaced)
              = (asCanonical.context.play steps).map (Outcome.unplaced Answer.unplaced)) := by
  refine ⟨n.encode, by rw [Source.canonicalize, hstmt]; rfl, fun hmark => ?_⟩
  obtain ⟨m, hm, hbare⟩ := Input.parseStatement_encode hstmt hmark
  intro asWritten asCanonical
  have htwins : asWritten.Twins Eq asCanonical := by
    have h := Eval.twins_eval hbare.symm ctx ctx (.refl hplain)
    rwa [← Source.eval_of_parseStatement hstmt, ← Source.eval_of_parseStatement hm] at h
  refine ⟨htwins.unplaced_eq, fun limit hlimit => ?_, fun steps hsteps => ?_⟩
  · have hends := n.eval_ends hlimit hplain
    rwa [← Source.eval_of_parseStatement hstmt] at hends
  · exact htwins.context.play hsteps

/-- A definition over three lines, whose body is not well written, and a call of it. -/
theorem canonical_text_means_same_malformed_body :
    let stmt := Input.ofString "(defun f (x)\n  ; bind\n  (let 5 x))"
    let canonical := Input.ofString "(defun f (x) (let 5 x))"
    let call := Step.evaluate (Source.ofString "(f 1)")
    (∃ n, stmt.source.parseStatement = .ok n) ∧ Context.new.registry.IsPlain ∧ call.IsPlain
      ∧ (stmt.source.eval.run .new).unplaced id = (canonical.source.eval.run .new).unplaced id
      ∧ (((stmt.source.eval.run .new).context).play [call]).map (Outcome.unplaced Answer.unplaced)
        = (((canonical.source.eval.run .new).context).play [call]).map
          (Outcome.unplaced Answer.unplaced) := by
  intro stmt canonical call
  have hcanonical : stmt.source.canonicalize = .ok "(defun f (x) (let 5 x))" := by
    rw [Input.source_ofString]
    decide +kernel
  obtain ⟨n, hn⟩ : ∃ n, stmt.source.parseStatement = .ok n := by
    cases hparse : stmt.source.parseStatement with
    | ok n => exact ⟨n, rfl⟩
    | error e => rw [Source.canonicalize, hparse] at hcanonical; cases hcanonical
  obtain ⟨text, htext, hsame⟩ :=
    canonical_text_means_same stmt n .new hn Registry.isPlain_core
  rw [hcanonical] at htext
  cases htext
  obtain ⟨hfirst, -, hlater⟩ := hsame (by decide)
  have hsteps : ∀ s ∈ [call], s.IsPlain := by simp [call, Step.IsPlain]
  exact ⟨⟨n, hn⟩, Registry.isPlain_core, trivial, hfirst, hlater [call] hsteps⟩

end IntLisp
