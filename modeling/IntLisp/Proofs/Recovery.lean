/-
  IntLisp.Proofs.Recovery
  ───────────────────────
  **AN UNCLOSED STATEMENT DOES NOT SWALLOW WHAT FOLLOWS.**

  Three texts, one below the other: one that is sound, one that never closes
  the parenthesis it begins with, and one that begins with a parenthesis and
  closes only what it has opened itself.  Two searches run into the third
  text, and the lemmas say where they end:

    • no parenthesis of it closes the second text, since neither part closes
      more than it opens (`Covered.append`),
    • it is where the cutting is resumed, since its parenthesis is the first
      behind the second text's own that begins a line (`splitUnclosed_newline`).

  So the second text is one statement, in error, and the others are cut and
  run as they are alone.
-/
import IntLisp.Proofs.Composition
import IntLisp.Proofs.Coverage
import Mathlib.Data.List.Infix

namespace IntLisp

open Token

/-! ## §1. Where the searches end. -/

theorem Token.Covered.append {k : Nat} {ts us : List Token} (hts : Covered k ts)
    (hus : Covered 0 us) : Covered k (ts ++ us) := by
  intro before hbefore
  rcases List.prefix_or_prefix_of_prefix hbefore (List.prefix_append ts us) with
    hprefix | ⟨inside, rfl⟩
  · exact hts before hprefix
  · have hle := hts.closings_le
    have hle' := hus inside ((List.prefix_append_right_inj ts).1 hbefore)
    rw [closings_append, openings_append]
    omega

theorem Token.Covered.map_moved {k : Nat} {ts : List Token} (h : Covered k ts)
    (lines bytes : Nat) : Covered k (ts.map (Token.moved lines bytes)) := by
  refine h.of_map_kind ?_
  rw [List.map_map]
  rfl

namespace Statement

variable {start : Position} {t newline : Token} {ts : List Token}

/-- The cutting is resumed behind a newline if no token before it will do. -/
theorem splitUnclosed_newline (fresh : Bool) (rest : List Token)
    (hts : ∀ u ∈ ts, ∀ fresh, resumesAt start fresh u = false) (hnewline : newline.kind = .newline)
    (ht : resumesAt start true t = true) :
    splitUnclosed start fresh (ts ++ newline :: t :: rest) = (ts ++ [newline], t :: rest) := by
  induction ts generalizing fresh with
  | nil =>
    have hno : resumesAt start fresh newline = false := by simp [resumesAt, hnewline]
    simp [splitUnclosed, hno, hnewline, ht]
  | cons u ts ih =>
    have hrest := fun fresh => ih fresh fun u' hu' => hts u' (.tail _ hu')
    rw [List.cons_append, splitUnclosed, hts u (.head _), if_neg Bool.false_ne_true]
    dsimp only
    rw [hrest]
    rfl

end Statement

/-! ## §2. The two lower texts. -/

namespace Source

/-- A text that can be cut into tokens and begins with a parenthesis. -/
structure Opens (src : Source) : Prop where
  scanned : src.scan.failure = none
  unmarked : src.marked = false
  first : src.chars.head? = some '('

/-- A text that never closes the parenthesis it begins with, and begins no later line
with another. -/
structure Dangles (src : Source) : Prop extends src.Opens where
  depth : ∀ before, before <+: src.scan.tokens → before ≠ [] → closings before < openings before
  lines : ∀ t ∈ src.scan.tokens, t.kind = .opening → 1 < t.pos.line → t.pos.col ≠ 1

/-- A text that begins with a parenthesis, and of which no beginning closes more than it
opens. -/
structure StandsAlone (src : Source) : Prop extends src.Opens where
  covered : Covered 0 src.scan.tokens

variable {src : Source}

theorem Opens.body_eq (h : src.Opens) :
    ∃ t ts, src.body = t :: ts ∧ t.kind = .opening ∧ t.pos = .start := by
  obtain ⟨cs, hcs⟩ := List.head?_eq_some_iff.1 h.first
  rw [body, hcs, lexemes_cons, placed]
  exact ⟨_, _, rfl, rfl, rfl⟩

theorem isPrefix_body (h : src.scan.failure = none) : src.body <+: src.scan.tokens := by
  obtain ⟨e, -, hscan⟩ := scan_eq_body (fault_of_scan h)
  exact ⟨[e], by rw [hscan]⟩

theorem Dangles.covered {t : Token} {ts : List Token} (h : src.Dangles)
    (hbody : src.body = t :: ts) (ht : t.kind = .opening) : Covered 0 ts := by
  intro before hbefore
  have hprefix : t :: before <+: src.scan.tokens := by
    refine .trans ?_ (isPrefix_body h.scanned)
    rw [hbody]
    exact List.cons_prefix_cons.2 ⟨rfl, hbefore⟩
  have hlt := h.depth _ hprefix (List.cons_ne_nil _ _)
  simp [openings_cons, closings_cons, ht] at hlt
  omega

theorem one_le_col_of_mem_body {t : Token} (ht : t ∈ src.body) : 1 ≤ t.pos.col := by
  obtain ⟨before, after, hbody⟩ := List.append_of_mem ht
  rw [pos_of_placed hbody, Position.advanceBy_start]
  exact Int.le_add_of_nonneg_right (Int.natCast_nonneg _)

/-- Nothing in the text can begin the next statement. -/
theorem Dangles.resumesAt_eq_false (h : src.Dangles) {t : Token} (ht : t ∈ src.body)
    (fresh : Bool) : Statement.resumesAt .start fresh t = false := by
  by_contra hresumes
  rw [Bool.not_eq_false] at hresumes
  simp only [Statement.resumesAt, Bool.and_eq_true, decide_eq_true_eq] at hresumes
  obtain ⟨⟨⟨hkind, -⟩, hline⟩, hcol⟩ := hresumes
  have hpos := one_le_col_of_mem_body ht
  have hne := h.lines t ((isPrefix_body h.scanned).mem ht) hkind hline
  exact hne (Int.le_antisymm hcol hpos)

end Source

theorem Text.trim_newline {s : String} (h : s.toList.head? = some '(') :
    trim (s ++ "\n") = trim s := by
  obtain ⟨cs, hcs⟩ := List.head?_eq_some_iff.1 h
  refine String.toList_injective ?_
  rw [toList_trim, toList_trim, String.toList_append, hcs]
  simp [trimChars, trimStart, trimEnd, isBlank]

namespace Input

variable {a b : Input}

/-- **The statements of a text that dangles above one that stands alone.** -/
theorem ofTokenList_dangling (ha : a.source.Dangles) (hb : b.source.StandsAlone) :
    Statement.ofTokenList (a.above b).source.body
      = ⟨Text.trim (String.ofList a.source.chars), .start,
            some (.located .start (.because .unexpectedEnd) "unclosed (")⟩
          :: (Statement.ofTokenList b.source.body).map
              (Statement.moved (1 + a.source.chars.count '\n')) := by
  obtain ⟨newline, bytes, hnewline, hbody⟩ := body_above (Source.fault_of_scan ha.scanned)
    (Source.fault_of_scan hb.scanned) hb.unmarked
  obtain ⟨hkind, htext⟩ : newline.kind = .newline ∧ newline.text = "\n" := Prod.ext_iff.1 hnewline
  obtain ⟨t, ts, hts, ht, hpos⟩ := ha.body_eq
  obtain ⟨u, us, hus, hu, hupos⟩ := hb.body_eq
  have hopen : Statement.splitClosed
      (ts ++ newline :: b.source.body.map (moved (1 + a.source.chars.count '\n') bytes))
        = none := by
    rw [Statement.splitClosed_eq_none_iff]
    refine (ha.covered hts ht).append ?_
    rw [covered_plain (by simp [hkind]) (by simp [hkind])]
    exact (hb.covered.of_prefix (Source.isPrefix_body hb.scanned)).map_moved _ _
  have hresumes : Statement.resumesAt t.pos true
      (u.moved (1 + a.source.chars.count '\n') bytes) = true := by
    rw [hpos]
    simp [Statement.resumesAt, hu, hupos, Position.moved, Position.start]
    omega
  have hno : ∀ u' ∈ ts, ∀ fresh, Statement.resumesAt t.pos fresh u' = false := by
    intro u' hu' fresh
    rw [hpos]
    exact ha.resumesAt_eq_false (by rw [hts]; exact .tail _ hu') fresh
  have hsplit := Statement.splitUnclosed_newline false
    (us.map (moved (1 + a.source.chars.count '\n') bytes)) hno hkind hresumes
  rw [← List.map_cons, ← hus] at hsplit
  -- the newline is part of the statement, and trimmed
  have hspelling : spelling (t :: (ts ++ [newline])) = String.ofList a.source.chars ++ "\n" := by
    rw [← List.cons_append, ← hts, spelling_append, ← Source.toList_spelling_body,
      String.ofList_toList]
    simp [spelling, htext]
  have hfirst : (String.ofList a.source.chars).toList.head? = some '(' := by
    rw [String.toList_ofList]
    exact ha.first
  rw [hbody, hts, List.cons_append, Statement.ofTokenList_unclosed ht hopen, hsplit,
    Statement.ofTokenList_map_moved, Statement.ofTokens, hspelling, Text.trim_newline hfirst,
    Growth.errorAt, hpos]

end Input

/-! ## §3. Three texts. -/

theorem Position.moved_moved (l m : Nat) (p : Position) :
    (p.moved m).moved l = p.moved (l + m) := by
  have hline : p.line + m + l = p.line + (l + m : Nat) := by omega
  exact congrArg (Position.mk · p.col) hline

theorem Error.moved_moved (l m : Nat) (e : Error) : (e.moved m).moved l = e.moved (l + m) := by
  unfold moved
  cases e with
  | located pos cause note => exact congrArg (located · cause note) (pos.moved_moved l m)
  | _ => rfl

theorem Statement.moved_moved (l m : Nat) (s : Statement) :
    (s.moved m).moved l = s.moved (l + m) := by
  simp only [moved, Position.moved_moved, Option.map_map]
  congr 2
  funext e
  exact e.moved_moved l m

/-- A text that can be cut into tokens and begins with no mark is read as it is. -/
theorem Source.chars_ofString {u : String} (hscan : (ofString u).scan.failure = none)
    (hmark : (ofString u).marked = false) : (ofString u).chars = u.toList := by
  have hchars := (chars_of_fault (fault_of_scan hscan)).2.2
  rwa [dropMark, show isMarked u.toList = false from hmark] at hchars

namespace Statement

open Coupling

/-- Apart from the log, a statement in error changes nothing. -/
theorem matches_exec_of_error {s : Statement} {e : Error} (h : s.error = some e) :
    apartFromLog.Matches (pure ⟨s, .error e⟩) s.exec := by
  rw [exec_of_error h]
  intro c₁ c₂ hctx
  exact .done_of_eq rfl hctx

/-- **A statement in error between others does not keep them from being run.** -/
theorem matches_execAll_recovered (lines : Nat) (ss ts : List Statement) {s : Statement}
    {e : Error} (h : s.error = some e) :
    apartFromLog.Matches
      (do
        let rs ← execAll ss
        let rs' ← execAll ts
        return rs ++ ⟨s, .error e⟩ :: rs'.map (StatementResult.moved lines))
      (execAll (ss ++ s :: ts.map (moved lines))) := by
  let failed : StatementResult := ⟨s, .error e⟩
  have hexec : (do
        let rs ← execAll ss
        let rs' ← execAll ts
        return rs ++ failed :: rs'.map (StatementResult.moved lines))
      = do
        let rs ← execAll ss
        let rs' ← (do
          let r ← pure failed
          let rs' ← List.map (StatementResult.moved lines) <$> execAll ts
          return r :: rs')
        return rs ++ rs' := by
    simp
  rw [hexec, execAll_append, execAll]
  refine matches_bind (Couplings.apartFromLog.matches_execAll () ss) fun rs => ?_
  refine matches_bind ?_ fun rs' => matches_pure (rs ++ rs')
  refine matches_bind (matches_exec_of_error h) fun r => ?_
  exact matches_bind (matches_execAll_moved lines ts) fun rs' => matches_pure (r :: rs')

end Statement

/-- **An unclosed statement does not swallow what follows.**  Below a text of which all
statements are sound, a text that never closes the parenthesis it begins with is one statement,
in error where it begins.  Below that, a text that closes only what it has opened has the
statements it has alone, but for their lines.  Running all three gives the results of the first,
the error of the second and the results of the third, and leaves the context that running the
first and the third leaves, apart from the log. -/
theorem unclosed_recovers (p q : Input) (u : String) (texts : List String)
    (hp : p.source.split = .ok texts) (hu : (Source.ofString u).Dangles)
    (hq : q.source.StandsAlone) :
    let whole := p.above ((Input.ofString u).above q)
    let lines := 1 + p.source.chars.count '\n'
    let lines' := lines + (1 + u.toList.count '\n')
    let e : Error := .located (Position.start.moved lines) (.because .unexpectedEnd) "unclosed ("
    let s : Statement := ⟨Text.trim u, Position.start.moved lines, some e⟩
    ∃ ss ts, p.statements = .ok ss ∧ q.statements = .ok ts
      ∧ whole.statements = .ok (ss ++ s :: ts.map (Statement.moved lines'))
      ∧ (∀ t ∈ ts, t.error = none → (t.moved lines').error = none)
      ∧ ∀ ctx, (whole.run.run ctx).mapContext Context.withoutLog
          = (Eval.run (do
              let rs ← p.run
              let rs' ← q.run
              return rs ++ ⟨s, .error e⟩ :: rs'.map (StatementResult.moved lines'))
              ctx).mapContext Context.withoutLog := by
  intro whole lines lines' e s
  obtain ⟨hpfault, hsound⟩ := Source.sound_of_split hp
  have hchars := Source.chars_ofString hu.scanned hu.unmarked
  rw [← Input.source_ofString] at hu hchars
  have hufault := Source.fault_of_scan hu.scanned
  have hqfault := Source.fault_of_scan hq.scanned
  have hlower := Input.source_above hufault hqfault hq.unmarked
  have hlowerfault : ((Input.ofString u).above q).source.fault = none := by rw [hlower]
  have hlowermark : ((Input.ofString u).above q).source.marked = false := by
    rw [hlower]
    exact hu.unmarked
  have hfault : whole.source.fault = none := by
    rw [Input.source_above hpfault hlowerfault hlowermark]
  have hstatements : Statement.ofTokenList whole.source.body
      = Statement.ofTokenList p.source.body
          ++ s :: (Statement.ofTokenList q.source.body).map (Statement.moved lines') := by
    rw [Input.ofTokenList_above hpfault hlowerfault hlowermark hsound,
      Input.ofTokenList_dangling hu hq, hchars, String.ofList_toList, List.map_cons, List.map_map]
    refine congrArg (_ ++ s :: ·) (List.map_congr_left fun t _ => ?_)
    exact t.moved_moved lines (1 + u.toList.count '\n')
  refine ⟨_, _, Input.statements_of_fault hpfault, Input.statements_of_fault hqfault, ?_, ?_, ?_⟩
  · rw [Input.statements_of_fault hfault, hstatements]
  · intro t _ ht
    rw [Statement.moved, ht]
    rfl
  · intro ctx
    rw [Input.run_of_fault hfault, hstatements, Input.run_of_fault hpfault,
      Input.run_of_fault hqfault]
    exact (Coupling.mapContext_withoutLog
      (Statement.matches_execAll_recovered lines' _ _ rfl) ctx).symm

/-- The parenthesis that would close the second text stands in a comment, and the third
text is not closed either. -/
theorem unclosed_recovers_comment :
    let p := Input.ofString "(f) ; ("
    let q := Input.ofString "(g 2) (h"
    let whole := p.above ((Input.ofString "(+ 1 ; )\n  (k) \t").above q)
    let e : Error := .located ⟨2, 1⟩ (.because .unexpectedEnd) "unclosed ("
    let s : Statement := ⟨"(+ 1 ; )\n  (k)", ⟨2, 1⟩, some e⟩
    whole.statements
        = .ok [⟨"(f)", ⟨1, 1⟩, none⟩, s, ⟨"(g 2)", ⟨4, 1⟩, none⟩,
            ⟨"(h", ⟨4, 7⟩, some (.located ⟨4, 7⟩ (.because .unexpectedEnd) "unclosed (")⟩]
      ∧ ∀ ctx, (whole.run.run ctx).mapContext Context.withoutLog
          = (Eval.run (do
              let rs ← p.run
              let rs' ← q.run
              return rs ++ ⟨s, .error e⟩ :: rs'.map (StatementResult.moved 3))
              ctx).mapContext Context.withoutLog := by
  intro p q whole e s
  have hp : p.source.split = .ok ["(f)"] := by decide +kernel
  have hu : (Source.ofString "(+ 1 ; )\n  (k) \t").Dangles :=
    { scanned := by decide +kernel
      unmarked := by decide +kernel
      first := by decide +kernel
      depth := by
        simp only [← List.mem_inits]
        decide +kernel
      lines := by decide +kernel }
  have hq : q.source.StandsAlone :=
    { scanned := by decide +kernel
      unmarked := by decide +kernel
      first := by decide +kernel
      covered := by
        simp only [Covered, ← List.mem_inits]
        decide +kernel }
  have hss : p.statements = .ok [⟨"(f)", ⟨1, 1⟩, none⟩] := by decide +kernel
  have hts : q.statements
      = .ok [⟨"(g 2)", ⟨1, 1⟩, none⟩,
          ⟨"(h", ⟨1, 7⟩, some (.located ⟨1, 7⟩ (.because .unexpectedEnd) "unclosed (")⟩] := by
    decide +kernel
  have hnewlines : p.source.chars.count '\n' = 0 := by decide +kernel
  have htrim : Text.trim "(+ 1 ; )\n  (k) \t" = "(+ 1 ; )\n  (k)" := by decide +kernel
  obtain ⟨ss, ts, hss', hts', hwhole, -, hrun⟩ := unclosed_recovers p q _ _ hp hu hq
  rw [hss] at hss'
  rw [hts] at hts'
  cases hss'
  cases hts'
  rw [hnewlines, htrim] at hwhole hrun
  exact ⟨hwhole, hrun⟩

end IntLisp
