/-
  IntLisp.Proofs.Conversation
  ───────────────────────────
  **A SCRIPT THAT IS TYPED LINE BY LINE.**

  At the prompt lines are gathered until they are complete, and each piece is
  trimmed and run alone.  A text that is run as a whole is cut into statements
  once.  For a text that can be split the two do the same, between prompts
  and values that are shown:

    • every piece ends between two statements, and the pieces have all lines,
    • the statements of a piece are the next ones of the text,
    • their evaluation sees neither what was printed before nor the log, so
      it ends alike and prints the same.

  The induction is on the number of lines, one piece at a time.  The contexts
  of the two runs are then the same apart from what was written.
-/
import IntLisp.Proofs.Account
import IntLisp.Proofs.Lines

namespace IntLisp

/-! ## §1. Contexts apart from what was written. -/

namespace Context

variable (ctx : Context)

theorem forget_trace (event : Context → Event) : (ctx.trace event).forget = ctx.forget := by
  unfold trace
  split <;> rfl

theorem forget_register (d : Definition) :
    (ctx.register d).forget = (ctx.forget.register d).forget := by
  unfold register
  dsimp only
  rw [show ctx.forget.registry = ctx.registry from rfl]
  split
  · rw [forget_trace, forget_trace]
    rfl
  · rfl

theorem forget_opened (f : Frame) : (ctx.opened f).forget = (ctx.forget.opened f).forget := by
  unfold opened
  rw [forget_trace, forget_trace]
  rfl

theorem forget_pop : ctx.pop.forget = ctx.forget.pop.forget := by
  unfold pop
  rw [show ctx.forget.stack = ctx.stack from rfl]
  cases ctx.stack.top? with
  | none => rfl
  | some f =>
    dsimp only
    rw [forget_trace, forget_trace]
    rfl

theorem printed_trace (event : Context → Event) : (ctx.trace event).printed = ctx.printed := by
  unfold trace
  split <;> rfl

theorem printed_register (d : Definition) : (ctx.register d).printed = ctx.printed := by
  unfold register
  dsimp only
  split
  · rw [printed_trace]
  · rfl

theorem printed_opened (f : Frame) : (ctx.opened f).printed = ctx.printed := by
  unfold opened
  rw [printed_trace]

theorem printed_pop : ctx.pop.printed = ctx.printed := by
  unfold pop
  split
  · rfl
  · rw [printed_trace]

theorem write_empty : ctx.write "" = ctx := by
  rw [write, String.append_empty]

theorem write_write (a b : String) : (ctx.write a).write b = ctx.write (a ++ b) := by
  simp [write, String.append_assoc]

end Context

/-- The contexts are the same but for their logs, and so is what was printed in them since the
one had printed `p₁` and the other `p₂`. -/
def Context.SameSince (p₁ p₂ : String) (c₁ c₂ : Context) : Prop :=
  c₁.forget = c₂.forget ∧ ∃ out, c₁.printed = p₁ ++ out ∧ c₂.printed = p₂ ++ out

namespace Context.SameSince

variable {p₁ p₂ : String} {c₁ c₂ : Context}

/-- What prints nothing, and does the same whatever was written, keeps contexts the same. -/
theorem map {f : Context → Context} (h : SameSince p₁ p₂ c₁ c₂)
    (hforget : ∀ c, (f c).forget = (f c.forget).forget)
    (hprinted : ∀ c, (f c).printed = c.printed) : SameSince p₁ p₂ (f c₁) (f c₂) := by
  obtain ⟨hsame, out, hout₁, hout₂⟩ := h
  refine ⟨?_, out, (hprinted c₁).trans hout₁, (hprinted c₂).trans hout₂⟩
  rw [hforget, hsame, ← hforget]

theorem write (h : SameSince p₁ p₂ c₁ c₂) (text : String) :
    SameSince p₁ p₂ (c₁.write text) (c₂.write text) := by
  obtain ⟨hsame, out, hout₁, hout₂⟩ := h
  refine ⟨hsame, out ++ text, ?_, ?_⟩
  · rw [← String.append_assoc, ← hout₁]
    rfl
  · rw [← String.append_assoc, ← hout₂]
    rfl

end Context.SameSince

/-- The coupling of contexts that are the same since one had printed `p₁` and the other `p₂`. -/
def Coupling.since (p₁ p₂ : String) : Coupling where
  rel := Context.SameSince p₁ p₂
  excuses _ := False
  halts _ := True
  misuse := trivial
  lookup_eq := by
    intro c₁ c₂ h name
    show c₁.forget.lookup name = c₂.forget.lookup name
    rw [h.1]
  resolve_eq := by
    intro c₁ c₂ h name
    show c₁.forget.registry.resolve name = c₂.forget.registry.resolve name
    rw [h.1]
  depth_eq := by
    intro c₁ c₂ h
    show c₁.forget.depth = c₂.forget.depth
    rw [h.1]
  output_eq := by
    intro c₁ c₂ h
    show c₁.forget.output = c₂.forget.output
    rw [h.1]
  trace h event :=
    h.map (f := fun c => c.trace fun _ => event)
      (fun c => by rw [Context.forget_trace, Context.forget_trace]; rfl)
      (fun c => c.printed_trace _)
  write h text := h.write text
  define h symbol params body :=
    h.map (f := fun c => c.register (.user symbol params body)) (fun c => c.forget_register _)
      (fun c => c.printed_register _)
  excuses_named := @never_named

theorem Coupling.since_serves (p₁ p₂ : String) : (since p₁ p₂).Serves .any where
  excuses _ he := he
  halts _ := trivial
  within _ := Registry.within_any _
  register h d _ :=
    h.map (f := fun c => c.register d) (fun c => c.forget_register d) (fun c => c.printed_register d)
  record h _ _ := h
  frame_eq := by
    intro _ c₁ c₂ h level
    show c₁.forget.frameAt? level = c₂.forget.frameAt? level
    rw [h.1]
  bind := fun _ _ _ h level name v =>
    h.map (f := fun c => c.bind level name v) (fun _ => rfl) (fun _ => rfl)
  isFull_eq := by
    intro _ c₁ c₂ h
    show c₁.forget.isFull = c₂.forget.isFull
    rw [h.1]
  opened := fun _ _ _ h f =>
    h.map (f := fun c => c.opened f) (fun c => c.forget_opened f) (fun c => c.printed_opened f)
  top_eq := by
    intro _ c₁ c₂ h
    show c₁.forget.frame? = c₂.forget.frame?
    rw [h.1]
  pop := fun _ _ _ h => h.map (f := Context.pop) Context.forget_pop Context.printed_pop

/-- No evaluation sees what was written before it. -/
def Couplings.since (p₁ p₂ : String) : Couplings .any Unit :=
  (Coupling.since_serves p₁ p₂).couplings fun {c₁ c₂} h => by
    show c₁.forget.room = c₂.forget.room
    rw [h.1]

/-! ## §2. Statements with the same texts. -/

/-- What a result tells: the text of the statement, and its value or error. -/
def StatementResult.said (r : StatementResult) : String × Except Error Value :=
  (r.statement.text, r.outcome)

namespace Statement

open Coupling

variable {p₁ p₂ : String} {ss₁ ss₂ : List Statement} {xs : List String}

/-- **A sound statement ends as its text says**, wherever it stands. -/
theorem matches_exec_of_text {s₁ s₂ : Statement} (h₁ : s₁.error = none) (h₂ : s₂.error = none)
    (htext : s₁.text = s₂.text) :
    (Coupling.since p₁ p₂).Matches (StatementResult.said <$> s₁.exec)
      (StatementResult.said <$> s₂.exec) := by
  have heval : s₂.eval = s₁.eval := by
    unfold eval
    rw [h₁, h₂, htext]
  unfold exec
  rw [map_bind, map_bind, heval]
  refine matches_bind (matches_attempt (fun _ he => he)
    ((Couplings.since p₁ p₂).matches_statement_eval () s₁)) fun r => ?_
  have hsaid : ∀ r, StatementResult.said ⟨s₁, r⟩ = StatementResult.said ⟨s₂, r⟩ :=
    fun r => congrArg (·, r) htext
  intro c₁ c₂ h
  -- the two reports may name different places
  cases r with
  | ok v =>
    show Agree _ (.done (StatementResult.said ⟨s₁, .ok v⟩) _) _
    rw [hsaid]
    exact .done _ h
  | error e =>
    show Agree _ (.done (StatementResult.said ⟨s₁, .error e⟩) _) _
    rw [hsaid]
    exact .done _ h

theorem matches_execAll_of_texts (h₁ : texts ss₁ = .ok xs) (h₂ : texts ss₂ = .ok xs) :
    (Coupling.since p₁ p₂).Matches (List.map StatementResult.said <$> execAll ss₁)
      (List.map StatementResult.said <$> execAll ss₂) := by
  have hcons : ∀ (s : Statement) (ss : List Statement),
      List.map StatementResult.said <$> execAll (s :: ss) = do
        let r ← StatementResult.said <$> s.exec
        let rs ← List.map StatementResult.said <$> execAll ss
        return r :: rs := by
    intro s ss
    simp [execAll]
  induction ss₁ generalizing ss₂ xs with
  | nil =>
    cases h₁
    rw [List.map_eq_nil_iff.1 (map_text_of_texts h₂)]
    exact matches_map _ (matches_pure [])
  | cons s₁ ss₁ ih =>
    obtain ⟨hs₁, xs, hxs₁, rfl⟩ := texts_cons_eq_ok_iff.1 h₁
    cases ss₂ with
    | nil => cases h₂
    | cons s₂ ss₂ =>
      obtain ⟨hs₂, xs', hxs₂, hxs⟩ := texts_cons_eq_ok_iff.1 h₂
      obtain ⟨htext, rfl⟩ := List.cons.inj hxs
      rw [hcons, hcons]
      exact matches_bind (matches_exec_of_text hs₁ hs₂ htext) fun r =>
        matches_bind (ih hxs₁ hxs₂) fun rs => matches_pure (r :: rs)

/-- Statements that fail are reported, so running them gives a result for each, or halts. -/
theorem run_execAll_cases (ss : List Statement) (ctx : Context) :
    (∃ rs ctx', (execAll ss).run ctx = .done rs ctx' ∧ rs.map StatementResult.statement = ss)
      ∨ ∃ why ctx', (execAll ss).run ctx = .halted why ctx' := by
  induction ss generalizing ctx with
  | nil => exact .inl ⟨[], ctx, rfl, rfl⟩
  | cons s ss ih =>
    -- whatever becomes of `s`, unless it halts, the others are run
    have hrest : ∀ {o : Except Error Value} {ctx₁ : Context}, s.exec.run ctx = .done ⟨s, o⟩ ctx₁ →
        (∃ rs ctx', (execAll (s :: ss)).run ctx = .done rs ctx'
            ∧ rs.map StatementResult.statement = s :: ss)
          ∨ ∃ why ctx', (execAll (s :: ss)).run ctx = .halted why ctx' := by
      intro o ctx₁ hexec
      rw [execAll, Eval.run_bind, hexec]
      rcases ih ctx₁ with ⟨rs, ctx', hrun, hrs⟩ | ⟨why, ctx', hrun⟩
      · refine .inl ⟨⟨s, o⟩ :: rs, ctx', ?_, congrArg (s :: ·) hrs⟩
        simp only [Eval.run_bind, hrun, Eval.run_pure]
      · exact .inr ⟨why, ctx', by simp only [Eval.run_bind, hrun]⟩
    have hexec := s.run_exec ctx
    cases heval : s.eval.run ctx with
    | done v ctx₁ => exact hrest (hexec.trans (by rw [heval]))
    | failed e ctx₁ => exact hrest (hexec.trans (by rw [heval]))
    | halted why ctx₁ =>
      refine .inr ⟨why, ctx₁, ?_⟩
      rw [execAll, Eval.run_bind, hexec, heval]

end Statement

/-- Two runs, one from the context `c₁` and one from `c₂`, end alike, and what they print and
do to the context is the same. -/
inductive Alike (c₁ c₂ : Context) :
    Outcome (List StatementResult) → Outcome (List StatementResult) → Prop where
  | done {rs₁ rs₂ : List StatementResult} {c₁' c₂' : Context}
      (hsaid : rs₁.map StatementResult.said = rs₂.map StatementResult.said)
      (hsame : Context.SameSince c₁.printed c₂.printed c₁' c₂') :
      Alike c₁ c₂ (.done rs₁ c₁') (.done rs₂ c₂')
  | halted {why : Halt} {c₁' c₂' : Context}
      (hsame : Context.SameSince c₁.printed c₂.printed c₁' c₂') :
      Alike c₁ c₂ (.halted why c₁') (.halted why c₂')

theorem Context.SameSince.rfl_of_forget {c₁ c₂ : Context} (h : c₁.forget = c₂.forget) :
    SameSince c₁.printed c₂.printed c₁ c₂ :=
  ⟨h, "", String.append_empty.symm, String.append_empty.symm⟩

/-- **Statements with the same texts run alike**, in contexts that differ in what was written. -/
theorem Statement.alike_execAll {ss₁ ss₂ : List Statement} {xs : List String} {c₁ c₂ : Context}
    (h₁ : texts ss₁ = .ok xs) (h₂ : texts ss₂ = .ok xs) (h : c₁.forget = c₂.forget) :
    Alike c₁ c₂ ((execAll ss₁).run c₁) ((execAll ss₂).run c₂) := by
  have hagree := matches_execAll_of_texts h₁ h₂ c₁ c₂ (.rfl_of_forget h)
  rw [map_eq_pure_bind, map_eq_pure_bind, Eval.run_bind, Eval.run_bind] at hagree
  rcases run_execAll_cases ss₁ c₁ with ⟨rs₁, c₁', hrun₁, -⟩ | ⟨why₁, c₁', hrun₁⟩ <;>
    rcases run_execAll_cases ss₂ c₂ with ⟨rs₂, c₂', hrun₂, -⟩ | ⟨why₂, c₂', hrun₂⟩ <;>
    rw [hrun₁, hrun₂] at hagree ⊢
  · simp only [Eval.run_pure] at hagree
    generalize hsaid₁ : rs₁.map StatementResult.said = said₁ at hagree
    generalize hsaid₂ : rs₂.map StatementResult.said = said₂ at hagree
    cases hagree with
    | done _ hsame => exact .done (hsaid₁.trans hsaid₂.symm) hsame
  · cases hagree
  · cases hagree
  · cases hagree with
    | halted _ _ hsame => exact .halted hsame

namespace Shell

/-! ## §3. One piece of a text. -/

theorem write_append (a b : String) : write (a ++ b) = (do write a; write b) := by
  refine Eval.ext fun ctx => ?_
  show Outcome.done () (ctx.write (a ++ b)) = .done () ((ctx.write a).write b)
  rw [Context.write_write]

/-- A text of which nothing is left has nothing to run. -/
theorem run_ofGlyphs_nil : (Source.ofGlyphs []).run = Statement.execAll [] := by
  have hfault : (Source.ofGlyphs []).fault = none := rfl
  have hbody : (Source.ofGlyphs []).body = [] := by
    show Token.placed 0 .start (Token.lexemes []) = []
    rw [Token.lexemes_nil, Token.placed]
  rw [Source.run, Source.statements_of_fault hfault, hbody, Statement.ofTokenList]

theorem showRun_nothing : showRun true (Statement.execAll []) = pure true := by
  refine Eval.ext fun ctx => ?_
  have hrun : (Statement.execAll []).run ctx = .done [] ctx := rfl
  rw [run_showRun_done true hrun]
  exact congrArg (Outcome.done true) ctx.write_empty

namespace Dialogue

/-- The lines are gathered until they are complete: they make up `text`, and `asked` is what
asks for them. -/
inductive Gathers : Dialogue → List (List Text.Glyph) → List Text.Glyph → String → Prop where
  | last {d : Dialogue} {line : List Text.Glyph}
      (h : (Source.ofGlyphs (d.extend line)).isIncomplete = false) :
      Gathers d [line] (d.extend line) d.prompt
  | more {d : Dialogue} {line : List Text.Glyph} {lines : List (List Text.Glyph)}
      {text : List Text.Glyph} {asked : String}
      (h : (Source.ofGlyphs (d.extend line)).isIncomplete = true)
      (hmore : Gathers { d with pending := d.extend line } lines text asked) :
      Gathers d (line :: lines) text (d.prompt ++ asked)

/-- **Lines that are gathered are run, and then the dialogue goes on without them.** -/
theorem Gathers.loop_eq {d : Dialogue} {lines : List (List Text.Glyph)} {text : List Text.Glyph}
    {asked : String} (files : Path → Input) (h : d.Gathers lines text asked)
    (hcolon : (Text.Glyph.trim text).head? ≠ some (.char ':')) :
    ∃ d' : Dialogue, d'.pending = [] ∧ ∀ rest, loop files d (lines ++ rest) = (do
      write asked
      let _ ← showRun true (Source.ofGlyphs (Text.Glyph.trim text)).run
      loop files d' rest) := by
  induction h with
  | @last d line hcomplete =>
    by_cases hempty : (Text.Glyph.trim (d.extend line)).isEmpty = true
    · refine ⟨{ d with pending := [] }, rfl, fun rest => ?_⟩
      rw [List.isEmpty_iff.1 hempty, run_ofGlyphs_nil, showRun_nothing, List.singleton_append, loop,
        feed]
      simp [hcomplete, hempty]
    · let history := d.history.add (flatten (Text.Glyph.trim (d.extend line)))
      refine ⟨{ d with pending := [], history := history }, rfl, fun rest => ?_⟩
      rw [List.singleton_append, loop, feed]
      simp [hcomplete, hempty, hcolon, history]
  | @more d line lines text asked hincomplete _ ih =>
    obtain ⟨d', hd', hloop⟩ := ih hcolon
    refine ⟨d', hd', fun rest => ?_⟩
    rw [List.cons_append, loop, feed, write_append]
    simp [hincomplete, hloop]

end Dialogue

/-! ## §4. The pieces of a text. -/

/-- Characters of a text of which every piece is read as it is. -/
structure Tidy (cs : List Char) : Prop where
  unmarked : byteOrderMark ∉ cs
  nul_not_mem : '\x00' ∉ cs
  spaced : Source.Spaced cs

theorem Tidy.sublist {cs ds : List Char} (h : Tidy cs) (hds : ds.Sublist cs) : Tidy ds :=
  ⟨fun hmem => h.unmarked (hds.subset hmem), fun hmem => h.nul_not_mem (hds.subset hmem),
    h.spaced.sublist hds⟩

/-- The characters `p` that are pending, with those of a further line. -/
def extended (p l : List Char) : List Char := if p.isEmpty then l else p ++ '\n' :: l

theorem extended_append (p l more : List Char) : extended p (l ++ more) = extended p l ++ more := by
  unfold extended
  split <;> simp

theorem Dialogue.extend_map_char {d : Dialogue} {p : List Char} (h : d.pending = p.map .char)
    (l : List Char) : d.extend (l.map .char) = (extended p l).map .char := by
  unfold Dialogue.extend extended
  rw [h]
  cases p <;> simp

/-- The lines of a dialogue begin with a piece that is complete, and the texts of the statements
are those of the piece and then those of the lines behind it. -/
inductive Dialogue.Parts (d : Dialogue) (ls : List (List Char)) (zs : List String) : Prop where
  | mk (chunk rest : List (List Char)) {cs : List Char} {asked : String} {xs ys : List String}
      (hls : ls = chunk ++ rest) (hchunk : chunk ≠ [])
      (hgathers : d.Gathers (chunk.map (·.map .char)) (cs.map .char) asked)
      (hcs : Tidy cs) (hcolon : (Text.trimStart cs).head? ≠ some ':')
      (hxs : (Source.plain cs).split = .ok xs)
      (hrest : Tidy (['\n'].intercalate rest))
      (hys : (Source.plain (['\n'].intercalate rest)).split = .ok ys) (hzs : zs = xs ++ ys)

theorem split_plain_nil : (Source.plain []).split = .ok [] := by
  rw [Source.split_plain_iff, Token.lexemes_nil, Token.says_nil_iff]

theorem isIncomplete_of_split {src : Source} {xs : List String} (h : src.split = .ok xs) :
    src.isIncomplete = false := by
  unfold Source.isIncomplete
  rw [h]
  simp

/-- A text begins with what its beginning begins with. -/
theorem head?_trimStart_append {cs : List Char} {c : Char}
    (h : (Text.trimStart cs).head? = some c) (ds : List Char) :
    (Text.trimStart (cs ++ ds)).head? = some c := by
  obtain ⟨es, hes⟩ := List.head?_eq_some_iff.1 h
  unfold Text.trimStart at hes ⊢
  rw [List.dropWhile_append, hes]
  rfl

/-- **Lines are cut between statements.** -/
theorem Dialogue.parts {l : List Char} {ls : List (List Char)} {zs : List String} {p : List Char}
    {d : Dialogue} (hp : d.pending = p.map .char)
    (htidy : Tidy (extended p (['\n'].intercalate (l :: ls))))
    (hsplit : (Source.plain (extended p (['\n'].intercalate (l :: ls)))).split = .ok zs)
    (hcolon : ∀ x ∈ zs, x.toList.head? ≠ some ':') : d.Parts (l :: ls) zs := by
  induction ls generalizing l p d with
  | nil =>
    -- what is left is good, so the last line completes it
    rw [List.intercalate_singleton] at htidy hsplit
    have hcomplete : (Source.ofGlyphs (d.extend (l.map .char))).isIncomplete = false := by
      rw [extend_map_char hp, Source.ofGlyphs_map_char htidy.unmarked htidy.nul_not_mem]
      exact isIncomplete_of_split hsplit
    have hgathers := Gathers.last hcomplete
    rw [extend_map_char hp] at hgathers
    exact .mk [l] [] rfl (by simp) hgathers htidy
      (Source.head?_ne_colon htidy.spaced hsplit hcolon) hsplit
      (htidy.sublist (List.nil_sublist _)) split_plain_nil (List.append_nil zs).symm
  | cons l' ls ih =>
    rw [List.intercalate_cons_cons, List.append_assoc, List.singleton_append,
      extended_append] at htidy hsplit
    have htidy' : Tidy (extended p l) := htidy.sublist (List.sublist_append_left _ _)
    have hbegins : (Text.trimStart (extended p l)).head? ≠ some ':' := by
      intro h
      exact Source.head?_ne_colon htidy.spaced hsplit hcolon (head?_trimStart_append h _)
    have hsource : Source.ofGlyphs (d.extend (l.map .char)) = Source.plain (extended p l) := by
      rw [extend_map_char hp, Source.ofGlyphs_map_char htidy'.unmarked htidy'.nul_not_mem]
    cases hincomplete : (Source.plain (extended p l)).isIncomplete with
    | true =>
      -- the line is not the last of the piece, and what is pending is not empty
      have hpending : extended p l ++ '\n' :: ['\n'].intercalate (l' :: ls)
          = extended (extended p l) (['\n'].intercalate (l' :: ls)) := by
        cases hnil : extended p l with
        | nil =>
          rw [hnil, isIncomplete_of_split split_plain_nil] at hincomplete
          cases hincomplete
        | cons c cs => rfl
      rw [hpending] at htidy hsplit
      have hmore : (Source.ofGlyphs (d.extend (l.map .char))).isIncomplete = true :=
        hsource ▸ hincomplete
      obtain ⟨chunk, rest, hls, hchunk, hgathers, hcs, hfirst, hxs, hrest, hys, hzs⟩ :=
        ih (d := { d with pending := d.extend (l.map .char) }) (extend_map_char hp l) htidy hsplit
      exact .mk (l :: chunk) rest (congrArg (l :: ·) hls) (by simp) (.more hmore hgathers) hcs
        hfirst hxs hrest hys hzs
    | false =>
      -- the piece ends here, and the newline behind it separates statements
      obtain ⟨xs, hxs⟩ := Source.split_of_not_isIncomplete hsplit hbegins hincomplete
      obtain ⟨ys, hys, rfl⟩ := (Source.split_newline_iff hxs).1 hsplit
      have hgathers := Gathers.last (hsource ▸ hincomplete)
      rw [extend_map_char hp] at hgathers
      exact .mk [l] (l' :: ls) rfl (by simp) hgathers htidy' hbegins hxs
        (htidy.sublist ((List.sublist_cons_self _ _).trans (List.sublist_append_right _ _))) hys rfl

/-! ## §5. The dialogue and the text as a whole. -/

/-- What passes for one piece of a text: the prompts, the text, what its evaluation prints and
the results of its statements. -/
structure Exchange where
  asked : String
  text : List Text.Glyph
  printed : String
  results : List StatementResult

namespace Exchange

/-- The lines are gathered and run, and the values are shown after that. -/
structure Occurs (ctx : Context) (lines : List (List Text.Glyph)) (x : Exchange)
    (ctx' : Context) : Prop where
  gathered : ∃ d : Dialogue, d.pending = [] ∧ d.Gathers lines x.text x.asked
  evaluated : ∃ c, (Source.ofGlyphs (Text.Glyph.trim x.text)).run.run (ctx.write x.asked)
      = .done x.results c
    ∧ c.printed = ctx.printed ++ x.asked ++ x.printed
    ∧ ctx' = c.write (String.join (x.results.filterMap valueLine))

/-- The lines are gathered, and the evaluation halts before there are any results. -/
structure Breaks (ctx : Context) (lines : List (List Text.Glyph)) (x : Exchange) (why : Halt)
    (ctx' : Context) : Prop where
  gathered : ∃ d : Dialogue, d.pending = [] ∧ d.Gathers lines x.text x.asked
  evaluated : (Source.ofGlyphs (Text.Glyph.trim x.text)).run.run (ctx.write x.asked)
      = .halted why ctx'
  printed_eq : ctx'.printed = ctx.printed ++ x.asked ++ x.printed
  results_eq : x.results = []

end Exchange

/-- The dialogue `d` does with lines, in the context `c`, what `act` does in the context `b`. -/
inductive Dialogue.Retells (files : Path → Input) (d : Dialogue) (c : Context)
    (lines : List (List Text.Glyph)) (act : Eval (List StatementResult)) (b : Context) : Prop where
  /-- All lines are taken, in pieces, and the results of the pieces are those of `act`.  Both
  leave the same registry, frames and options behind. -/
  | done {chunks : List (List (List Text.Glyph))} {xs : List Exchange} {history : History}
      {rs : List StatementResult} {c' b' : Context}
      (consumed : chunks.flatten = lines)
      (taken : InTurn Exchange.Occurs c chunks xs c')
      (loop_eq : (d.loop files lines).run c = .done history ((c'.write "lisp> ").write "\n"))
      (run_eq : act.run b = .done rs b')
      (said_eq : (xs.flatMap Exchange.results).map StatementResult.said
        = rs.map StatementResult.said)
      (printed_eq : b'.printed = b.printed ++ String.join (xs.map Exchange.printed))
      (same : c'.forget = b'.forget)
  /-- Both halt for the same reason, when they have printed and defined the same. -/
  | halted {chunks : List (List (List Text.Glyph))} {last rest : List (List Text.Glyph)}
      {xs : List Exchange} {x : Exchange} {why : Halt} {c₁ c' b' : Context}
      (consumed : chunks.flatten ++ (last ++ rest) = lines)
      (taken : InTurn Exchange.Occurs c chunks xs c₁) (breaks : x.Breaks c₁ last why c')
      (loop_eq : (d.loop files lines).run c = .halted why c')
      (run_eq : act.run b = .halted why b')
      (printed_eq : b'.printed = b.printed ++ (String.join (xs.map Exchange.printed) ++ x.printed))
      (same : c'.forget = b'.forget)

namespace Dialogue

variable {files : Path → Input} {d d' : Dialogue} {c c₁ b b₁ : Context}

/-- **One piece, and then the others.** -/
theorem Retells.cons {chunk rest : List (List Text.Glyph)} {x : Exchange}
    {ss ss' : List Statement} {rs : List StatementResult} (hx : x.Occurs c chunk c₁)
    (hloop : (d.loop files (chunk ++ rest)).run c = (d'.loop files rest).run c₁)
    (hrun : (Statement.execAll ss).run b = .done rs b₁)
    (hsaid : x.results.map StatementResult.said = rs.map StatementResult.said)
    (hprinted : b₁.printed = b.printed ++ x.printed)
    (h : d'.Retells files c₁ rest (Statement.execAll ss') b₁) :
    d.Retells files c (chunk ++ rest) (Statement.execAll (ss ++ ss')) b := by
  cases h with
  | @done chunks xs history rs' c' b' consumed taken loop_eq run_eq said_eq printed_eq same =>
    have hall : (chunk :: chunks).flatten = chunk ++ rest := by rw [List.flatten_cons, consumed]
    have hboth : (Statement.execAll (ss ++ ss')).run b = .done (rs ++ rs') b' := by
      rw [Statement.execAll_append, Eval.run_bind, hrun]
      simp only [Eval.run_bind, run_eq, Eval.run_pure]
    refine .done hall (.cons hx taken) (hloop.trans loop_eq) hboth ?_ ?_ same
    · rw [List.flatMap_cons, List.map_append, said_eq, hsaid, List.map_append]
    · rw [printed_eq, hprinted, List.map_cons, String.join_cons, String.append_assoc]
  | @halted chunks last rest' xs y why c₂ c' b' consumed taken breaks loop_eq run_eq printed_eq
      same =>
    have hall : (chunk :: chunks).flatten ++ (last ++ rest') = chunk ++ rest := by
      rw [List.flatten_cons, List.append_assoc, consumed]
    have hboth : (Statement.execAll (ss ++ ss')).run b = .halted why b' := by
      rw [Statement.execAll_append, Eval.run_bind, hrun]
      simp only [Eval.run_bind, run_eq]
    refine .halted hall (.cons hx taken) breaks (hloop.trans loop_eq) hboth ?_ same
    rw [printed_eq, hprinted, List.map_cons, String.join_cons, String.append_assoc,
      String.append_assoc]

/-- **A piece does what statements with its texts do**, and so does the rest of the dialogue if
it does what the other statements do. -/
theorem Retells.of_piece {lines rest : List (List Text.Glyph)} {text : List Text.Glyph}
    {asked : String} {xs : List String} {ss₀ ss ss' : List Statement} (hd : d.pending = [])
    (hgathers : d.Gathers lines text asked)
    (hcolon : (Text.Glyph.trim text).head? ≠ some (.char ':'))
    (hpiece : (Source.ofGlyphs (Text.Glyph.trim text)).run = Statement.execAll ss₀)
    (hss₀ : Statement.texts ss₀ = .ok xs) (hss : Statement.texts ss = .ok xs)
    (hsame : c.forget = b.forget)
    (hrest : ∀ {d' : Dialogue} {c₁ b₁ : Context}, d'.pending = [] → c₁.forget = b₁.forget →
      d'.Retells files c₁ rest (Statement.execAll ss') b₁) :
    d.Retells files c (lines ++ rest) (Statement.execAll (ss ++ ss')) b := by
  obtain ⟨d', hd', hloop⟩ := hgathers.loop_eq files hcolon
  have hloop : (d.loop files (lines ++ rest)).run c
      = ((showRun true (Statement.execAll ss₀)) >>= fun _ => d'.loop files rest).run
          (c.write asked) := by
    rw [hloop, ← hpiece]
    rfl
  have hwritten : (c.write asked).forget = b.forget := hsame
  have halike := Statement.alike_execAll hss₀ hss hwritten
  generalize hrun₀ : (Statement.execAll ss₀).run (c.write asked) = o₀ at halike
  generalize hrun : (Statement.execAll ss).run b = o at halike
  cases halike with
  | @done rs₀ rs c₁ b₁ hsaid hsince =>
    obtain ⟨hforget, out, hout₀, hout⟩ := hsince
    have hx : Exchange.Occurs c lines ⟨asked, text, out, rs₀⟩ (shown true rs₀ c₁) :=
      ⟨⟨d, hd, hgathers⟩, c₁, hpiece ▸ hrun₀, hout₀, rfl⟩
    rw [Eval.run_bind, run_showRun_done true hrun₀] at hloop
    exact .cons hx hloop hrun hsaid hout (hrest hd' hforget)
  | @halted why c₁ b₁ hsince =>
    obtain ⟨hforget, out, hout₀, hout⟩ := hsince
    have hx : Exchange.Breaks c lines ⟨asked, text, out, []⟩ why c₁ :=
      ⟨⟨d, hd, hgathers⟩, hpiece ▸ hrun₀, hout₀, rfl⟩
    rw [Eval.run_bind, run_showRun_halted true hrun₀] at hloop
    have hboth : (Statement.execAll (ss ++ ss')).run b = .halted why b₁ := by
      rw [Statement.execAll_append, Eval.run_bind, hrun]
    exact .halted (List.nil_append _) .nil hx hloop hboth hout hforget

/-- A piece that was trimmed is run as statements with the texts that it has. -/
theorem exists_run_trim {cs : List Char} {xs : List String} (hcs : Tidy cs)
    (hxs : (Source.plain cs).split = .ok xs) :
    ∃ ss, Statement.texts ss = .ok xs
      ∧ (Source.ofGlyphs (Text.Glyph.trim (cs.map .char))).run = Statement.execAll ss := by
  have htidy := hcs.sublist (Text.trimChars_sublist cs)
  have htrimmed := Source.split_trimChars hcs.spaced hxs
  have hfault : (Source.plain (Text.trimChars cs)).fault = none := rfl
  rw [Text.Glyph.trim_map_char, Source.ofGlyphs_map_char htidy.unmarked htidy.nul_not_mem]
  rw [Source.split, Source.statements_of_fault hfault] at htrimmed
  rw [Source.run, Source.statements_of_fault hfault]
  exact ⟨_, htrimmed, rfl⟩

/-- Without a line the dialogue ends, as a text without a statement does. -/
theorem retells_nil {ss : List Statement} (hd : d.pending = []) (hss : Statement.texts ss = .ok [])
    (hsame : c.forget = b.forget) : d.Retells files c [] (Statement.execAll ss) b := by
  have hempty : ss = [] := List.map_eq_nil_iff.1 (Statement.map_text_of_texts hss)
  have hloop : (d.loop files []).run c
      = .done d.history ((c.write "lisp> ").write "\n") := by
    simp only [loop, prompt, hd]
    rfl
  subst hempty
  exact .done List.flatten_nil .nil hloop rfl rfl String.append_empty.symm hsame

/-- **Lines are run as the statements of their text are.** -/
theorem retells {ls : List (List Char)} {zs : List String} {ss : List Statement}
    (hd : d.pending = []) (htidy : Tidy (['\n'].intercalate ls))
    (hsplit : (Source.plain (['\n'].intercalate ls)).split = .ok zs)
    (hcolon : ∀ x ∈ zs, x.toList.head? ≠ some ':') (hss : Statement.texts ss = .ok zs)
    (hsame : c.forget = b.forget) :
    d.Retells files c (ls.map (·.map .char)) (Statement.execAll ss) b := by
  -- each piece has a line at least, so the induction is on the number of lines
  induction hlength : ls.length using Nat.strong_induction_on generalizing ls zs ss d c b with
  | _ n ih =>
    subst hlength
    cases ls with
    | nil =>
      obtain rfl : zs = [] := by simpa [split_plain_nil] using hsplit.symm
      exact retells_nil hd hss hsame
    | cons l ls =>
      obtain ⟨chunk, rest, hls, hchunk, hgathers, hcs, hbegins, hxs, hrest, hys, rfl⟩ :=
        d.parts (p := []) hd htidy hsplit hcolon
      obtain ⟨ss₁, ss₂, rfl, hss₁, hss₂⟩ := Statement.exists_texts_append hss
      obtain ⟨ss₀, hss₀, hpiece⟩ := exists_run_trim hcs hxs
      have hshorter : rest.length < (l :: ls).length := by
        have hpos := List.length_pos_iff.2 hchunk
        rw [hls, List.length_append]
        omega
      rw [hls, List.map_append]
      refine .of_piece hd hgathers ?_ hpiece hss₀ hss₁ hsame fun hd' hsame' => ?_
      · rw [Text.Glyph.trim_map_char, List.head?_map, Text.head?_trimChars]
        simpa using hbegins
      · exact ih rest.length hshorter hd' hrest hys
          (fun x hx => hcolon x (List.mem_append_right _ hx)) hss₂ hsame' rfl

end Dialogue

/-- The text that lines make up, as an input. -/
def joined (lines : List (List UInt8)) : Input :=
  .ofBytes ([lineFeed].intercalate lines).toByteArray

/-- A text without a mark that has no fault is that of the characters of its lines. -/
theorem source_joined {lines : List (List UInt8)} (hfault : (joined lines).source.fault = none)
    (hmark : byteOrderMark ∉ (joined lines).source.mark) :
    ∃ ls : List (List Char), (joined lines).source = .plain (['\n'].intercalate ls)
      ∧ lines.map Text.Glyph.ofBytes = ls.map (·.map .char) := by
  obtain ⟨-, -, hbytes⟩ := Input.bytes_of_fault hfault
  have hmarked : (joined lines).source.marked = false := by
    unfold Source.mark at hmark
    cases hmarked : (joined lines).source.marked with
    | false => rfl
    | true => simp [hmarked] at hmark
  have hnone : (joined lines).source.mark = [] := by
    rw [Source.mark, hmarked]
    rfl
  have hchars : (joined lines).source.chars.flatMap String.utf8EncodeChar
      = [lineFeed].intercalate lines := by
    rw [hnone, List.utf8Encode_nil, ByteArray.empty_append] at hbytes
    have hdata := congrArg (fun bytes : ByteArray => bytes.data.toList) hbytes
    simpa [joined, Input.ofBytes, List.utf8Encode] using hdata.symm
  obtain ⟨ls, hls, rfl⟩ := Input.exists_lines hchars
  refine ⟨ls, ?_, ?_⟩
  · rw [← hls, Source.plain, ← hmarked, ← hfault]
  · rw [List.map_map]
    exact List.map_congr_left fun cs _ => Text.Glyph.ofBytes_flatMap cs

/-- **A script that is typed line by line is run as it is as a whole.**  If the text of the lines
can be split into statements, has no byte order mark anywhere and no white space but such that
separates tokens, and none of its words outside expressions begins with a colon, then the
dialogue takes all lines in pieces, and the statements of the pieces are those of the text: they
have the same texts, values and errors, they print the same, and they leave the same context
behind, apart from what was written. -/
theorem dialogue_retells (files : Path → Input) (options : Options) (history : History)
    (ctx : Context) (lines : List (List UInt8)) (texts : List String)
    (hsplit : (joined lines).source.split = .ok texts)
    (hmark : byteOrderMark ∉ (joined lines).source.mark ++ (joined lines).source.chars)
    (hspaced : ∀ c ∈ (joined lines).source.chars, Text.isBlank c = true →
      c ∈ [' ', '\t', '\x0c', '\r', '\n'])
    (hcolon : ∀ x ∈ texts, x.toList.head? ≠ some ':') :
    Dialogue.Retells files ⟨[], options, history⟩ ctx (lines.map Text.Glyph.ofBytes)
        (joined lines).run ctx
      ∧ ∀ rs ctx', (joined lines).run.run ctx = .done rs ctx' →
        rs.map (·.statement.text) = texts := by
  obtain ⟨hfault, -⟩ := Source.sound_of_split hsplit
  have hnul := (Input.bytes_of_fault hfault).2.1
  rw [List.mem_append, not_or] at hmark
  obtain ⟨ls, hsource, hlines⟩ := source_joined hfault hmark.1
  have htexts := hsplit
  rw [Source.split, Source.statements_of_fault hfault] at htexts
  rw [Input.run_of_fault hfault, hlines]
  have htidy : Tidy (joined lines).source.chars := ⟨hmark.2, hnul, hspaced⟩
  rw [hsource] at hsplit htidy
  refine ⟨Dialogue.retells rfl htidy hsplit hcolon htexts rfl, ?_⟩
  intro rs ctx' hrun
  have hstatements : rs.map StatementResult.statement
      = Statement.ofTokenList (joined lines).source.body := by
    rcases Statement.run_execAll_cases (Statement.ofTokenList (joined lines).source.body) ctx with
      ⟨rs', c, hrun', hrs'⟩ | ⟨why, c, hrun'⟩
    · rw [hrun] at hrun'
      cases hrun'
      exact hrs'
    · rw [hrun] at hrun'
      cases hrun'
  rw [← Statement.map_text_of_texts htexts, ← hstatements, List.map_map]
  rfl

/-- A comment that opens a parenthesis, a definition that is typed in three lines, one of them
empty, a call on its last line that goes on below, and a word that has no value. -/
theorem dialogue_retells_nested :
    let lines := ["(print 1) ; (", "(defun f (x)", "", "\t(print x)) (f", " 2)\r", "y"].map
      fun line => line.toUTF8.data.toList
    let texts := ["(print 1)", "(defun f (x)\n\n\t(print x))", "(f\n 2)", "y"]
    (joined lines).source.split = .ok texts
      ∧ byteOrderMark ∉ (joined lines).source.mark ++ (joined lines).source.chars
      ∧ (∀ c ∈ (joined lines).source.chars, Text.isBlank c = true →
        c ∈ [' ', '\t', '\x0c', '\r', '\n'])
      ∧ (∀ x ∈ texts, x.toList.head? ≠ some ':')
      ∧ Dialogue.Retells (fun _ => .ofString "") ⟨[], .default, ⟨[]⟩⟩ .new
        (lines.map Text.Glyph.ofBytes) (joined lines).run .new := by
  intro lines texts
  have hsplit : (joined lines).source.split = .ok texts := by decide +kernel
  have hmark : byteOrderMark ∉ (joined lines).source.mark ++ (joined lines).source.chars := by
    decide +kernel
  have hall : (joined lines).source.chars.all (fun c =>
      !Text.isBlank c || [' ', '\t', '\x0c', '\r', '\n'].contains c) = true := by
    decide +kernel
  have hspaced : ∀ c ∈ (joined lines).source.chars, Text.isBlank c = true →
      c ∈ [' ', '\t', '\x0c', '\r', '\n'] := by
    intro c hc hblank
    have hgap := List.all_eq_true.1 hall c hc
    rw [hblank, Bool.not_true, Bool.false_or] at hgap
    exact List.contains_iff_mem.1 hgap
  have hcolon : ∀ x ∈ texts, x.toList.head? ≠ some ':' := by decide +kernel
  exact ⟨hsplit, hmark, hspaced, hcolon,
    (dialogue_retells _ _ _ _ lines texts hsplit hmark hspaced hcolon).1⟩

end Shell

end IntLisp
