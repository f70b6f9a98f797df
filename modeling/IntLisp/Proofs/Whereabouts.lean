/-
  IntLisp.Proofs.Whereabouts
  ──────────────────────────
  **WHERE THE PLACES IN ERRORS ARE COUNTED FROM.**

  A run reads each statement from its own text.  So the place in an error is
  counted from where the statement begins that was read, also if the node is
  in the body of a function and fails in a later statement.  The errors of
  statements that are not balanced are made where the source is cut, and
  their places are those of the source.

  The run is followed statement by statement, with the nodes that may be in
  force by then: those of the bodies before the run, and those of each
  statement up to the one that fails.
-/
import IntLisp.Proofs.Complaints
import IntLisp.Proofs.Coverage

namespace IntLisp

open Eval

/-! ## §1. Statements. -/

theorem Reads.word_or_expression {ts : List Token} {ns : List Node} (h : Reads ts ns) :
    ∀ n ∈ ns, (∃ t, n = .ofWord t) ∨ ∃ token children, n = .expression token children := by
  induction h with
  | nil =>
    intro n hn
    cases hn
  | blank _ _ ih => exact ih
  | word _ _ ih =>
    intro n hn
    cases hn with
    | head => exact .inl ⟨_, rfl⟩
    | tail _ hn => exact ih n hn
  | expression _ _ _ _ _ ih =>
    intro n hn
    cases hn with
    | head => exact .inr ⟨_, _, rfl⟩
    | tail _ hn => exact ih n hn

namespace Statement

/-- The node `m` is read in the text of the statement `s`, which is an expression. -/
def Holds (s : Statement) (m : Node) : Prop :=
  s.error = none ∧ ∃ token children,
    (Source.ofString s.text).parseStatement = .ok (.expression token children)
      ∧ m.Inside (.expression token children)

theorem deep_holds (s : Statement) : Node.Deep s.Holds := by
  rintro n ⟨herror, token, children, hparse, hinside⟩ c hc
  exact ⟨herror, token, children, hparse, hinside.child hc⟩

/-- The error `e` of the statement `s` was made when it was cut or read, or it is about
nodes of `A` or one of the complaints `F`. -/
def Accounts (F : Complaints) (s : Statement) (A : Node → Prop) (e : Error) : Prop :=
  s.error = some e ∨ s.error = none ∧ (Source.ofString s.text).parseStatement = .error e
    ∨ e.PlacedIn F A

variable {F : Complaints}

theorem Accounts.mono {s : Statement} {A B : Node → Prop} {e : Error} (h : s.Accounts F A e)
    (hAB : ∀ m, A m → B m) : s.Accounts F B e :=
  h.imp_right fun h => h.imp_right fun h => h.mono hAB

/-- **A statement is evaluated within what is in force and what is read in its text.** -/
theorem promises_eval {s : Statement} {A : Node → Prop} (hA : Node.Deep A)
    (hs : ∀ m, s.Holds m → A m) :
    s.eval.Promises (Context.AllDefined fun d => d.KeepsTo F A) (s.Accounts F A) fun _ => True := by
  unfold Statement.eval
  cases herror : s.error with
  | some e => exact promises_fail (.inl herror)
  | none =>
    have htrace : ∀ event : Event, (trace fun _ => event).Promises
        (Context.AllDefined fun d => d.KeepsTo F A) (s.Accounts F A) fun _ => True :=
      fun event => promises_modify (fun _ h => h.trace _) trivial
    refine promises_bind (htrace _) fun _ _ => ?_
    refine promises_bind (Q := fun _ => True) ?_ fun v _ =>
      promises_bind (htrace _) fun _ _ => promises_pure trivial
    unfold Source.eval
    cases hparse : (Source.ofString s.text).parseStatement with
    | error e => exact promises_fail (.inr (.inl ⟨herror, hparse⟩))
    | ok n =>
      have heval : n.eval.StaysIn F A := by
        obtain ⟨-, ns, hns, hreads⟩ :=
          Source.parse_eq_ok_iff.1 (Source.parseStatement_eq_ok_iff.1 hparse)
        cases hns
        rcases hreads.word_or_expression n (.head _) with ⟨t, rfl⟩ | ⟨token, children, rfl⟩
        · exact staysIn_eval_ofWord t
        · exact staysIn_eval hA (hs _ ⟨herror, token, children, hparse, .here⟩)
      exact heval.imp_error fun e he => .inr (.inr he)

theorem promises_exec {s : Statement} {A : Node → Prop} (hA : Node.Deep A)
    (hs : ∀ m, s.Holds m → A m) (E : Error → Prop) :
    s.exec.Promises (Context.AllDefined fun d => d.KeepsTo F A) E
      fun r => r.statement = s ∧ ∀ e, r.outcome = .error e → s.Accounts F A e := by
  refine promises_bind (promises_attempt (promises_eval hA hs)) fun r hr => ?_
  cases r with
  | ok v =>
    refine promises_pure ⟨rfl, fun e he => ?_⟩
    cases he
  | error e =>
    refine promises_bind (Q := fun _ => True) (promises_modify (fun _ h => h) trivial) fun _ _ => ?_
    refine promises_pure ⟨rfl, fun e' he => ?_⟩
    cases he
    exact hr.2 e rfl

/-- **The errors of a run are about bodies that were in force before it, and about what is
read in the statements up to the one that fails**, but for the complaints of native code. -/
theorem accounts_of_execAll {ss : List Statement} {A : Node → Prop} (hA : Node.Deep A)
    {ctx ctx' : Context} (hctx : ctx.AllDefined fun d => d.KeepsTo F A) {rs : List StatementResult}
    (h : (execAll ss).run ctx = .done rs ctx') :
    rs.map StatementResult.statement = ss
      ∧ ∀ before r after e, rs = before ++ r :: after → r.outcome = .error e →
          r.statement.Accounts F (fun m => A m ∨ ∃ q ∈ before ++ [r], q.statement.Holds m) e := by
  induction ss generalizing A ctx rs with
  | nil =>
    cases h
    refine ⟨rfl, fun before r after e hrs _ => ?_⟩
    cases before <;> cases hrs
  | cons s ss ih =>
    rw [execAll] at h
    obtain ⟨r₀, ctx₁, hexec, h⟩ := run_bind_eq_done.1 h
    obtain ⟨rs', ctx₂, hrest, h⟩ := run_bind_eq_done.1 h
    cases h
    -- from here on the nodes of the first statement may be in force as well
    have hB := hA.or s.deep_holds
    have hctxB : ctx.AllDefined fun d => d.KeepsTo F fun m => A m ∨ s.Holds m :=
      fun d hd => (hctx d hd).mono fun m hm => .inl hm
    have hmeets := promises_exec hB (fun m hm => .inr hm) (fun _ => True) ctx hctxB
    rw [hexec] at hmeets
    cases hmeets with
    | done hctx₁ hr₀ =>
      obtain ⟨rfl, haccounts⟩ := hr₀
      obtain ⟨hmap, hothers⟩ := ih hB hctx₁ hrest
      refine ⟨by rw [List.map_cons, hmap], fun before r after e hrs he => ?_⟩
      cases before with
      | nil =>
        cases hrs
        refine (haccounts e he).mono fun m hm => hm.imp_right fun hm => ?_
        exact ⟨_, .head _, hm⟩
      | cons r₁ before =>
        cases hrs
        refine (hothers before r after e rfl he).mono ?_
        rintro m ((hm | hm) | ⟨q, hq, hm⟩)
        · exact .inl hm
        · exact .inr ⟨_, .head _, hm⟩
        · exact .inr ⟨q, .tail _ hq, hm⟩

end Statement

/-! ## §2. Runs. -/

/-- The place `p` in an error of the statement `s` of a source is that of the node `m`,
counted from where the statement begins. -/
structure Source.Blames (src : Source) (s : Statement) (p : Position) (m : Node) : Prop where
  /-- The node stands in the source, in the tokens that the statement is made of. -/
  inside : ∃ t us n, t :: us <:+: src.body ∧ s = .ofTokens t us none ∧ Reads (t :: us) [n]
    ∧ m.Inside n
  pos_eq : m.pos = s.pos.after p
  /-- It is the place in the source only at the very start, or on a later line of a statement
  that begins on the first. -/
  right_iff : p = m.pos ↔ s.pos = .start ∨ s.pos.line = 1 ∧ p.line ≠ 1
  /-- It is on the line of the source only in a statement that begins on the first line. -/
  line_iff : p.line = m.pos.line ↔ s.pos.line = 1

theorem Source.Blames.of_pos {src : Source} {s : Statement} {p : Position} {t : Token}
    {us : List Token} {m n : Node} (hus : t :: us <:+: src.body) (hs : s = .ofTokens t us none)
    (hreads : Reads (t :: us) [n]) (hm : m.Inside n) (hpos : m.pos = s.pos.after p) :
    src.Blames s p m := by
  refine ⟨⟨t, us, n, hus, hs, hreads, hm⟩, hpos, ?_, ?_⟩
  · rw [hpos, eq_comm, Position.after_eq_self_iff]
  · rw [hpos, Position.line_after]
    omega

/-- Balanced tokens of a source spell nodes. -/
theorem Balanced.exists_reads {ts : List Token} (h : Balanced ts)
    (hkinds : ∀ t ∈ ts, ∃ c, t.kind = .ofChar c) : ∃ ns, Reads ts ns := by
  induction h with
  | nil => exact ⟨[], .nil⟩
  | @plain t ts hopening hclosing _ ih =>
    obtain ⟨ns, hns⟩ := ih fun u hu => hkinds u (.tail _ hu)
    obtain ⟨c, hc⟩ := hkinds t (.head _)
    cases hk : t.kind with
    | word => exact ⟨_, .word hk hns⟩
    | newline | separator | comment => exact ⟨ns, .blank (by rw [hk]; rfl) hns⟩
    | opening => exact absurd hk hopening
    | closing => exact absurd hk hclosing
    | finish => exact absurd (hc.symm.trans hk) (Token.Kind.ofChar_ne_finish c)
    | other code => exact absurd (hc.symm.trans hk) (Token.Kind.ofChar_ne_other c code)
  | @nested t u inside ts ht _ hu _ ihinside ih =>
    obtain ⟨ms, hms⟩ := ihinside fun v hv => hkinds v (.tail _ (List.mem_append_left _ hv))
    obtain ⟨ns, hns⟩ := ih fun v hv => hkinds v (.tail _ (List.mem_append_right _ (.tail _ hv)))
    exact ⟨_, .expression ht hms hu hns⟩

namespace Statement

/-- A statement is made of tokens of its source. -/
theorem exists_made {ts : List Token} {s : Statement} (hs : s ∈ ofTokenList ts) :
    ∃ before us after, ts = before ++ (us ++ after) ∧ Made after us s := by
  obtain ⟨rs, hrs⟩ := ranged_ofTokenList 0 ts
  obtain ⟨i, hi, rfl⟩ := List.getElem_of_mem hs
  have hmade := hrs.forall₂_made
  obtain ⟨before, us, after, hts, -, hmade⟩ :=
    hmade.get hi (hmade.length_eq ▸ hi)
  exact ⟨before, us, after, hts, hmade⟩

section

variable {input : Input} {s : Statement} {e cause : Error} {p : Position} {note : String}

/-- The error of a statement that is not balanced is at its place. -/
theorem pos_of_error {ts : List Token} (hs : s ∈ ofTokenList ts) (herror : s.error = some e)
    (hmem : .located p cause note ∈ e.chain) : e = .located p cause note ∧ p = s.pos := by
  obtain ⟨before, us, after, -, hmade⟩ := exists_made hs
  have hat : ∀ {t : Token} {reason : Reason} {note' : String},
      Growth.errorAt t reason note' = e → e = .located p cause note ∧ p = t.pos := by
    intro t reason note' he
    subst he
    simp only [Growth.errorAt, Error.chain, List.mem_cons, List.not_mem_nil, or_false,
      reduceCtorEq] at hmem
    cases hmem
    exact ⟨rfl, rfl⟩
  cases hmade with
  | word _ | closed _ _ _ => cases herror
  | unopened _ => exact hat (Option.some.inj herror)
  | unclosed _ _ => exact hat (Option.some.inj herror)

theorem isWord_of_mem {t : Token} (hfault : input.source.fault = none)
    (ht : t ∈ input.source.body) (hk : t.kind = .word) : Text.IsWord t.text :=
  Text.isWord_ofLexeme (Source.isWord_lexeme ht hk) fun hnul =>
    (Input.bytes_of_fault hfault).2.1 (Source.mem_chars_of_mem_lexeme ht hnul)

/-- The text of an expression is read as the expression, counted from where it begins. -/
theorem exists_reread {before inside after : List Token} {t u : Token}
    (hfault : input.source.fault = none)
    (hbody : input.source.body = before ++ (t :: (inside ++ [u]) ++ after))
    (ht : t.kind = .opening) (hinside : Balanced inside) (hu : u.kind = .closing) :
    ∃ n ms, (Source.ofString (ofTokens t (inside ++ [u]) none).text).parseStatement = .ok n
      ∧ Reads (t :: (inside ++ [u])) [.expression (some t) ms]
      ∧ ∀ m : Node, m.Inside n → ∃ k : Node, k.Inside (.expression (some t) ms)
        ∧ k.bare = m.bare ∧ k.pos = t.pos.after m.pos := by
  have hcut : input.source.body = before ++ t :: (inside ++ u :: after) := by
    rw [hbody]
    simp
  have hkinds : ∀ v ∈ inside, ∃ c, v.kind = .ofChar c := by
    intro v hv
    exact Source.exists_kind_eq (by rw [hbody]; simp [hv])
  obtain ⟨ms, hms⟩ := hinside.exists_reads hkinds
  obtain ⟨n, hparse, hmoved⟩ :=
    (Cut.expression hcut ht hms hu).relocates (Input.bytes_of_fault hfault).2.1
  exact ⟨n, ms, hparse, .expression ht hms hu .nil, hmoved⟩

/-- A statement without an error of its own cannot be read only if it is a word of which
nothing is left. -/
theorem blames_of_parse_error (hfault : input.source.fault = none)
    (hs : s ∈ ofTokenList input.source.body) (herror : s.error = none)
    (hparse : (Source.ofString s.text).parseStatement = .error e)
    (hmem : .located p cause note ∈ e.chain) :
    ∃ m, m.Earns cause note ∧ input.source.Blames s p m := by
  obtain ⟨before, us, after, hbody, hmade⟩ := exists_made hs
  cases hmade with
  | unopened _ | unclosed _ _ => cases herror
  | @word t ht =>
    have hword := isWord_of_mem hfault (t := t) (by rw [hbody]; simp) ht
    obtain ⟨-, -, -, hempty, hleaf, -⟩ := madeOf_ofTokens hword
    have hlost : Text.stripped t.text = "" := by
      by_contra hne
      obtain ⟨offset, hok⟩ := hleaf hne
      rw [hok] at hparse
      cases hparse
    rw [hempty hlost] at hparse
    cases hparse
    simp only [Error.chain, List.mem_cons, List.not_mem_nil, or_false, reduceCtorEq] at hmem
    cases hmem
    -- a numeral loses nothing, so the word is a name
    have hname : (Node.ofWord t).symbol? = some t.text := by
      have hnone : Text.numeral? t.text = none := by
        refine Text.numeral?_eq_none_iff.2 fun hnumeral => hword.ne_empty ?_
        rw [← Text.stripped_eq_self_iff.2 hnumeral.isTight, hlost]
      simp [Node.ofWord, hnone, Node.symbol?]
    refine ⟨.ofWord t, .lost hname hlost, ?_⟩
    refine .of_pos ⟨before, after, ?_⟩ rfl (.word ht .nil) .here ?_
    · rw [hbody, List.append_assoc]
    · rw [Position.after_start, Node.pos_ofWord]
      rfl
  | closed ht hinside hu =>
    -- the text of an expression can be read
    obtain ⟨n, -, hok, -⟩ := exists_reread hfault hbody ht hinside hu
    rw [hok] at hparse
    cases hparse

/-- What is read in the text of a statement stands in the source, counted from where the
statement begins. -/
theorem blames_of_holds (hfault : input.source.fault = none)
    (hs : s ∈ ofTokenList input.source.body) {m : Node} (hm : s.Holds m) :
    ∃ k, k.bare = m.bare ∧ input.source.Blames s m.pos k := by
  obtain ⟨herror, token, children, hparse, hinside⟩ := hm
  obtain ⟨before, us, after, hbody, hmade⟩ := exists_made hs
  cases hmade with
  | unopened _ | unclosed _ _ => cases herror
  | @word t ht =>
    -- a word is not read as an expression
    have hword := isWord_of_mem hfault (t := t) (by rw [hbody]; simp) ht
    obtain ⟨-, -, -, hempty, hleaf, -⟩ := madeOf_ofTokens hword
    by_cases hlost : Text.stripped t.text = ""
    · rw [hempty hlost] at hparse
      cases hparse
    · obtain ⟨offset, hok⟩ := hleaf hlost
      rw [hok] at hparse
      exact absurd (Except.ok.inj hparse) (Node.ofWord_ne_expression _ token children)
  | @closed t u inside' ht hbalanced hu =>
    obtain ⟨n, ms, hok, hreads, hmoved⟩ := exists_reread hfault hbody ht hbalanced hu
    rw [hok] at hparse
    cases hparse
    obtain ⟨k, hk, hbare, hpos⟩ := hmoved m hinside
    refine ⟨k, hbare, .of_pos ⟨before, after, ?_⟩ rfl hreads hk hpos⟩
    rw [hbody, List.append_assoc]

end

end Statement

/-- What is inside the bodies of the functions in force. -/
theorem Registry.deep_bodies (r : Registry) : Node.Deep fun m =>
    ∃ symbol params body, .user symbol params body ∈ r.definitions ∧ m.Inside body := by
  rintro n ⟨symbol, params, body, hd, hn⟩ c hc
  exact ⟨symbol, params, body, hd, hn.child hc⟩

/-- A run that gives results has cut a source without a fault into statements. -/
theorem Input.statements_of_run {input : Input} {ctx ctx' : Context} {rs : List StatementResult}
    (h : input.run.run ctx = .done rs ctx') :
    input.source.fault = none
      ∧ (Statement.execAll (Statement.ofTokenList input.source.body)).run ctx = .done rs ctx' := by
  have hfault : input.source.fault = none := by
    refine Source.fault_of_scan ?_
    unfold Input.run at h
    cases hcontents : input.contents with
    | error e => rw [hcontents] at h; cases h
    | ok src =>
      obtain rfl : input.source = src := by
        unfold Input.contents at hcontents
        split at hcontents
        · cases hcontents
        · exact Except.ok.inj hcontents
      rw [hcontents] at h
      simp only [Source.run, Source.statements] at h
      rcases hscan : input.source.scan with ⟨tokens, _ | failure⟩
      · rfl
      · rw [hscan] at h
        cases h
  rw [Input.run_of_fault hfault] at h
  exact ⟨hfault, h⟩

/-- **The places in the errors of a run are counted from the statements that were read.**
Where a statement of a run fails and its error has a place, it is one of these: the place of
the statement in the source, if the statement is not balanced; the place of the node that is
at fault, counted from where the statement begins in which that node was read, which is the
failing statement or one before it; or the place of a node in a function that was in force
before the run.  Counted in this way a place is on the line of the node in the source only if
that statement begins on the first line.  Native code in force may have nodes `N` of its own
evaluated, and the place is that of one of those then; or it complains about a place itself,
and `F` are the complaints that it makes.  Where nothing is known of native code, these are all
nodes and all complaints. -/
theorem error_places_counted_from_statements (input : Input) (ctx ctx' : Context)
    (rs : List StatementResult) (F : Complaints) (N : Node → Prop) (hN : Node.Deep N)
    (hcode : ctx.AllDefined fun d => d.KeepsTo F fun m =>
      (∃ symbol params body, .user symbol params body ∈ ctx.registry.definitions ∧ m.Inside body)
        ∨ N m)
    (hrun : input.run.run ctx = .done rs ctx') :
    input.statements = .ok (rs.map StatementResult.statement)
      ∧ ∀ before r after e p cause note, rs = before ++ r :: after → r.outcome = .error e →
          .located p cause note ∈ e.chain →
          (r.statement.error = some (.located p cause note) ∧ p = r.statement.pos)
            ∨ (∃ q ∈ before ++ [r], ∃ m : Node, m.Earns cause note
                ∧ input.source.Blames q.statement p m)
            ∨ (∃ symbol params body, .user symbol params body ∈ ctx.registry.definitions
                ∧ ∃ m : Node, m.Inside body ∧ m.pos = p ∧ m.Earns cause note)
            ∨ (∃ m, N m ∧ m.pos = p ∧ m.Earns cause note)
            ∨ F p cause note := by
  obtain ⟨hfault, hexec⟩ := Input.statements_of_run hrun
  -- what is in force before the run is deep with the bodies and with the nodes of native code
  have hA := ctx.registry.deep_bodies.or hN
  obtain ⟨hmap, haccounts⟩ := Statement.accounts_of_execAll hA hcode hexec
  have hmem : ∀ q ∈ rs, q.statement ∈ Statement.ofTokenList input.source.body := by
    intro q hq
    rw [← hmap]
    exact List.mem_map_of_mem hq
  refine ⟨by rw [Input.statements_of_fault hfault, hmap], ?_⟩
  intro before r after e p cause note hrs he hlocated
  have hr := hmem r (by rw [hrs]; simp)
  -- the error was made where the source was cut, where the statement was read, or in between
  -- by the evaluation, and then by one of the nodes in force or by native code
  rcases haccounts before r after e hrs he with herror | ⟨herror, hparse⟩ | hplaced
  · obtain ⟨rfl, hp⟩ := Statement.pos_of_error hr herror hlocated
    exact .inl ⟨herror, hp⟩
  · obtain ⟨m, hearns, hblames⟩ :=
      Statement.blames_of_parse_error hfault hr herror hparse hlocated
    exact .inr (.inl ⟨r, by simp, m, hearns, hblames⟩)
  · rcases hplaced p cause note hlocated with ⟨m, hm, rfl, hearns⟩ | hown
    · rcases hm with (⟨symbol, params, body, hd, hinside⟩ | hm) | ⟨q, hq, hm⟩
      · exact .inr (.inr (.inl ⟨symbol, params, body, hd, m, hinside, rfl, hearns⟩))
      · exact .inr (.inr (.inr (.inl ⟨m, hm, rfl, hearns⟩)))
      · have hq' : q ∈ rs := by
          rw [hrs]
          rcases List.mem_append.1 hq with hq | hq
          · exact List.mem_append_left _ hq
          · rw [List.mem_singleton.1 hq]
            simp
        obtain ⟨k, hbare, hblames⟩ := Statement.blames_of_holds hfault (hmem q hq') hm
        exact .inr (.inl ⟨q, hq, k, hearns.of_bare hbare, hblames⟩)
    · exact .inr (.inr (.inr (.inr hown)))

/-- The results of a run as pairs, if it gives any. -/
def Outcome.results? :
    Outcome (List StatementResult) → Option (List (Statement × Except Error Value))
  | done rs _ => some (rs.map fun r => (r.statement, r.outcome))
  | _ => none

theorem Outcome.eq_done_of_results? {o : Outcome (List StatementResult)}
    {pairs : List (Statement × Except Error Value)} (h : o.results? = some pairs) :
    ∃ ctx, o = .done (pairs.map fun p => ⟨p.1, p.2⟩) ctx := by
  cases o with
  | done rs ctx =>
    cases h
    refine ⟨ctx, ?_⟩
    rw [List.map_map]
    exact congrArg (Outcome.done · ctx) (List.map_id rs).symm
  | failed e ctx => cases h
  | halted why ctx => cases h

/-- The body of a function fails when it is called from a later statement, through a form of
native code; the place is counted from the definition, which stands on the second line. -/
theorem error_places_counted_from_statements_called :
    let ctx := Context.new.register (.form "begin" ⟨0, -1⟩ .sequence)
    let input := Input.ofString "1\n(defun f (x)\n  (let x 5))\n(begin (f 2))"
    let note := "let: bindings must be a list, got x"
    ∃ rs ctx', input.run.run ctx = .done rs ctx'
      ∧ rs.map StatementResult.outcome = [.ok (.int 1), .ok .nil,
          .error (.evaluating "(let x 5)" 1 (.located ⟨2, 8⟩ (.because .malformed) note))]
      ∧ ∃ q ∈ rs, ∃ m : Node, m.Earns (.because .malformed) note
          ∧ input.source.Blames q.statement ⟨2, 8⟩ m := by
  intro ctx input note
  have hresults : (input.run.run ctx).results? = some [(⟨"1", ⟨1, 1⟩, none⟩, .ok (.int 1)),
      (⟨"(defun f (x)\n  (let x 5))", ⟨2, 1⟩, none⟩, .ok .nil),
      (⟨"(begin (f 2))", ⟨4, 1⟩, none⟩,
        .error (.evaluating "(let x 5)" 1 (.located ⟨2, 8⟩ (.because .malformed) note)))] := by
    decide +kernel
  obtain ⟨ctx', hrun⟩ := Outcome.eq_done_of_results? hresults
  refine ⟨_, ctx', hrun, rfl, ?_⟩
  have hcore : ∀ d ∈ ctx.registry.definitions,
      d = .form "begin" ⟨0, -1⟩ .sequence ∨ d ∈ Registry.coreDefinitions := by
    intro d hd
    rw [Context.registry_register] at hd
    exact (Registry.mem_place hd).imp_right Registry.mem_of_mem_core
  obtain ⟨-, hplaces⟩ := error_places_counted_from_statements input ctx ctx' _
    (fun _ _ _ => False) (fun _ => False) nofun
    (fun d hd => by
      rcases hcore d hd with rfl | hd
      · rw [Definition.KeepsTo]
        exact Form.keepsTo_sequence
      · refine Definition.IsPlain.keepsTo (.inl hd) ?_
        rintro symbol params body rfl
        exact absurd hd Registry.user_not_mem_core) hrun
  rcases hplaces [_, _] _ [] _ ⟨2, 8⟩ (.because .malformed) note rfl rfl (.tail _ (.head _)) with
    ⟨herror, -⟩ | hblames | ⟨symbol, params, body, hd, -⟩ | ⟨m, hm, -⟩ | hown
  · cases herror
  · exact hblames
  · -- there is no function of the language in force
    rcases hcore _ hd with hd | hd
    · cases hd
    · exact absurd hd Registry.user_not_mem_core
  · cases hm
  · cases hown

/-- A `let` on the second line that fails: the number that is at fault stands on the second
line, and the error says that it is on the first. -/
theorem let_on_second_line_misplaced :
    let input := Input.ofString "1\n(let 5 6)"
    ∃ ctx', input.run.run .new = .done
        [⟨⟨"1", ⟨1, 1⟩, none⟩, .ok (.int 1)⟩,
          ⟨⟨"(let 5 6)", ⟨2, 1⟩, none⟩, .error (.evaluating "(let 5 6)" 0
            (.located ⟨1, 6⟩ (.because .malformed) "let: bindings must be a list, got 5"))⟩] ctx'
      ∧ input.source.body.filter (·.text = "5") = [⟨.word, "5", 7, ⟨2, 6⟩⟩] := by
  intro input
  have hresults : (input.run.run .new).results? = some [(⟨"1", ⟨1, 1⟩, none⟩, .ok (.int 1)),
      (⟨"(let 5 6)", ⟨2, 1⟩, none⟩, .error (.evaluating "(let 5 6)" 0
        (.located ⟨1, 6⟩ (.because .malformed) "let: bindings must be a list, got 5")))] := by
    decide +kernel
  obtain ⟨ctx', hrun⟩ := Outcome.eq_done_of_results? hresults
  exact ⟨ctx', hrun, by decide +kernel⟩

end IntLisp
