/-
  IntLisp.Proofs.Statements
  ─────────────────────────
  **STATEMENTS ARE THE NODES OF THE TREE.**

  A text is cut into statements by counting parentheses, and grown into a
  tree by nesting them.  On tokens that spell nodes the two agree: there is
  one statement for each node, in order.  Then each statement is read again
  from its own text.  Its text is a run of lexemes of the whole text, so it
  is cut into the same lexemes again, and these spell the same node.
-/
import IntLisp.Eval.Run
import IntLisp.Proofs.Reading
import IntLisp.Proofs.Tiling
import Mathlib.Data.List.Forall2

namespace IntLisp

/-! ## §1. Counting parentheses. -/

namespace Statement

variable {t u : Token} {ts us inside rest : List Token}

theorem closedLength?_plain (hopening : t.kind ≠ .opening) (hclosing : t.kind ≠ .closing)
    (depth before : Nat) :
    closedLength? depth before (t :: ts) = closedLength? depth (before + 1) ts := by
  rw [closedLength?]
  cases hk : t.kind <;> first | rfl | exact absurd hk hopening | exact absurd hk hclosing

theorem closedLength?_opening (ht : t.kind = .opening) (depth before : Nat) :
    closedLength? depth before (t :: ts) = closedLength? (depth + 1) (before + 1) ts := by
  rw [closedLength?, ht]

theorem closedLength?_closing (ht : t.kind = .closing) (depth before : Nat) :
    closedLength? (depth + 2) before (t :: ts) = closedLength? (depth + 1) (before + 1) ts := by
  rw [closedLength?, ht]
  exact if_neg (by omega)

/-- Balanced tokens are counted and do not change the depth. -/
theorem closedLength?_append (h : Balanced ts) :
    ∀ (depth before : Nat) (rest : List Token),
      closedLength? (depth + 1) before (ts ++ rest)
        = closedLength? (depth + 1) (before + ts.length) rest := by
  induction h with
  | nil =>
    intro depth before rest
    rfl
  | plain hopening hclosing _ ih =>
    intro depth before rest
    rw [List.cons_append, closedLength?_plain hopening hclosing, ih, List.length_cons]
    congr 1
    omega
  | nested ht _ hu _ ihinside ih =>
    intro depth before rest
    -- one deeper for what is inside, and back before the rest
    rw [List.cons_append, closedLength?_opening ht, List.append_assoc, ihinside,
      List.cons_append, closedLength?_closing hu, ih, List.length_cons, List.length_append,
      List.length_cons]
    congr 1
    omega

theorem splitClosed_balanced (h : Balanced inside) (hu : u.kind = .closing) (rest : List Token) :
    splitClosed (inside ++ u :: rest) = some (inside ++ [u], rest) := by
  have hcount : closedLength? 1 0 (inside ++ u :: rest) = some (inside.length + 1) := by
    rw [closedLength?_append h, closedLength?, hu]
    show some (0 + inside.length + 1) = _
    rw [Nat.zero_add]
  have hsplit : inside ++ u :: rest = (inside ++ [u]) ++ rest := by simp
  have hlength : inside.length + 1 = (inside ++ [u]).length := by simp
  rw [splitClosed, hcount, Option.map_some, hsplit, hlength, List.take_left, List.drop_left]

/-! ## §2. One statement for each node. -/

theorem ofTokenList_blank (ht : t.kind.isBlank = true) : ofTokenList (t :: ts) = ofTokenList ts := by
  rw [ofTokenList]
  cases hk : t.kind <;> rw [hk] at ht <;> first | rfl | cases ht

theorem ofTokenList_word (ht : t.kind = .word) :
    ofTokenList (t :: ts) = ofTokens t [] none :: ofTokenList ts := by
  rw [ofTokenList, ht]

theorem ofTokenList_opening (ht : t.kind = .opening) (h : splitClosed ts = some (us, rest)) :
    ofTokenList (t :: ts) = ofTokens t us none :: ofTokenList rest := by
  rw [ofTokenList, ht]
  dsimp only
  -- the match keeps its equation, so its branches are told apart by `h`
  split
  · rename_i vs rest' h'
    rw [h] at h'
    cases h'
    rfl
  · rename_i h'
    rw [h] at h'
    cases h'

theorem ofTokenList_finish (ht : t.kind = .finish) : ofTokenList [t] = [] := by
  rw [ofTokenList, ht, ofTokenList]

/-- The statement that is cut out of the tokens `ts` for a node. -/
inductive Cut (ts : List Token) : Statement → Node → Prop where
  | word {t : Token} (ht : t.kind = .word) : Cut ts (ofTokens t [] none) (.ofWord t)
  | expression {before inside after : List Token} {t u : Token} {ms : List Node}
      (hts : ts = before ++ t :: (inside ++ u :: after)) (ht : t.kind = .opening)
      (hinside : Reads inside ms) (hu : u.kind = .closing) :
      Cut ts (ofTokens t (inside ++ [u]) none) (.expression (some t) ms)

theorem Cut.append_left {s : Statement} {n : Node} (vs : List Token) (h : Cut ts s n) :
    Cut (vs ++ ts) s n := by
  cases h with
  | word ht => exact .word ht
  | @expression before inside after t u _ hts ht hinside hu =>
    have hts' : vs ++ ts = (vs ++ before) ++ t :: (inside ++ u :: after) := by
      rw [hts, List.append_assoc]
    exact .expression hts' ht hinside hu

/-- **Tokens that spell nodes are cut into one statement for each node.** -/
theorem ofTokenList_append {ns : List Node} (h : Reads ts ns) :
    ∀ rest, ∃ ss, ofTokenList (ts ++ rest) = ss ++ ofTokenList rest
      ∧ List.Forall₂ (Cut ts) ss ns := by
  induction h with
  | nil =>
    intro rest
    exact ⟨[], rfl, .nil⟩
  | @blank t _ _ ht _ ih =>
    intro rest
    obtain ⟨ss, hss, hcut⟩ := ih rest
    refine ⟨ss, ?_, hcut.imp fun _ _ h => h.append_left [t]⟩
    rw [List.cons_append, ofTokenList_blank ht, hss]
  | @word t _ _ ht _ ih =>
    intro rest
    obtain ⟨ss, hss, hcut⟩ := ih rest
    refine ⟨_, ?_, .cons (.word ht) (hcut.imp fun _ _ h => h.append_left [t])⟩
    rw [List.cons_append, ofTokenList_word ht, hss, List.cons_append]
  | @expression t u inside ts _ _ ht hinside hu _ _ ih =>
    intro rest
    obtain ⟨ss, hss, hcut⟩ := ih rest
    -- what is cut out of the rest is cut out of the whole
    have hextend : ∀ s n, Cut ts s n → Cut (t :: (inside ++ u :: ts)) s n := by
      intro s n h
      have h' := h.append_left (t :: (inside ++ [u]))
      rwa [List.cons_append, List.append_assoc] at h'
    refine ⟨_, ?_, .cons (.expression (List.nil_append _).symm ht hinside hu) (hcut.imp hextend)⟩
    rw [List.cons_append, List.append_assoc, List.cons_append,
      ofTokenList_opening ht (splitClosed_balanced hinside.balanced hu _), hss, List.cons_append]

end Statement

/-! ## §3. Reading a statement again. -/

namespace Source

open Token

variable {src : Source} {before us inside after : List Token} {t u : Token} {ms : List Node}

/-- **A run of the tokens of a source, taken as a text of its own, says the same.** -/
theorem map_content_between (h : src.body = before ++ (us ++ after)) :
    (placed 0 Position.start (lexemes (spelling us).toList)).map content = us.map content := by
  have hlexed : Lexed (us.map lexeme) := by
    have hall := lexed_lexemes src.chars
    rw [← map_lexeme_body, h, List.map_append, List.map_append] at hall
    exact hall.right.left
  -- a placed token says what its lexeme says, here as well as there
  have hplaced := (placed_eq_append (placed_eq_append h).2.symm).1
  have hcontent := congrArg (List.map content) hplaced
  rw [map_content_placed] at hcontent
  rw [toList_spelling, hlexed.lexemes_flatten, map_content_placed, hcontent]

theorem toList_spelling_enclosed (h : src.body = before ++ t :: (inside ++ u :: after))
    (ht : t.kind = .opening) (hu : u.kind = .closing) :
    (spelling (t :: (inside ++ [u]))).toList = '(' :: ((spelling inside).toList ++ [')']) := by
  have htmem : t ∈ src.body := by simp [h]
  have humem : u ∈ src.body := by simp [h]
  simp [toList_spelling, lexeme_of_opening htmem ht, lexeme_of_closing humem hu]

/-- **An expression, read again from its own text, is the same expression.** -/
theorem parseStatement_enclosed (hnul : '\x00' ∉ src.chars)
    (h : src.body = before ++ t :: (inside ++ u :: after)) (ht : t.kind = .opening)
    (hinside : Reads inside ms) (hu : u.kind = .closing) :
    ∃ n, (ofString (spelling (t :: (inside ++ [u])))).parseStatement = .ok n
      ∧ n.bare = (Node.expression (some t) ms).bare := by
  have hinfix : src.body = before ++ ((t :: (inside ++ [u])) ++ after) := by simp [h]
  have hchars := toList_spelling_enclosed h ht hu
  have hread : ofString (spelling (t :: (inside ++ [u])))
      = ⟨false, (spelling (t :: (inside ++ [u]))).toList, none⟩ := by
    refine ofString_unmarked ?_ ?_
    · -- a text that begins with a parenthesis begins with no mark
      rw [hchars]
      rfl
    · intro hmem
      refine hnul ?_
      rw [← toList_spelling_body, hinfix]
      simp only [spelling_append, String.toList_append, List.mem_append]
      exact .inr (.inl hmem)
  obtain ⟨ns, hns, hbare⟩ :=
    (Reads.expression ht hinside hu .nil).of_content (map_content_between hinfix)
  obtain ⟨n, rfl, hn⟩ : ∃ n, ns = [n] ∧ n.bare = (Node.expression (some t) ms).bare := by
    simpa [List.map_eq_cons_iff] using hbare
  rw [hread]
  exact ⟨n, parseStatement_of_reads rfl hns, hn⟩

end Source

/-! ## §4. The statements of an accepted input. -/

/-- The parenthesis `u` closes the parenthesis `t` of the source. -/
def Source.Encloses (src : Source) (t u : Token) : Prop :=
  t.kind = .opening ∧ u.kind = .closing
    ∧ ∃ before inside after, src.scan.tokens = before ++ t :: (inside ++ u :: after)
      ∧ Balanced inside

/-- The statement `s` of an input stands for the node `n` of its tree. -/
structure Statement.StandsFor (input : Input) (s : Statement) (n : Node) : Prop where
  error_eq : s.error = none
  pos_eq : s.pos = n.pos
  /-- An expression is written from its opening to its closing parenthesis. -/
  text_eq : ∀ token children, n = .expression token children →
    ∃ t u, token = some t ∧ input.source.Encloses t u
      ∧ s.text.toUTF8 = input.bytes.extract t.offset u.finalOffset
  /-- What is evaluated for an expression differs from it in places only. -/
  eval_eq : ∀ token children, n = .expression token children →
    ∃ n', (Source.ofString s.text).parseStatement = .ok n' ∧ n'.bare = n.bare
      ∧ (Source.ofString s.text).eval = n'.eval

/-- Both ends of an expression are parentheses, so there is nothing to trim. -/
theorem Statement.text_enclosed {src : Source} {before inside after : List Token} {t u : Token}
    (h : src.body = before ++ t :: (inside ++ u :: after)) (ht : t.kind = .opening)
    (hu : u.kind = .closing) :
    (ofTokens t (inside ++ [u]) none).text = Token.spelling (t :: (inside ++ [u])) := by
  refine String.toList_injective ?_
  show (Text.trim (Token.spelling (t :: (inside ++ [u])))).toList = _
  rw [Text.toList_trim, Source.toList_spelling_enclosed h ht hu]
  exact Text.trimChars_enclosed rfl rfl _

theorem Source.encloses_of_body {src : Source} {before inside after : List Token} {t u : Token}
    (hfault : src.fault = none) (h : src.body = before ++ t :: (inside ++ u :: after))
    (ht : t.kind = .opening) (hinside : Balanced inside) (hu : u.kind = .closing) :
    src.Encloses t u := by
  obtain ⟨e, -, hscan⟩ := scan_eq_body hfault
  refine ⟨ht, hu, before, inside, after ++ [e], ?_, hinside⟩
  rw [hscan]
  simp [h]

theorem Statement.Cut.standsFor {input : Input} {s : Statement} {n : Node}
    (hfault : input.source.fault = none) (h : Cut input.source.body s n) :
    StandsFor input s n := by
  cases h with
  | @word t ht =>
    refine ⟨rfl, (Node.pos_ofWord t).symm, ?_, ?_⟩
    · intro token children h
      exact absurd h (Node.ofWord_ne_expression t token children)
    · intro token children h
      exact absurd h (Node.ofWord_ne_expression t token children)
  | @expression before inside after t u ms hbody ht hinside hu =>
    have htext := text_enclosed hbody ht hu
    refine ⟨rfl, rfl, ?_, ?_⟩
    · intro token children h
      cases h
      have hinfix : input.source.body = before ++ ((t :: (inside ++ [u])) ++ after) := by
        simp [hbody]
      have hlast : input.source.body = (before ++ t :: inside) ++ u :: after := by
        simp [hbody]
      refine ⟨t, u, rfl, Source.encloses_of_body hfault hbody ht hinside.balanced hu, ?_⟩
      rw [htext, Input.extract_between hfault hinfix (List.cons_ne_nil _ _),
        Token.offset_of_placed hbody, Token.finalOffset_of_placed hlast, List.append_assoc,
        List.cons_append]
    · intro token children h
      cases h
      obtain ⟨-, hnul, -⟩ := Input.bytes_of_fault hfault
      obtain ⟨n, hparse, hbare⟩ := Source.parseStatement_enclosed hnul hbody ht hinside hu
      rw [htext]
      refine ⟨n, hparse, hbare, ?_⟩
      rw [Source.eval, hparse]
      rfl

/-- **The statements of an input that is accepted stand for the nodes of its tree,
one for one.** -/
theorem statements_agree (input : Input) (root : Node) (h : input.source.parse = .ok root) :
    ∃ ss, input.statements = .ok ss ∧ input.run = Statement.execAll ss
      ∧ List.Forall₂ (Statement.StandsFor input) ss root.children := by
  obtain ⟨hfault, ns, rfl, hns⟩ := Source.parse_eq_ok_iff.1 h
  obtain ⟨e, he, hscan⟩ := Source.scan_eq_body hfault
  obtain ⟨ss, hss, hcut⟩ := Statement.ofTokenList_append hns [e]
  rw [Statement.ofTokenList_finish he, List.append_nil] at hss
  have hcontents : input.contents = .ok input.source := by
    rw [Input.contents, (Input.bytes_of_fault hfault).1]
  have hstatements : input.source.statements = .ok ss := by
    simp only [Source.statements, hscan, hss]
  refine ⟨ss, ?_, ?_, hcut.imp fun s n h => h.standsFor hfault⟩
  · rw [Input.statements, hcontents]
    exact hstatements
  · rw [Input.run, hcontents]
    simp only [Source.run, hstatements]

/-- A text with a mark, a comment that holds parentheses, letters of two bytes and
a word of its own. -/
theorem statements_agree_marked :
    let input := Input.ofString "\uFEFF; é(\n(add 1 (f;)\n) ü) x"
    ∃ root, input.source.parse = .ok root ∧ root.encode = "(add 1 (f) ü) x"
      ∧ ∃ ss, input.statements = .ok ss ∧ input.run = Statement.execAll ss
        ∧ List.Forall₂ (Statement.StandsFor input) ss root.children := by
  intro input
  have hencode : Node.encode <$> input.source.parse = .ok "(add 1 (f) ü) x" := by
    decide +kernel
  cases hparse : input.source.parse with
  | error e =>
    rw [hparse] at hencode
    cases hencode
  | ok root =>
    rw [hparse] at hencode
    exact ⟨root, rfl, Except.ok.inj hencode, statements_agree input root hparse⟩

end IntLisp
