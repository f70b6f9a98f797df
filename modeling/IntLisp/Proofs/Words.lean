/-
  IntLisp.Proofs.Words
  ────────────────────
  **BARE WORDS, READ TWICE.**

  A word that stands outside of all parentheses is a leaf of the tree and a
  statement.  The statement is kept as a text, without the white space at its
  ends, and that text is read again as a text of its own, which may begin
  with a byte order mark.  A word may itself begin or end with characters
  that are white space, or begin with the mark: what is left of it is
  `Text.stripped`, and it is another word, or none.

  So a word that stands alone is run as it is read exactly if it loses
  nothing.  No numeral loses anything.
-/
import IntLisp.Proofs.Canonical
import IntLisp.Proofs.Cutting

namespace IntLisp

/-! ## §1. What a word loses. -/

namespace Source

theorem dropMark_sublist (cs : List Char) : (dropMark cs).Sublist cs := by
  unfold dropMark
  split
  · exact List.tail_sublist cs
  · exact List.Sublist.refl cs

theorem dropMark_eq_self_iff {cs : List Char} :
    dropMark cs = cs ↔ ∀ c, cs.head? = some c → c ≠ byteOrderMark := by
  cases cs with
  | nil => simp [dropMark]
  | cons c cs => simp [dropMark, isMarked]

end Source

namespace Text

/-- What is left of the word `w` when the text of its statement is read again. -/
def stripped (w : String) : String := String.ofList (Source.dropMark (trimChars w.toList))

/-- A word that begins with no white space and no byte order mark, and ends with no
white space. -/
structure IsTight (w : String) : Prop where
  head : ∀ c, w.toList.head? = some c → isBlank c = false ∧ c ≠ byteOrderMark
  last : ∀ c, w.toList.getLast? = some c → isBlank c = false

theorem trimStart_sublist (cs : List Char) : (trimStart cs).Sublist cs :=
  List.dropWhile_sublist isBlank

theorem trimEnd_sublist (cs : List Char) : (trimEnd cs).Sublist cs := by
  have h := (List.dropWhile_sublist isBlank (l := cs.reverse)).reverse
  rwa [List.reverse_reverse] at h

theorem trimChars_sublist (cs : List Char) : (trimChars cs).Sublist cs :=
  (trimEnd_sublist _).trans (trimStart_sublist cs)

theorem stripped_sublist (w : String) : (stripped w).toList.Sublist w.toList := by
  rw [stripped, String.toList_ofList]
  exact (Source.dropMark_sublist _).trans (trimChars_sublist _)

theorem trimStart_eq_self_iff {cs : List Char} :
    trimStart cs = cs ↔ ∀ c, cs.head? = some c → isBlank c = false := by
  cases cs with
  | nil => simp [trimStart]
  | cons c cs => simp [trimStart]

theorem trimEnd_eq_self_iff {cs : List Char} :
    trimEnd cs = cs ↔ ∀ c, cs.getLast? = some c → isBlank c = false := by
  rw [trimEnd, ← List.head?_reverse, ← trimStart_eq_self_iff, trimStart, List.reverse_eq_iff]

/-- **A word is left as it is exactly if it is tight.** -/
theorem stripped_eq_self_iff {w : String} : stripped w = w ↔ IsTight w := by
  have htoList : stripped w = w ↔ Source.dropMark (trimChars w.toList) = w.toList := by
    rw [← String.toList_inj, stripped, String.toList_ofList]
  rw [htoList]
  constructor
  · intro h
    -- each of the three steps can only shorten, so none of them does anything
    have htrim : trimChars w.toList = w.toList := by
      refine (trimChars_sublist _).eq_of_length_le ?_
      rw [← congrArg List.length h]
      exact (Source.dropMark_sublist _).length_le
    have hstart : trimStart w.toList = w.toList := by
      refine (trimStart_sublist _).eq_of_length_le ?_
      rw [← congrArg List.length htrim]
      exact (trimEnd_sublist _).length_le
    have hend : trimEnd w.toList = w.toList := by
      rwa [trimChars, hstart] at htrim
    rw [htrim] at h
    exact ⟨fun c hc => ⟨trimStart_eq_self_iff.1 hstart c hc, Source.dropMark_eq_self_iff.1 h c hc⟩,
      trimEnd_eq_self_iff.1 hend⟩
  · intro h
    have hstart : trimStart w.toList = w.toList :=
      trimStart_eq_self_iff.2 fun c hc => (h.head c hc).1
    have hend : trimEnd w.toList = w.toList := trimEnd_eq_self_iff.2 h.last
    have hmark : Source.dropMark w.toList = w.toList :=
      Source.dropMark_eq_self_iff.2 fun c hc => (h.head c hc).2
    rw [trimChars, hstart, hend, hmark]

/-- What is left of a word is a word, if anything is left. -/
theorem IsWord.stripped {w : String} (h : IsWord w) (hne : stripped w ≠ "") :
    IsWord (stripped w) where
  ne_empty := hne
  not_reserved := fun c hc => h.not_reserved c ((stripped_sublist w).subset hc)

/-- A numeral is made of characters that no word loses. -/
theorem IsNumeral.isTight {w : String} (h : IsNumeral w) : IsTight w := by
  have hkept : ∀ c ∈ w.toList, isBlank c = false ∧ c ≠ byteOrderMark := by
    intro c hc
    rcases h.sign_or_digit hc with rfl | rfl | hdigit
    · decide
    · decide
    · obtain ⟨hlow, hhigh⟩ : 48 ≤ c.toNat ∧ c.toNat ≤ 57 := Char.isDigit_iff_toNat.1 hdigit
      refine ⟨?_, ?_⟩
      · simp [isBlank]
        omega
      · rintro rfl
        revert hhigh
        decide
  exact ⟨fun c hc => hkept c (List.mem_of_head? hc),
    fun c hc => (hkept c (List.mem_of_getLast? hc)).1⟩

end Text

/-! ## §2. Reading a word again. -/

namespace Source

open Token

/-- A text without a lexeme has no statement. -/
theorem parseStatement_nil (marked : Bool) :
    (⟨marked, [], none⟩ : Source).parseStatement
      = .error (.located .start (.because .emptyStatement) "") := by
  have hbody : (⟨marked, [], none⟩ : Source).body = [] := by
    rw [body, lexemes_nil]
    rfl
  have hparse : (⟨marked, [], none⟩ : Source).parse = .ok (.list none []) := by
    refine parse_eq_ok_iff.2 ⟨rfl, [], rfl, ?_⟩
    rw [hbody]
    exact .nil
  rw [parseStatement, hparse]
  rfl

/-- A text that is one word is read as this word. -/
theorem parseStatement_word (marked : Bool) {cs : List Char} (h : Token.IsWord cs) :
    ∃ offset, (⟨marked, cs, none⟩ : Source).parseStatement
      = .ok (.ofWord ⟨.word, String.ofList cs, offset, .start⟩) := by
  have hlexemes : lexemes cs = [cs] := by
    have hlexed : Lexed [cs] := .word h (fun x hx => by cases hx) .nil
    simpa using hlexed.lexemes_flatten
  refine ⟨(⟨marked, cs, none⟩ : Source).firstOffset, parseStatement_of_reads rfl ?_⟩
  rw [body, hlexemes, placed, placed, h.kind]
  exact .word rfl .nil

variable {w : String}

theorem ofString_trim (h : Text.IsWord w) :
    ∃ marked, ofString (Text.trim w) = ⟨marked, (Text.stripped w).toList, none⟩ := by
  have hnul : '\x00' ∉ (Text.trim w).toList := by
    rw [Text.toList_trim]
    exact fun hmem => h.nul_not_mem ((Text.trimChars_sublist _).subset hmem)
  rw [ofString_eq hnul, Text.toList_trim, Text.stripped, String.toList_ofList]
  exact ⟨_, rfl⟩

/-- **The statement of a word is read as what is left of the word.** -/
theorem parseStatement_trim (h : Text.IsWord w) :
    (Text.stripped w = "" →
        (ofString (Text.trim w)).parseStatement
          = .error (.located .start (.because .emptyStatement) ""))
      ∧ (Text.stripped w ≠ "" →
          ∃ offset, (ofString (Text.trim w)).parseStatement
            = .ok (.ofWord ⟨.word, Text.stripped w, offset, .start⟩)) := by
  obtain ⟨marked, hsource⟩ := ofString_trim h
  rw [hsource]
  refine ⟨fun hempty => ?_, fun hne => ?_⟩
  · rw [hempty]
    exact parseStatement_nil marked
  · have hword := parseStatement_word marked (h.stripped hne).toList
    rwa [String.ofList_toList] at hword

end Source

theorem Node.isWord_of_isSpellable {t : Token} (h : (ofWord t).IsSpellable) :
    Text.IsWord t.text := by
  unfold ofWord at h
  split at h
  · next z hz => exact (Text.isSome_numeral?_iff.1 (Option.isSome_of_eq_some hz)).isWord
  · rw [IsSpellable] at h
    exact h.toIsWord

theorem Node.ofWord_injective : Function.Injective ofWord := by
  have htoken : ∀ t : Token, (ofWord t).token? = some t := by
    intro t
    unfold ofWord
    split <;> rfl
  intro t u h
  exact Option.some.inj (by rw [← htoken t, h, htoken u])

/-- What is left of a word is the same leaf exactly if it is the same word. -/
theorem Node.bare_ofWord_stripped_iff {t u : Token} (hu : u.text = Text.stripped t.text) :
    (ofWord u).bare = (ofWord t).bare ↔ Text.IsTight t.text := by
  constructor
  · intro hbare
    by_contra hloose
    have hnone : Text.numeral? t.text = none :=
      Text.numeral?_eq_none_iff.2 fun hnumeral => hloose hnumeral.isTight
    -- a word that loses something is a name, and it would be the name that is left
    rw [ofWord, ofWord, hnone, hu] at hbare
    split at hbare
    · cases hbare
    · exact hloose (Text.stripped_eq_self_iff.1 (Node.symbol.inj hbare).2)
  · intro htight
    exact bare_ofWord (hu.trans (Text.stripped_eq_self_iff.2 htight))

/-! ## §3. What a word stands for. -/

namespace Context

/-- What the word `w` stands for. -/
def meaning (ctx : Context) (w : String) : Except Error Value :=
  match Text.numeral? w with
  | some z => .ok (.int z)
  | none =>
    match ctx.lookup w with
    | some v => .ok v
    | none => .error (.evaluating w ctx.depth (.unboundSymbol w))

/-- What the statement of the word `w` ends with. -/
def meaningAgain (ctx : Context) (w : String) : Except Error Value :=
  if Text.stripped w = "" then .error (.located .start (.because .emptyStatement) "")
  else ctx.meaning (Text.stripped w)

variable {ctx : Context} {w : String}

theorem meaning_trace (event : Context → Event) : (ctx.trace event).meaning w = ctx.meaning w := by
  simp [meaning, lookup, depth]

theorem meaningAgain_trace (event : Context → Event) :
    (ctx.trace event).meaningAgain w = ctx.meaningAgain w := by
  rw [meaningAgain, meaning_trace, meaningAgain]

theorem meaningAgain_of_isTight (hw : w ≠ "") (h : Text.IsTight w) :
    ctx.meaningAgain w = ctx.meaning w := by
  rw [meaningAgain, Text.stripped_eq_self_iff.2 h, if_neg hw]

theorem meaning_of_unbound (hnumeral : Text.numeral? w = none) (h : ctx.lookup w = none) :
    ctx.meaning w = .error (.evaluating w ctx.depth (.unboundSymbol w)) := by
  simp only [meaning, hnumeral, h]

/-- Only the name itself is ever called unbound. -/
theorem eq_of_unbound_meaning {name : String} {e : Error} (h : ctx.meaning w = .error e)
    (hname : .unboundSymbol name ∈ e.chain) : name = w := by
  unfold meaning at h
  split at h
  · cases h
  · split at h
    · cases h
    · cases h
      simpa [Error.chain] using hname

/-- A word that loses something is not what is found to be unbound. -/
theorem unbound_not_mem_meaningAgain (hloose : ¬ Text.IsTight w) {e : Error}
    (h : ctx.meaningAgain w = .error e) : .unboundSymbol w ∉ e.chain := by
  unfold meaningAgain at h
  intro hmem
  split at h
  · cases h
    simp [Error.chain] at hmem
  · exact hloose (Text.stripped_eq_self_iff.1 (eq_of_unbound_meaning h hmem).symm)

end Context

namespace Node

/-- A leaf is evaluated to what its word stands for, and nothing else happens. -/
theorem attempt_eval_ofWord (t : Token) (ctx : Context) :
    (ofWord t).eval.attempt.run ctx = .done (ctx.meaning t.text) ctx := by
  unfold ofWord Context.meaning
  cases Text.numeral? t.text with
  | some z => rfl
  | none =>
    show (Eval.within (symbol (some t) t.text) (evalHere _ (symbol (some t) t.text))).attempt.run ctx
      = _
    cases hlookup : ctx.lookup t.text with
    | some v =>
      simp [Eval.attempt, Eval.within, Eval.recover, evalHere, evalWith, Eval.run_bind, hlookup]
    | none =>
      simp [Eval.attempt, Eval.within, Eval.recover, evalHere, evalWith, Eval.run_bind, hlookup,
        Eval.nameNode, Error.isTraced, Error.chain, Error.namesExpression, encode]

/-- A list of one node is evaluated as this node is. -/
theorem eval_list_singleton (token : Option Token) (n : Node) : (list token [n]).eval = n.eval := by
  have hwith : ∀ engine, (list token [n]).evalWith engine = n.evalWith engine := by
    intro engine
    rw [evalWith, evalLast]
    simp only [evalLast, bind_pure]
  have hencode : (list token [n]).encode = n.encode := by
    simp [encode, encodeAll]
  -- an error names a node by its text
  have hname : Eval.nameNode (list token [n]) = Eval.nameNode n := by
    funext e ctx
    rw [Eval.nameNode, Eval.nameNode, hencode]
  show Eval.within (list token [n]) ((list token [n]).evalHere _) = Eval.within n (n.evalHere _)
  unfold Eval.within evalHere
  simp only [hwith, hname]

end Node

/-- **A statement that is made of a word ends with what is left of the word.** -/
theorem Source.attempt_eval_trim {w : String} (h : Text.IsWord w) (ctx : Context) :
    (ofString (Text.trim w)).eval.attempt.run ctx = .done (ctx.meaningAgain w) ctx := by
  obtain ⟨hempty, hleaf⟩ := parseStatement_trim h
  unfold Source.eval Context.meaningAgain
  by_cases hw : Text.stripped w = ""
  · rw [hempty hw, if_pos hw]
    rfl
  · obtain ⟨offset, hparse⟩ := hleaf hw
    rw [hparse, if_neg hw, Eval.ofExcept, pure_bind, Node.attempt_eval_ofWord]

namespace Statement

variable {s : Statement} {ctx ctx₁ : Context} {r : Except Error Value}

/-- A statement without an error of its own ends as its text does. -/
theorem exists_run_exec (herror : s.error = none)
    (h : (Source.ofString s.text).eval.attempt.run (ctx.trace fun _ => .starting s.text)
      = .done r ctx₁) :
    ∃ ctx', s.exec.run ctx = .done ⟨s, r⟩ ctx' := by
  -- what is done before and behind the evaluation of the text is only logged
  unfold exec eval
  simp only [herror, Eval.trace, Eval.run_bind, Eval.attempt, Eval.run_modify, Eval.run_pure] at h ⊢
  cases hrun : (Source.ofString s.text).eval.run (ctx.trace fun _ => .starting s.text) with
  | done v ctx' =>
    rw [hrun] at h
    cases h
    exact ⟨_, rfl⟩
  | failed e ctx' =>
    rw [hrun] at h
    cases h
    exact ⟨_, rfl⟩
  | halted why ctx' =>
    rw [hrun] at h
    cases h

theorem run_execAll_singleton {r : StatementResult} {ctx' : Context}
    (h : s.exec.run ctx = .done r ctx') : (execAll [s]).run ctx = .done [r] ctx' := by
  simp only [execAll, Eval.run_bind, h, Eval.run_pure]

end Statement

/-! ## §4. Words outside of all parentheses. -/

/-- The statement `s` is made of the word `t`, and read again as what is left of it. -/
structure Statement.MadeOf (s : Statement) (t : Token) : Prop where
  isWord : Text.IsWord t.text
  error_eq : s.error = none
  text_eq : s.text = Text.trim t.text
  /-- A word of which nothing is left is no statement. -/
  empty : Text.stripped t.text = "" →
    (Source.ofString s.text).parseStatement = .error (.located .start (.because .emptyStatement) "")
  leaf : Text.stripped t.text ≠ "" →
    ∃ offset, (Source.ofString s.text).parseStatement
      = .ok (.ofWord ⟨.word, Text.stripped t.text, offset, .start⟩)
  /-- Only a word that loses nothing is the same leaf again. -/
  same_iff : (∃ n, (Source.ofString s.text).parseStatement = .ok n ∧ n.bare = (Node.ofWord t).bare)
    ↔ Text.IsTight t.text

namespace Statement

variable {s : Statement} {t : Token}

theorem madeOf_ofTokens (h : Text.IsWord t.text) : (ofTokens t [] none).MadeOf t := by
  have htext : (ofTokens t [] none).text = Text.trim t.text := by
    simp [ofTokens, Token.spelling]
  obtain ⟨hempty, hleaf⟩ := Source.parseStatement_trim h
  rw [← htext] at hempty hleaf
  refine ⟨h, rfl, htext, hempty, hleaf, ?_⟩
  by_cases hw : Text.stripped t.text = ""
  · -- nothing is read again, and a word is not empty
    have hloose : ¬ Text.IsTight t.text := by
      intro htight
      rw [Text.stripped_eq_self_iff.2 htight] at hw
      exact h.ne_empty hw
    simp [hempty hw, hloose]
  · obtain ⟨offset, hparse⟩ := hleaf hw
    simp [hparse, Node.bare_ofWord_stripped_iff]

theorem forall₂_madeOf {ts : List Token} {ss : List Statement} {ns : List Node}
    (h : List.Forall₂ (Cut ts) ss ns) (hns : Node.AllSpellable ns) :
    List.Forall₂ (fun s n => (∀ token children, n ≠ .expression token children) →
      ∃ t, n = .ofWord t ∧ s.MadeOf t) ss ns := by
  induction h with
  | nil => exact .nil
  | cons hcut _ ih =>
    rw [Node.AllSpellable] at hns
    refine .cons (fun hleaf => ?_) (ih hns.2)
    cases hcut with
    | @word t ht => exact ⟨t, rfl, madeOf_ofTokens (Node.isWord_of_isSpellable hns.1)⟩
    | expression _ _ _ _ => exact absurd rfl (hleaf _ _)

theorem MadeOf.run_execAll (h : s.MadeOf t) (ctx : Context) :
    ∃ ctx', (execAll [s]).run ctx = .done [⟨s, ctx.meaningAgain t.text⟩] ctx' := by
  have htext := Source.attempt_eval_trim h.isWord (ctx.trace fun _ => .starting s.text)
  rw [Context.meaningAgain_trace, ← h.text_eq] at htext
  obtain ⟨ctx', hexec⟩ := exists_run_exec h.error_eq htext
  exact ⟨ctx', run_execAll_singleton hexec⟩

end Statement

/-- The statements of an accepted input, and what becomes of its words. -/
theorem Input.madeOf_of_parse {input : Input} {root : Node} (h : input.source.parse = .ok root) :
    ∃ ss, input.statements = .ok ss ∧ input.run = Statement.execAll ss
      ∧ List.Forall₂ (fun s n => (∀ token children, n ≠ .expression token children) →
          ∃ t, n = .ofWord t ∧ s.MadeOf t) ss root.children := by
  obtain ⟨hfault, ns, rfl, hns⟩ := Source.parse_eq_ok_iff.1 h
  obtain ⟨ms, hms, hspellable⟩ := allSpellable_of_parse h
  cases hms
  obtain ⟨ss, hss, hcut⟩ := Statement.ofTokenList_append hns []
  rw [List.append_nil, Statement.ofTokenList, List.append_nil] at hss
  refine ⟨ss, ?_, ?_, Statement.forall₂_madeOf hcut hspellable⟩
  · rw [statements_of_fault hfault, hss]
  · rw [run_of_fault hfault, hss]

theorem Input.madeOf_of_parse_word {input : Input} {root : Node} {t : Token}
    (h : input.source.parse = .ok root) (hroot : root.children = [.ofWord t]) :
    ∃ s, input.statements = .ok [s] ∧ input.run = Statement.execAll [s] ∧ s.MadeOf t := by
  obtain ⟨ss, hss, hrun, hmade⟩ := madeOf_of_parse h
  rw [hroot] at hmade
  cases hmade with
  | cons hs hnil =>
    cases hnil
    obtain ⟨u, hu, hmade⟩ := hs (Node.ofWord_ne_expression t)
    cases Node.ofWord_injective hu
    exact ⟨_, hss, hrun, hmade⟩

/-- **A word outside of all parentheses is run as what is left of it, and that is the word
itself exactly if it is tight.**  An input that is one word alone then runs as its tree is
evaluated, in every context; and if it loses something, its tree is found to be unbound
where nothing binds the word, and the run is not. -/
theorem bare_words_run (input : Input) (root : Node) (h : input.source.parse = .ok root) :
    ∃ ss, input.statements = .ok ss
      ∧ List.Forall₂ (fun s n => (∀ token children, n ≠ .expression token children) →
          ∃ t, n = .ofWord t ∧ s.MadeOf t) ss root.children
      ∧ ∀ t, root.children = [.ofWord t] → ∃ s, ss = [s] ∧ ∀ ctx, ∃ r ctx',
          input.run.run ctx = .done [⟨s, r⟩] ctx'
            ∧ (Text.IsTight t.text → root.eval.attempt.run ctx = .done r ctx)
            ∧ (¬ Text.IsTight t.text → ctx.lookup t.text = none →
                root.eval.attempt.run ctx
                    = .done (.error (.evaluating t.text ctx.depth (.unboundSymbol t.text))) ctx
                  ∧ ∀ e, r = .error e → .unboundSymbol t.text ∉ e.chain) := by
  obtain ⟨ss, hss, -, hmade⟩ := Input.madeOf_of_parse h
  refine ⟨ss, hss, hmade, ?_⟩
  intro t hroot
  obtain ⟨s, hs, hrun, hmade⟩ := Input.madeOf_of_parse_word h hroot
  rw [hss] at hs
  refine ⟨s, Except.ok.inj hs, fun ctx => ?_⟩
  obtain ⟨ctx', hexec⟩ := hmade.run_execAll ctx
  have heval : root.eval.attempt.run ctx = .done (ctx.meaning t.text) ctx := by
    obtain ⟨-, ns, rfl, -⟩ := Source.parse_eq_ok_iff.1 h
    cases hroot
    rw [Node.eval_list_singleton, Node.attempt_eval_ofWord]
  refine ⟨ctx.meaningAgain t.text, ctx', ?_, ?_, ?_⟩
  · rw [hrun, hexec]
  · intro htight
    rw [heval, Context.meaningAgain_of_isTight hmade.isWord.ne_empty htight]
  · intro hloose hunbound
    have hnone : Text.numeral? t.text = none :=
      Text.numeral?_eq_none_iff.2 fun hnumeral => hloose hnumeral.isTight
    refine ⟨?_, fun e he => Context.unbound_not_mem_meaningAgain hloose he⟩
    rw [heval, Context.meaning_of_unbound hnone hunbound]

/-- White space inside a word is a part of it that is never lost. -/
theorem bare_words_run_inside :
    let input := Input.ofString "\n a\u00A0b"
    let t : Token := ⟨.word, "a\u00A0b", 2, ⟨2, 2⟩⟩
    Text.IsTight t.text ∧ ∃ root s, input.source.parse = .ok root
      ∧ root.children = [.ofWord t] ∧ input.statements = .ok [s]
      ∧ ∀ ctx, ∃ r ctx', input.run.run ctx = .done [⟨s, r⟩] ctx'
          ∧ root.eval.attempt.run ctx = .done r ctx := by
  intro input t
  have htight : Text.IsTight t.text := Text.stripped_eq_self_iff.1 (by decide)
  have hbody : input.source.body = [⟨.newline, "\n", 0, ⟨1, 1⟩⟩, ⟨.separator, " ", 1, ⟨2, 1⟩⟩, t] := by
    decide +kernel
  have hparse : input.source.parse = .ok (.list none [.ofWord t]) := by
    refine Source.parse_eq_ok_iff.2 ⟨by decide +kernel, _, rfl, ?_⟩
    rw [hbody]
    exact .blank rfl (.blank rfl (.word rfl .nil))
  obtain ⟨ss, hss, -, halone⟩ := bare_words_run input _ hparse
  obtain ⟨s, rfl, hrun⟩ := halone t rfl
  refine ⟨htight, _, s, hparse, rfl, hss, fun ctx => ?_⟩
  obtain ⟨r, ctx', hexec, hsame, -⟩ := hrun ctx
  exact ⟨r, ctx', hexec, hsame htight⟩

/-- A no-break space before a digit makes a name, and the run of it the number. -/
theorem bare_word_run_as_number :
    let input := Input.ofString "\u00A05"
    ∃ root s ctx', input.source.parse = .ok root
      ∧ root.eval.attempt.run Context.new
          = .done (.error (.evaluating "\u00A05" 0 (.unboundSymbol "\u00A05"))) Context.new
      ∧ input.run.run Context.new = .done [⟨s, .ok (.int 5)⟩] ctx' := by
  intro input
  let t : Token := ⟨.word, "\u00A05", 0, ⟨1, 1⟩⟩
  have hbody : input.source.body = [t] := by decide +kernel
  have hparse : input.source.parse = .ok (.list none [.ofWord t]) := by
    refine Source.parse_eq_ok_iff.2 ⟨by decide +kernel, _, rfl, ?_⟩
    rw [hbody]
    exact .word rfl .nil
  obtain ⟨s, -, hrun, hmade⟩ := Input.madeOf_of_parse_word hparse rfl
  obtain ⟨ctx', hexec⟩ := hmade.run_execAll Context.new
  have hname : Context.new.meaning "\u00A05"
      = .error (.evaluating "\u00A05" 0 (.unboundSymbol "\u00A05")) :=
    Context.meaning_of_unbound (by decide) rfl
  have hnumber : Context.new.meaningAgain "\u00A05" = .ok (.int 5) := by
    have hstripped : Text.stripped "\u00A05" = "5" := by decide
    have hnumeral : Text.numeral? "5" = some 5 := by decide
    simp [Context.meaningAgain, Context.meaning, hstripped, hnumeral]
  refine ⟨_, s, ctx', hparse, ?_, ?_⟩
  · rw [Node.eval_list_singleton, Node.attempt_eval_ofWord, hname]
  · rw [hrun, hexec, hnumber]

end IntLisp
