/-
  IntLisp.Proofs.Canonical
  ────────────────────────
  **CANONICAL TEXTS ARE READ BACK.**

  The canonical text of a node is built from texts, and read as tokens.  The
  two meet in the pieces of the text: `pieces n` are the lexemes of the
  canonical text of `n`, and have three properties, each by induction on the
  node:

    • together they are the canonical text,
    • each stops where the next one begins, so the scanner finds them again,
    • as tokens they spell the node.

  What is read from any text can be written in this way, so its canonical
  text says all about it but where it stood.
-/
import IntLisp.Proofs.Encoding
import IntLisp.Proofs.Numeral
import IntLisp.Proofs.Reading

namespace IntLisp

/-! ## §1. Nodes that a text can spell. -/

/-- The characters that no word holds. -/
def Text.reserved : List Char := ['\x00', '(', ')', ';', '\n', ' ', '\t', '\x0c', '\r']

/-- A word of the language. -/
structure Text.IsWord (w : String) : Prop where
  ne_empty : w ≠ ""
  not_reserved : ∀ c ∈ w.toList, c ∉ Text.reserved

/-- A word that is no numeral. -/
structure Text.IsName (w : String) : Prop extends Text.IsWord w where
  not_numeral : ¬ Text.IsNumeral w

namespace Text

theorem IsWord.nul_not_mem {w : String} (h : IsWord w) : '\x00' ∉ w.toList := by
  intro hnul
  exact h.not_reserved _ hnul (.head _)

/-- The scanner takes a word for one. -/
theorem IsWord.toList {w : String} (h : IsWord w) : Token.IsWord w.toList := by
  refine ⟨?_, ?_⟩
  · intro hnil
    exact h.ne_empty (String.toList_eq_nil_iff.1 hnil)
  · intro c hc
    exact Token.Kind.ofChar_eq_word_iff.2 fun hmem => h.not_reserved c hc (.tail _ hmem)

theorem isWord_ofLexeme {w : String} (h : Token.IsWord w.toList) (hnul : '\x00' ∉ w.toList) :
    IsWord w where
  ne_empty := by
    intro hempty
    exact h.1 (String.toList_eq_nil_iff.2 hempty)
  not_reserved := by
    intro c hc hmem
    cases hmem with
    | head => exact hnul hc
    | tail _ hmem => exact Token.Kind.ofChar_eq_word_iff.1 (h.2 c hc) hmem

/-- Every numeral is a word. -/
theorem IsNumeral.isWord {w : String} (h : IsNumeral w) : IsWord w := by
  have hreserved : ∀ c ∈ reserved, c.isDigit = false ∧ c ≠ '+' ∧ c ≠ '-' := by
    simp [reserved]
  refine ⟨?_, ?_⟩
  · rintro rfl
    obtain ⟨sign, digits, hw, -, hne, -⟩ := h
    exact hne (List.append_eq_nil_iff.1 hw.symm).2
  · intro c hc hmem
    obtain ⟨hdigit, hplus, hminus⟩ := hreserved c hmem
    rcases h.sign_or_digit hc with hc | hc | hc
    · exact hplus hc
    · exact hminus hc
    · rw [hc] at hdigit
      cases hdigit

theorem isWord_decimal (z : Int) : IsWord (decimal z) := (isNumeral_decimal z).isWord

end Text

namespace Node

mutual
/-- The node is made of parentheses, numerals and names. -/
def IsSpellable : Node → Prop
  | int _ _ => True
  | symbol _ name => Text.IsName name
  | expression _ children => AllSpellable children
  | list _ _ | foreign _ _ _ => False
/-- All nodes of a list are spellable. -/
def AllSpellable : List Node → Prop
  | [] => True
  | n :: ns => IsSpellable n ∧ AllSpellable ns
end

mutual
/-- The lexemes of the canonical text. -/
def pieces : Node → List (List Char)
  | int _ value => [(Text.decimal value).toList]
  | symbol _ name => [name.toList]
  | expression _ children => ['('] :: (piecesAll children ++ [[')']])
  | list _ children => piecesAll children
  | foreign _ _ content => [(content.getD "").toList]
/-- The lexemes of the canonical texts of nodes, with a space between them. -/
def piecesAll : List Node → List (List Char)
  | [] => []
  | [n] => pieces n
  | n :: m :: ns => pieces n ++ [' '] :: piecesAll (m :: ns)
end

/-! ## §2. The pieces of a canonical text. -/

mutual
/-- The pieces make up the canonical text. -/
theorem flatten_pieces : ∀ n : Node, n.pieces.flatten = n.encode.toList
  | int _ _ => by simp [pieces, encode]
  | symbol _ _ => by simp [pieces, encode]
  | expression _ children => by simp [pieces, encode, flatten_piecesAll children]
  | list _ children => by rw [pieces, encode, flatten_piecesAll children]
  | foreign _ _ _ => by simp [pieces, encode]
theorem flatten_piecesAll : ∀ ns : List Node,
    (piecesAll ns).flatten = (" ".intercalate (encodeAll ns)).toList
  | [] => by simp [piecesAll, encodeAll]
  | [n] => by simp [piecesAll, encodeAll, flatten_pieces n]
  | n :: m :: ns => by
    have hn := flatten_pieces n
    have hns := flatten_piecesAll (m :: ns)
    rw [encodeAll] at hns
    simp [piecesAll, encodeAll, hn, hns]
end

/-- Nodes begin with a word or a parenthesis, so a space before them ends there. -/
theorem head_pieces {n : Node} (h : n.IsSpellable) (ls : List (List Char)) :
    ∃ c, (n.pieces ++ ls).flatten.head? = some c ∧ Token.Kind.ofChar c ≠ .separator := by
  have hword : ∀ {cs : List Char}, Token.IsWord cs →
      ∃ c, ([cs] ++ ls).flatten.head? = some c ∧ Token.Kind.ofChar c ≠ .separator := by
    intro cs hcs
    cases cs with
    | nil => exact absurd rfl hcs.1
    | cons c cs => exact ⟨c, rfl, by simp [hcs.2 c (.head cs)]⟩
  cases n with
  | int _ value => exact hword (Text.isWord_decimal value).toList
  | symbol _ name =>
    rw [IsSpellable] at h
    exact hword h.toList
  | expression _ children => exact ⟨'(', by simp [pieces], by decide⟩
  | list _ _ => simp [IsSpellable] at h
  | foreign _ _ _ => simp [IsSpellable] at h

theorem piecesAll_cons (n : Node) (ns : List Node) :
    ∃ ls, piecesAll (n :: ns) = n.pieces ++ ls := by
  cases ns with
  | nil => exact ⟨[], by rw [piecesAll, List.append_nil]⟩
  | cons m ns => exact ⟨_, by rw [piecesAll]⟩

/-- The pieces do not go on with a word that stands before them. -/
def Detached (ls : List (List Char)) : Prop :=
  ∀ x, ls.flatten.head? = some x → Token.Kind.ofChar x ≠ .word

theorem detached_cons {c : Char} (hc : Token.Kind.ofChar c ≠ .word) (cs : List Char)
    (ls : List (List Char)) : Detached ((c :: cs) :: ls) := by
  intro x hx
  cases hx
  exact hc

mutual
/-- **The pieces of a node stop where they should**, and so does what stands behind them. -/
theorem lexed_pieces : ∀ n : Node, n.IsSpellable → ∀ ls : List (List Char),
    Token.Lexed ls → Detached ls → Token.Lexed (n.pieces ++ ls)
  | int _ value, _, ls, hls, hstop => .word (Text.isWord_decimal value).toList hstop hls
  | symbol _ name, h, ls, hls, hstop => by
    rw [IsSpellable] at h
    exact .word h.toList hstop hls
  | expression _ children, h, ls, hls, _ => by
    rw [IsSpellable] at h
    have hclosing : Token.Lexed ([')'] :: ls) := .cons (by simp) (fun _ _ => rfl) hls
    have hinside := lexed_piecesAll children h ([')'] :: ls) hclosing
      (detached_cons (by decide) [] ls)
    rw [pieces, List.cons_append, List.append_assoc]
    exact .cons (by simp) (fun _ _ => rfl) hinside
  | list _ _, h, _, _, _ => by simp [IsSpellable] at h
  | foreign _ _ _, h, _, _, _ => by simp [IsSpellable] at h
theorem lexed_piecesAll : ∀ ns : List Node, AllSpellable ns → ∀ ls : List (List Char),
    Token.Lexed ls → Detached ls → Token.Lexed (piecesAll ns ++ ls)
  | [], _, ls, hls, _ => hls
  | [n], h, ls, hls, hstop => by
    rw [AllSpellable] at h
    exact lexed_pieces n h.1 ls hls hstop
  | n :: m :: ns, h, ls, hls, hstop => by
    rw [AllSpellable] at h
    have hrest := lexed_piecesAll (m :: ns) h.2 ls hls hstop
    have hspace : Token.Lexed ([' '] :: (piecesAll (m :: ns) ++ ls)) := by
      refine .cons (by simp) ?_ hrest
      intro x hx
      obtain ⟨ms, hms⟩ := piecesAll_cons m ns
      rw [AllSpellable] at h
      obtain ⟨c, hhead, hc⟩ := head_pieces h.2.1 (ms ++ ls)
      rw [hms, List.append_assoc, hhead] at hx
      cases hx
      exact decide_eq_false hc
    rw [piecesAll, List.append_assoc, List.cons_append]
    exact lexed_pieces n h.1 _ hspace (detached_cons (by decide) [] _)
end

mutual
/-- **The pieces of a node, as tokens at any place, spell the node.** -/
theorem reads_pieces : ∀ n : Node, n.IsSpellable → ∀ (offset : Nat) (pos : Position),
    ∃ m, Reads (Token.placed offset pos n.pieces) [m] ∧ m.bare = n.bare
  | int _ value, _, offset, pos => by
    refine ⟨_, .word (Text.isWord_decimal value).toList.kind .nil, ?_⟩
    simp [ofWord, Text.numeral?_decimal, bare]
  | symbol _ name, h, offset, pos => by
    rw [IsSpellable] at h
    refine ⟨_, .word h.toList.kind .nil, ?_⟩
    simp [ofWord, Text.numeral?_eq_none_iff.2 h.not_numeral, bare]
  | expression _ children, h, offset, pos => by
    rw [IsSpellable] at h
    obtain ⟨ms, hms, hbare⟩ := reads_piecesAll children h _ _
    rw [pieces, Token.placed, Token.placed_append]
    refine ⟨_, .expression rfl hms rfl .nil, ?_⟩
    rw [bare, bare, bareAll_eq_map, bareAll_eq_map, hbare]
  | list _ _, h, _, _ => by simp [IsSpellable] at h
  | foreign _ _ _, h, _, _ => by simp [IsSpellable] at h
theorem reads_piecesAll : ∀ ns : List Node, AllSpellable ns → ∀ (offset : Nat) (pos : Position),
    ∃ ms, Reads (Token.placed offset pos (piecesAll ns)) ms ∧ ms.map bare = ns.map bare
  | [], _, _, _ => ⟨[], .nil, rfl⟩
  | [n], h, offset, pos => by
    rw [AllSpellable] at h
    obtain ⟨m, hm, hbare⟩ := reads_pieces n h.1 offset pos
    exact ⟨[m], hm, by rw [List.map_singleton, List.map_singleton, hbare]⟩
  | n :: m :: ns, h, offset, pos => by
    rw [AllSpellable] at h
    obtain ⟨k, hk, hbarek⟩ := reads_pieces n h.1 offset pos
    obtain ⟨ms, hms, hbare⟩ := reads_piecesAll (m :: ns) h.2 _ _
    rw [piecesAll, Token.placed_append, Token.placed]
    refine ⟨[k] ++ ms, hk.append (.blank rfl hms), ?_⟩
    rw [List.map_append, List.map_singleton, hbarek, hbare]
    rfl
end

mutual
theorem nul_not_mem_pieces : ∀ n : Node, n.IsSpellable → '\x00' ∉ n.pieces.flatten
  | int _ value, _ => by
    rw [pieces, List.flatten_singleton]
    exact (Text.isWord_decimal value).nul_not_mem
  | symbol _ name, h => by
    rw [IsSpellable] at h
    rw [pieces, List.flatten_singleton]
    exact h.nul_not_mem
  | expression _ children, h => by
    rw [IsSpellable] at h
    have hinside := nul_not_mem_piecesAll children h
    simp [pieces, -List.mem_flatten, hinside]
  | list _ _, h => by simp [IsSpellable] at h
  | foreign _ _ _, h => by simp [IsSpellable] at h
theorem nul_not_mem_piecesAll : ∀ ns : List Node, AllSpellable ns → '\x00' ∉ (piecesAll ns).flatten
  | [], _ => by simp [piecesAll]
  | [n], h => by
    rw [AllSpellable] at h
    exact nul_not_mem_pieces n h.1
  | n :: m :: ns, h => by
    rw [AllSpellable] at h
    have hn := nul_not_mem_pieces n h.1
    have hns := nul_not_mem_piecesAll (m :: ns) h.2
    simp [piecesAll, -List.mem_flatten, hn, hns]
end

mutual
theorem isKnown_of_isSpellable : ∀ n : Node, n.IsSpellable → n.isKnown = true
  | int _ _, _ => rfl
  | symbol _ _, _ => rfl
  | expression _ children, h => by
    rw [IsSpellable] at h
    exact allKnown_of_allSpellable children h
  | list _ _, h => by simp [IsSpellable] at h
  | foreign _ _ _, h => by simp [IsSpellable] at h
theorem allKnown_of_allSpellable : ∀ ns : List Node, AllSpellable ns → allKnown ns = true
  | [], _ => rfl
  | n :: ns, h => by
    rw [AllSpellable] at h
    rw [allKnown, isKnown_of_isSpellable n h.1, allKnown_of_allSpellable ns h.2]
    rfl
end

theorem encode?_list {token : Option Token} {ns : List Node} (h : AllSpellable ns) :
    (list token ns).encode? = some (list token ns).encode := by
  have hknown : (list token ns).isKnown = true := allKnown_of_allSpellable ns h
  rw [encode?, if_pos hknown]

end Node

/-! ## §3. Reading a canonical text. -/

/-- **The canonical text of spellable nodes is read as these nodes.** -/
theorem Source.parse_encode {ns : List Node} (h : Node.AllSpellable ns) (token : Option Token) :
    ∃ root, (⟨false, (Node.list token ns).encode.toList, none⟩ : Source).parse = .ok root
      ∧ root.bare = (Node.list token ns).bare := by
  -- the scanner cuts the text into the pieces it was made of
  have hlexed : Token.Lexed (Node.piecesAll ns ++ []) :=
    Node.lexed_piecesAll ns h [] .nil (by intro x hx; cases hx)
  rw [List.append_nil] at hlexed
  have hlexemes : Token.lexemes (Node.list token ns).encode.toList = Node.piecesAll ns := by
    rw [Node.encode, ← Node.flatten_piecesAll, hlexed.lexemes_flatten]
  obtain ⟨ms, hms, hbare⟩ := Node.reads_piecesAll ns h 0 Position.start
  refine ⟨.list none ms, parse_eq_ok_iff.2 ⟨rfl, ms, rfl, ?_⟩, Node.bare_list_eq hbare _ _⟩
  rw [body, hlexemes]
  exact hms

/-- **Spellable nodes with one canonical text are the same but for their places.** -/
theorem Node.bare_eq_of_encode_eq {ns ms : List Node} {token token' : Option Token}
    (hns : AllSpellable ns) (hms : AllSpellable ms)
    (h : (list token ns).encode = (list token' ms).encode) :
    (list token ns).bare = (list token' ms).bare := by
  obtain ⟨root, hroot, hbare⟩ := Source.parse_encode hns token
  obtain ⟨root', hroot', hbare'⟩ := Source.parse_encode hms token'
  rw [h, hroot'] at hroot
  cases hroot
  rw [← hbare, hbare']

/-! ## §4. What is read is spellable. -/

theorem Node.isSpellable_ofWord {t : Token} (h : Text.IsWord t.text) : (ofWord t).IsSpellable := by
  unfold ofWord
  split
  · rw [IsSpellable]
    trivial
  · next hnone =>
    rw [IsSpellable]
    exact ⟨h, Text.numeral?_eq_none_iff.1 hnone⟩

theorem Reads.allSpellable {ts : List Token} {ns : List Node} (h : Reads ts ns)
    (hword : ∀ t ∈ ts, t.kind = .word → Text.IsWord t.text) : Node.AllSpellable ns := by
  induction h with
  | nil => trivial
  | blank _ _ ih => exact ih fun t ht => hword t (.tail _ ht)
  | word ht _ ih =>
    rw [Node.AllSpellable]
    refine ⟨Node.isSpellable_ofWord (hword _ (.head _) ht), ?_⟩
    exact ih fun t ht => hword t (.tail _ ht)
  | expression _ _ _ _ ihinside ih =>
    rw [Node.AllSpellable, Node.IsSpellable]
    refine ⟨ihinside fun t ht => hword t ?_, ih fun t ht => hword t ?_⟩
    · exact .tail _ (List.mem_append_left _ ht)
    · exact .tail _ (List.mem_append_right _ (.tail _ ht))

/-- **Whatever is read from an input is spellable.** -/
theorem Input.allSpellable_of_parse {input : Input} {root : Node}
    (h : input.source.parse = .ok root) : ∃ ns, root = .list none ns ∧ Node.AllSpellable ns := by
  obtain ⟨hfault, ns, rfl, hns⟩ := Source.parse_eq_ok_iff.1 h
  refine ⟨ns, rfl, hns.allSpellable fun t ht hk => ?_⟩
  refine Text.isWord_ofLexeme (Source.isWord_lexeme ht hk) fun hnul => ?_
  exact (bytes_of_fault hfault).2.1 (Source.mem_chars_of_mem_lexeme ht hnul)

theorem Input.isSpellable_of_parseStatement {stmt : Input} {n : Node}
    (h : stmt.source.parseStatement = .ok n) : n.IsSpellable := by
  obtain ⟨ns, hlist, hns⟩ := allSpellable_of_parse (Source.parseStatement_eq_ok_iff.1 h)
  cases hlist
  rw [Node.AllSpellable] at hns
  exact hns.1

theorem Source.canonicalize_of_ok {src : Source} {n : Node} (h : src.parseStatement = .ok n) :
    src.canonicalize = .ok n.encode := by
  rw [canonicalize, h]
  rfl

theorem Source.canonicalize_of_error {src : Source} {e : Error} (h : src.parseStatement = .error e) :
    src.canonicalize = .error e := by
  rw [canonicalize, h]
  rfl

/-! ## §5. There and back. -/

/-- **Reading undoes writing.**  Spellable nodes have a canonical text, and reading it
gives them back, unless it begins with a byte order mark.  All that is ever read is
spellable, and its canonical text tells it apart from all else but the same nodes at
other places. -/
theorem canonical_text_read_back :
    (∀ (token : Option Token) (ns : List Node), Node.AllSpellable ns →
        ∃ text, (Node.list token ns).encode? = some text
          ∧ (text.toList.head? ≠ some '\uFEFF' →
              ∃ root, (Input.ofString text).source.parse = .ok root
                ∧ root.bare = (Node.list token ns).bare))
      ∧ (∀ (input : Input) (root : Node), input.source.parse = .ok root →
          ∃ ns, root = .list none ns ∧ Node.AllSpellable ns)
      ∧ ∀ (input input' : Input) (root root' : Node), input.source.parse = .ok root →
          input'.source.parse = .ok root' → root.encode? = root'.encode? →
          root.bare = root'.bare := by
  refine ⟨?_, ?_, ?_⟩
  · intro token ns hns
    refine ⟨_, Node.encode?_list hns, fun hhead => ?_⟩
    have hnul : '\x00' ∉ (Node.list token ns).encode.toList := by
      rw [Node.encode, ← Node.flatten_piecesAll]
      exact Node.nul_not_mem_piecesAll ns hns
    have hmark : Source.isMarked (Node.list token ns).encode.toList = false :=
      decide_eq_false hhead
    rw [Input.source_ofString, Source.ofString_unmarked hmark hnul]
    exact Source.parse_encode hns token
  · intro input root h
    exact Input.allSpellable_of_parse h
  · intro input input' root root' h h' hencode
    obtain ⟨ns, rfl, hns⟩ := Input.allSpellable_of_parse h
    obtain ⟨ms, rfl, hms⟩ := Input.allSpellable_of_parse h'
    rw [Node.encode?_list hns, Node.encode?_list hms] at hencode
    exact Node.bare_eq_of_encode_eq hns hms (Option.some.inj hencode)

/-- A sign alone is a name, as is a letter of two bytes. -/
theorem canonical_text_read_back_signs :
    ∃ root, (Input.ofString "(+ -12 ()) é").source.parse = .ok root
      ∧ root.bare = .list none [.expression none [.symbol none "+", .int none (-12),
          .expression none []], .symbol none "é"]
      ∧ (∃ ns, root = .list none ns ∧ Node.AllSpellable ns)
      ∧ ∀ (input : Input) (root' : Node), input.source.parse = .ok root' →
          root'.encode? = root.encode? → root'.bare = root.bare := by
  have hplus : Text.IsName "+" :=
    ⟨⟨by simp, by simp [Text.reserved]⟩, Text.numeral?_eq_none_iff.1 (by decide)⟩
  have hletter : Text.IsName "é" :=
    ⟨⟨by simp, by simp [Text.reserved]⟩, Text.numeral?_eq_none_iff.1 (by decide)⟩
  have hns : Node.AllSpellable [.expression none [.symbol none "+", .int none (-12),
      .expression none []], .symbol none "é"] := by
    simp [Node.AllSpellable, Node.IsSpellable, hplus, hletter]
  obtain ⟨text, htext, hread⟩ := canonical_text_read_back.1 none _ hns
  have heq : text = "(+ -12 ()) é" := by
    rw [Node.encode?_list hns] at htext
    cases htext
    decide
  subst heq
  obtain ⟨root, hroot, hbare⟩ := hread (by decide)
  refine ⟨root, hroot, hbare, canonical_text_read_back.2.1 _ _ hroot, ?_⟩
  intro input root' h hencode
  exact canonical_text_read_back.2.2 _ _ _ _ h hroot hencode

end IntLisp
