/-
  IntLisp.Proofs.Relocation
  ─────────────────────────
  **A STATEMENT READ WHERE IT DOES NOT STAND.**

  A statement is cut out of a source and then read again from its own text,
  as if the text began at the first line and column.  What is read is the
  node that stands in the source, with every token at another place.  The
  places of the source are the places of the text counted from where the
  statement begins:

      base.advanceBy cs = base.after (Position.start.advanceBy cs)

  So a line of the text is the same line of the source only for a statement
  that begins on the first line, and a column of the text's first line is the
  same column only for a statement that begins the source.
-/
import IntLisp.Proofs.Statements

namespace IntLisp

/-! ## §1. Places counted from another place. -/

namespace Position

/-- The place `p` of a text that begins at `base`. -/
def after (base p : Position) : Position :=
  if p.line = 1 then ⟨base.line, base.col + p.col - 1⟩ else ⟨base.line + p.line - 1, p.col⟩

@[simp] theorem after_start (base : Position) : base.after start = base := by
  obtain ⟨line, col⟩ := base
  simp [after, start]

theorem line_after (base p : Position) : (base.after p).line = base.line + p.line - 1 := by
  unfold after
  split
  · dsimp only
    omega
  · rfl

/-- **Counted from `base`, a place is itself only at the start**, or on a later line of a
text that begins on the first. -/
theorem after_eq_self_iff {base p : Position} :
    base.after p = p ↔ base = start ∨ base.line = 1 ∧ p.line ≠ 1 := by
  obtain ⟨line, col⟩ := base
  obtain ⟨l, c⟩ := p
  by_cases hl : l = 1
  · simp [after, start, hl]
    omega
  · simp [after, start, hl]
    omega

theorem after_advance (base : Position) {p : Position} (hp : 1 ≤ p.line) (c : Char) :
    (base.after p).advance c = base.after (p.advance c) := by
  by_cases hc : c = '\n'
  · -- a newline leads to the first column, whatever the column was
    have hne : ¬ p.line + 1 = 1 := by omega
    have hline : base.line + p.line - 1 + 1 = base.line + (p.line + 1) - 1 := by omega
    rw [advance, advance, if_pos hc, if_pos hc, line_after, hline, after, if_neg hne]
  · rw [advance, advance, if_neg hc, if_neg hc]
    by_cases hl : p.line = 1
    · simp only [after, hl, if_true, Position.mk.injEq, true_and]
      omega
    · simp only [after, hl, if_false]

theorem one_le_line_advanceBy {p : Position} (hp : 1 ≤ p.line) (cs : List Char) :
    1 ≤ (p.advanceBy cs).line := by
  induction cs generalizing p with
  | nil => exact hp
  | cons c cs ih =>
    rw [advanceBy_cons]
    refine ih ?_
    unfold advance
    split <;> dsimp only <;> omega

/-- **Going on from a place of a text is going on from the same place of the source.** -/
theorem advanceBy_after (base : Position) {p : Position} (hp : 1 ≤ p.line) (cs : List Char) :
    (base.after p).advanceBy cs = base.after (p.advanceBy cs) := by
  induction cs generalizing p with
  | nil => rfl
  | cons c cs ih =>
    rw [advanceBy_cons, advanceBy_cons, after_advance base hp]
    exact ih (one_le_line_advanceBy hp [c])

end Position

namespace Token

/-- The token `t` of a text that begins at `base`, behind `offset` bytes. -/
def behind (offset : Nat) (base : Position) (t : Token) : Token :=
  { t with offset := offset + t.offset, pos := base.after t.pos }

/-- **Lexemes that are placed further on are the same tokens, counted from there.** -/
theorem placed_behind (offset : Nat) (base : Position) (n : Nat) {p : Position}
    (hp : 1 ≤ p.line) (ls : List (List Char)) :
    placed (offset + n) (base.after p) ls = (placed n p ls).map (behind offset base) := by
  induction ls generalizing n p with
  | nil => rfl
  | cons l ls ih =>
    rw [placed, placed, List.map_cons, Position.advanceBy_after base hp, Nat.add_assoc,
      ih _ (Position.one_le_line_advanceBy hp l)]
    rfl

end Token

/-! ## §2. Nodes with other tokens. -/

namespace Node

mutual
/-- The node with `f` applied to its tokens. -/
def mapTokens (f : Token → Token) : Node → Node
  | int token value => int (token.map f) value
  | symbol token name => symbol (token.map f) name
  | expression token children => expression (token.map f) (mapTokensAll f children)
  | list token children => list (token.map f) (mapTokensAll f children)
  | foreign token code content => foreign (token.map f) code content
/-- The nodes with `f` applied to their tokens. -/
def mapTokensAll (f : Token → Token) : List Node → List Node
  | [] => []
  | n :: ns => mapTokens f n :: mapTokensAll f ns
end

variable (f : Token → Token)

theorem mapTokensAll_eq_map (ns : List Node) : mapTokensAll f ns = ns.map (mapTokens f) := by
  induction ns with
  | nil => rfl
  | cons n ns ih => rw [mapTokensAll, ih, List.map_cons]

mutual
theorem bare_mapTokens : ∀ n : Node, (n.mapTokens f).bare = n.bare
  | int _ _ | symbol _ _ | foreign _ _ _ => rfl
  | expression _ children => by rw [mapTokens, bare, bare, bareAll_mapTokensAll children]
  | list _ children => by rw [mapTokens, bare, bare, bareAll_mapTokensAll children]
theorem bareAll_mapTokensAll : ∀ ns : List Node, bareAll (mapTokensAll f ns) = bareAll ns
  | [] => rfl
  | n :: ns => by rw [mapTokensAll, bareAll, bareAll, bare_mapTokens n, bareAll_mapTokensAll ns]
end

theorem token?_mapTokens (n : Node) : (n.mapTokens f).token? = n.token?.map f := by
  cases n <;> rfl

theorem children_mapTokens (n : Node) :
    (n.mapTokens f).children = n.children.map (mapTokens f) := by
  cases n with
  | expression _ children => exact mapTokensAll_eq_map f children
  | list _ children => exact mapTokensAll_eq_map f children
  | int _ _ | symbol _ _ | foreign _ _ _ => rfl

/-- The node `m` is the node `n`, or it is inside it. -/
inductive Inside (m : Node) : Node → Prop where
  | here : Inside m m
  | deeper {n c : Node} (hc : c ∈ n.children) (h : Inside m c) : Inside m n

theorem Inside.mapTokens {m n : Node} (h : m.Inside n) :
    (m.mapTokens f).Inside (n.mapTokens f) := by
  induction h with
  | here => exact .here
  | @deeper n c hc _ ih =>
    refine .deeper ?_ ih
    rw [children_mapTokens]
    exact List.mem_map_of_mem hc

end Node

namespace Reads

variable {ts us : List Token} {ns ms : List Node}

/-- Tokens spell one list of nodes. -/
theorem unique (h : Reads ts ns) (h' : Reads ts ms) : ns = ms := by
  have hgrow := h.grow_finish (w := ⟨.finish, "", 0, .start⟩) rfl false
  rw [h'.grow_finish rfl] at hgrow
  cases hgrow
  rfl

/-- Tokens that say the same at other places spell the same nodes with these tokens. -/
theorem mapTokens {f : Token → Token} (hf : ∀ t, (f t).content = t.content) (h : Reads ts ns) :
    Reads (ts.map f) (ns.map (Node.mapTokens f)) := by
  have hkind : ∀ t, (f t).kind = t.kind := fun t => (Token.content_eq_iff.1 (hf t)).1
  induction h with
  | nil => exact .nil
  | @blank t _ _ ht _ ih => exact .blank (by rwa [hkind]) ih
  | @word t _ _ ht _ ih =>
    have hword : (Node.ofWord t).mapTokens f = .ofWord (f t) := by
      unfold Node.ofWord
      rw [(Token.content_eq_iff.1 (hf t)).2]
      cases Text.numeral? t.text <;> rfl
    rw [List.map_cons, List.map_cons, hword]
    exact .word (by rwa [hkind]) ih
  | @expression t u _ _ ms _ ht _ hu _ ihinside ih =>
    rw [List.map_cons, List.map_append, List.map_cons, List.map_cons, Node.mapTokens,
      Node.mapTokensAll_eq_map]
    exact .expression (by rwa [hkind]) ihinside (by rwa [hkind]) ih

/-- Every node that is spelled begins with one of the tokens. -/
theorem exists_token (h : Reads ts ns) :
    ∀ n ∈ ns, ∀ m : Node, m.Inside n → ∃ t ∈ ts, m.token? = some t := by
  induction h with
  | nil =>
    intro n hn
    cases hn
  | blank _ _ ih =>
    intro n hn m hm
    obtain ⟨t, ht, htoken⟩ := ih n hn m hm
    exact ⟨t, .tail _ ht, htoken⟩
  | @word t _ _ _ _ ih =>
    intro n hn m hm
    cases hn with
    | head =>
      -- a leaf has nothing inside it
      have hleaf : (Node.ofWord t).children = [] := by
        unfold Node.ofWord
        split <;> rfl
      cases hm with
      | here =>
        refine ⟨t, .head _, ?_⟩
        unfold Node.ofWord
        split <;> rfl
      | deeper hc _ =>
        rw [hleaf] at hc
        cases hc
    | tail _ hn =>
      obtain ⟨u, hu, htoken⟩ := ih n hn m hm
      exact ⟨u, .tail _ hu, htoken⟩
  | @expression t u inside ts ms _ _ _ _ _ ihinside ih =>
    intro n hn m hm
    cases hn with
    | head =>
      cases hm with
      | here => exact ⟨t, .head _, rfl⟩
      | deeper hc hm =>
        obtain ⟨v, hv, htoken⟩ := ihinside _ hc m hm
        exact ⟨v, .tail _ (List.mem_append_left _ hv), htoken⟩
    | tail _ hn =>
      obtain ⟨v, hv, htoken⟩ := ih n hn m hm
      exact ⟨v, .tail _ (List.mem_append_right _ (.tail _ hv)), htoken⟩

end Reads

/-! ## §3. The text of a statement. -/

namespace Source

open Token

variable {src : Source} {before inside after : List Token} {t u : Token} {ms : List Node}

/-- The text of an expression, as a source of its own, has the tokens of the expression,
placed as if it began there. -/
theorem body_ofString_enclosed (hnul : '\x00' ∉ src.chars)
    (h : src.body = before ++ t :: (inside ++ u :: after)) (ht : t.kind = .opening)
    (hu : u.kind = .closing) :
    t :: (inside ++ [u])
      = (ofString (spelling (t :: (inside ++ [u])))).body.map (behind t.offset t.pos) := by
  have hinfix : src.body = before ++ ((t :: (inside ++ [u])) ++ after) := by simp [h]
  have hread : ofString (spelling (t :: (inside ++ [u])))
      = ⟨false, (spelling (t :: (inside ++ [u]))).toList, none⟩ := by
    refine ofString_unmarked ?_ ?_
    · rw [toList_spelling_enclosed h ht hu]
      rfl
    · intro hmem
      refine hnul ?_
      rw [← toList_spelling_body, hinfix]
      simp only [spelling_append, String.toList_append, List.mem_append]
      exact .inr (.inl hmem)
  have hlexed : Lexed ((t :: (inside ++ [u])).map lexeme) := by
    have hall := lexed_lexemes src.chars
    rw [← map_lexeme_body, hinfix, List.map_append, List.map_append] at hall
    exact hall.right.left
  -- in the source the lexemes are placed from the first token on
  have hplaced : t :: (inside ++ [u])
      = placed t.offset t.pos ((t :: (inside ++ [u])).map lexeme) := by
    have hpart := (placed_eq_append (placed_eq_append hinfix).2.symm).1
    rwa [← offset_of_placed h, ← pos_of_placed h] at hpart
  have hmoved := placed_behind t.offset t.pos 0 (p := .start) (by decide)
    ((t :: (inside ++ [u])).map lexeme)
  rw [Position.after_start, Nat.add_zero, ← hplaced] at hmoved
  rw [hread, body, toList_spelling, hlexed.lexemes_flatten]
  exact hmoved

end Source

/-- **What is read from the text of an expression is the expression, with every place
counted from where it begins.** -/
theorem Statement.Cut.relocates {src : Source} {s : Statement} {token : Option Token}
    {ms : List Node} (hnul : '\x00' ∉ src.chars)
    (h : s.Cut src.body (.expression token ms)) :
    ∃ n, (Source.ofString s.text).parseStatement = .ok n
      ∧ ∀ m : Node, m.Inside n → ∃ k : Node, k.Inside (.expression token ms)
        ∧ k.bare = m.bare ∧ k.pos = s.pos.after m.pos := by
  generalize hk : Node.expression token ms = k at h
  cases h with
  | @word t ht => exact absurd hk.symm (Node.ofWord_ne_expression t token ms)
  | @expression before inside after t u _ hbody ht hinside hu =>
    cases hk
    have htokens := Source.body_ofString_enclosed hnul hbody ht hu
    obtain ⟨n, hparse, -⟩ := Source.parseStatement_enclosed hnul hbody ht hinside hu
    obtain ⟨-, ns, hlist, hreads⟩ :=
      Source.parse_eq_ok_iff.1 (Source.parseStatement_eq_ok_iff.1 hparse)
    cases hlist
    -- the tokens of the text, counted from the parenthesis, spell the expression
    have hmoved := hreads.mapTokens (f := Token.behind t.offset t.pos) fun _ => rfl
    rw [← htokens] at hmoved
    have hnode : [Node.expression (some t) ms] = [n].map (Node.mapTokens _) :=
      (Reads.expression ht hinside hu .nil).unique hmoved
    rw [List.map_singleton, List.singleton_inj] at hnode
    rw [text_enclosed hbody ht hu]
    refine ⟨n, hparse, fun m hm => ⟨_, hnode ▸ hm.mapTokens _, Node.bare_mapTokens _ m, ?_⟩⟩
    obtain ⟨v, -, htoken⟩ := hreads.exists_token n (.head _) m hm
    simp only [Node.pos, Node.token?_mapTokens, htoken]
    rfl

end IntLisp
