/-
  IntLisp.Proofs.Reading
  ──────────────────────
  **WHICH TOKENS ARE READ, AND AS WHAT.**

  `Reads ts ns` says that the tokens `ts` spell the nodes `ns`.  It has one
  rule for each kind of token, and one rule for a whole expression, and knows
  nothing of how a tree is grown.  The tree builder agrees with it both ways:

    • tokens that spell nodes add just these nodes to any growing tree,
    • a growing tree is accepted at the end of a text only if the text spells
      its nodes.

  The second needs an invariant of every growing tree, closed or not: each
  open expression has its own tokens behind its parenthesis, and these spell
  what the expression holds so far.
-/
import IntLisp.Node.Growth
import IntLisp.Proofs.Lexeme
import IntLisp.Proofs.Numeral

namespace IntLisp

/-! ## §1. Spelling nodes. -/

/-- Whether tokens of this kind only keep others apart. -/
def Token.Kind.isBlank : Kind → Bool
  | .separator | .newline | .comment => true
  | _ => false

/-- The leaf that a word stands for. -/
def Node.ofWord (t : Token) : Node :=
  match Text.numeral? t.text with
  | some value => .int (some t) value
  | none => .symbol (some t) t.text

/-- The tokens spell the nodes, one after the other. -/
inductive Reads : List Token → List Node → Prop where
  | nil : Reads [] []
  | blank {t : Token} {ts : List Token} {ns : List Node} (ht : t.kind.isBlank = true)
      (h : Reads ts ns) : Reads (t :: ts) ns
  | word {t : Token} {ts : List Token} {ns : List Node} (ht : t.kind = .word)
      (h : Reads ts ns) : Reads (t :: ts) (.ofWord t :: ns)
  | expression {t u : Token} {inside ts : List Token} {ms ns : List Node}
      (ht : t.kind = .opening) (hinside : Reads inside ms) (hu : u.kind = .closing)
      (h : Reads ts ns) :
      Reads (t :: (inside ++ u :: ts)) (.expression (some t) ms :: ns)

theorem Reads.append {ts us : List Token} {ns ms : List Node} (h : Reads ts ns)
    (h' : Reads us ms) : Reads (ts ++ us) (ns ++ ms) := by
  induction h with
  | nil => exact h'
  | blank ht _ ih => exact .blank ht ih
  | word ht _ ih => exact .word ht ih
  | expression ht hinside hu _ _ ih =>
    rw [List.cons_append, List.append_assoc]
    exact .expression ht hinside hu ih

/-- Tokens between which every parenthesis has its partner. -/
inductive Balanced : List Token → Prop where
  | nil : Balanced []
  | plain {t : Token} {ts : List Token} (hopening : t.kind ≠ .opening)
      (hclosing : t.kind ≠ .closing) (h : Balanced ts) : Balanced (t :: ts)
  | nested {t u : Token} {inside ts : List Token} (ht : t.kind = .opening)
      (hinside : Balanced inside) (hu : u.kind = .closing) (h : Balanced ts) :
      Balanced (t :: (inside ++ u :: ts))

theorem Reads.balanced {ts : List Token} {ns : List Node} (h : Reads ts ns) : Balanced ts := by
  induction h with
  | nil => exact .nil
  | @blank t _ _ ht _ ih =>
    refine .plain ?_ ?_ ih
    · intro hk
      rw [hk] at ht
      cases ht
    · intro hk
      rw [hk] at ht
      cases ht
  | word ht _ ih => exact .plain (by simp [ht]) (by simp [ht]) ih
  | expression ht _ hu _ ihinside ih => exact .nested ht ihinside hu ih

/-! ## §2. Spelled nodes are grown. -/

/-- **Every word has a leaf**: one that is written as an integer denotes one. -/
theorem Node.ofWord?_eq (t : Token) : ofWord? t = .ok (ofWord t) := by
  unfold ofWord? ofWord
  rw [Text.isInteger_eq]
  cases Text.numeral? t.text <;> rfl

namespace Growth

/-- **The node that is being filled can hold others**, at any time. -/
theorem isVector_holder (g : Growth) : g.holder.isVector = true := by
  unfold holder
  split <;> rfl

theorem addWord?_eq (g : Growth) (t : Token) : g.addWord? t = .ok (g.add (.ofWord t)) := by
  rw [addWord?, Node.ofWord?_eq]
  exact if_pos g.isVector_holder

theorem enter?_eq (g : Growth) (t : Token) : g.enter? t = .ok (g.enter t) := by
  rw [enter?, g.isVector_holder, if_pos rfl]

/-- Every word and every parenthesis finds its place, up to a `)` that closes nothing. -/
theorem grow_cons (autoClose : Bool) (g : Growth) (t : Token) (ts : List Token) :
    g.grow autoClose (t :: ts) =
      match t.kind with
      | .separator | .newline | .comment => g.grow autoClose ts
      | .word => (g.add (.ofWord t)).grow autoClose ts
      | .opening => (g.enter t).grow autoClose ts
      | .closing =>
        match g.leave? with
        | some g' => g'.grow autoClose ts
        | none => ⟨g.root, some (errorAt t .unbalanced "unexpected )")⟩
      | .finish => g.finish autoClose
      | .other _ => ⟨g.root, some (errorAt t .unexpectedToken t.text)⟩ := by
  cases hkind : t.kind with
  | closing => cases hleave : g.leave? <;> simp only [grow, hkind, hleave]
  | word => simp only [grow, hkind, addWord?_eq]
  | opening => simp only [grow, hkind, enter?_eq]
  | separator | newline | comment | finish | other code => simp only [grow, hkind]

/-- Add finished nodes at the innermost place. -/
def addAll (g : Growth) (ns : List Node) : Growth := ns.foldl add g

theorem addAll_cons (g : Growth) (n : Node) (ns : List Node) :
    g.addAll (n :: ns) = (g.add n).addAll ns := rfl

theorem addAll_innermost (e : OpenExpression) (es : List OpenExpression) (newest ns : List Node) :
    addAll ⟨e :: es, newest⟩ ns = ⟨⟨e.token, ns.reverse ++ e.newest⟩ :: es, newest⟩ := by
  induction ns generalizing e with
  | nil => rfl
  | cons n ns ih =>
    show addAll ⟨⟨e.token, n :: e.newest⟩ :: es, newest⟩ ns = _
    rw [ih, List.reverse_cons, List.append_assoc]
    rfl

theorem addAll_outermost (newest ns : List Node) :
    addAll ⟨[], newest⟩ ns = ⟨[], ns.reverse ++ newest⟩ := by
  induction ns generalizing newest with
  | nil => rfl
  | cons n ns ih =>
    show addAll ⟨[], n :: newest⟩ ns = _
    rw [ih, List.reverse_cons, List.append_assoc]
    rfl

theorem leave?_eq_none_iff {g : Growth} : g.leave? = none ↔ g.pending = [] := by
  unfold leave?
  cases g.pending <;> simp

/-- Opening an expression, adding nodes and closing it adds one node. -/
theorem leave?_addAll_enter (g : Growth) (t : Token) (ns : List Node) :
    ((g.enter t).addAll ns).leave? = some (g.add (.expression (some t) ns)) := by
  rw [enter, addAll_innermost]
  show some (add g (.expression (some t) (ns.reverse ++ []).reverse)) = _
  rw [List.append_nil, List.reverse_reverse]

variable {autoClose : Bool} {t : Token} {ts : List Token} {g g' : Growth}

theorem grow_blank (ht : t.kind.isBlank = true) :
    grow autoClose g (t :: ts) = grow autoClose g ts := by
  rw [grow]
  cases hk : t.kind <;> rw [hk] at ht <;> first | rfl | cases ht

theorem grow_word (ht : t.kind = .word) :
    grow autoClose g (t :: ts) = grow autoClose (g.add (.ofWord t)) ts := by
  rw [grow_cons, ht]

theorem grow_opening (ht : t.kind = .opening) :
    grow autoClose g (t :: ts) = grow autoClose (g.enter t) ts := by
  rw [grow_cons, ht]

theorem grow_closing (ht : t.kind = .closing) (hg : g.leave? = some g') :
    grow autoClose g (t :: ts) = grow autoClose g' ts := by
  rw [grow, ht]
  simp only [hg]

end Growth

/-- **Tokens that spell nodes add these nodes to any growing tree.** -/
theorem Reads.grow_append {ts : List Token} {ns : List Node} (h : Reads ts ns) :
    ∀ (autoClose : Bool) (g : Growth) (rest : List Token),
      g.grow autoClose (ts ++ rest) = (g.addAll ns).grow autoClose rest := by
  induction h with
  | nil =>
    intro autoClose g rest
    rfl
  | blank ht _ ih =>
    intro autoClose g rest
    rw [List.cons_append, Growth.grow_blank ht, ih]
  | word ht _ ih =>
    intro autoClose g rest
    rw [List.cons_append, Growth.grow_word ht, ih, Growth.addAll_cons]
  | expression ht _ hu _ ihinside ih =>
    intro autoClose g rest
    -- open, add what is inside, close: one node more at the place of before
    rw [List.cons_append, Growth.grow_opening ht, List.append_assoc, ihinside, List.cons_append,
      Growth.grow_closing hu (Growth.leave?_addAll_enter ..), ih, Growth.addAll_cons]

/-- Tokens that spell nodes are accepted, up to the end of the text. -/
theorem Reads.grow_finish {ts : List Token} {ns : List Node} {w : Token} (h : Reads ts ns)
    (hw : w.kind = .finish) (autoClose : Bool) :
    Growth.empty.grow autoClose (ts ++ [w]) = ⟨.list none ns, none⟩ := by
  rw [h.grow_append, Growth.empty, Growth.addAll_outermost, List.append_nil, Growth.grow, hw]
  show (⟨.list none (ns.reverse).reverse, none⟩ : Reading) = _
  rw [List.reverse_reverse]

/-! ## §3. Grown trees are spelled. -/

/-- A growing tree and the tokens it has grown by: what each open expression holds
is spelled by the tokens behind its parenthesis. -/
inductive Grown : List Token → Growth → Prop where
  | outside {ts : List Token} {newest : List Node} (h : Reads ts newest.reverse) :
      Grown ts ⟨[], newest⟩
  | inside {ts us : List Token} {t : Token} {es : List OpenExpression} {newest ns : List Node}
      (h : Grown ts ⟨es, newest⟩) (ht : t.kind = .opening) (hus : Reads us ns.reverse) :
      Grown (ts ++ t :: us) ⟨⟨t, ns⟩ :: es, newest⟩

namespace Grown

variable {ts us : List Token} {t : Token} {g g' : Growth} {n : Node}

theorem empty : Grown [] .empty := .outside .nil

theorem blanks (h : Grown ts g) (hus : Reads us []) : Grown (ts ++ us) g := by
  cases h with
  | outside h =>
    refine .outside ?_
    simpa using h.append hus
  | inside h ht hvs =>
    rw [List.append_assoc, List.cons_append]
    refine .inside h ht ?_
    simpa using hvs.append hus

theorem add (h : Grown ts g) (hus : Reads us [n]) : Grown (ts ++ us) (g.add n) := by
  cases h with
  | outside h =>
    refine .outside ?_
    rw [List.reverse_cons]
    exact h.append hus
  | inside h ht hvs =>
    rw [List.append_assoc, List.cons_append]
    refine .inside h ht ?_
    rw [List.reverse_cons]
    exact hvs.append hus

theorem enter (h : Grown ts g) (ht : t.kind = .opening) : Grown (ts ++ [t]) (g.enter t) :=
  .inside h ht .nil

theorem leave (h : Grown ts g) (ht : t.kind = .closing) (hg : g.leave? = some g') :
    Grown (ts ++ [t]) g' := by
  cases h with
  | outside _ => cases hg
  | inside h hopening hus =>
    -- the tokens of the expression, its parentheses included, spell one node
    cases hg
    rw [List.append_assoc]
    exact h.add (.expression hopening hus ht .nil)

/-- **The invariant is kept to the end of a text, or up to a parenthesis that closes
nothing**, at which the growth stops. -/
theorem grow_cases {w : Token} (hw : w.kind = .finish) (autoClose : Bool) :
    ∀ {us ts : List Token} {g : Growth}, Grown ts g → (∀ t ∈ us, ∃ c, t.kind = .ofChar c) →
      (∃ g', Grown (ts ++ us) g' ∧ g.grow autoClose (us ++ [w]) = g'.finish autoClose)
      ∨ ∃ before u after g', ts ++ us = before ++ u :: after ∧ u.kind = .closing
          ∧ Grown before g' ∧ g'.pending = []
          ∧ g.grow autoClose (us ++ [w])
            = ⟨g'.root, some (Growth.errorAt u .unbalanced "unexpected )")⟩ := by
  intro us
  induction us with
  | nil =>
    intro ts g h _
    refine .inl ⟨g, ?_, ?_⟩
    · rw [List.append_nil]
      exact h
    · rw [List.nil_append, Growth.grow, hw]
  | cons t us ih =>
    intro ts g h hus
    obtain ⟨c, hc⟩ := hus t (.head us)
    have hrest : ∀ t ∈ us, ∃ c, t.kind = .ofChar c := fun t ht => hus t (.tail _ ht)
    -- the invariant is carried over `t`, one step lemma for each kind it can have
    have hsplit : ts ++ t :: us = ts ++ [t] ++ us := by simp
    rw [hsplit, List.cons_append]
    cases hk : t.kind with
    | opening =>
      rw [Growth.grow_opening hk]
      exact ih (h.enter hk) hrest
    | closing =>
      cases hg : g.leave? with
      | none =>
        refine .inr ⟨ts, t, us, g, hsplit.symm, hk, h, Growth.leave?_eq_none_iff.1 hg, ?_⟩
        simp only [Growth.grow, hk, hg]
      | some g' =>
        rw [Growth.grow_closing hk hg]
        exact ih (h.leave hk hg) hrest
    | word =>
      rw [Growth.grow_word hk]
      exact ih (h.add (.word hk .nil)) hrest
    | newline | separator | comment =>
      have hblank : t.kind.isBlank = true := by rw [hk]; rfl
      rw [Growth.grow_blank hblank]
      exact ih (h.blanks (.blank hblank .nil)) hrest
    | finish => exact absurd (hc.symm.trans hk) (Token.Kind.ofChar_ne_finish c)
    | other code => exact absurd (hc.symm.trans hk) (Token.Kind.ofChar_ne_other c code)

/-- **A tree is accepted at the end of a text only if the text spells its nodes.** -/
theorem reads_of_grow {w : Token} (hw : w.kind = .finish) {root : Node} (h : Grown ts g)
    (hus : ∀ t ∈ us, ∃ c, t.kind = .ofChar c) (hgrow : g.grow false (us ++ [w]) = ⟨root, none⟩) :
    ∃ ns, root = .list none ns ∧ Reads (ts ++ us) ns := by
  rcases h.grow_cases hw false hus with ⟨g', hg', heq⟩ | ⟨before, u, after, g', -, -, -, -, heq⟩
  · rw [heq] at hgrow
    generalize ts ++ us = vs at hg'
    -- at the end an open expression is an error, so the tree is outside of all
    cases hg' with
    | outside hreads =>
      cases hgrow
      exact ⟨_, rfl, hreads⟩
    | inside _ _ _ => cases hgrow
  · rw [heq] at hgrow
    cases hgrow

end Grown

/-! ## §4. Nodes without their places. -/

namespace Node

mutual
/-- The node without the tokens it was read from. -/
def bare : Node → Node
  | int _ value => int none value
  | symbol _ name => symbol none name
  | expression _ children => expression none (bareAll children)
  | list _ children => list none (bareAll children)
  | foreign _ code content => foreign none code content
/-- The nodes without the tokens they were read from. -/
def bareAll : List Node → List Node
  | [] => []
  | n :: ns => bare n :: bareAll ns
end

theorem bareAll_eq_map : ∀ ns : List Node, bareAll ns = ns.map bare
  | [] => rfl
  | n :: ns => by rw [bareAll, bareAll_eq_map ns, List.map_cons]

theorem bare_list_eq {ns ms : List Node} (h : ms.map bare = ns.map bare)
    (token token' : Option Token) : (list token' ms).bare = (list token ns).bare := by
  rw [bare, bare, bareAll_eq_map, bareAll_eq_map, h]

theorem pos_ofWord (t : Token) : (ofWord t).pos = t.pos := by
  unfold ofWord
  split <;> rfl

theorem ofWord_ne_expression (t : Token) (token : Option Token) (children : List Node) :
    ofWord t ≠ .expression token children := by
  unfold ofWord
  split <;> simp

theorem bare_ofWord {t u : Token} (h : u.text = t.text) : (ofWord u).bare = (ofWord t).bare := by
  unfold ofWord
  rw [h]
  cases Text.numeral? t.text <;> rfl

end Node

/-- **What is spelled depends on what the tokens say, and not on where they stand.** -/
theorem Reads.of_content {ts : List Token} {ns : List Node} (h : Reads ts ns) :
    ∀ {us : List Token}, us.map Token.content = ts.map Token.content →
      ∃ ms, Reads us ms ∧ ms.map Node.bare = ns.map Node.bare := by
  induction h with
  | nil =>
    intro us hus
    rw [List.map_nil, List.map_eq_nil_iff] at hus
    exact ⟨[], hus ▸ .nil, rfl⟩
  | blank ht _ ih =>
    intro us hus
    obtain ⟨u, us, rfl, hu, hus⟩ := List.map_eq_cons_iff.1 hus
    obtain ⟨ms, hms, hbare⟩ := ih hus
    refine ⟨ms, .blank ?_ hms, hbare⟩
    rwa [(Token.content_eq_iff.1 hu).1]
  | word ht _ ih =>
    intro us hus
    obtain ⟨u, us, rfl, hu, hus⟩ := List.map_eq_cons_iff.1 hus
    obtain ⟨ms, hms, hbare⟩ := ih hus
    refine ⟨.ofWord u :: ms, .word ?_ hms, ?_⟩
    · rwa [(Token.content_eq_iff.1 hu).1]
    · rw [List.map_cons, List.map_cons, hbare, Node.bare_ofWord (Token.content_eq_iff.1 hu).2]
  | expression ht _ hclosing _ ihinside ih =>
    intro us hus
    -- `us` is split as the tokens of the expression are: (, what is inside, ), the rest
    obtain ⟨u, us, rfl, hu, hus⟩ := List.map_eq_cons_iff.1 hus
    rw [List.map_append] at hus
    obtain ⟨inside, us, rfl, hinside, hus⟩ := List.map_eq_append_iff.1 hus
    obtain ⟨v, us, rfl, hv, hus⟩ := List.map_eq_cons_iff.1 hus
    obtain ⟨ks, hks, hbareks⟩ := ihinside hinside
    obtain ⟨ms, hms, hbare⟩ := ih hus
    refine ⟨.expression (some u) ks :: ms, .expression ?_ hks ?_ hms, ?_⟩
    · rwa [(Token.content_eq_iff.1 hu).1]
    · rwa [(Token.content_eq_iff.1 hv).1]
    · simp [Node.bare, Node.bareAll_eq_map, hbareks, hbare]

/-! ## §5. Accepted sources. -/

namespace Source

variable {src : Source} {root n : Node}

/-- **A source is accepted if its reading meets no fault and its tokens spell nodes,
and only then; these nodes are the tree.** -/
theorem parse_eq_ok_iff :
    src.parse = .ok root ↔ src.fault = none ∧ ∃ ns, root = .list none ns ∧ Reads src.body ns := by
  constructor
  · intro h
    have hscan : src.scan.failure = none := by
      rw [parse, read] at h
      rcases hscan : src.scan with ⟨tokens, _ | failure⟩
      · rfl
      · rw [hscan] at h
        cases h
    -- the scan came to an end, so the tokens are those of the body and the end
    have hfault := fault_of_scan hscan
    obtain ⟨e, he, heq⟩ := scan_eq_body hfault
    have hgrow : Growth.empty.grow false (src.body ++ [e]) = ⟨root, none⟩ := by
      simp only [parse, read, heq] at h
      split at h
      · cases h
      · cases h
        assumption
    exact ⟨hfault, Grown.reads_of_grow he .empty (fun t ht => exists_kind_eq ht) hgrow⟩
  · intro h
    obtain ⟨hfault, ns, rfl, hns⟩ := h
    obtain ⟨e, he, heq⟩ := scan_eq_body hfault
    simp only [parse, read, heq, hns.grow_finish he]

/-- A statement is the only node of the tree of its text. -/
theorem parseStatement_eq_ok_iff :
    src.parseStatement = .ok n ↔ src.parse = .ok (.list none [n]) := by
  constructor
  · intro h
    rw [parseStatement] at h
    cases hparse : src.parse with
    | error e => rw [hparse] at h; cases h
    | ok root =>
      obtain ⟨-, ns, rfl, -⟩ := parse_eq_ok_iff.1 hparse
      rw [hparse] at h
      match ns, h with
      | [_], h => cases h; rfl
  · intro h
    rw [parseStatement, h]
    rfl

theorem parseStatement_of_reads (hfault : src.fault = none) (h : Reads src.body [n]) :
    src.parseStatement = .ok n := by
  have hparse : src.parse = .ok (.list none [n]) := parse_eq_ok_iff.2 ⟨hfault, [n], rfl, h⟩
  rw [parseStatement, hparse]
  rfl

end Source

end IntLisp
