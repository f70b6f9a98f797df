/-
  IntLisp.Proofs.Decomposition
  ────────────────────────────
  **THE PARTS OF AN EXPRESSION, BY ITS TREE AND BY ITS TEXT.**

  The parts of an expression are the canonical texts of the nodes inside it.
  They can also be found without a tree: take the outer parentheses off the
  canonical text of the expression, count how deep each character stands, and
  cut at the spaces that stand at depth zero.

      Text.parts (expression token ns).encode = encodeAll ns

  This rests on what a canonical text can hold.  Scanned from any depth, the
  text of a node leads back to that depth, and it has no space there: inside
  a word there is none, and inside parentheses the depth is not zero.  So the
  scan passes a node as a whole (`Unbroken`), and is cut between nodes only.
-/
import IntLisp.Proofs.Canonical
import IntLisp.Proofs.Prompt

namespace IntLisp

/-! ## §1. Cutting a text by its depth. -/

namespace Text

/-- How much deeper it is behind a character than before it. -/
def depthChange (c : Char) : Int := if c = '(' then 1 else if c = ')' then -1 else 0

/-- The parts that the characters are cut into at each space at depth zero; `part` is
the part at hand, the last character first. -/
def partsFrom (depth : Int) (part : List Char) : List Char → List String
  | [] => [String.ofList part.reverse]
  | c :: cs =>
    if c = ' ' ∧ depth = 0 then String.ofList part.reverse :: partsFrom depth [] cs
    else partsFrom (depth + depthChange c) (c :: part) cs

/-- What stands between the first and the last character of a text. -/
def inside (w : String) : List Char := w.toList.tail.dropLast

/-- The parts of a text in parentheses; there are none if nothing stands in them. -/
def parts (w : String) : List String :=
  if inside w = [] then [] else partsFrom 0 [] (inside w)

/-- A scan at this depth passes the characters without a cut, and is at the same depth
behind them. -/
def Unbroken (depth : Int) (cs : List Char) : Prop :=
  ∀ part rest, partsFrom depth part (cs ++ rest) = partsFrom depth (cs.reverse ++ part) rest

variable {depth : Int} {cs ds : List Char} {c : Char}

theorem unbroken_nil : Unbroken depth [] := by
  intro part rest
  rfl

theorem Unbroken.append (hcs : Unbroken depth cs) (hds : Unbroken depth ds) :
    Unbroken depth (cs ++ ds) := by
  intro part rest
  rw [List.append_assoc, hcs, hds, List.reverse_append, List.append_assoc]

theorem partsFrom_cons_of_uncut (h : ¬ (c = ' ' ∧ depth = 0)) (part : List Char) :
    partsFrom depth part (c :: cs) = partsFrom (depth + depthChange c) (c :: part) cs := by
  rw [partsFrom, if_neg h]

/-- A character that neither cuts nor changes the depth is passed. -/
theorem Unbroken.cons (hcut : ¬ (c = ' ' ∧ depth = 0)) (hdepth : depthChange c = 0)
    (hcs : Unbroken depth cs) : Unbroken depth (c :: cs) := by
  intro part rest
  rw [List.cons_append, partsFrom_cons_of_uncut hcut, hdepth, Int.add_zero, hcs,
    List.reverse_cons, List.append_assoc]
  rfl

/-- Parentheses around what is passed one deeper are passed with it. -/
theorem Unbroken.parenthesized (hcs : Unbroken (depth + 1) cs) :
    Unbroken depth ('(' :: (cs ++ [')'])) := by
  intro part rest
  have hopening : depthChange '(' = 1 := rfl
  have hclosing : depth + 1 + depthChange ')' = depth := by
    show depth + 1 + -1 = depth
    omega
  rw [List.cons_append, partsFrom_cons_of_uncut (by simp), hopening, List.append_assoc, hcs,
    List.singleton_append, partsFrom_cons_of_uncut (by simp), hclosing]
  simp

/-- A word has neither a space nor a parenthesis in it. -/
theorem IsWord.unbroken {w : String} (h : IsWord w) : Unbroken depth w.toList := by
  have hpassed : ∀ c ∈ w.toList, c ≠ ' ' ∧ depthChange c = 0 := by
    intro c hc
    have hc := h.not_reserved c hc
    simp only [reserved, List.mem_cons, not_or] at hc
    simp [depthChange, hc]
  generalize w.toList = cs at hpassed
  induction cs with
  | nil => exact unbroken_nil
  | cons c cs ih =>
    obtain ⟨hspace, hdepth⟩ := hpassed c (.head cs)
    exact .cons (fun h => hspace h.1) hdepth (ih fun c hc => hpassed c (.tail _ hc))

end Text

/-! ## §2. Canonical texts are cut between nodes. -/

namespace Node

open Text

mutual
/-- **The canonical text of a node is passed as a whole**, at any depth that is not negative. -/
theorem unbroken_pieces : ∀ n : Node, n.IsSpellable → ∀ depth : Int, 0 ≤ depth →
    Unbroken depth n.pieces.flatten
  | int _ value, _, _, _ => by
    rw [pieces, List.flatten_singleton]
    exact (isWord_decimal value).unbroken
  | symbol _ name, h, _, _ => by
    rw [IsSpellable] at h
    rw [pieces, List.flatten_singleton]
    exact h.unbroken
  | expression _ children, h, depth, hdepth => by
    rw [IsSpellable] at h
    have hinside := unbroken_piecesAll children h (depth + 1) (by omega)
    simpa [pieces] using hinside.parenthesized
  | list _ _, h, _, _ => by simp [IsSpellable] at h
  | foreign _ _ _, h, _, _ => by simp [IsSpellable] at h
/-- Inside parentheses the spaces between nodes are passed too. -/
theorem unbroken_piecesAll : ∀ ns : List Node, AllSpellable ns → ∀ depth : Int, 0 < depth →
    Unbroken depth (piecesAll ns).flatten
  | [], _, _, _ => unbroken_nil
  | [n], h, depth, hdepth => by
    rw [AllSpellable] at h
    exact unbroken_pieces n h.1 depth (by omega)
  | n :: m :: ns, h, depth, hdepth => by
    rw [AllSpellable] at h
    have hrest := unbroken_piecesAll (m :: ns) h.2 depth hdepth
    have hspace : Unbroken depth (' ' :: (piecesAll (m :: ns)).flatten) :=
      .cons (fun h => by omega) rfl hrest
    rw [piecesAll, List.flatten_append, List.flatten_cons]
    exact (unbroken_pieces n h.1 depth (by omega)).append hspace
end

/-- **At depth zero the scan is cut between the nodes, and nowhere else.** -/
theorem partsFrom_piecesAll (n : Node) (ns : List Node) (h : AllSpellable (n :: ns)) :
    partsFrom 0 [] (piecesAll (n :: ns)).flatten = encodeAll (n :: ns) := by
  have hfirst : ∀ m : Node, m.IsSpellable → ∀ rest,
      partsFrom 0 [] (m.pieces.flatten ++ rest) = partsFrom 0 m.encode.toList.reverse rest := by
    intro m hm rest
    rw [unbroken_pieces m hm 0 (by omega), flatten_pieces, List.append_nil]
  induction ns generalizing n with
  | nil =>
    rw [AllSpellable] at h
    have hend := hfirst n h.1 []
    rw [List.append_nil] at hend
    rw [piecesAll, hend]
    simp [partsFrom, encodeAll]
  | cons m ns ih =>
    rw [AllSpellable] at h
    rw [piecesAll, List.flatten_append, List.flatten_cons, hfirst n h.1, List.singleton_append,
      partsFrom, if_pos ⟨rfl, rfl⟩, ih m h.2]
    simp [encodeAll]

theorem piecesAll_flatten_ne_nil {n : Node} {ns : List Node} (h : AllSpellable (n :: ns)) :
    (piecesAll (n :: ns)).flatten ≠ [] := by
  rw [AllSpellable] at h
  obtain ⟨ls, hls⟩ := piecesAll_cons n ns
  obtain ⟨c, hc, -⟩ := head_pieces h.1 ls
  rw [hls]
  intro hnil
  rw [hnil] at hc
  cases hc

theorem inside_encode (token : Option Token) (ns : List Node) :
    inside (expression token ns).encode = (piecesAll ns).flatten := by
  have htoList : (expression token ns).encode.toList = '(' :: ((piecesAll ns).flatten ++ [')']) := by
    rw [← flatten_pieces]
    simp [pieces]
  rw [inside, htoList, List.tail_cons, List.dropLast_concat]

/-- **The parts of the canonical text of an expression are those of its nodes.** -/
theorem parts_encode (token : Option Token) {ns : List Node} (h : AllSpellable ns) :
    parts (expression token ns).encode = encodeAll ns := by
  rw [parts, inside_encode]
  cases ns with
  | nil => rfl
  | cons n ns => rw [if_neg (piecesAll_flatten_ne_nil h), partsFrom_piecesAll n ns h]

example : parts "(f (g x) () y)" = ["f", "(g x)", "()", "y"] := by decide

end Node

/-! ## §3. Statements that can be decomposed. -/

namespace Source

variable {src : Source} {n : Node} {t : Token} {e : Error}

/-- All that the source says is one word. -/
def IsOneWord (src : Source) : Prop :=
  src.scan.failure = none ∧ ∃ t, src.significant = [t] ∧ t.kind = .word

/-- A statement is an expression, or it is one word. -/
theorem expression_or_isOneWord (h : src.parseStatement = .ok n) :
    (∃ token ns, n = .expression token ns) ∨ src.IsOneWord ∧ ∃ t, n = .ofWord t := by
  have hparse := parseStatement_eq_ok_iff.1 h
  have hfault := (parse_eq_ok_iff.1 hparse).1
  obtain ⟨ns, hns, hreads⟩ := reads_of_parse hfault hparse
  cases hns
  -- no significant token is a blank, so the first of them begins the node
  have hblank : ∀ t ∈ src.significant, t.kind.isBlank = false := by
    intro t ht
    by_contra hblank
    refine Token.not_isSignificant_of_isBlank (by simpa using hblank) ?_
    exact (List.mem_filter.1 ht).2
  generalize hsignificant : src.significant = ts at hreads hblank
  cases hreads with
  | blank ht _ => simp [hblank _ (.head _)] at ht
  | @word t ts _ ht hrest =>
    refine .inr ⟨⟨failure_scan hfault, t, ?_, ht⟩, t, rfl⟩
    cases hrest with
    | nil => exact hsignificant
    | blank hu _ => simp [hblank _ (.tail _ (.head _))] at hu
  | expression _ _ _ _ => exact .inl ⟨_, _, rfl⟩

/-- Only a source that is one word is read as a leaf. -/
theorem isOneWord_iff : src.IsOneWord ↔ ∃ t, src.parseStatement = .ok (.ofWord t) := by
  constructor
  · rintro ⟨hscan, t, hsignificant, ht⟩
    refine ⟨t, parseStatement_eq_ok_iff.2 (parse_of_reads (fault_of_scan hscan) ?_)⟩
    rw [hsignificant]
    exact .word ht .nil
  · rintro ⟨t, ht⟩
    rcases expression_or_isOneWord ht with ⟨token, ns, heq⟩ | ⟨hword, -⟩
    · exact absurd heq (Node.ofWord_ne_expression t token ns)
    · exact hword

theorem not_malformed_of_parse (h : src.parse = .error e) : e.isBecause .malformed = false := by
  by_cases hfault : src.fault = none
  · rcases parse_cases hfault with ⟨ns, heq, -⟩ | ⟨u, heq, -⟩ | ⟨t, heq, -⟩ <;> rw [heq] at h
    · cases h
    · cases h
      rfl
    · cases h
      rfl
  · obtain ⟨f, -, heq⟩ := split_of_fault hfault
    rw [heq] at h
    cases h
    rfl

/-- A text that is no statement is never called malformed. -/
theorem not_malformed_of_parseStatement (h : src.parseStatement = .error e) :
    e.isBecause .malformed = false := by
  cases hparse : src.parse with
  | error e' =>
    rw [parseStatement, hparse] at h
    cases h
    exact not_malformed_of_parse hparse
  | ok root =>
    obtain ⟨-, ns, rfl, -⟩ := parse_eq_ok_iff.1 hparse
    rw [parseStatement, hparse] at h
    cases ns with
    | nil =>
      cases h
      rfl
    | cons n ns =>
      cases ns with
      | nil => cases h
      | cons m ns =>
        cases h
        rfl

theorem components_of_error (h : src.parseStatement = .error e) : src.components = .error e := by
  rw [components, h]
  rfl

theorem components_of_expression {token : Option Token} {ns : List Node}
    (h : src.parseStatement = .ok (.expression token ns)) :
    src.components = .ok (Node.encodeAll ns) := by
  rw [components, h]
  rfl

theorem components_of_word (h : src.parseStatement = .ok (.ofWord t)) :
    src.components = .error (.located t.pos (.because .malformed) "not a list") := by
  have hword := Node.ofWord_ne_expression t
  rw [← Node.pos_ofWord t, components, h]
  generalize Node.ofWord t = n at hword
  cases n with
  | expression token ns => exact absurd rfl (hword token ns)
  | _ => rfl

end Source

/-- **The parts of a statement are the parts of its canonical text.**  Where a statement has
parts, these are what cutting its canonical text by depth gives, and with a space between them,
in parentheses, they are that text again.  It has none and is called malformed exactly if it is
one word, and in all other cases without parts it is no statement, for the same reason. -/
theorem parts_are_of_canonical_text (stmt : Input) :
    (∀ parts, stmt.source.components = .ok parts →
        ∃ text, stmt.source.canonicalize = .ok text ∧ parts = Text.parts text
          ∧ "(" ++ " ".intercalate parts ++ ")" = text)
      ∧ ((∃ e, stmt.source.components = .error e ∧ e.isBecause .malformed = true)
          ↔ stmt.source.IsOneWord)
      ∧ ∀ e, ¬ stmt.source.IsOneWord →
          (stmt.source.components = .error e ↔ stmt.source.parseStatement = .error e) := by
  cases hparse : stmt.source.parseStatement with
  | error e =>
    have hcomponents := Source.components_of_error hparse
    have hword : ¬ stmt.source.IsOneWord := by
      rw [Source.isOneWord_iff, hparse]
      rintro ⟨t, ht⟩
      cases ht
    rw [hcomponents]
    refine ⟨by simp, iff_of_false ?_ hword, by simp⟩
    rintro ⟨e', he, hmalformed⟩
    cases he
    simp [Source.not_malformed_of_parseStatement hparse] at hmalformed
  | ok n =>
    rcases Source.expression_or_isOneWord hparse with ⟨token, ns, rfl⟩ | ⟨hword, t, rfl⟩
    · have hspellable := Input.isSpellable_of_parseStatement hparse
      rw [Node.IsSpellable] at hspellable
      have hword : ¬ stmt.source.IsOneWord := by
        rw [Source.isOneWord_iff, hparse]
        rintro ⟨t, ht⟩
        exact Node.ofWord_ne_expression t _ _ (Except.ok.inj ht).symm
      rw [Source.components_of_expression hparse, Source.canonicalize_of_ok hparse]
      refine ⟨?_, iff_of_false (by simp) hword, by simp⟩
      rintro parts hparts
      cases hparts
      refine ⟨_, rfl, (Node.parts_encode token hspellable).symm, ?_⟩
      rw [Node.encode]
    · rw [Source.components_of_word hparse]
      exact ⟨by simp, iff_of_true ⟨_, rfl, rfl⟩ hword, fun e h => absurd hword h⟩

/-- Of a statement over three lines, of a word, and of a text that is not closed. -/
theorem parts_are_of_canonical_text_nested :
    let parts := ["f", "(g () y)"]
    let stmt := Input.ofString "( f\n(g ;x)\n () y) )"
    let word := Input.ofString " 42 ; (f)"
    let unclosed := Input.ofString "(+ 1"
    stmt.source.components = .ok parts
      ∧ (∃ text, stmt.source.canonicalize = .ok text ∧ parts = Text.parts text
          ∧ "(" ++ " ".intercalate parts ++ ")" = text)
      ∧ (∃ e, word.source.components = .error e ∧ e.isBecause .malformed = true)
      ∧ ∀ e, unclosed.source.components = .error e ↔ unclosed.source.parseStatement = .error e := by
  intro parts stmt word unclosed
  have hparts : stmt.source.components = .ok parts := by
    rw [Input.source_ofString]
    decide +kernel
  have hword : word.source.IsOneWord := by
    rw [Input.source_ofString]
    exact ⟨by decide +kernel, ⟨.word, "42", 1, ⟨1, 2⟩⟩, by decide +kernel, rfl⟩
  have hunclosed : ¬ unclosed.source.IsOneWord := by
    rintro ⟨-, t, ht, -⟩
    have hlength : (Source.ofString "(+ 1").significant.length = 3 := by decide +kernel
    rw [← Input.source_ofString, ht] at hlength
    cases hlength
  refine ⟨hparts, (parts_are_of_canonical_text stmt).1 _ hparts, ?_, fun e => ?_⟩
  · exact (parts_are_of_canonical_text word).2.1.2 hword
  · exact (parts_are_of_canonical_text unclosed).2.2 e hunclosed

end IntLisp
