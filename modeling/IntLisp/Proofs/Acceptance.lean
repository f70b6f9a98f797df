/-
  IntLisp.Proofs.Acceptance
  ─────────────────────────
  **WHICH SOURCES ARE ACCEPTED, AND WHERE THE OTHERS FAIL.**

  Only parentheses and words matter for the tree of a source.  A source is
  accepted exactly if in every beginning of it no more parentheses are closed
  than were opened, and in all of it as many.  The tree then holds just these
  tokens, in their order.  Otherwise the error stands at the first
  parenthesis that closes nothing or, if there is none, at the last one that
  nothing closes.

  Counting parentheses says nothing of a tree.  The link is the invariant of
  a growing tree: behind tokens that it has grown by there are as many
  parentheses left to close as it has open expressions.
-/
import IntLisp.Proofs.Numeral
import IntLisp.Proofs.Reading

namespace IntLisp

namespace Token

/-! ## §1. Counting parentheses. -/

/-- Whether the token is a parenthesis or a word. -/
def isSignificant (t : Token) : Bool :=
  t.kind = .opening || t.kind = .closing || t.kind = .word

theorem not_isSignificant_of_isBlank {t : Token} (h : t.kind.isBlank = true) :
    ¬ t.isSignificant = true := by
  cases hk : t.kind <;> simp [hk, Kind.isBlank, isSignificant] at h ⊢

theorem isSignificant_of_not_isBlank {t : Token} {c : Char} (hc : t.kind = .ofChar c)
    (h : t.kind.isBlank = false) : t.isSignificant = true := by
  cases hk : t.kind <;> simp [hk, Kind.isBlank, isSignificant] at h ⊢
  · exact Kind.ofChar_ne_finish c (hc.symm.trans hk)
  · exact Kind.ofChar_ne_other c _ (hc.symm.trans hk)

/-- How many parentheses the tokens open. -/
def openings (ts : List Token) : Nat := ts.countP fun t => t.kind = .opening

/-- How many parentheses the tokens close. -/
def closings (ts : List Token) : Nat := ts.countP fun t => t.kind = .closing

/-- Tokens behind `k` open parentheses that never close more than are open. -/
def Covered (k : Nat) (ts : List Token) : Prop :=
  ∀ before, before <+: ts → closings before ≤ k + openings before

/-- The token `u` is the first parenthesis that closes nothing: more are closed than opened
with it, and not before. -/
def FirstUnopened (ts : List Token) (u : Token) : Prop :=
  ∃ before after, ts = before ++ u :: after ∧ u.kind = .closing
    ∧ Covered 0 before ∧ ¬ Covered 0 (before ++ [u])

/-- The token `t` is the last parenthesis that nothing closes: what is behind it closes no
more than it opens itself, and this is so behind no later one. -/
def LastUnclosed (ts : List Token) (t : Token) : Prop :=
  ∃ before after, ts = before ++ t :: after ∧ t.kind = .opening ∧ Covered 0 after
    ∧ ∀ inside u rest, after = inside ++ u :: rest → u.kind = .opening → ¬ Covered 0 rest

section

variable {k : Nat} {t : Token} {ts us : List Token}

@[simp] theorem openings_nil : openings [] = 0 := rfl

@[simp] theorem closings_nil : closings [] = 0 := rfl

theorem openings_cons (t : Token) (ts : List Token) :
    openings (t :: ts) = openings ts + if t.kind = .opening then 1 else 0 := by
  simp [openings, List.countP_cons]

theorem closings_cons (t : Token) (ts : List Token) :
    closings (t :: ts) = closings ts + if t.kind = .closing then 1 else 0 := by
  simp [closings, List.countP_cons]

@[simp] theorem openings_append (ts us : List Token) :
    openings (ts ++ us) = openings ts + openings us :=
  List.countP_append

@[simp] theorem closings_append (ts us : List Token) :
    closings (ts ++ us) = closings ts + closings us :=
  List.countP_append

theorem covered_nil (k : Nat) : Covered k [] := by
  intro before h
  rw [List.prefix_nil.1 h]
  exact Nat.zero_le _

theorem Covered.of_prefix (h : Covered k us) (hts : ts <+: us) : Covered k ts := by
  intro before hbefore
  exact h before (hbefore.trans hts)

theorem Covered.closings_le (h : Covered k ts) : closings ts ≤ k + openings ts :=
  h ts List.prefix_rfl

/-- What a single token does to the parentheses that are open. -/
theorem covered_cons_iff :
    Covered k (t :: ts) ↔
      ∀ before, before <+: ts → closings (t :: before) ≤ k + openings (t :: before) := by
  constructor
  · intro h before hbefore
    exact h _ (List.cons_prefix_cons.2 ⟨rfl, hbefore⟩)
  · intro h before hbefore
    rcases List.prefix_cons_iff.1 hbefore with rfl | ⟨rest, rfl, hrest⟩
    · exact Nat.zero_le _
    · exact h rest hrest

theorem covered_opening (ht : t.kind = .opening) : Covered k (t :: ts) ↔ Covered (k + 1) ts := by
  rw [covered_cons_iff]
  simp only [Covered, openings_cons, closings_cons, ht]
  refine forall₂_congr fun before _ => ?_
  simp
  omega

theorem covered_closing (ht : t.kind = .closing) : Covered (k + 1) (t :: ts) ↔ Covered k ts := by
  rw [covered_cons_iff]
  simp only [Covered, openings_cons, closings_cons, ht]
  refine forall₂_congr fun before _ => ?_
  simp
  omega

theorem covered_plain (hopening : t.kind ≠ .opening) (hclosing : t.kind ≠ .closing) :
    Covered k (t :: ts) ↔ Covered k ts := by
  rw [covered_cons_iff]
  simp only [Covered, openings_cons, closings_cons, if_neg hopening, if_neg hclosing, Nat.add_zero]

theorem not_covered_zero (ht : t.kind = .closing) : ¬ Covered 0 (t :: ts) := by
  intro h
  have hle := covered_cons_iff.1 h [] List.nil_prefix
  simp [openings_cons, closings_cons, ht] at hle

theorem FirstUnopened.not_covered (h : FirstUnopened ts t) : ¬ Covered 0 ts := by
  obtain ⟨before, after, rfl, -, -, hnot⟩ := h
  intro hcovered
  exact hnot (hcovered.of_prefix ⟨after, by simp⟩)

end

end Token

open Token

/-! ## §2. Tokens of trees, grown or growing. -/

namespace Balanced

variable {k : Nat} {ts us : List Token}

theorem counts (h : Balanced ts) : openings ts = closings ts := by
  induction h with
  | nil => rfl
  | plain hopening hclosing _ ih =>
    rw [openings_cons, closings_cons, if_neg hopening, if_neg hclosing, ih]
  | nested ht _ hu _ ihinside ih =>
    simp [openings_cons, closings_cons, ht, hu, ihinside, ih]
    omega

/-- Balanced tokens leave open what was open before them. -/
theorem covered_append (h : Balanced ts) : Covered k (ts ++ us) ↔ Covered k us := by
  induction h generalizing k us with
  | nil => rfl
  | plain hopening hclosing _ ih =>
    rw [List.cons_append, covered_plain hopening hclosing, ih]
  | nested ht _ hu _ ihinside ih =>
    rw [List.cons_append, covered_opening ht, List.append_assoc, ihinside, List.cons_append,
      covered_closing hu, ih]

theorem covered (h : Balanced ts) : Covered k ts := by
  rw [← List.append_nil ts, h.covered_append]
  exact covered_nil k

end Balanced

namespace Grown

variable {k : Nat} {ts us : List Token} {g : Growth}

theorem counts (h : Grown ts g) : openings ts = closings ts + g.pending.length := by
  induction h with
  | outside h => exact h.balanced.counts
  | inside _ ht hus ih =>
    simp [openings_cons, closings_cons, ht, hus.balanced.counts, ih]
    omega

/-- **As many parentheses are left to close as there are open expressions.** -/
theorem covered_append (h : Grown ts g) :
    Covered k (ts ++ us) ↔ Covered (k + g.pending.length) us := by
  induction h generalizing k us with
  | outside h => exact h.balanced.covered_append
  | inside _ ht hvs ih =>
    rw [List.append_assoc, ih, List.cons_append, covered_opening ht, hvs.balanced.covered_append]
    rfl

theorem covered (h : Grown ts g) : Covered k ts := by
  rw [← List.append_nil ts, h.covered_append]
  exact covered_nil _

/-- A parenthesis behind a tree without open expressions closes nothing. -/
theorem firstUnopened {u : Token} (h : Grown ts g) (hg : g.pending = []) (hu : u.kind = .closing) :
    FirstUnopened (ts ++ u :: us) u := by
  refine ⟨ts, us, rfl, hu, h.covered, ?_⟩
  rw [h.covered_append, hg]
  exact not_covered_zero hu

/-- The innermost open expression has the last parenthesis that nothing closes. -/
theorem lastUnclosed {e : OpenExpression} {es : List OpenExpression} (h : Grown ts g)
    (hg : g.pending = e :: es) : LastUnclosed ts e.token := by
  cases h with
  | outside _ => cases hg
  | @inside ts us t _ _ _ _ ht hus =>
    cases hg
    refine ⟨ts, us, rfl, ht, hus.balanced.covered, ?_⟩
    intro inside u rest hsplit hu hrest
    -- what is behind the parenthesis is balanced, so all that it opens is closed
    have hcounts := hus.balanced.counts
    have hinside : Covered 0 us := hus.balanced.covered
    have hle := hinside inside ⟨u :: rest, hsplit.symm⟩
    have hle' := hrest.closings_le
    rw [hsplit] at hcounts
    simp [openings_cons, closings_cons, hu] at hcounts hle hle'
    omega

end Grown

/-! ## §3. The tokens of a tree. -/

/-- What a tree shows of a token: an expression keeps its first parenthesis, and a leaf
its word. -/
inductive Stroke where
  | opening (token : Option Token)
  | closing
  | leaf (n : Node)

/-- What the tree of a source shows of a parenthesis or a word. -/
def Token.stroke (t : Token) : Stroke :=
  match t.kind with
  | .opening => .opening (some t)
  | .closing => .closing
  | _ => .leaf (.ofWord t)

namespace Node

mutual
/-- What a tree shows of its tokens, in their order. -/
def outline : Node → List Stroke
  | expression token children => .opening token :: (outlineAll children ++ [.closing])
  | list _ children => outlineAll children
  | int token value => [.leaf (int token value)]
  | symbol token name => [.leaf (symbol token name)]
  | foreign token code content => [.leaf (foreign token code content)]
/-- What trees show of their tokens, one after the other. -/
def outlineAll : List Node → List Stroke
  | [] => []
  | n :: ns => outline n ++ outlineAll ns
end

theorem outline_ofWord (t : Token) : (ofWord t).outline = [.leaf (ofWord t)] := by
  unfold ofWord
  split <;> rfl

end Node

/-- **The tree of tokens shows each parenthesis and each word among them.** -/
theorem Reads.outlineAll_eq {ts : List Token} {ns : List Node} (h : Reads ts ns) :
    Node.outlineAll ns = (ts.filter isSignificant).map Token.stroke := by
  induction h with
  | nil => rfl
  | blank ht _ ih =>
    rw [List.filter_cons_of_neg (not_isSignificant_of_isBlank ht), ih]
  | @word t _ _ ht _ ih =>
    have hstroke : t.stroke = .leaf (.ofWord t) := by rw [stroke, ht]
    rw [List.filter_cons_of_pos (by simp [isSignificant, ht]), List.map_cons, hstroke,
      Node.outlineAll, Node.outline_ofWord, ih]
    rfl
  | @expression t u inside ts ms ns ht _ hu _ ihinside ih =>
    have ht' : t.stroke = .opening (some t) := by rw [stroke, ht]
    have hu' : u.stroke = .closing := by rw [stroke, hu]
    rw [List.filter_cons_of_pos (by simp [isSignificant, ht]), List.filter_append,
      List.filter_cons_of_pos (by simp [isSignificant, hu]), List.map_cons, List.map_append,
      List.map_cons, ht', hu', ← ihinside, ← ih, Node.outlineAll, Node.outline]
    simp

/-! ## §4. Parentheses and words alone. -/

/-- **What keeps tokens apart does not matter for their tree.** -/
theorem Growth.grow_filter {autoClose : Bool} {w : Token} :
    ∀ {ts : List Token} (g : Growth), (∀ t ∈ ts, ∃ c, t.kind = .ofChar c) →
      g.grow autoClose (ts.filter isSignificant ++ [w]) = g.grow autoClose (ts ++ [w]) := by
  intro ts
  induction ts with
  | nil =>
    intro g _
    rfl
  | cons t ts ih =>
    intro g hts
    obtain ⟨c, hc⟩ := hts t (.head ts)
    have hrest := fun g => ih g fun t ht => hts t (.tail _ ht)
    rw [List.cons_append]
    cases hblank : t.kind.isBlank with
    | true =>
      rw [List.filter_cons_of_neg (not_isSignificant_of_isBlank hblank), hrest, grow_blank hblank]
    | false =>
      rw [List.filter_cons_of_pos (isSignificant_of_not_isBlank hc hblank), List.cons_append]
      simp only [grow, hrest]

namespace Source

variable {src : Source}

/-- The parentheses and the words of a source. -/
def significant (src : Source) : List Token := src.scan.tokens.filter isSignificant

theorem significant_eq (h : src.fault = none) :
    src.significant = src.body.filter isSignificant := by
  obtain ⟨e, he, hscan⟩ := scan_eq_body h
  simp [significant, hscan, List.filter_append, isSignificant, he]

theorem exists_kind_eq_of_significant (h : src.fault = none) :
    ∀ t ∈ src.significant, ∃ c, t.kind = .ofChar c := by
  intro t ht
  rw [significant_eq h] at ht
  exact exists_kind_eq (List.mem_filter.1 ht).1

theorem read_eq_grow (h : src.fault = none) (autoClose : Bool) :
    ∃ w : Token, w.kind = .finish
      ∧ src.read autoClose = Growth.empty.grow autoClose (src.significant ++ [w]) := by
  obtain ⟨e, he, hscan⟩ := scan_eq_body h
  refine ⟨e, he, ?_⟩
  rw [significant_eq h, Growth.grow_filter _ fun t ht => exists_kind_eq ht, read, hscan]

theorem parse_of_reads {ns : List Node} (h : src.fault = none) (hns : Reads src.significant ns) :
    src.parse = .ok (.list none ns) := by
  obtain ⟨w, hw, hread⟩ := read_eq_grow h false
  rw [parse, hread, hns.grow_finish hw]

/-- **A source without a fault is accepted, or fails in one of two ways.** -/
theorem parse_cases (h : src.fault = none) :
    (∃ ns, src.parse = .ok (.list none ns) ∧ Reads src.significant ns)
      ∨ (∃ u, src.parse = .error (Growth.errorAt u .unbalanced "unexpected )")
          ∧ FirstUnopened src.significant u)
      ∨ ∃ t, src.parse = .error (Growth.errorAt t .unexpectedEnd "unclosed (")
          ∧ LastUnclosed src.significant t ∧ Covered 0 src.significant
          ∧ closings src.significant < openings src.significant := by
  obtain ⟨w, hw, hread⟩ := read_eq_grow h false
  rw [parse, hread]
  rcases Grown.empty.grow_cases hw false (exists_kind_eq_of_significant h) with
    ⟨g, hg, hgrow⟩ | ⟨before, u, after, g, hsplit, hu, hg, hpending, hgrow⟩
  · rw [List.nil_append] at hg
    rw [hgrow, Growth.finish]
    cases hpending : g.pending with
    | nil =>
      generalize src.significant = ts at hg
      cases hg with
      | outside hreads => exact .inl ⟨_, rfl, hreads⟩
      | inside _ _ _ => cases hpending
    | cons e es =>
      have hcounts := hg.counts
      rw [hpending, List.length_cons] at hcounts
      exact .inr (.inr ⟨e.token, rfl, hg.lastUnclosed hpending, hg.covered, by omega⟩)
  · rw [List.nil_append] at hsplit
    rw [hgrow, hsplit]
    exact .inr (.inl ⟨u, rfl, hg.firstUnopened hpending hu⟩)

theorem reads_of_parse {root : Node} (h : src.fault = none) (hparse : src.parse = .ok root) :
    ∃ ns, root = .list none ns ∧ Reads src.significant ns := by
  rcases parse_cases h with ⟨ns, heq, hns⟩ | ⟨u, heq, -⟩ | ⟨t, heq, -⟩
  · rw [heq] at hparse
    cases hparse
    exact ⟨ns, rfl, hns⟩
  · rw [heq] at hparse
    cases hparse
  · rw [heq] at hparse
    cases hparse

end Source

/-! ## §5. Judging a source. -/

/-- What becomes of a source that can be cut into tokens. -/
structure Source.Judged (src : Source) : Prop where
  /-- It is accepted if it never closes more than is open, and closes all in the end. -/
  accepted_iff : (∃ root, src.parse = .ok root)
    ↔ Covered 0 src.significant ∧ openings src.significant = closings src.significant
  /-- The tree holds its parentheses and words, in their order. -/
  outline_eq : ∀ root, src.parse = .ok root →
    ∃ ns, root = .list none ns ∧ root.outline = src.significant.map Token.stroke
  /-- Every word is a leaf, with its token: an integer if it is a numeral, and a symbol
  otherwise. -/
  leaf_eq : ∀ t ∈ src.significant, t.kind = .word →
    (Text.IsNumeral t.text ∧ ∃ z, Text.numeral? t.text = some z ∧ Node.ofWord t = .int (some t) z)
      ∨ ¬ Text.IsNumeral t.text ∧ Node.ofWord t = .symbol (some t) t.text
  /-- A parenthesis that closes nothing is an error, and the first one is reported. -/
  unopened : ¬ Covered 0 src.significant → ∃ u, FirstUnopened src.significant u
    ∧ src.parse = .error (Growth.errorAt u .unbalanced "unexpected )")
  /-- Otherwise one that nothing closes is an error, and the last one is reported. -/
  unclosed : Covered 0 src.significant → openings src.significant ≠ closings src.significant →
    ∃ t, LastUnclosed src.significant t
      ∧ src.parse = .error (Growth.errorAt t .unexpectedEnd "unclosed (")
  /-- Nothing else is an error. -/
  error_cases : ∀ e, src.parse = .error e →
    (∃ u, FirstUnopened src.significant u ∧ e = Growth.errorAt u .unbalanced "unexpected )")
      ∨ ∃ t, LastUnclosed src.significant t ∧ e = Growth.errorAt t .unexpectedEnd "unclosed ("
  /-- A source with the same parentheses and words has the same tree, but for places. -/
  bare_eq : ∀ (src' : Source) (root : Node), src'.scan.failure = none →
    src'.significant.map content = src.significant.map content → src.parse = .ok root →
    ∃ root', src'.parse = .ok root' ∧ root'.bare = root.bare

/-- **Parsing accepts the balanced sources and finds the fault of the others.** -/
theorem parse_judges (src : Source) (h : src.scan.failure = none) : src.Judged := by
  have hfault := Source.fault_of_scan h
  have hcases := Source.parse_cases hfault
  exact {
    accepted_iff := by
      constructor
      · rintro ⟨root, hparse⟩
        obtain ⟨ns, rfl, hns⟩ := Source.reads_of_parse hfault hparse
        exact ⟨hns.balanced.covered, hns.balanced.counts⟩
      · rintro ⟨hcovered, hcounts⟩
        rcases hcases with ⟨ns, hparse, -⟩ | ⟨u, -, hu⟩ | ⟨t, -, -, -, hlt⟩
        · exact ⟨_, hparse⟩
        · exact absurd hcovered hu.not_covered
        · omega
    outline_eq := by
      intro root hparse
      obtain ⟨ns, rfl, hns⟩ := Source.reads_of_parse hfault hparse
      refine ⟨ns, rfl, ?_⟩
      rw [Node.outline, hns.outlineAll_eq, Source.significant, List.filter_filter]
      simp only [Bool.and_self]
    leaf_eq := by
      intro t _ _
      unfold Node.ofWord
      cases hnumeral : Text.numeral? t.text with
      | some z =>
        exact .inl ⟨Text.isSome_numeral?_iff.1 (Option.isSome_of_eq_some hnumeral), z, rfl, rfl⟩
      | none => exact .inr ⟨Text.numeral?_eq_none_iff.1 hnumeral, rfl⟩
    unopened := by
      intro hnot
      rcases hcases with ⟨ns, -, hns⟩ | ⟨u, hparse, hu⟩ | ⟨t, -, -, hcovered, -⟩
      · exact absurd hns.balanced.covered hnot
      · exact ⟨u, hu, hparse⟩
      · exact absurd hcovered hnot
    unclosed := by
      intro hcovered hcounts
      rcases hcases with ⟨ns, -, hns⟩ | ⟨u, -, hu⟩ | ⟨t, hparse, ht, -, -⟩
      · exact absurd hns.balanced.counts hcounts
      · exact absurd hcovered hu.not_covered
      · exact ⟨t, ht, hparse⟩
    error_cases := by
      intro e hparse
      rcases hcases with ⟨ns, heq, -⟩ | ⟨u, heq, hu⟩ | ⟨t, heq, ht, -, -⟩
      · rw [heq] at hparse
        cases hparse
      · rw [heq] at hparse
        cases hparse
        exact .inl ⟨u, hu, rfl⟩
      · rw [heq] at hparse
        cases hparse
        exact .inr ⟨t, ht, rfl⟩
    bare_eq := by
      intro src' root h' hcontent hparse
      obtain ⟨ns, rfl, hns⟩ := Source.reads_of_parse hfault hparse
      obtain ⟨ms, hms, hbare⟩ := hns.of_content hcontent
      exact ⟨_, Source.parse_of_reads (Source.fault_of_scan h') hms,
        Node.bare_list_eq hbare _ _⟩ }

/-- The only parenthesis that could close the first one stands in a comment. -/
theorem parse_judges_comment :
    (Source.ofString "(a ; )\n(b -2)").scan.failure = none
      ∧ (Source.ofString "(a ; )\n(b -2)").Judged := by
  have h : (Source.ofString "(a ; )\n(b -2)").scan.failure = none :=
    Source.failure_scan (by decide)
  exact ⟨h, parse_judges _ h⟩

end IntLisp
