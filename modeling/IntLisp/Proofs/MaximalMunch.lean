/-
  IntLisp.Proofs.MaximalMunch
  ───────────────────────────
  **THE TOKENS OF A TEXT ARE ITS ONLY READING.**

  What a piece of each kind looks like, and which kinds may stand next to
  each other, can be said without a scanner.  A reading is a cut of a text
  into pieces that keeps to both.  There is exactly one:

      IsReading text ps ↔ ps = kinds and texts of the tokens

  Both halves go through `Lexed`.  A piece is what its first character
  demands, and a kind may stand before another exactly if the first character
  of the second does not go on with the first: so a cut at any other place
  either leaves a piece that is none or puts two of them side by side that
  should have been one.
-/
import IntLisp.Proofs.Encoding
import IntLisp.Proofs.Lexeme
import Mathlib.Data.List.Chain

namespace IntLisp

namespace Token

/-! ## §1. Readings of a text. -/

/-- The characters that separators are made of. -/
def separatorChars : List Char := [' ', '\t', '\x0c', '\r']

/-- The characters that no word holds. -/
def wordBreaks : List Char := ['(', ')', '\n', ';'] ++ separatorChars

/-- What the pieces of each kind look like. -/
inductive IsPiece : Kind → String → Prop where
  | opening : IsPiece .opening "("
  | closing : IsPiece .closing ")"
  | newline : IsPiece .newline "\n"
  | separator {w : String} (hne : w ≠ "") (h : ∀ c ∈ w.toList, c ∈ separatorChars) :
      IsPiece .separator w
  | comment {w : String} (h : '\n' ∉ w.toList) : IsPiece .comment (";" ++ w)
  | word {w : String} (hne : w ≠ "") (h : ∀ c ∈ w.toList, c ∉ wordBreaks) : IsPiece .word w

/-- Which kinds may stand next to each other. -/
structure Kind.MayPrecede (k l : Kind) : Prop where
  separator : k = .separator → l ≠ .separator
  word : k = .word → l ≠ .word
  /-- A comment ends where its line does. -/
  comment : k = .comment → l = .newline

/-- A cut of the text into pieces, each with its kind. -/
structure IsReading (text : String) (ps : List (Kind × String)) : Prop where
  join_eq : String.join (ps.map Prod.snd) = text
  piece : ∀ p ∈ ps, IsPiece p.1 p.2
  neighbours : ps.IsChain fun p q => p.1.MayPrecede q.1

/-! ## §2. Pieces and their first characters. -/

theorem Kind.ofChar_eq_newline_iff {c : Char} : Kind.ofChar c = .newline ↔ c = '\n' := by
  unfold Kind.ofChar
  split_ifs <;> simp_all

theorem Kind.ofChar_eq_comment_iff {c : Char} : Kind.ofChar c = .comment ↔ c = ';' := by
  unfold Kind.ofChar
  split_ifs <;> grind

theorem Kind.ofChar_eq_separator_iff {c : Char} :
    Kind.ofChar c = .separator ↔ c ∈ separatorChars := by
  unfold Kind.ofChar separatorChars
  split_ifs <;> grind

theorem Kind.ofChar_eq_word_iff_wordBreaks {c : Char} :
    Kind.ofChar c = .word ↔ c ∉ wordBreaks := by
  rw [Kind.ofChar_eq_word_iff]
  simp only [wordBreaks, separatorChars, List.cons_append, List.nil_append, List.mem_cons]
  tauto

/-- A character does not go on with a token exactly if its own kind may stand behind it. -/
theorem Kind.continues_eq_false_iff {k : Kind} {c : Char} :
    k.continues c = false ↔ k.MayPrecede (.ofChar c) := by
  constructor
  · intro h
    refine ⟨?_, ?_, ?_⟩ <;> rintro rfl
    · simpa [continues] using h
    · simpa [continues] using h
    · exact ofChar_eq_newline_iff.2 (by simpa [continues] using h)
  · intro h
    cases k with
    | separator => exact decide_eq_false (h.separator rfl)
    | word => exact decide_eq_false (h.word rfl)
    | comment => simpa [continues] using ofChar_eq_newline_iff.1 (h.comment rfl)
    | opening | closing | newline | finish | other _ => rfl

/-- A first character of the kind, and characters that go on with it. -/
def GoesOn (k : Kind) (l : List Char) : Prop :=
  ∃ c cs, l = c :: cs ∧ Kind.ofChar c = k ∧ ∀ x ∈ cs, k.continues x = true

/-- Where only characters of the kind itself go on with it, they make a run. -/
theorem goesOn_run_iff {k : Kind} (hk : ∀ x, k.continues x = decide (Kind.ofChar x = k))
    {l : List Char} : GoesOn k l ↔ l ≠ [] ∧ ∀ x ∈ l, Kind.ofChar x = k := by
  constructor
  · rintro ⟨c, cs, rfl, hc, hcs⟩
    refine ⟨List.cons_ne_nil c cs, fun x hx => ?_⟩
    cases hx with
    | head => exact hc
    | tail _ hx => exact of_decide_eq_true (hk x ▸ hcs x hx)
  · rintro ⟨hne, h⟩
    obtain ⟨c, cs, rfl⟩ := List.exists_cons_of_ne_nil hne
    refine ⟨c, cs, rfl, h c (.head cs), fun x hx => ?_⟩
    rw [hk]
    exact decide_eq_true (h x (.tail c hx))

/-- Where nothing goes on with the kind, its first character stands alone. -/
theorem GoesOn.singleton {k : Kind} (hk : ∀ x, k.continues x = false) {l : List Char}
    (h : GoesOn k l) : ∃ c, Kind.ofChar c = k ∧ l = [c] := by
  obtain ⟨c, cs, rfl, hc, hcs⟩ := h
  have hnil : cs = [] := by
    refine List.eq_nil_iff_forall_not_mem.2 fun x hx => ?_
    simpa [hk x] using hcs x hx
  exact ⟨c, hc, by rw [hnil]⟩

theorem IsPiece.goesOn {k : Kind} {w : String} (h : IsPiece k w) : GoesOn k w.toList := by
  cases h with
  | opening => exact ⟨'(', [], rfl, rfl, by simp⟩
  | closing => exact ⟨')', [], rfl, rfl, by simp⟩
  | newline => exact ⟨'\n', [], rfl, rfl, by simp⟩
  | separator hne h =>
    refine (goesOn_run_iff fun _ => rfl).2 ⟨mt String.toList_eq_nil_iff.1 hne, fun x hx => ?_⟩
    exact Kind.ofChar_eq_separator_iff.2 (h x hx)
  | @comment w h =>
    refine ⟨';', w.toList, by simp, rfl, fun x hx => decide_eq_true ?_⟩
    rintro rfl
    exact h hx
  | word hne h =>
    refine (goesOn_run_iff fun _ => rfl).2 ⟨mt String.toList_eq_nil_iff.1 hne, fun x hx => ?_⟩
    exact Kind.ofChar_eq_word_iff_wordBreaks.2 (h x hx)

theorem GoesOn.isPiece {k : Kind} {l : List Char} (h : GoesOn k l) :
    IsPiece k (String.ofList l) := by
  cases k with
  | opening =>
    obtain ⟨c, hc, rfl⟩ := h.singleton fun _ => rfl
    rw [Kind.eq_of_ofChar_opening hc]
    exact .opening
  | closing =>
    obtain ⟨c, hc, rfl⟩ := h.singleton fun _ => rfl
    rw [Kind.eq_of_ofChar_closing hc]
    exact .closing
  | newline =>
    obtain ⟨c, hc, rfl⟩ := h.singleton fun _ => rfl
    rw [Kind.ofChar_eq_newline_iff.1 hc]
    exact .newline
  | separator =>
    obtain ⟨hne, hl⟩ := (goesOn_run_iff fun _ => rfl).1 h
    refine .separator (by simpa using hne) fun x hx => Kind.ofChar_eq_separator_iff.1 (hl x ?_)
    rwa [String.toList_ofList] at hx
  | comment =>
    obtain ⟨c, cs, rfl, hc, hcs⟩ := h
    rw [Kind.ofChar_eq_comment_iff.1 hc, ← List.singleton_append, String.ofList_append]
    refine .comment fun hmem => ?_
    rw [String.toList_ofList] at hmem
    exact of_decide_eq_true (hcs _ hmem) rfl
  | word =>
    obtain ⟨hne, hl⟩ := (goesOn_run_iff fun _ => rfl).1 h
    refine .word (by simpa using hne) fun x hx => Kind.ofChar_eq_word_iff_wordBreaks.1 (hl x ?_)
    rwa [String.toList_ofList] at hx
  | finish =>
    obtain ⟨c, -, -, hc, -⟩ := h
    exact absurd hc (Kind.ofChar_ne_finish c)
  | other code =>
    obtain ⟨c, -, -, hc, -⟩ := h
    exact absurd hc (Kind.ofChar_ne_other c code)

/-! ## §3. The only reading. -/

/-- The lexemes with their kinds. -/
def labelled (ls : List (List Char)) : List (Kind × String) :=
  ls.map fun l => (.ofLexeme l, String.ofList l)

theorem join_labelled (ls : List (List Char)) :
    String.join ((labelled ls).map Prod.snd) = String.ofList ls.flatten := by
  refine String.toList_injective ?_
  rw [String.toList_join, String.toList_ofList, labelled, List.map_map, List.flatMap_map,
    List.flatten_eq_flatMap]
  simp

/-- Lexemes that stop where they should are a reading of their text. -/
theorem Lexed.isReading {ls : List (List Char)} (h : Lexed ls) :
    IsReading (String.ofList ls.flatten) (labelled ls) := by
  refine ⟨join_labelled ls, ?_, ?_⟩
  · intro p hp
    obtain ⟨l, hl, rfl⟩ := List.mem_map.1 hp
    obtain ⟨c, cs, rfl, hcs⟩ := h.exists_cons hl
    exact GoesOn.isPiece ⟨c, cs, rfl, rfl, hcs⟩
  · induction h with
    | nil => exact .nil
    | @cons c cs ls hcs hstop hls ih =>
      refine .cons ih fun q hq => ?_
      cases hls with
      | nil => cases hq
      | @cons d ds ls _ _ _ =>
        cases hq
        exact Kind.continues_eq_false_iff.1 (hstop d rfl)

/-- The pieces of a reading stop where they should. -/
theorem IsReading.lexed {text : String} {ps : List (Kind × String)} (h : IsReading text ps) :
    Lexed (ps.map fun p => p.2.toList) := by
  obtain ⟨-, hpiece, hneighbours⟩ := h
  induction ps with
  | nil => exact .nil
  | cons p ps ih =>
    rw [List.isChain_cons] at hneighbours
    have hps : ∀ q ∈ ps, IsPiece q.1 q.2 := fun q hq => hpiece q (.tail p hq)
    obtain ⟨c, cs, hw, hc, hcs⟩ := (hpiece p (.head ps)).goesOn
    rw [List.map_cons, hw]
    refine .cons (hc ▸ hcs) (fun x hx => ?_) (ih hps hneighbours.2)
    -- what stands behind the piece begins with the first character of the next one
    cases ps with
    | nil => cases hx
    | cons q qs =>
      obtain ⟨d, ds, hq, hd, -⟩ := (hps q (.head qs)).goesOn
      rw [List.map_cons, hq] at hx
      cases hx
      rw [hc, Kind.continues_eq_false_iff, hd]
      exact hneighbours.1 q rfl

/-- **A text has one reading: its lexemes with their kinds.** -/
theorem isReading_iff {text : String} {ps : List (Kind × String)} :
    IsReading text ps ↔ ps = labelled (lexemes text.toList) := by
  constructor
  · intro h
    have hflatten : (ps.map fun p => p.2.toList).flatten = text.toList := by
      rw [← h.join_eq, String.toList_join, List.flatMap_map, List.flatMap_def]
    have hlexemes := h.lexed.lexemes_flatten
    rw [hflatten] at hlexemes
    -- a piece has the kind of its first character, so its text says all about it
    have hlabel : ∀ p ∈ ps, p = (Kind.ofLexeme p.2.toList, String.ofList p.2.toList) := by
      intro p hp
      obtain ⟨c, cs, hw, hc, -⟩ := (h.piece p hp).goesOn
      refine Prod.ext ?_ String.ofList_toList.symm
      rw [hw]
      exact hc.symm
    rw [hlexemes, labelled, List.map_map]
    exact (List.map_id ps).symm.trans (List.map_congr_left hlabel)
  · rintro rfl
    have hreading := (lexed_lexemes text.toList).isReading
    rwa [flatten_lexemes, String.ofList_toList] at hreading

end Token

/-- **Tokens are the only reading of their text.**  A text without NUL is scanned to its end.
The tokens before that end, by their kinds and texts, are a reading of the text without a mark
that leads it, and there is no other. -/
theorem tokens_only_reading (s : String) (hnul : '\x00' ∉ s.toList) :
    ∃ ts e, (Input.ofString s).source.scan = ⟨ts ++ [e], none⟩ ∧ e.kind = .finish
      ∧ ∀ ps, Token.IsReading (String.ofList (Source.dropMark s.toList)) ps
          ↔ ps = ts.map Token.content := by
  have hsource : (Input.ofString s).source
      = ⟨Source.isMarked s.toList, Source.dropMark s.toList, none⟩ := by
    rw [Input.source_ofString, Source.ofString_eq hnul]
  have hfault : (Input.ofString s).source.fault = none := by
    rw [hsource]
  obtain ⟨e, he, hscan⟩ := Source.scan_eq_body hfault
  refine ⟨_, e, hscan, he, fun ps => ?_⟩
  rw [Token.isReading_iff, String.toList_ofList, Source.body, Token.map_content_placed, hsource]
  rfl

/-- A comment takes the parenthesis and the blanks in it, but not the newline behind it; a mark
is dropped once only, and what follows it is a word. -/
theorem tokens_only_reading_comment :
    let s := "\uFEFF\uFEFFa ;b (\n\t)"
    '\x00' ∉ s.toList ∧ ∀ ps, Token.IsReading "\uFEFFa ;b (\n\t)" ps ↔
      ps = [(.word, "\uFEFFa"), (.separator, " "), (.comment, ";b ("), (.newline, "\n"),
        (.separator, "\t"), (.closing, ")")] := by
  intro s
  have hnul : '\x00' ∉ s.toList := by decide
  obtain ⟨ts, e, hscan, -, hreading⟩ := tokens_only_reading s hnul
  have htokens : ((ts ++ [e]).map Token.content).dropLast
      = [(.word, "\uFEFFa"), (.separator, " "), (.comment, ";b ("), (.newline, "\n"),
        (.separator, "\t"), (.closing, ")")] := by
    have heq : ts ++ [e] = (Source.ofString s).scan.tokens := by
      rw [← Input.source_ofString, hscan]
    rw [heq]
    decide +kernel
  have htext : String.ofList (Source.dropMark s.toList) = "\uFEFFa ;b (\n\t)" := by decide
  rw [List.map_append, List.map_singleton, List.dropLast_concat] at htokens
  rw [htext, htokens] at hreading
  exact ⟨hnul, hreading⟩

end IntLisp
