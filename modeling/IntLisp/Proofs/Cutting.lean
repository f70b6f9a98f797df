/-
  IntLisp.Proofs.Cutting
  ──────────────────────
  **STATEMENTS OF TOKENS IN A ROW, AND OF TOKENS THAT MOVE.**

  Tokens are cut into statements with a look ahead: for the parenthesis that
  closes an expression, or else for a token that can begin the next statement.
  What the cut does not depend on:

    • what stands behind tokens whose statements are all sound
      (`ofTokenList_append_of_sound`),
    • the end of the text (`ofTokenList_finish_behind`),
    • how many lines and bytes stand before the text
      (`ofTokenList_map_moved`).

  Only the second and third hold for unbalanced texts too.
-/
import IntLisp.Proofs.Statements

namespace IntLisp

/-! ## §1. Sound statements and what stands behind them. -/

namespace Statement

variable {t e : Token} {ts us rest : List Token}

theorem ofTokenList_closing (ht : t.kind = .closing) :
    ofTokenList (t :: ts)
      = ofTokens t [] (some (Growth.errorAt t .unbalanced "unexpected )")) :: ofTokenList ts := by
  rw [ofTokenList, ht]

theorem ofTokenList_unclosed (ht : t.kind = .opening) (h : splitClosed ts = none) :
    ofTokenList (t :: ts)
      = ofTokens t (splitUnclosed t.pos false ts).1
            (some (Growth.errorAt t .unexpectedEnd "unclosed ("))
          :: ofTokenList (splitUnclosed t.pos false ts).2 := by
  rw [ofTokenList, ht]
  dsimp only
  split
  · rename_i h'
    rw [h] at h'
    cases h'
  · rfl

theorem ofTokenList_skipped (hword : t.kind ≠ .word) (hclosing : t.kind ≠ .closing)
    (hopening : t.kind ≠ .opening) : ofTokenList (t :: ts) = ofTokenList ts := by
  rw [ofTokenList]
  cases hk : t.kind <;> first | rfl | contradiction

theorem closedLength?_closed (ht : t.kind = .closing) {depth : Nat} (hdepth : depth ≤ 1)
    (before : Nat) : closedLength? depth before (t :: ts) = some (before + 1) := by
  rw [closedLength?, ht]
  exact if_pos hdepth

theorem closedLength?_inner (ht : t.kind = .closing) {depth : Nat} (hdepth : ¬ depth ≤ 1)
    (before : Nat) :
    closedLength? depth before (t :: ts) = closedLength? (depth - 1) (before + 1) ts := by
  rw [closedLength?, ht]
  exact if_neg hdepth

/-- A parenthesis that is closed is closed there, whatever follows. -/
theorem closedLength?_append_of_some {depth before n : Nat}
    (h : closedLength? depth before ts = some n) (rest : List Token) :
    closedLength? depth before (ts ++ rest) = some n ∧ n ≤ before + ts.length := by
  fun_induction closedLength? depth before ts with
  | case1 => cases h
  | case2 depth before t ts hk ih =>
    obtain ⟨hsome, hle⟩ := ih h
    rw [List.cons_append, closedLength?_opening hk, List.length_cons]
    exact ⟨hsome, by omega⟩
  | case3 depth before t ts hk hdepth =>
    cases h
    rw [List.cons_append, closedLength?_closed hk hdepth]
    exact ⟨rfl, by simp⟩
  | case4 depth before t ts hk hdepth ih =>
    obtain ⟨hsome, hle⟩ := ih h
    rw [List.cons_append, closedLength?_inner hk hdepth, List.length_cons]
    exact ⟨hsome, by omega⟩
  | case5 depth before t ts hopening hclosing ih =>
    obtain ⟨hsome, hle⟩ := ih h
    rw [List.cons_append, closedLength?_plain hopening hclosing, List.length_cons]
    exact ⟨hsome, by omega⟩

theorem splitClosed_append (h : splitClosed ts = some (us, rest)) (vs : List Token) :
    splitClosed (ts ++ vs) = some (us, rest ++ vs) := by
  obtain ⟨n, hn, hsplit⟩ := Option.map_eq_some_iff.1 h
  cases hsplit
  obtain ⟨hn', hle⟩ := closedLength?_append_of_some hn vs
  rw [Nat.zero_add] at hle
  rw [splitClosed, hn', Option.map_some, List.take_append_of_le_length hle,
    List.drop_append_of_le_length hle]

/-- **Tokens whose statements are sound are cut into them, whatever follows.** -/
theorem ofTokenList_append_of_sound (h : ∀ s ∈ ofTokenList ts, s.error = none)
    (rest : List Token) : ofTokenList (ts ++ rest) = ofTokenList ts ++ ofTokenList rest := by
  fun_induction ofTokenList ts with
  | case1 => rfl
  | case2 t ts hk ih =>
    rw [List.cons_append, ofTokenList_word hk, ih fun s hs => h s (.tail _ hs), List.cons_append]
  | case3 t ts hk ih =>
    -- a parenthesis that closes nothing is not sound, nor is one that is never closed
    cases h _ (.head _)
  | case4 t ts hk us rest' hsplit ih =>
    -- the search for the closing parenthesis ends before `rest`
    rw [List.cons_append, ofTokenList_opening hk (splitClosed_append hsplit rest),
      ih fun s hs => h s (.tail _ hs), List.cons_append]
  | case5 t ts hk hsplit parts ih =>
    cases h _ (.head _)
  | case6 t ts hword hclosing hopening ih =>
    rw [List.cons_append, ofTokenList_skipped hword hclosing hopening, ih h]

/-- Statements that have texts are sound. -/
theorem sound_of_texts {ss : List Statement} {xs : List String} (h : texts ss = .ok xs) :
    ∀ s ∈ ss, s.error = none := by
  induction ss generalizing xs with
  | nil =>
    intro s hs
    cases hs
  | cons s ss ih =>
    rw [texts] at h
    split at h
    · cases h
    · next hnone =>
      cases hss : texts ss with
      | error e =>
        rw [hss] at h
        cases h
      | ok ys =>
        intro s' hs'
        cases hs' with
        | head => exact hnone
        | tail _ hs' => exact ih hss s' hs'

/-! ## §2. The end of a text. -/

theorem closedLength?_finish_behind (he : e.kind = .finish) (depth before : Nat) :
    closedLength? depth before (ts ++ [e]) = closedLength? depth before ts := by
  have hopening : e.kind ≠ .opening := by simp [he]
  have hclosing : e.kind ≠ .closing := by simp [he]
  fun_induction closedLength? depth before ts with
  | case1 depth before => exact closedLength?_plain hopening hclosing depth before
  | case2 depth before t ts hk ih => rw [List.cons_append, closedLength?_opening hk, ih]
  | case3 depth before t ts hk hdepth => rw [List.cons_append, closedLength?_closed hk hdepth]
  | case4 depth before t ts hk hdepth ih =>
    rw [List.cons_append, closedLength?_inner hk hdepth, ih]
  | case5 depth before t ts hopening hclosing ih =>
    rw [List.cons_append, closedLength?_plain hopening hclosing, ih]

theorem splitClosed_finish_behind (he : e.kind = .finish) (h : splitClosed ts = none) :
    splitClosed (ts ++ [e]) = none := by
  rw [splitClosed, Option.map_eq_none_iff] at h ⊢
  rw [closedLength?_finish_behind he, h]

/-- The end belongs to the statement that is never closed, unless another begins. -/
theorem splitUnclosed_finish_behind (he : e.kind = .finish) (start : Position) (fresh : Bool)
    (ts : List Token) :
    splitUnclosed start fresh (ts ++ [e])
        = ((splitUnclosed start fresh ts).1, (splitUnclosed start fresh ts).2 ++ [e])
      ∨ (splitUnclosed start fresh ts).2 = []
        ∧ splitUnclosed start fresh (ts ++ [e]) = ((splitUnclosed start fresh ts).1 ++ [e], []) := by
  fun_induction splitUnclosed start fresh ts with
  | case1 fresh =>
    have hresumes : resumesAt start fresh e = false := by simp [resumesAt, he]
    refine .inr ⟨rfl, ?_⟩
    rw [List.nil_append, splitUnclosed, hresumes]
    rfl
  | case2 fresh t ts hresumes =>
    refine .inl ?_
    rw [List.cons_append, splitUnclosed, if_pos hresumes]
  | case3 fresh t ts hresumes fresh' rest ih =>
    rw [List.cons_append, splitUnclosed, if_neg hresumes]
    dsimp only
    rcases ih with ih | ⟨hnil, ih⟩
    · rw [ih]
      exact .inl rfl
    · rw [ih]
      exact .inr ⟨hnil, rfl⟩

theorem ofTokens_finish_behind (htext : e.text = "") (error : Option Error) :
    ofTokens t (ts ++ [e]) error = ofTokens t ts error := by
  have hspelling : Token.spelling (t :: (ts ++ [e])) = Token.spelling (t :: ts) := by
    rw [← List.cons_append, Token.spelling_append]
    simp [Token.spelling, htext]
  rw [ofTokens, hspelling, ofTokens]

/-- **The end of a text is part of no statement.** -/
theorem ofTokenList_finish_behind (he : e.kind = .finish) (htext : e.text = "") :
    ofTokenList (ts ++ [e]) = ofTokenList ts := by
  fun_induction ofTokenList ts with
  | case1 =>
    rw [List.nil_append, ofTokenList_finish he]
  | case2 t ts hk ih => rw [List.cons_append, ofTokenList_word hk, ih]
  | case3 t ts hk ih => rw [List.cons_append, ofTokenList_closing hk, ih]
  | case4 t ts hk us rest hsplit ih =>
    rw [List.cons_append, ofTokenList_opening hk (splitClosed_append hsplit [e]), ih]
  | case5 t ts hk hsplit parts ih =>
    rw [List.cons_append, ofTokenList_unclosed hk (splitClosed_finish_behind he hsplit)]
    -- the end goes to the next statement, or it adds its empty text to this one
    rcases splitUnclosed_finish_behind he t.pos false ts with hparts | ⟨hnil, hparts⟩
    · rw [hparts, ih]
    · rw [hparts, ofTokens_finish_behind htext]
      show _ = ofTokens t parts.1 _ :: ofTokenList parts.2
      rw [show parts.2 = [] from hnil]
  | case6 t ts hword hclosing hopening ih =>
    rw [List.cons_append, ofTokenList_skipped hword hclosing hopening, ih]

end Statement

/-! ## §3. The statements of a source without a fault. -/

theorem Source.statements_of_fault {src : Source} (h : src.fault = none) :
    src.statements = .ok (Statement.ofTokenList src.body) := by
  obtain ⟨e, he, htext, hscan⟩ :
      ∃ e : Token, e.kind = .finish ∧ e.text = "" ∧ src.scan = ⟨src.body ++ [e], none⟩ := by
    rw [scan, h, scanFrom_none, Token.placed_append]
    exact ⟨_, rfl, rfl, rfl⟩
  simp only [statements, hscan, Statement.ofTokenList_finish_behind he htext]

/-- A source that can be split has no fault, and its statements are sound. -/
theorem Source.sound_of_split {src : Source} {texts : List String} (h : src.split = .ok texts) :
    src.fault = none ∧ ∀ s ∈ Statement.ofTokenList src.body, s.error = none := by
  have hfault : src.fault = none := by
    refine fault_of_scan ?_
    rw [split, statements] at h
    rcases hscan : src.scan with ⟨tokens, _ | failure⟩
    · rfl
    · rw [hscan] at h
      cases h
  rw [split, statements_of_fault hfault] at h
  exact ⟨hfault, Statement.sound_of_texts h⟩

namespace Input

variable {input : Input}

theorem contents_of_fault (h : input.source.fault = none) : input.contents = .ok input.source := by
  rw [contents, (bytes_of_fault h).1]

theorem statements_of_fault (h : input.source.fault = none) :
    input.statements = .ok (Statement.ofTokenList input.source.body) := by
  rw [statements, contents_of_fault h]
  exact Source.statements_of_fault h

theorem run_of_fault (h : input.source.fault = none) :
    input.run = Statement.execAll (Statement.ofTokenList input.source.body) := by
  rw [run, contents_of_fault h]
  simp only [Source.run, Source.statements_of_fault h]

end Input

/-! ## §4. Further down. -/

/-- The place `lines` further down. -/
def Position.moved (lines : Nat) (p : Position) : Position := ⟨p.line + lines, p.col⟩

/-- The token with `lines` more lines and `bytes` more bytes before it. -/
def Token.moved (lines bytes : Nat) (t : Token) : Token :=
  { t with offset := t.offset + bytes, pos := t.pos.moved lines }

/-- The error with the place that it names, if it names one, `lines` further down. -/
def Error.moved (lines : Nat) : Error → Error
  | located pos cause note => located (pos.moved lines) cause note
  | e => e

/-- The statement `lines` further down. -/
def Statement.moved (lines : Nat) (s : Statement) : Statement :=
  { s with pos := s.pos.moved lines, error := s.error.map (·.moved lines) }

namespace Token

variable (lines bytes : Nat) (t : Token)

@[simp] theorem kind_moved : (t.moved lines bytes).kind = t.kind := rfl

@[simp] theorem pos_moved : (t.moved lines bytes).pos = t.pos.moved lines := rfl

theorem spelling_map_moved (ts : List Token) : spelling (ts.map (moved lines bytes)) = spelling ts := by
  rw [spelling, List.map_map]
  rfl

end Token

namespace Statement

variable (lines bytes : Nat)

theorem closedLength?_map_moved (depth before : Nat) (ts : List Token) :
    closedLength? depth before (ts.map (Token.moved lines bytes)) = closedLength? depth before ts := by
  fun_induction closedLength? depth before ts with
  | case1 => rfl
  | case2 depth before t ts hk ih =>
    rw [List.map_cons, closedLength?_opening (by simpa using hk), ih]
  | case3 depth before t ts hk hdepth =>
    rw [List.map_cons, closedLength?_closed (by simpa using hk) hdepth]
  | case4 depth before t ts hk hdepth ih =>
    rw [List.map_cons, closedLength?_inner (by simpa using hk) hdepth, ih]
  | case5 depth before t ts hopening hclosing ih =>
    rw [List.map_cons, closedLength?_plain (by simpa using hopening) (by simpa using hclosing), ih]

theorem splitClosed_map_moved (ts : List Token) :
    splitClosed (ts.map (Token.moved lines bytes))
      = (splitClosed ts).map
          (Prod.map (List.map (Token.moved lines bytes)) (List.map (Token.moved lines bytes))) := by
  rw [splitClosed, closedLength?_map_moved, splitClosed, Option.map_map]
  simp [Function.comp_def, List.map_take, List.map_drop]

/-- Only the difference of two places counts. -/
theorem resumesAt_moved (start : Position) (fresh : Bool) (t : Token) :
    resumesAt (start.moved lines) fresh (t.moved lines bytes) = resumesAt start fresh t := by
  have hline : (start.moved lines).line < (t.moved lines bytes).pos.line ↔ start.line < t.pos.line :=
    Int.add_lt_add_iff_right lines
  rw [resumesAt, resumesAt, decide_eq_decide.2 hline]
  rfl

theorem splitUnclosed_map_moved (start : Position) (fresh : Bool) (ts : List Token) :
    splitUnclosed (start.moved lines) fresh (ts.map (Token.moved lines bytes))
      = Prod.map (List.map (Token.moved lines bytes)) (List.map (Token.moved lines bytes))
          (splitUnclosed start fresh ts) := by
  fun_induction splitUnclosed start fresh ts with
  | case1 fresh => rfl
  | case2 fresh t ts hresumes =>
    rw [List.map_cons, splitUnclosed, resumesAt_moved, if_pos hresumes]
    rfl
  | case3 fresh t ts hresumes fresh' rest ih =>
    rw [List.map_cons, splitUnclosed, resumesAt_moved, if_neg hresumes]
    dsimp only [Token.kind_moved]
    rw [ih]
    rfl

theorem ofTokens_moved (t : Token) (ts : List Token) (error : Option Error) :
    ofTokens (t.moved lines bytes) (ts.map (Token.moved lines bytes)) (error.map (·.moved lines))
      = (ofTokens t ts error).moved lines := by
  rw [ofTokens, ← List.map_cons, Token.spelling_map_moved]
  rfl

/-- **The statements of moved tokens are the moved statements.** -/
theorem ofTokenList_map_moved (ts : List Token) :
    ofTokenList (ts.map (Token.moved lines bytes)) = (ofTokenList ts).map (moved lines) := by
  fun_induction ofTokenList ts with
  | case1 => rw [List.map_nil, ofTokenList, List.map_nil]
  | case2 t ts hk ih =>
    rw [List.map_cons, ofTokenList_word (by simpa using hk), ih, List.map_cons,
      ← ofTokens_moved lines bytes]
    rfl
  | case3 t ts hk ih =>
    rw [List.map_cons, ofTokenList_closing (by simpa using hk), ih, List.map_cons,
      ← ofTokens_moved lines bytes]
    rfl
  | case4 t ts hk us rest hsplit ih =>
    have hsplit' := splitClosed_map_moved lines bytes ts
    rw [hsplit] at hsplit'
    rw [List.map_cons, ofTokenList_opening (by simpa using hk) hsplit', ih, List.map_cons,
      ← ofTokens_moved lines bytes]
    rfl
  | case5 t ts hk hsplit parts ih =>
    have hsplit' := splitClosed_map_moved lines bytes ts
    rw [hsplit] at hsplit'
    rw [List.map_cons, ofTokenList_unclosed (by simpa using hk) hsplit', Token.pos_moved,
      splitUnclosed_map_moved, Prod.map_snd, ih, List.map_cons, ← ofTokens_moved lines bytes]
    rfl
  | case6 t ts hword hclosing hopening ih =>
    rw [List.map_cons, ofTokenList_skipped (by simpa using hword) (by simpa using hclosing)
      (by simpa using hopening), ih]

end Statement

end IntLisp
