/-
  IntLisp.Proofs.Coverage
  ───────────────────────
  **THE STATEMENTS OF A TEXT COVER IT, BALANCED OR NOT.**

  Cutting a text into statements never fails once it has tokens.  Each
  statement takes a range of consecutive tokens, and the ranges follow each
  other with nothing but blanks between them:

    • a word, or a parenthesis that closes nothing, is a range of its own,
    • an expression is the range from its parenthesis to the one that closes it,
    • a parenthesis that nothing closes takes what is left, up to the place
      where the cutting is resumed.

  The last kind is the one that could lose tokens, or take them twice.  Its
  text, read alone, is unclosed again: what it lost behind the place of
  resumption would not have closed it, and the white space trimmed from it
  holds no parenthesis.
-/
import IntLisp.Proofs.Acceptance
import IntLisp.Proofs.Cutting

namespace IntLisp

open Token

/-! ## §1. Parentheses that are closed. -/

namespace Token

variable {k l : Nat} {ts us : List Token}

/-- The tokens behind a parenthesis close it: one of them does, once all that was
opened behind the parenthesis is closed. -/
def Close (ts : List Token) : Prop :=
  ∃ inside u rest, ts = inside ++ u :: rest ∧ Balanced inside ∧ u.kind = .closing

theorem Covered.mono (h : Covered k ts) (hle : k ≤ l) : Covered l ts := by
  intro before hbefore
  have hcount := h before hbefore
  omega

/-- More is closed than opened only if the parenthesis before the tokens is closed. -/
theorem close_of_not_covered (h : ¬ Covered 0 ts) : Close ts := by
  -- an expression is skipped as a whole, so the induction is on the number of tokens
  induction hlength : ts.length using Nat.strong_induction_on generalizing ts with
  | _ n ih =>
    subst hlength
    cases ts with
    | nil => exact absurd (covered_nil 0) h
    | cons t ts =>
      by_cases hclosing : t.kind = .closing
      · exact ⟨[], t, ts, rfl, .nil, hclosing⟩
      · by_cases hopening : t.kind = .opening
        · rw [covered_opening hopening] at h
          obtain ⟨inside, u, rest, rfl, hinside, hu⟩ :=
            ih ts.length (by simp) (fun hts => h (hts.mono (Nat.zero_le 1))) rfl
          -- the first closing parenthesis belongs to `t`, and there is one more behind it
          rw [hinside.covered_append, covered_closing hu] at h
          obtain ⟨inside', u', rest', rfl, hinside', hu'⟩ :=
            ih rest.length (by simp; omega) h rfl
          exact ⟨t :: (inside ++ u :: inside'), u', rest', by simp,
            .nested hopening hinside hu hinside', hu'⟩
        · rw [covered_plain hopening hclosing] at h
          obtain ⟨inside, u, rest, rfl, hinside, hu⟩ := ih ts.length (by simp) h rfl
          exact ⟨t :: inside, u, rest, rfl, .plain hopening hclosing hinside, hu⟩

theorem close_iff : Close ts ↔ ¬ Covered 0 ts := by
  refine ⟨?_, close_of_not_covered⟩
  rintro ⟨inside, u, rest, rfl, hinside, hu⟩
  rw [hinside.covered_append]
  exact not_covered_zero hu

end Token

namespace Statement

variable {t u : Token} {ts us rest : List Token}

theorem closedLength?_eq_none_iff {k before : Nat} :
    closedLength? (k + 1) before ts = none ↔ Covered k ts := by
  induction ts generalizing k before with
  | nil => exact iff_of_true rfl (covered_nil k)
  | cons t ts ih =>
    by_cases hclosing : t.kind = .closing
    · cases k with
      | zero =>
        rw [closedLength?_closed hclosing (Nat.le_refl 1)]
        exact iff_of_false (by simp) (not_covered_zero hclosing)
      | succ k => rw [closedLength?_closing hclosing, ih, covered_closing hclosing]
    · by_cases hopening : t.kind = .opening
      · rw [closedLength?_opening hopening, ih, covered_opening hopening]
      · rw [closedLength?_plain hopening hclosing, ih, covered_plain hopening hclosing]

theorem splitClosed_eq_none_iff : splitClosed ts = none ↔ Covered 0 ts := by
  rw [splitClosed, Option.map_eq_none_iff, closedLength?_eq_none_iff]

/-- What is split off behind a parenthesis is balanced, up to the one that closes it. -/
theorem balanced_of_splitClosed (h : splitClosed ts = some (us, rest)) :
    ∃ inside u, us = inside ++ [u] ∧ ts = us ++ rest ∧ Balanced inside ∧ u.kind = .closing := by
  have hcovered : ¬ Covered 0 ts := by
    rw [← splitClosed_eq_none_iff, h]
    simp
  obtain ⟨inside, u, after, rfl, hinside, hu⟩ := close_of_not_covered hcovered
  rw [splitClosed_balanced hinside hu] at h
  cases h
  exact ⟨inside, u, rfl, by simp, hinside, hu⟩

theorem splitUnclosed_append (start : Position) (fresh : Bool) (ts : List Token) :
    (splitUnclosed start fresh ts).1 ++ (splitUnclosed start fresh ts).2 = ts := by
  fun_induction splitUnclosed start fresh ts with
  | case1 fresh => rfl
  | case2 fresh t ts hresumes => rfl
  | case3 fresh t ts hresumes fresh' rest ih => exact congrArg (t :: ·) ih

end Statement

/-! ## §2. Ranges of tokens. -/

/-- The tokens from the index `start` on, up to the index `stop`. -/
structure Span where
  start : Nat
  stop : Nat

namespace Span

/-- The tokens in a range. -/
def of (r : Span) (ts : List Token) : List Token := (ts.take r.stop).drop r.start

/-- Whether the index `i` is in a range. -/
def Holds (r : Span) (i : Nat) : Prop := r.start ≤ i ∧ i < r.stop

theorem of_append (before us after : List Token) :
    Span.of ⟨before.length, before.length + us.length⟩ (before ++ (us ++ after)) = us := by
  rw [of, ← List.append_assoc, ← List.length_append, List.take_left, List.drop_left]

end Span

/-- The ranges `rs` of the tokens `ts` follow each other and leave out no parenthesis
and no word. -/
structure Span.Cover (ts : List Token) (rs : List Span) : Prop where
  /-- Each range has a token, and ends where the tokens end at the latest. -/
  bounds : ∀ r ∈ rs, r.start < r.stop ∧ r.stop ≤ ts.length
  /-- Each range ends before the next ones begin. -/
  ordered : rs.Pairwise fun r r' => r.stop ≤ r'.start
  /-- A parenthesis or a word is in one range, and in no other. -/
  covering : ∀ i t, ts[i]? = some t → t.isSignificant = true → ∃! r, r ∈ rs ∧ r.Holds i

namespace Statement

/-- The statement that is made of the tokens `us` when `rest` is behind them. -/
inductive Made (rest : List Token) : List Token → Statement → Prop where
  | word {t : Token} (ht : t.kind = .word) : Made rest [t] (ofTokens t [] none)
  | unopened {t : Token} (ht : t.kind = .closing) :
      Made rest [t] (ofTokens t [] (some (Growth.errorAt t .unbalanced "unexpected )")))
  | closed {t u : Token} {inside : List Token} (ht : t.kind = .opening) (hinside : Balanced inside)
      (hu : u.kind = .closing) :
      Made rest (t :: (inside ++ [u])) (ofTokens t (inside ++ [u]) none)
  | unclosed {t : Token} {us : List Token} (ht : t.kind = .opening) (h : Covered 0 (us ++ rest)) :
      Made rest (t :: us) (ofTokens t us (some (Growth.errorAt t .unexpectedEnd "unclosed (")))

theorem Made.exists_ofTokens {rest us : List Token} {s : Statement} (h : Made rest us s) :
    ∃ t vs error, us = t :: vs ∧ s = ofTokens t vs error := by
  cases h with
  | word _ | unopened _ => exact ⟨_, [], _, rfl, rfl⟩
  | closed _ _ _ | unclosed _ _ => exact ⟨_, _, _, rfl, rfl⟩

/-- The tokens `ts`, counted from `n`, are cut into the ranges `rs` that make the
statements `ss`. -/
inductive Ranged : Nat → List Token → List Statement → List Span → Prop where
  | nil (n : Nat) : Ranged n [] [] []
  | skip {n : Nat} {t : Token} {ts : List Token} {ss : List Statement} {rs : List Span}
      (ht : t.isSignificant = false) (h : Ranged (n + 1) ts ss rs) : Ranged n (t :: ts) ss rs
  | run {n : Nat} {us rest : List Token} {s : Statement} {ss : List Statement} {rs : List Span}
      (hs : Made rest us s) (h : Ranged (n + us.length) rest ss rs) :
      Ranged n (us ++ rest) (s :: ss) (⟨n, n + us.length⟩ :: rs)

/-- **Any tokens are cut into ranges, one for each statement.** -/
theorem ranged_ofTokenList (n : Nat) (ts : List Token) : ∃ rs, Ranged n ts (ofTokenList ts) rs := by
  fun_induction ofTokenList ts generalizing n with
  | case1 => exact ⟨[], .nil n⟩
  | case2 t ts hk ih =>
    obtain ⟨rs, hrs⟩ := ih (n + 1)
    exact ⟨_, .run (.word hk) hrs⟩
  | case3 t ts hk ih =>
    obtain ⟨rs, hrs⟩ := ih (n + 1)
    exact ⟨_, .run (.unopened hk) hrs⟩
  | case4 t ts hk us rest hsplit ih =>
    obtain ⟨inside, u, rfl, rfl, hinside, hu⟩ := balanced_of_splitClosed hsplit
    obtain ⟨rs, hrs⟩ := ih (n + (t :: (inside ++ [u])).length)
    exact ⟨_, .run (.closed hk hinside hu) hrs⟩
  | case5 t ts hk hsplit parts ih =>
    obtain ⟨rs, hrs⟩ := ih (n + (t :: parts.1).length)
    -- the cutting is resumed exactly where the range ends
    have hparts : parts.1 ++ parts.2 = ts := splitUnclosed_append t.pos false ts
    have hcovered : Covered 0 (parts.1 ++ parts.2) := by
      rw [hparts]
      exact splitClosed_eq_none_iff.1 hsplit
    have hrun := Ranged.run (.unclosed hk hcovered) hrs
    rw [List.cons_append, hparts] at hrun
    exact ⟨_, hrun⟩
  | case6 t ts hword hclosing hopening ih =>
    obtain ⟨rs, hrs⟩ := ih (n + 1)
    exact ⟨rs, .skip (by simp_all [isSignificant]) hrs⟩

namespace Ranged

variable {n : Nat} {ts : List Token} {ss : List Statement} {rs : List Span}

theorem bounds (h : Ranged n ts ss rs) :
    ∀ r ∈ rs, n ≤ r.start ∧ r.start < r.stop ∧ r.stop ≤ n + ts.length := by
  induction h with
  | nil n =>
    intro r hr
    cases hr
  | skip _ _ ih =>
    intro r hr
    obtain ⟨hstart, hlt, hstop⟩ := ih r hr
    rw [List.length_cons]
    omega
  | @run n us rest s ss rs hs _ ih =>
    obtain ⟨t, vs, error, rfl, -⟩ := hs.exists_ofTokens
    intro r hr
    rw [List.length_append]
    cases hr with
    | head =>
      simp only [List.length_cons]
      omega
    | tail _ hr =>
      obtain ⟨hstart, hlt, hstop⟩ := ih r hr
      omega

theorem ordered (h : Ranged n ts ss rs) : rs.Pairwise fun r r' => r.stop ≤ r'.start := by
  induction h with
  | nil n => exact .nil
  | skip _ _ ih => exact ih
  | run _ h ih => exact .cons (fun r hr => (h.bounds r hr).1) ih

/-- What is left out between the ranges is neither a parenthesis nor a word. -/
theorem exists_holds (h : Ranged n ts ss rs) {i : Nat} {t : Token} (hi : ts[i]? = some t)
    (ht : t.isSignificant = true) : ∃ r ∈ rs, r.Holds (n + i) := by
  induction h generalizing i with
  | nil n => cases hi
  | skip hskip _ ih =>
    cases i with
    | zero =>
      cases hi
      rw [hskip] at ht
      cases ht
    | succ i =>
      obtain ⟨r, hr, hholds⟩ := ih hi
      exact ⟨r, hr, by rwa [Nat.add_assoc, Nat.add_comm 1] at hholds⟩
  | @run n us rest s ss rs hs _ ih =>
    by_cases hlt : i < us.length
    · refine ⟨_, .head _, Nat.le_add_right n i, ?_⟩
      show n + i < n + us.length
      omega
    · rw [List.getElem?_append_right (by omega)] at hi
      obtain ⟨r, hr, hholds⟩ := ih hi
      refine ⟨r, .tail _ hr, ?_⟩
      rwa [Nat.add_assoc, Nat.add_sub_cancel' (by omega)] at hholds

theorem cover (h : Ranged 0 ts ss rs) : Span.Cover ts rs where
  bounds := by
    intro r hr
    obtain ⟨-, hlt, hstop⟩ := h.bounds r hr
    exact ⟨hlt, by omega⟩
  ordered := h.ordered
  covering := by
    intro i t hi ht
    obtain ⟨r, hr, hholds⟩ := h.exists_holds hi ht
    rw [Nat.zero_add] at hholds
    refine ⟨r, ⟨hr, hholds⟩, ?_⟩
    rintro r' ⟨hr', hholds'⟩
    -- of two different ranges one ends before the other begins
    by_contra hne
    have happart : rs.Pairwise fun r r' => ¬ (r.Holds i ∧ r'.Holds i) := by
      refine h.ordered.imp fun {r r'} hle => ?_
      unfold Span.Holds
      omega
    have hsymm : Std.Symm fun r r' : Span => ¬ (r.Holds i ∧ r'.Holds i) :=
      ⟨fun _ _ hnot hboth => hnot hboth.symm⟩
    exact happart.forall hr hr' (Ne.symm hne) ⟨hholds, hholds'⟩

theorem forall₂_made (h : Ranged n ts ss rs) :
    List.Forall₂ (fun s r => ∃ before us after, ts = before ++ (us ++ after)
      ∧ r = ⟨n + before.length, n + before.length + us.length⟩ ∧ Made after us s) ss rs := by
  induction h with
  | nil n => exact .nil
  | @skip n t ts ss rs _ _ ih =>
    refine ih.imp ?_
    rintro s r ⟨before, us, after, rfl, rfl, hs⟩
    refine ⟨t :: before, us, after, rfl, ?_, hs⟩
    rw [List.length_cons, Nat.add_assoc n, Nat.add_comm 1]
  | @run n us rest s ss rs hs _ ih =>
    refine .cons ⟨[], us, rest, rfl, rfl, hs⟩ (ih.imp ?_)
    rintro s' r ⟨before, us', after, rfl, rfl, hs'⟩
    refine ⟨us ++ before, us', after, by simp, ?_, hs'⟩
    rw [List.length_append, Nat.add_assoc n]

end Ranged

end Statement


/-! ## §3. White space behind a text. -/

namespace Token

variable {k : Nat} {ts us : List Token}

theorem openings_eq_count (ts : List Token) : openings ts = (ts.map kind).count .opening := by
  rw [openings, List.count, List.countP_map]
  rfl

theorem closings_eq_count (ts : List Token) : closings ts = (ts.map kind).count .closing := by
  rw [closings, List.count, List.countP_map]
  rfl

/-- Only the kinds of tokens matter for what they leave open. -/
theorem Covered.of_map_kind (h : Covered k us) (hkinds : ts.map kind = us.map kind) :
    Covered k ts := by
  intro before hbefore
  have htake := h (us.take before.length) (List.take_prefix _ _)
  have hcounts : (us.take before.length).map kind = before.map kind := by
    rw [List.map_take, ← hkinds, ← List.map_take, ← List.prefix_iff_eq_take.1 hbefore]
  rwa [closings_eq_count, openings_eq_count, hcounts, ← closings_eq_count,
    ← openings_eq_count] at htake

theorem openings_filter (ts : List Token) : openings (ts.filter isSignificant) = openings ts := by
  rw [openings, List.countP_filter]
  refine List.countP_congr fun t _ => ?_
  simp only [isSignificant]
  grind

theorem closings_filter (ts : List Token) : closings (ts.filter isSignificant) = closings ts := by
  rw [closings, List.countP_filter]
  refine List.countP_congr fun t _ => ?_
  simp only [isSignificant]
  grind

theorem Covered.filter (h : Covered k ts) : Covered k (ts.filter isSignificant) := by
  rintro before ⟨after, hbefore⟩
  obtain ⟨ts₁, ts₂, rfl, rfl, -⟩ := List.filter_eq_append_iff.1 hbefore.symm
  rw [closings_filter, openings_filter]
  exact h ts₁ (List.prefix_append ts₁ ts₂)

theorem Kind.ofChar_of_isBlank {c : Char} (h : Text.isBlank c = true) :
    Kind.ofChar c ≠ .opening ∧ Kind.ofChar c ≠ .closing := by
  refine ⟨?_, ?_⟩
  · intro hc
    rw [Kind.eq_of_ofChar_opening hc] at h
    cases h
  · intro hc
    rw [Kind.eq_of_ofChar_closing hc] at h
    cases h

/-- One more character makes the last lexeme longer, or is a new one. -/
theorem map_ofLexeme_concat (cs : List Char) (c : Char) :
    (lexemes (cs ++ [c])).map Kind.ofLexeme = (lexemes cs).map Kind.ofLexeme
      ∨ (lexemes (cs ++ [c])).map Kind.ofLexeme
        = (lexemes cs).map Kind.ofLexeme ++ [Kind.ofChar c] := by
  fun_induction lexemes cs with
  | case1 =>
    refine .inr ?_
    rw [List.nil_append, lexemes_cons]
    simp [Kind.ofLexeme]
  | case2 d cs ih =>
    rw [List.cons_append, lexemes_cons, List.dropWhile_append, List.map_cons, List.map_cons]
    by_cases hempty : (cs.dropWhile (Kind.ofChar d).continues).isEmpty
    · -- the lexeme of `d` is the last one
      rw [if_pos hempty, List.isEmpty_iff.1 hempty]
      by_cases hcontinues : (Kind.ofChar d).continues c = true
      · refine .inl ?_
        simp [hcontinues, Kind.ofLexeme]
      · refine .inr ?_
        simp [hcontinues, lexemes_cons, Kind.ofLexeme]
    · rw [if_neg hempty]
      rcases ih with ih | ih
      · exact .inl (congrArg (_ :: ·) ih)
      · exact .inr (congrArg (_ :: ·) ih)

/-- **White space behind a text adds no parenthesis.** -/
theorem map_ofLexeme_blanks (cs : List Char) {bs : List Char}
    (hbs : ∀ b ∈ bs, Text.isBlank b = true) :
    ∃ ks, (lexemes (cs ++ bs)).map Kind.ofLexeme = (lexemes cs).map Kind.ofLexeme ++ ks
      ∧ ∀ k ∈ ks, k ≠ .opening ∧ k ≠ .closing := by
  induction bs using List.reverseRecOn with
  | nil => exact ⟨[], by simp, by simp⟩
  | append_singleton bs b ih =>
    obtain ⟨ks, hks, hplain⟩ := ih fun b' hb' => hbs b' (List.mem_append_left _ hb')
    rw [← List.append_assoc]
    rcases map_ofLexeme_concat (cs ++ bs) b with hsame | hmore
    · exact ⟨ks, hsame.trans hks, hplain⟩
    · refine ⟨ks ++ [Kind.ofChar b], ?_, ?_⟩
      · rw [hmore, hks, List.append_assoc]
      · intro k hk
        rcases List.mem_append.1 hk with hk | hk
        · exact hplain k hk
        · rw [List.mem_singleton.1 hk]
          exact Kind.ofChar_of_isBlank (hbs b (by simp))

end Token

/-- A text that begins with a parenthesis loses white space at its end only. -/
theorem Text.trimChars_opening (cs : List Char) :
    ∃ ds bs, trimChars ('(' :: cs) = '(' :: ds ∧ cs = ds ++ bs ∧ ∀ b ∈ bs, isBlank b = true := by
  have hblank : ∀ b ∈ ('(' :: cs).rtakeWhile isBlank, isBlank b = true :=
    fun b hb => List.mem_rtakeWhile_imp hb
  have hsplit : trimChars ('(' :: cs) ++ ('(' :: cs).rtakeWhile isBlank = '(' :: cs :=
    List.rdropWhile_append_rtakeWhile
  cases htrim : trimChars ('(' :: cs) with
  | nil =>
    rw [htrim, List.nil_append] at hsplit
    rw [hsplit] at hblank
    cases hblank '(' (.head cs)
  | cons d ds =>
    rw [htrim, List.cons_append] at hsplit
    obtain ⟨rfl, hcs⟩ := List.cons.inj hsplit
    exact ⟨ds, _, rfl, hcs.symm, hblank⟩

/-! ## §4. An unclosed statement, read alone. -/

namespace Source

variable {src : Source}

/-- **What leaves a parenthesis open, and closes none that is not open, ends too early.** -/
theorem parse_unclosed (hfault : src.fault = none) (hcovered : Covered 0 src.body)
    (hcounts : closings src.body < openings src.body) :
    ∃ t, src.parse = .error (Growth.errorAt t .unexpectedEnd "unclosed (") := by
  have hsignificant := significant_eq hfault
  rcases parse_cases hfault with ⟨ns, -, hns⟩ | ⟨u, -, hu⟩ | ⟨t, hparse, -⟩
  · have heq := hns.balanced.counts
    rw [hsignificant, openings_filter, closings_filter] at heq
    omega
  · refine absurd ?_ hu.not_covered
    rw [hsignificant]
    exact hcovered.filter
  · exact ⟨t, hparse⟩

/-- The kinds of the lexemes of a text are those of its tokens. -/
theorem map_kind_body (src : Source) :
    src.body.map kind = (lexemes src.chars).map Kind.ofLexeme := by
  have hcontent := congrArg (List.map Prod.fst)
    (map_content_placed src.firstOffset Position.start (lexemes src.chars))
  rw [List.map_map, List.map_map] at hcontent
  exact hcontent

/-- **The text of a run that leaves its first parenthesis open is unclosed, when it is
read alone.** -/
theorem parse_unclosed_run {before us after : List Token} {t : Token} (hnul : '\x00' ∉ src.chars)
    (h : src.body = before ++ ((t :: us) ++ after)) (ht : t.kind = .opening)
    (hcovered : Covered 0 us) :
    ∃ t', (ofString (Text.trim (spelling (t :: us)))).parse
      = .error (Growth.errorAt t' .unexpectedEnd "unclosed (") := by
  have htmem : t ∈ src.body := by simp [h]
  obtain ⟨cs, hcs⟩ : ∃ cs, (spelling (t :: us)).toList = '(' :: cs := by
    rw [toList_spelling, List.map_cons, lexeme_of_opening htmem ht]
    exact ⟨_, rfl⟩
  obtain ⟨ds, bs, htrim, rfl, hbs⟩ := Text.trimChars_opening cs
  have hread : ofString (Text.trim (spelling (t :: us))) = ⟨false, '(' :: ds, none⟩ := by
    have hlist : (Text.trim (spelling (t :: us))).toList = '(' :: ds := by
      rw [Text.toList_trim, hcs, htrim]
    rw [ofString_unmarked (by rw [hlist]; rfl) ?_, hlist]
    rw [hlist]
    intro hmem
    refine hnul ?_
    rw [← toList_spelling_body, h]
    simp only [spelling_append, String.toList_append, hcs, List.mem_append]
    exact .inr (.inl (by simpa using Or.imp_right Or.inl (List.mem_cons.1 hmem)))
  -- the run has the kinds of what is read, and then some of white space
  obtain ⟨ks, hks, hplain⟩ := map_ofLexeme_blanks ('(' :: ds) hbs
  have hkinds : (t :: us).map kind
      = (body ⟨false, '(' :: ds, none⟩).map kind ++ ks := by
    have hcontent := congrArg (List.map Prod.fst) (map_content_between h)
    rw [map_content_placed, hcs, List.map_map, List.map_map] at hcontent
    rw [map_kind_body, ← hks]
    exact hcontent.symm
  obtain ⟨vs, ws, hrun, hvs, hws⟩ := List.map_eq_append_iff.1 hkinds
  have hnone : openings ws = 0 ∧ closings ws = 0 := by
    rw [openings_eq_count, closings_eq_count, hws, List.count_eq_zero, List.count_eq_zero]
    exact ⟨fun hk => (hplain _ hk).1 rfl, fun hk => (hplain _ hk).2 rfl⟩
  have hcounts : closings vs < openings vs := by
    have hle := hcovered.closings_le
    have hopenings := congrArg openings hrun
    have hclosings := congrArg closings hrun
    simp [openings_cons, closings_cons, ht] at hopenings hclosings hle
    omega
  have hcoveredrun : Covered 0 (t :: us) := by
    rw [covered_opening ht]
    exact hcovered.mono (Nat.zero_le 1)
  have hcoveredvs : Covered 0 vs := hcoveredrun.of_prefix ⟨ws, hrun.symm⟩
  rw [hread]
  refine parse_unclosed rfl (hcoveredvs.of_map_kind hvs.symm) ?_
  rwa [closings_eq_count, openings_eq_count, ← hvs, ← closings_eq_count, ← openings_eq_count]

end Source

/-! ## §5. Statements and their ranges. -/

/-- The bytes of an input are those before its first token and those of its tokens. -/
theorem Input.size_bytes {input : Input} (hfault : input.source.fault = none)
    (hbody : input.source.body ≠ []) :
    input.bytes.size
      = input.source.firstOffset + (spelling input.source.body).utf8ByteSize := by
  rw [(bytes_of_fault hfault).2.2, ByteArray.size_append,
    Source.firstOffset_eq (Source.chars_ne_nil_of_body hbody), ← Source.toList_spelling_body,
    String.utf8Encode_toList]
  rfl

/-- **A run of tokens is a slice of the bytes**, from its first token to its last. -/
theorem Input.exists_slice {input : Input} {before vs after : List Token} {t : Token}
    (hfault : input.source.fault = none)
    (h : input.source.body = before ++ ((t :: vs) ++ after)) :
    ∃ u, (t :: vs).getLast? = some u ∧ t.offset ≤ u.finalOffset
      ∧ u.finalOffset ≤ input.bytes.size
      ∧ (spelling (t :: vs)).toUTF8 = input.bytes.extract t.offset u.finalOffset := by
  obtain ⟨init, u, hlast⟩ : ∃ init u, t :: vs = init ++ [u] :=
    ⟨_, _, (List.dropLast_append_getLast (List.cons_ne_nil t vs)).symm⟩
  have hfirst : input.source.body = before ++ t :: (vs ++ after) := h
  have hfinal : input.source.body = (before ++ init) ++ u :: after := by
    simp [h, hlast]
  have hoffset := Token.offset_of_placed hfirst
  have hfinalOffset := Token.finalOffset_of_placed hfinal
  rw [List.append_assoc, ← hlast] at hfinalOffset
  have hsize := size_bytes hfault (by simp [h])
  rw [h, ← List.append_assoc] at hsize
  simp only [spelling_append, String.utf8ByteSize_append] at hfinalOffset hsize
  refine ⟨u, by simp [hlast], by omega, by omega, ?_⟩
  rw [extract_between hfault h (List.cons_ne_nil t vs), hoffset, hfinalOffset, spelling_append,
    String.utf8ByteSize_append]

theorem Growth.isBecause_errorAt {t : Token} {reason reason' : Reason} {note : String} :
    (errorAt t reason note).isBecause reason' = true ↔ reason = reason' := by
  simp [errorAt, Error.isBecause, Error.chain, eq_comm]

theorem Source.parseStatement_of_error {src : Source} {e : Error} (h : src.parse = .error e) :
    src.parseStatement = .error e := by
  rw [parseStatement, h]
  rfl

namespace Statement

/-- The error of a statement comes down to `reason`. -/
def FailsBecause (s : Statement) (reason : Reason) : Prop :=
  ∃ e, s.error = some e ∧ e.isBecause reason = true

theorem failsBecause_errorAt {t : Token} {us : List Token} {reason reason' : Reason}
    {note : String} :
    (ofTokens t us (some (Growth.errorAt t reason note))).FailsBecause reason'
      ↔ reason = reason' := by
  simp [FailsBecause, ofTokens, Growth.isBecause_errorAt]

theorem not_failsBecause_sound {t : Token} {us : List Token} {reason : Reason} :
    ¬ (ofTokens t us none).FailsBecause reason := by
  simp [FailsBecause, ofTokens]

/-- The statement `s` of an input is what the tokens in the range `r` make. -/
structure Fills (input : Input) (s : Statement) (r : Span) : Prop where
  /-- It stands where the first token stands, and it is written as the input is from there
  to the end of the last token, but for white space at the ends. -/
  text_eq : ∃ t u raw, (r.of input.source.body).head? = some t
    ∧ (r.of input.source.body).getLast? = some u ∧ s.pos = t.pos
    ∧ t.offset ≤ u.finalOffset ∧ u.finalOffset ≤ input.bytes.size
    ∧ String.toUTF8 raw = input.bytes.extract t.offset u.finalOffset ∧ s.text = Text.trim raw
  /-- It is sound if it is a word, or a list that the last token closes. -/
  sound_iff : s.error = none ↔
    (∃ t, r.of input.source.body = [t] ∧ t.kind = .word)
      ∨ ∃ t inside u, r.of input.source.body = t :: (inside ++ [u]) ∧ t.kind = .opening
        ∧ Balanced inside ∧ u.kind = .closing
  /-- It is unbalanced if it is a closing parenthesis. -/
  unopened_iff : s.FailsBecause .unbalanced ↔
    ∃ t, r.of input.source.body = [t] ∧ t.kind = .closing
  /-- It ends too early if it begins with a parenthesis that no later token closes. -/
  unclosed_iff : s.FailsBecause .unexpectedEnd ↔
    ∃ t rest, input.source.body.drop r.start = t :: rest ∧ t.kind = .opening ∧ ¬ Close rest
  /-- Then its text, read alone, ends too early as well. -/
  reread : s.FailsBecause .unexpectedEnd →
    ∃ e, e.isBecause .unexpectedEnd = true ∧ (Source.ofString s.text).parse = .error e
      ∧ (Source.ofString s.text).parseStatement = .error e

variable {input : Input} {before us after : List Token} {s : Statement}

theorem Made.fills (hfault : input.source.fault = none)
    (h : input.source.body = before ++ (us ++ after)) (hs : Made after us s) :
    Fills input s ⟨before.length, before.length + us.length⟩ := by
  have hof : Span.of ⟨before.length, before.length + us.length⟩ input.source.body = us := by
    rw [h, Span.of_append]
  have hdrop : input.source.body.drop before.length = us ++ after := by
    rw [h, List.drop_left]
  refine { text_eq := ?text, sound_iff := ?sound, unopened_iff := ?unopened,
           unclosed_iff := ?unclosed, reread := ?reread }
  case text =>
    obtain ⟨t, vs, error, rfl, rfl⟩ := hs.exists_ofTokens
    obtain ⟨u, hlast, hle, hsize, hslice⟩ := Input.exists_slice hfault h
    rw [hof]
    exact ⟨t, u, _, rfl, hlast, rfl, hle, hsize, hslice, rfl⟩
  case sound =>
    rw [hof]
    cases hs with
    | @word t ht => exact iff_of_true rfl (.inl ⟨t, rfl, ht⟩)
    | unopened ht => exact iff_of_false (by simp [ofTokens]) (by simp [ht])
    | @closed t u inside ht hinside hu =>
      exact iff_of_true rfl (.inr ⟨t, inside, u, rfl, ht, hinside, hu⟩)
    | @unclosed t us ht hcovered =>
      refine iff_of_false (by simp [ofTokens]) ?_
      rintro (⟨t', heq, hword⟩ | ⟨t', inside, u, heq, -, hinside, hu⟩)
      · cases heq
        simp [ht] at hword
      · cases heq
        exact close_iff.1 ⟨inside, u, after, by simp, hinside, hu⟩ hcovered
  case unopened =>
    rw [hof]
    cases hs with
    | word ht => exact iff_of_false not_failsBecause_sound (by simp [ht])
    | @unopened t ht => exact iff_of_true (failsBecause_errorAt.2 rfl) ⟨t, rfl, ht⟩
    | closed ht _ _ => exact iff_of_false not_failsBecause_sound (by simp)
    | unclosed ht _ =>
      refine iff_of_false (by simp [failsBecause_errorAt]) ?_
      rintro ⟨t', heq, hclosing⟩
      cases heq
      simp [ht] at hclosing
  case unclosed =>
    rw [hdrop]
    cases hs with
    | word ht => exact iff_of_false not_failsBecause_sound (by simp [ht])
    | unopened ht => exact iff_of_false (by simp [failsBecause_errorAt]) (by simp [ht])
    | @closed t u inside ht hinside hu =>
      refine iff_of_false not_failsBecause_sound ?_
      rintro ⟨t', rest, heq, -, hopen⟩
      cases heq
      exact hopen ⟨inside, u, after, by simp, hinside, hu⟩
    | @unclosed t us ht hcovered =>
      refine iff_of_true (failsBecause_errorAt.2 rfl) ⟨t, us ++ after, rfl, ht, ?_⟩
      rwa [close_iff, not_not]
  case reread =>
    intro hfails
    cases hs with
    | word _ | closed _ _ _ => exact absurd hfails not_failsBecause_sound
    | unopened _ => cases failsBecause_errorAt.1 hfails
    | unclosed ht hcovered =>
      have hnul := (Input.bytes_of_fault hfault).2.1
      obtain ⟨t', hparse⟩ := Source.parse_unclosed_run hnul h ht
        (hcovered.of_prefix (List.prefix_append _ _))
      exact ⟨_, Growth.isBecause_errorAt.2 rfl, hparse, Source.parseStatement_of_error hparse⟩

end Statement

/-- **The statements of a text cover it.**  Whatever text is cut into tokens is cut into
statements, one for each of a row of ranges that leave out no parenthesis and no word, and
the range of a statement says what is wrong with it, if anything is. -/
theorem statements_cover (input : Input) (h : input.source.scan.failure = none) :
    ∃ e ss rs, input.source.scan.tokens = input.source.body ++ [e] ∧ e.kind = .finish
      ∧ input.statements = .ok ss ∧ Span.Cover input.source.body rs
      ∧ List.Forall₂ (Statement.Fills input) ss rs := by
  have hfault := Source.fault_of_scan h
  obtain ⟨e, he, hscan⟩ := Source.scan_eq_body hfault
  obtain ⟨rs, hranged⟩ := Statement.ranged_ofTokenList 0 input.source.body
  refine ⟨e, _, rs, by rw [hscan], he, Input.statements_of_fault hfault, hranged.cover, ?_⟩
  refine hranged.forall₂_made.imp ?_
  rintro s r ⟨before, us, after, hbody, rfl, hs⟩
  rw [Nat.zero_add]
  exact hs.fills hfault hbody

/-- A closing parenthesis too many, one too few because of a comment, and a word. -/
theorem statements_cover_unclosed :
    let input := Input.ofString "\uFEFF) (é ; )\n (b) x"
    let ss : List Statement :=
      [⟨")", ⟨1, 1⟩, some (.located ⟨1, 1⟩ (.because .unbalanced) "unexpected )")⟩,
        ⟨"(é ; )", ⟨1, 3⟩, some (.located ⟨1, 3⟩ (.because .unexpectedEnd) "unclosed (")⟩,
        ⟨"(b)", ⟨2, 2⟩, none⟩, ⟨"x", ⟨2, 6⟩, none⟩]
    input.source.scan.failure = none ∧ input.statements = .ok ss
      ∧ ∃ rs, Span.Cover input.source.body rs ∧ List.Forall₂ (Statement.Fills input) ss rs := by
  intro input ss
  have hscan : input.source.scan.failure = none := by decide +kernel
  have hss : input.statements = .ok ss := by decide +kernel
  obtain ⟨e, ss', rs, -, -, hss', hcover, hfills⟩ := statements_cover input hscan
  rw [hss] at hss'
  cases hss'
  exact ⟨hscan, hss, rs, hcover, hfills⟩

end IntLisp
