/-
  IntLisp.Proofs.Lines
  ────────────────────
  **A TEXT THAT IS CUT AT THE ENDS OF ITS LINES.**

  A text can be split into statements as a whole, or in pieces: cut off at the
  end of a line, trimmed, and each split alone.  The pieces give the statements
  of the whole if every cut stands between two statements:

      split a = .ok xs  →  (split (a ++ '\n' :: b) = .ok zs
                              ↔  ∃ ys, split b = .ok ys ∧ zs = xs ++ ys)

  A beginning of a good text is good or incomplete, so a cut where the text is
  not incomplete stands between two statements.  Trimming takes blank lexemes
  away, or shortens one, at either end, where no statement has begun.
-/
import IntLisp.Proofs.Composition
import IntLisp.Proofs.Prompt
import IntLisp.Proofs.Words

namespace IntLisp

open Token

/-! ## §1. Statements by what their tokens say. -/

namespace Statement

variable {s : Statement} {ss : List Statement} {ts us : List Token} {xs zs : List String}

theorem texts_cons_eq_ok_iff :
    texts (s :: ss) = .ok zs ↔ s.error = none ∧ ∃ xs, texts ss = .ok xs ∧ zs = s.text :: xs := by
  rw [texts]
  cases s.error with
  | some e => simp
  | none =>
    cases texts ss with
    | error e => simp
    | ok xs => simp [eq_comm]

theorem map_text_of_texts (h : texts ss = .ok xs) : ss.map text = xs := by
  induction ss generalizing xs with
  | nil =>
    cases h
    rfl
  | cons s ss ih =>
    obtain ⟨-, ys, hys, rfl⟩ := texts_cons_eq_ok_iff.1 h
    rw [List.map_cons, ih hys]

theorem texts_append_eq_ok_iff {ss' : List Statement} :
    texts (ss ++ ss') = .ok zs
      ↔ ∃ xs ys, texts ss = .ok xs ∧ texts ss' = .ok ys ∧ zs = xs ++ ys := by
  induction ss generalizing zs with
  | nil => simp [texts]
  | cons s ss ih =>
    rw [List.cons_append, texts_cons_eq_ok_iff]
    constructor
    · rintro ⟨hs, zs', hzs, rfl⟩
      obtain ⟨xs, ys, hxs, hys, rfl⟩ := ih.1 hzs
      exact ⟨_, ys, texts_cons_eq_ok_iff.2 ⟨hs, xs, hxs, rfl⟩, hys, rfl⟩
    · rintro ⟨_, ys, hcons, hys, rfl⟩
      obtain ⟨hs, xs, hxs, rfl⟩ := texts_cons_eq_ok_iff.1 hcons
      exact ⟨hs, _, ih.2 ⟨xs, ys, hxs, hys, rfl⟩, rfl⟩

/-- Statements can be cut where their texts are. -/
theorem exists_texts_append {ys : List String} (h : texts ss = .ok (xs ++ ys)) :
    ∃ ss₁ ss₂, ss = ss₁ ++ ss₂ ∧ texts ss₁ = .ok xs ∧ texts ss₂ = .ok ys := by
  induction xs generalizing ss with
  | nil => exact ⟨[], ss, rfl, rfl, h⟩
  | cons x xs ih =>
    cases ss with
    | nil => cases h
    | cons s ss =>
      obtain ⟨hs, zs, hzs, hcons⟩ := texts_cons_eq_ok_iff.1 h
      obtain ⟨rfl, rfl⟩ := List.cons.inj hcons
      obtain ⟨ss₁, ss₂, rfl, hss₁, hss₂⟩ := ih hzs
      exact ⟨s :: ss₁, ss₂, rfl, texts_cons_eq_ok_iff.2 ⟨hs, xs, hss₁, rfl⟩, hss₂⟩

/-- Where a parenthesis is closed depends on the kinds of tokens alone. -/
theorem closedLength?_of_map_kind (h : us.map kind = ts.map kind) (depth before : Nat) :
    closedLength? depth before us = closedLength? depth before ts := by
  fun_induction closedLength? depth before ts generalizing us with
  | case1 => rw [List.map_eq_nil_iff.1 h, closedLength?]
  | case2 depth before t ts hk ih =>
    obtain ⟨u, us, rfl, hu, hus⟩ := List.map_eq_cons_iff.1 h
    rw [closedLength?_opening (hu.trans hk), ih hus]
  | case3 depth before t ts hk hdepth =>
    obtain ⟨u, us, rfl, hu, -⟩ := List.map_eq_cons_iff.1 h
    rw [closedLength?_closed (hu.trans hk) hdepth]
  | case4 depth before t ts hk hdepth ih =>
    obtain ⟨u, us, rfl, hu, hus⟩ := List.map_eq_cons_iff.1 h
    rw [closedLength?_inner (hu.trans hk) hdepth, ih hus]
  | case5 depth before t ts hopening hclosing ih =>
    obtain ⟨u, us, rfl, hu, hus⟩ := List.map_eq_cons_iff.1 h
    rw [closedLength?_plain (hu.trans_ne hopening) (hu.trans_ne hclosing), ih hus]

theorem text_ofTokens_eq {t u : Token} (hhead : u.content = t.content)
    (htail : us.map content = ts.map content) :
    (ofTokens u us none).text = (ofTokens t ts none).text := by
  have hall : (u :: us).map content = (t :: ts).map content := by
    rw [List.map_cons, hhead, htail, List.map_cons]
  have htexts := congrArg (List.map Prod.snd) hall
  rw [List.map_map, List.map_map] at htexts
  exact congrArg (fun xs => Text.trim (String.join xs)) htexts

/-- **Where tokens stand does not change the texts of their statements.** -/
theorem texts_of_map_content (h : us.map content = ts.map content)
    (hts : texts (ofTokenList ts) = .ok xs) : texts (ofTokenList us) = .ok xs := by
  fun_induction ofTokenList ts generalizing us xs with
  | case1 =>
    rw [List.map_eq_nil_iff.1 h, ofTokenList]
    exact hts
  | case2 t ts hk ih =>
    obtain ⟨u, us, rfl, hu, hus⟩ := List.map_eq_cons_iff.1 h
    obtain ⟨-, ys, hys, rfl⟩ := texts_cons_eq_ok_iff.1 hts
    rw [ofTokenList_word ((content_eq_iff.1 hu).1.trans hk), texts_cons_eq_ok_iff]
    exact ⟨rfl, ys, ih hus hys, by rw [text_ofTokens_eq hu rfl]⟩
  | case3 t ts hk ih => cases (texts_cons_eq_ok_iff.1 hts).1
  | case4 t ts hk vs rest hsplit ih =>
    obtain ⟨u, us, rfl, hu, hus⟩ := List.map_eq_cons_iff.1 h
    obtain ⟨-, ys, hys, rfl⟩ := texts_cons_eq_ok_iff.1 hts
    obtain ⟨n, hn, hparts⟩ := Option.map_eq_some_iff.1 hsplit
    cases hparts
    -- the search ends at the same token, wherever the tokens stand
    have hkinds : us.map kind = ts.map kind := by
      have hfst := congrArg (List.map Prod.fst) hus
      rwa [List.map_map, List.map_map] at hfst
    have hclosed : splitClosed us = some (us.take n, us.drop n) := by
      rw [splitClosed, closedLength?_of_map_kind hkinds, hn]
      rfl
    have htake : (us.take n).map content = (ts.take n).map content := by
      rw [List.map_take, hus, List.map_take]
    have hdrop : (us.drop n).map content = (ts.drop n).map content := by
      rw [List.map_drop, hus, List.map_drop]
    rw [ofTokenList_opening ((content_eq_iff.1 hu).1.trans hk) hclosed, texts_cons_eq_ok_iff]
    exact ⟨rfl, ys, ih hdrop hys, by rw [text_ofTokens_eq hu htake]⟩
  | case5 t ts hk hsplit ih => cases (texts_cons_eq_ok_iff.1 hts).1
  | case6 t ts hword hclosing hopening ih =>
    obtain ⟨u, us, rfl, hu, hus⟩ := List.map_eq_cons_iff.1 h
    have hkind := (content_eq_iff.1 hu).1
    rw [ofTokenList_skipped (hkind.trans_ne hword) (hkind.trans_ne hclosing)
      (hkind.trans_ne hopening)]
    exact ih hus hts

end Statement

/-! ## §2. What lexemes say. -/

namespace Token

variable {l : List Char} {ls ms : List (List Char)} {xs zs : List String}

/-- The lexemes make sound statements with the texts `xs`, wherever they stand. -/
def Says (ls : List (List Char)) (xs : List String) : Prop :=
  Statement.texts (Statement.ofTokenList (placed 0 .start ls)) = .ok xs

theorem says_iff (offset : Nat) (pos : Position) :
    Says ls xs ↔ Statement.texts (Statement.ofTokenList (placed offset pos ls)) = .ok xs :=
  ⟨Statement.texts_of_map_content (by rw [map_content_placed, map_content_placed]),
    Statement.texts_of_map_content (by rw [map_content_placed, map_content_placed])⟩

theorem says_nil_iff : Says [] xs ↔ xs = [] := by
  simp [Says, placed, Statement.ofTokenList, Statement.texts, eq_comm]

/-- **What sound lexemes say is said before what those behind them say.** -/
theorem Says.append_iff (h : Says ls xs) :
    Says (ls ++ ms) zs ↔ ∃ ys, Says ms ys ∧ zs = xs ++ ys := by
  unfold Says at h
  rw [Says, placed_append, Statement.ofTokenList_append_of_sound (Statement.sound_of_texts h),
    Statement.texts_append_eq_ok_iff]
  simp only [h, Except.ok.injEq, ← says_iff]
  constructor
  · rintro ⟨_, ys, rfl, hys, hzs⟩
    exact ⟨ys, hys, hzs⟩
  · rintro ⟨ys, hys, hzs⟩
    exact ⟨xs, ys, rfl, hys, hzs⟩

theorem says_blank_cons_iff (hl : (Kind.ofLexeme l).isBlank = true) :
    Says (l :: ls) xs ↔ Says ls xs := by
  rw [Says, placed, Statement.ofTokenList_blank hl, ← says_iff]

theorem says_word_cons {c : Char} {cs : List Char} (hc : Kind.ofChar c = .word)
    (h : Says ((c :: cs) :: ls) xs) :
    ∃ ys, xs = Text.trim (String.ofList (c :: cs)) :: ys := by
  rw [Says, placed, Statement.ofTokenList_word hc, Statement.texts_cons_eq_ok_iff] at h
  obtain ⟨-, ys, -, rfl⟩ := h
  refine ⟨ys, ?_⟩
  simp [Statement.ofTokens, spelling]

/-- Lexemes are sound if the counts of their parentheses find nothing wrong. -/
theorem exists_says_iff : (∃ xs, Says ls xs) ↔ Verdict (placed 0 .start ls) none := by
  obtain ⟨r, hverdict, hexplains⟩ := Statement.explains_texts (placed 0 .start ls)
  unfold Says
  rw [hexplains.exists_ok_iff]
  constructor
  · rintro rfl
    exact hverdict
  · intro h
    exact hverdict.unique h

theorem Verdict.of_concat_blank {t : Token} {ts : List Token} (ht : t.kind.isBlank = true)
    (h : Verdict (ts ++ [t]) none) : Verdict ts none := by
  cases h with
  | balanced hcovered hcounts =>
    refine .balanced (hcovered.of_prefix (List.prefix_append ts [t])) ?_
    have hopening : t.kind ≠ .opening := fun hk => by simp [hk, Kind.isBlank] at ht
    have hclosing : t.kind ≠ .closing := fun hk => by simp [hk, Kind.isBlank] at ht
    simpa [openings_cons, closings_cons, hopening, hclosing] using hcounts

/-- A blank lexeme at the end says nothing, and nothing is unsound without it. -/
theorem says_concat_blank_iff (hl : (Kind.ofLexeme l).isBlank = true) :
    Says (ls ++ [l]) xs ↔ Says ls xs := by
  have hadd : ∀ {ys}, Says ls ys → (Says (ls ++ [l]) xs ↔ xs = ys) := by
    intro ys hys
    rw [hys.append_iff]
    simp [says_blank_cons_iff hl, says_nil_iff]
  constructor
  · intro h
    have hverdict := exists_says_iff.1 ⟨xs, h⟩
    rw [placed_append] at hverdict
    obtain ⟨ys, hys⟩ := exists_says_iff.2 (hverdict.of_concat_blank hl)
    rwa [(hadd hys).1 h]
  · intro h
    exact (hadd h).2 rfl

end Token

/-! ## §3. White space at the ends of a text. -/

/-- White space of the kind that separates tokens; any other is part of a word. -/
def Text.IsGap (c : Char) : Prop := c ∈ [' ', '\t', '\x0c', '\r', '\n']

namespace Token

variable {c : Char} {cs : List Char} {xs : List String}

theorem Kind.ofChar_of_isGap (h : Text.IsGap c) :
    Kind.ofChar c = .separator ∨ Kind.ofChar c = .newline := by
  unfold Text.IsGap at h
  simp only [List.mem_cons, List.not_mem_nil, or_false] at h
  rcases h with rfl | rfl | rfl | rfl | rfl <;> decide

theorem Kind.isBlank_ofLexeme_of_isGap (h : Text.IsGap c) (cs : List Char) :
    (Kind.ofLexeme (c :: cs)).isBlank = true := by
  rcases Kind.ofChar_of_isGap h with hk | hk <;> simp [Kind.ofLexeme, hk, Kind.isBlank]

/-- One more character is a new lexeme, or makes the last one longer. -/
theorem lexemes_concat (cs : List Char) (c : Char) :
    lexemes (cs ++ [c]) = lexemes cs ++ [[c]]
      ∨ ∃ ls l, lexemes cs = ls ++ [l] ∧ lexemes (cs ++ [c]) = ls ++ [l ++ [c]]
        ∧ (Kind.ofLexeme l).continues c = true := by
  have hone : lexemes [c] = [[c]] := by simp [lexemes_cons]
  have hlexed := lexed_lexemes cs
  rw [← flatten_lexemes cs, hlexed.lexemes_flatten]
  generalize lexemes cs = ls at hlexed
  induction hlexed with
  | nil => exact .inl hone
  | @cons d ds ls hds hstop hls ih =>
    rw [List.flatten_cons, List.append_assoc]
    cases hrest : ls.flatten with
    | nil =>
      -- there is no lexeme behind that of `d`
      obtain rfl : ls = [] := by rw [← hls.lexemes_flatten, hrest, lexemes_nil]
      by_cases hc : (Kind.ofChar d).continues c = true
      · refine .inr ⟨[], d :: ds, rfl, ?_, hc⟩
        have hall : ∀ x ∈ ds ++ [c], (Kind.ofChar d).continues x = true := by
          simpa [or_imp, forall_and] using ⟨hds, hc⟩
        have hlast : lexemes (d :: (ds ++ [c]) ++ []) = (d :: (ds ++ [c])) :: lexemes [] :=
          lexemes_cons_append hall (by simp)
        simpa using hlast
      · refine .inl ?_
        have hlast : lexemes (d :: ds ++ [c]) = (d :: ds) :: lexemes [c] :=
          lexemes_cons_append hds (by simpa using hc)
        rw [List.nil_append, hlast, hone]
        rfl
    | cons x rest =>
      have hhead : ∀ y, (x :: rest ++ [c]).head? = some y →
          (Kind.ofChar d).continues y = false := by
        intro y hy
        exact hstop y (hrest ▸ hy)
      rw [lexemes_cons_append hds hhead, ← hrest]
      rcases ih with ih | ⟨ms, l, hms, hconcat, hc⟩
      · exact .inl (congrArg _ ih)
      · exact .inr ⟨(d :: ds) :: ms, l, congrArg _ hms, congrArg _ hconcat, hc⟩

/-- **White space behind a text says nothing.** -/
theorem says_concat_gap (hc : Text.IsGap c) (h : Says (lexemes (cs ++ [c])) xs) :
    Says (lexemes cs) xs := by
  have hkind := Kind.ofChar_of_isGap hc
  rcases lexemes_concat cs c with hnew | ⟨ls, l, hlast, hlonger, hcontinues⟩
  · rw [hnew] at h
    exact (says_concat_blank_iff (Kind.isBlank_ofLexeme_of_isGap hc [])).1 h
  · -- only white space and comments go on with white space
    have hblank : (Kind.ofLexeme l).isBlank = true := by
      cases hl : Kind.ofLexeme l <;> rw [hl] at hcontinues <;> rcases hkind with hk | hk <;>
        simp [Kind.continues, Kind.isBlank, hk] at hcontinues ⊢
    have hblank' : (Kind.ofLexeme (l ++ [c])).isBlank = true := by
      cases l with
      | nil => cases hblank
      | cons d ds => exact hblank
    rw [hlonger, says_concat_blank_iff hblank'] at h
    rwa [hlast, says_concat_blank_iff hblank]

/-- **White space before a text says nothing.** -/
theorem says_cons_gap (hc : Text.IsGap c) (h : Says (lexemes (c :: cs)) xs) :
    Says (lexemes cs) xs := by
  rw [lexemes_cons, says_blank_cons_iff (Kind.isBlank_ofLexeme_of_isGap hc _)] at h
  cases cs with
  | nil => simpa using h
  | cons d cs =>
    by_cases hd : (Kind.ofChar c).continues d = true
    · -- the two are in one lexeme, and without `c` it begins with `d`
      have hsame : Kind.ofChar d = Kind.ofChar c := by
        rcases Kind.ofChar_of_isGap hc with hk | hk <;> simp_all [Kind.continues]
      rw [List.dropWhile_cons_of_pos hd] at h
      rw [lexemes_cons, hsame, says_blank_cons_iff]
      · exact h
      · simpa [Kind.ofLexeme, hsame] using Kind.isBlank_ofLexeme_of_isGap hc []
    · rwa [List.dropWhile_cons_of_neg hd] at h

end Token

/-- Trimming the end of a text leaves the character that it begins with. -/
theorem Text.head?_trimChars (cs : List Char) :
    (trimChars cs).head? = (trimStart cs).head? := by
  unfold trimChars
  cases hstart : trimStart cs with
  | nil => rfl
  | cons d ds =>
    have hd : isBlank d = false := by
      have hhead := List.head?_dropWhile_not isBlank cs
      rw [show cs.dropWhile isBlank = d :: ds from hstart] at hhead
      simpa using hhead
    have hsplit : trimEnd (d :: ds) ++ (d :: ds).rtakeWhile isBlank = d :: ds :=
      List.rdropWhile_append_rtakeWhile
    cases hend : trimEnd (d :: ds) with
    | nil =>
      rw [hend, List.nil_append] at hsplit
      have hblank : isBlank d = true :=
        List.mem_rtakeWhile_imp (l := d :: ds) (by rw [hsplit]; exact .head ds)
      rw [hd] at hblank
      cases hblank
    | cons e es =>
      rw [hend, List.cons_append] at hsplit
      rw [List.head?_cons, List.head?_cons, (List.cons.inj hsplit).1]

namespace Source

/-- The source of characters that no mark leads and nothing stands behind. -/
def plain (cs : List Char) : Source := ⟨false, cs, none⟩

variable {cs ds : List Char} {xs zs : List String}

theorem split_plain_iff : (plain cs).split = .ok xs ↔ Says (lexemes cs) xs := by
  rw [split, statements_of_fault rfl]
  rfl

/-- The white space of a text is such that separates tokens. -/
def Spaced (cs : List Char) : Prop := ∀ c ∈ cs, Text.isBlank c = true → Text.IsGap c

theorem Spaced.sublist (h : Spaced cs) (hds : ds.Sublist cs) : Spaced ds :=
  fun c hc => h c (hds.subset hc)

theorem says_trimStart (hspaced : Spaced cs) (h : Says (lexemes cs) xs) :
    Says (lexemes (Text.trimStart cs)) xs := by
  unfold Text.trimStart
  induction cs with
  | nil => exact h
  | cons c cs ih =>
    cases hc : Text.isBlank c with
    | true =>
      rw [List.dropWhile_cons_of_pos hc]
      exact ih (hspaced.sublist (List.sublist_cons_self c cs))
        (says_cons_gap (hspaced c (.head cs) hc) h)
    | false =>
      rw [List.dropWhile_cons_of_neg (by simp [hc])]
      exact h

theorem says_trimEnd (hspaced : Spaced cs) (h : Says (lexemes cs) xs) :
    Says (lexemes (Text.trimEnd cs)) xs := by
  show Says (lexemes (cs.rdropWhile Text.isBlank)) xs
  induction cs using List.reverseRecOn with
  | nil => exact h
  | append_singleton cs c ih =>
    cases hc : Text.isBlank c with
    | true =>
      rw [List.rdropWhile_concat_pos _ _ _ hc]
      exact ih (hspaced.sublist (List.sublist_append_left cs [c]))
        (says_concat_gap (hspaced c (by simp) hc) h)
    | false =>
      rw [List.rdropWhile_concat_neg _ _ _ (by simp [hc])]
      exact h

/-- **Trimming a text does not change its statements.** -/
theorem split_trimChars (hspaced : Spaced cs) (h : (plain cs).split = .ok xs) :
    (plain (Text.trimChars cs)).split = .ok xs := by
  rw [split_plain_iff] at h ⊢
  exact says_trimEnd (hspaced.sublist (Text.trimStart_sublist cs)) (says_trimStart hspaced h)

/-- A text of which no statement begins with a colon does not begin with one. -/
theorem head?_ne_colon (hspaced : Spaced cs) (h : (plain cs).split = .ok xs)
    (hcolon : ∀ x ∈ xs, x.toList.head? ≠ some ':') :
    (Text.trimStart cs).head? ≠ some ':' := by
  intro hhead
  have hsays := says_trimStart hspaced (split_plain_iff.1 h)
  obtain ⟨ds, hds⟩ := List.head?_eq_some_iff.1 hhead
  rw [hds, lexemes_cons] at hsays
  obtain ⟨ys, rfl⟩ := says_word_cons (by decide) hsays
  refine hcolon _ (.head ys) ?_
  rw [Text.toList_trim, String.toList_ofList, Text.head?_trimChars]
  rfl

/-- **A newline between two statements separates the statements of a text.** -/
theorem split_newline_iff (h : (plain cs).split = .ok xs) :
    (plain (cs ++ '\n' :: ds)).split = .ok zs
      ↔ ∃ ys, (plain ds).split = .ok ys ∧ zs = xs ++ ys := by
  have hblank : (Kind.ofLexeme ['\n']).isBlank = true := rfl
  simp only [split_plain_iff] at h ⊢
  rw [lexemes_newline, h.append_iff]
  simp only [says_blank_cons_iff hblank]

/-- **What stands above a newline in a good text is good, unless it is incomplete.** -/
theorem split_of_not_isIncomplete (h : (plain (cs ++ '\n' :: ds)).split = .ok zs)
    (hcolon : (Text.trimStart cs).head? ≠ some ':') (hcomplete : (plain cs).isIncomplete = false) :
    ∃ xs, (plain cs).split = .ok xs := by
  obtain ⟨-, hwhole⟩ := split_eq_ok_iff.1 ⟨zs, h⟩
  have hfault : (plain cs).fault = none := rfl
  obtain ⟨r, hverdict, -⟩ := explains_split hfault
  rw [split_eq_ok_iff]
  refine ⟨hfault, ?_⟩
  cases hverdict with
  | balanced hcovered hcounts => exact .balanced hcovered hcounts
  | unopened hnot =>
    cases hwhole with
    | balanced hcovered _ =>
      exact absurd (hcovered.of_prefix (prefix_body_newline false cs ds)) hnot
  | unclosed hcovered hlt =>
    have hbegins : (Text.trimStart ((plain cs).mark ++ (plain cs).chars)).head? ≠ some ':' := hcolon
    have hincomplete := (isIncomplete_iff hbegins).2 ⟨hfault, .unclosed hcovered hlt⟩
    rw [hcomplete] at hincomplete
    cases hincomplete

end Source

/-! ## §4. Lines of bytes and of glyphs. -/

namespace Text.Glyph

/-- Bytes that are read to their end have no glyphs but characters. -/
theorem readFrom_of_decodeFrom {bytes : ByteArray} {i : Nat}
    (h : (Input.decodeFrom bytes i).2 = bytes.size) :
    readFrom bytes i = (Input.decodeFrom bytes i).1.map char := by
  fun_induction Input.decodeFrom bytes i with
  | case1 i hnone =>
    have h : i = bytes.size := h
    rw [readFrom, dif_neg (by omega)]
    rfl
  | case2 i c hsome rest ih =>
    have hlt := ByteArray.lt_size_of_isSome_utf8DecodeChar? (Option.isSome_of_eq_some hsome)
    rw [readFrom, dif_pos hlt, hsome]
    exact congrArg (char c :: ·) (ih h)

theorem ofBytes_flatMap (cs : List Char) :
    ofBytes (cs.flatMap String.utf8EncodeChar) = cs.map char := by
  have hdecode := Input.decodeFrom_append .empty cs
  rw [ByteArray.empty_append, ByteArray.size_empty] at hdecode
  have hread := readFrom_of_decodeFrom (congrArg Prod.snd hdecode)
  rw [hdecode] at hread
  exact hread

theorem trim_map_char (cs : List Char) : trim (cs.map char) = (trimChars cs).map char := by
  have hblank : (isBlank ∘ char : Char → Bool) = Text.isBlank := rfl
  rw [trim, List.dropWhile_map, hblank, ← List.map_reverse, List.dropWhile_map, hblank,
    ← List.map_reverse]
  rfl

end Text.Glyph

theorem Source.ofGlyphs_map_char {cs : List Char} (hmark : byteOrderMark ∉ cs)
    (hnul : '\x00' ∉ cs) : ofGlyphs (cs.map .char) = plain cs := by
  have hleading : ∀ ds : List Char, Text.Glyph.leading (ds.map .char) = ds := by
    intro ds
    induction ds with
    | nil => rfl
    | cons d ds ih => rw [List.map_cons, Text.Glyph.leading, ih]
  have hstray : (cs.map Text.Glyph.char).any Text.Glyph.isStray = false := by
    simp [Text.Glyph.isStray]
  have hmarked : isMarked cs = false := by
    cases cs with
    | nil => rfl
    | cons c cs =>
      refine decide_eq_false ?_
      rintro ⟨⟩
      exact hmark (.head cs)
  have hplain := ofString_unmarked (s := String.ofList cs) (by simpa using hmarked)
    (by simpa using hnul)
  rw [ofGlyphs, hleading, hstray]
  simpa [ofString, plain] using hplain

/-- **The lines of a text are texts.** -/
theorem Input.exists_lines {cs : List Char} {lines : List (List UInt8)}
    (h : cs.flatMap String.utf8EncodeChar = [10].intercalate lines) :
    ∃ ls : List (List Char), cs = ['\n'].intercalate ls
      ∧ lines = ls.map (·.flatMap String.utf8EncodeChar) := by
  induction lines generalizing cs with
  | nil =>
    cases cs with
    | nil => exact ⟨[], rfl, rfl⟩
    | cons c cs =>
      have hlength := congrArg List.length h
      have hpos := c.utf8Size_pos
      simp at hlength
      omega
  | cons line lines ih =>
    cases lines with
    | nil => exact ⟨[cs], by simp, by simpa using h.symm⟩
    | cons line' lines =>
      rw [List.intercalate_cons_cons, List.append_assoc, List.singleton_append] at h
      obtain ⟨ds, es, rfl, rfl, hes⟩ := exists_split_newline h
      obtain ⟨ls, rfl, hls⟩ := ih hes.symm
      cases ls with
      | nil => cases hls
      | cons l ls =>
        refine ⟨ds :: l :: ls, ?_, ?_⟩
        · rw [List.intercalate_cons_cons, List.append_assoc, List.singleton_append]
        · rw [List.map_cons, ← hls]

end IntLisp
