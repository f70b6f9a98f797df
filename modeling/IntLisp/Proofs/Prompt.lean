/-
  IntLisp.Proofs.Prompt
  ─────────────────────
  **MORE IS ASKED FOR EXACTLY WHEN MORE CAN HELP.**

  A text is judged three times: it is split into statements, it is grown into
  a tree, and at the prompt it is probed for being incomplete.  The first two
  go about it in different ways, but what they find depends on the counts of
  parentheses alone (`Verdict`):

    • nothing, if no beginning of the text closes more than it opens and as
      many are closed in the end,
    • a parenthesis that closes nothing, if some beginning closes more,
    • the end of the text, if fewer are closed in the end.

  More text on a line below mends the third, and never the second, since the
  beginnings of a text are beginnings of every text that goes on with it.
  Nor does it mend a byte that begins no character: a newline is a character
  of one byte, and no part of any other.
-/
import IntLisp.Proofs.Completion
import IntLisp.Shell.Repl

namespace IntLisp

open Token

/-! ## §1. What is wrong with tokens. -/

/-- What the counts of parentheses say is wrong, if something is. -/
inductive Token.Verdict (ts : List Token) : Option Reason → Prop where
  | balanced (h : Covered 0 ts) (hcounts : openings ts = closings ts) : Verdict ts none
  | unopened (h : ¬ Covered 0 ts) : Verdict ts (some .unbalanced)
  | unclosed (h : Covered 0 ts) (hcounts : closings ts < openings ts) :
      Verdict ts (some .unexpectedEnd)

theorem Token.Verdict.unique {ts : List Token} {r r' : Option Reason} (h : Verdict ts r)
    (h' : Verdict ts r') : r = r' := by
  cases h with
  | balanced hcovered hcounts =>
    cases h' with
    | balanced _ _ => rfl
    | unopened hnot => exact absurd hcovered hnot
    | unclosed _ hlt => omega
  | unopened hnot =>
    cases h' with
    | balanced hcovered _ => exact absurd hcovered hnot
    | unopened _ => rfl
    | unclosed hcovered _ => exact absurd hcovered hnot
  | unclosed hcovered hlt =>
    cases h' with
    | balanced _ hcounts => omega
    | unopened hnot => exact absurd hcovered hnot
    | unclosed _ _ => rfl

/-- A result, or an error at a token for the reason given. -/
inductive Reason.Explains {α : Type} : Option Reason → Except Error α → Prop where
  | ok (a : α) : Explains none (.ok a)
  | error (t : Token) (reason : Reason) (note : String) :
      Explains (some reason) (.error (Growth.errorAt t reason note))

namespace Reason.Explains

variable {α : Type} {r : Option Reason}

theorem exists_ok_iff {x : Except Error α} (h : Explains r x) : (∃ a, x = .ok a) ↔ r = none := by
  cases h <;> simp

theorem cause_eq {e : Error} (h : Explains r (.error e : Except Error α)) :
    e.cause = r.map Error.because := by
  cases h
  rfl

end Reason.Explains

/-- A sound statement leaves it to those behind it. -/
theorem Statement.explains_texts_cons {s : Statement} {ss : List Statement} {r : Option Reason}
    (hs : s.error = none) (h : Reason.Explains r (texts ss)) :
    Reason.Explains r (texts (s :: ss)) := by
  unfold texts
  rw [hs]
  generalize texts ss = result at h
  cases h with
  | ok xs => exact .ok _
  | error t reason note => exact .error t reason note

/-- What the counts say of tokens, they say of them behind others that are balanced. -/
theorem Token.Verdict.of_balanced {us ts : List Token} {r : Option Reason} (hus : Balanced us)
    (h : Verdict ts r) : Verdict (us ++ ts) r := by
  have hcounts := hus.counts
  cases h with
  | balanced hcovered hts =>
    refine .balanced (hus.covered_append.2 hcovered) ?_
    rw [openings_append, closings_append]
    omega
  | unopened hnot => exact .unopened fun hcovered => hnot (hus.covered_append.1 hcovered)
  | unclosed hcovered hts =>
    refine .unclosed (hus.covered_append.2 hcovered) ?_
    rw [openings_append, closings_append]
    omega

/-- **Splitting into statements finds what the counts say.** -/
theorem Statement.explains_texts (ts : List Token) :
    ∃ r, Verdict ts r ∧ Reason.Explains r (texts (ofTokenList ts)) := by
  fun_induction ofTokenList ts with
  | case1 => exact ⟨none, .balanced (covered_nil 0) rfl, .ok []⟩
  | case2 t ts hk ih =>
    obtain ⟨r, hverdict, htexts⟩ := ih
    have hword : Balanced [t] := .plain (by simp [hk]) (by simp [hk]) .nil
    exact ⟨r, hverdict.of_balanced hword, explains_texts_cons rfl htexts⟩
  | case3 t ts hk ih => exact ⟨_, .unopened (not_covered_zero hk), .error t _ _⟩
  | case4 t ts hk us rest hsplit ih =>
    obtain ⟨r, hverdict, htexts⟩ := ih
    obtain ⟨inside, u, rfl, rfl, hinside, hu⟩ := balanced_of_splitClosed hsplit
    have hexpression : Balanced (t :: (inside ++ [u])) := .nested hk hinside hu .nil
    exact ⟨r, hverdict.of_balanced hexpression, explains_texts_cons rfl htexts⟩
  | case5 t ts hk hsplit parts ih =>
    -- the parenthesis stays open to the end, so nothing behind it closes too much
    have hcovered : Covered 0 ts := splitClosed_eq_none_iff.1 hsplit
    have hle := hcovered.closings_le
    refine ⟨_, .unclosed ((covered_opening hk).2 (hcovered.mono (Nat.zero_le 1))) ?_, .error t _ _⟩
    rw [openings_cons, closings_cons, if_pos hk, if_neg (by simp [hk])]
    omega
  | case6 t ts hword hclosing hopening ih =>
    obtain ⟨r, hverdict, htexts⟩ := ih
    have hblank : Balanced [t] := .plain hopening hclosing .nil
    exact ⟨r, hverdict.of_balanced hblank, htexts⟩

/-- **Growing a tree finds what the counts say.** -/
theorem Source.explains_parse {src : Source} (h : src.fault = none) :
    ∃ r, Verdict src.body r ∧ Reason.Explains r src.parse := by
  unfold parse
  rcases read_cases h false with
    ⟨g, hg, hread⟩ | ⟨before, u, after, g, hbody, hu, hg, hpending, hread⟩
  · have hcounts := hg.counts
    rw [hread]
    unfold Growth.finish
    cases hpending : g.pending with
    | nil =>
      rw [hpending] at hcounts
      exact ⟨none, .balanced hg.covered hcounts, .ok _⟩
    | cons e es =>
      rw [hpending, List.length_cons] at hcounts
      exact ⟨_, .unclosed hg.covered (by omega), .error e.token _ _⟩
  · rw [hread, hbody]
    exact ⟨_, .unopened (hg.firstUnopened hpending hu).not_covered, .error u _ _⟩

/-! ## §2. Bytes on the line below. -/

/-- Only a newline has the byte of a newline. -/
theorem Input.eq_newline_of_mem {c : Char} (h : 10 ∈ String.utf8EncodeChar c) : c = '\n' := by
  rw [String.utf8EncodeChar_eq_utf8EncodeCharFast] at h
  unfold String.utf8EncodeCharFast at h
  dsimp only at h
  -- the bytes of a longer character have their highest bit set
  have hor : ∀ x k : UInt8, k.toNat.testBit 7 = true → ¬ 10 = x ||| k := by
    intro x k hk heq
    have hbit := congrArg (fun y : UInt8 => y.toNat.testBit 7) heq
    simp [UInt8.toNat_or, Nat.testBit_or, hk] at hbit
    exact absurd hbit (by decide)
  split_ifs at h with hsmall
  · have hten : (10 : UInt8).toNat = c.val.toUInt8.toNat := congrArg UInt8.toNat (by simpa using h)
    have hle : c.val.toNat ≤ 127 := UInt32.le_iff_toNat_le.1 hsmall
    rw [UInt32.toNat_toUInt8] at hten
    have hmod : 10 = c.val.toNat % 2 ^ 8 := hten
    have hval : c.val.toNat = 10 := by omega
    exact Char.ext (UInt32.toNat_inj.1 hval)
  all_goals simp [hor _ 192 (by decide), hor _ 224 (by decide), hor _ 240 (by decide),
    hor _ 128 (by decide)] at h

/-- **The byte of a newline separates the characters before it from those behind it.** -/
theorem Input.exists_split_newline {cs : List Char} {a b : List UInt8}
    (h : cs.flatMap String.utf8EncodeChar = a ++ 10 :: b) :
    ∃ ds es, cs = ds ++ '\n' :: es ∧ a = ds.flatMap String.utf8EncodeChar
      ∧ b = es.flatMap String.utf8EncodeChar := by
  induction cs generalizing a with
  | nil => simp at h
  | cons c cs ih =>
    rw [List.flatMap_cons] at h
    rcases List.append_eq_append_iff.1 h with ⟨a', rfl, hrest⟩ | ⟨c', hc, hrest⟩
    · -- the character ends before the byte
      obtain ⟨ds, es, rfl, rfl, rfl⟩ := ih hrest
      exact ⟨c :: ds, es, rfl, rfl, rfl⟩
    · cases c' with
      | nil =>
        obtain ⟨ds, es, rfl, hds, rfl⟩ := ih (a := []) hrest.symm
        refine ⟨c :: ds, es, rfl, ?_, rfl⟩
        rw [List.flatMap_cons, ← hds, hc, List.append_nil, List.append_nil]
      | cons x c' =>
        -- the byte is one of the character, which is a newline then
        obtain ⟨rfl, hb⟩ := List.cons.inj hrest
        have hnewline : c = '\n' := eq_newline_of_mem (by rw [hc]; simp)
        subst hnewline
        obtain ⟨rfl, rfl⟩ : a = [] ∧ c' = [] := by
          have hone : (String.utf8EncodeChar '\n').length = 1 := by decide
          have hlength := congrArg List.length hc
          rw [hone, List.length_append, List.length_cons] at hlength
          exact ⟨List.length_eq_zero_iff.1 (by omega), List.length_eq_zero_iff.1 (by omega)⟩
        exact ⟨[], cs, rfl, rfl, hb⟩

theorem Source.prefix_body_newline (marked : Bool) (cs ds : List Char) :
    (⟨marked, cs, none⟩ : Source).body <+: (⟨marked, cs ++ '\n' :: ds, none⟩ : Source).body := by
  unfold body
  dsimp only
  rw [lexemes_newline, placed_append]
  cases cs with
  | nil =>
    rw [lexemes_nil]
    exact List.nil_prefix
  | cons c cs => exact List.prefix_append _ _

namespace Input

/-- An input that holds `bytes` and does not fail. -/
def ofBytes (bytes : ByteArray) : Input := ⟨bytes, none⟩

theorem source_ofBytes {bytes : ByteArray} {cs : List Char} (h : bytes = cs.utf8Encode)
    (hnul : '\x00' ∉ cs) :
    (ofBytes bytes).source = ⟨Source.isMarked cs, Source.dropMark cs, none⟩ := by
  have hofString : ofBytes bytes = ofString (String.ofList cs) := by
    rw [h]
    rfl
  rw [hofString, source_ofString, Source.ofString_eq (by rwa [String.toList_ofList]),
    String.toList_ofList]

/-- **A text that goes on below without a fault has none itself**, and its tokens are the
first of the longer text. -/
theorem prefix_body_above {bytes more : ByteArray}
    (h : ((ofBytes bytes).above (ofBytes more)).source.fault = none) :
    (ofBytes bytes).source.fault = none
      ∧ (ofBytes bytes).source.body <+: ((ofBytes bytes).above (ofBytes more)).source.body := by
  obtain ⟨-, hnul, hbytes⟩ := bytes_of_fault h
  rw [← List.utf8Encode_append] at hbytes
  have hnul : '\x00' ∉ ((ofBytes bytes).above (ofBytes more)).source.mark
      ++ ((ofBytes bytes).above (ofBytes more)).source.chars := by
    simp [Source.nul_not_mem_mark, hnul]
  generalize ((ofBytes bytes).above (ofBytes more)).source.mark
      ++ ((ofBytes bytes).above (ofBytes more)).source.chars = cs at hbytes hnul
  -- the newline between the texts is one of the characters
  have hlist : cs.flatMap String.utf8EncodeChar
      = bytes.data.toList ++ 10 :: more.data.toList := by
    have hnewline : "\n".toByteArray.data.toList = [10] := by decide
    have hdata := congrArg (fun b : ByteArray => b.data.toList) hbytes
    simpa [above, ofBytes, List.utf8Encode, hnewline] using hdata.symm
  obtain ⟨ds, es, rfl, hds, hes⟩ := exists_split_newline hlist
  have hupper : bytes = ds.utf8Encode := by
    refine ByteArray.ext (Array.toList_inj.1 ?_)
    rw [hds, List.utf8Encode, List.data_toByteArray]
  have hwhole : ((ofBytes bytes).above (ofBytes more)).source
      = ⟨Source.isMarked ds, Source.dropMark ds ++ '\n' :: es, none⟩ := by
    have hsource := source_ofBytes hbytes hnul
    obtain ⟨hmarked, hdrop⟩ := Source.dropMark_append_cons (by decide : '\n' ≠ byteOrderMark) ds es
    rw [hmarked, hdrop] at hsource
    exact hsource
  have hsource := source_ofBytes hupper fun hmem => hnul (List.mem_append_left _ hmem)
  rw [hsource, hwhole]
  exact ⟨rfl, Source.prefix_body_newline _ _ _⟩

end Input

/-! ## §3. The prompt. -/

namespace Source

variable {src : Source}

theorem isCommand_eq (src : Source) :
    src.isCommand = decide ((Text.trimStart (src.mark ++ src.chars)).head? = some ':') := by
  unfold isCommand mark
  cases src.marked with
  | true => rfl
  | false => rfl

/-- **Splitting a source and growing its tree find the same fault.** -/
theorem explains_split (h : src.fault = none) :
    ∃ r, Verdict src.body r ∧ Reason.Explains r src.split ∧ Reason.Explains r src.parse := by
  obtain ⟨r, hverdict, hparse⟩ := explains_parse h
  obtain ⟨r', hverdict', hsplit⟩ := Statement.explains_texts src.body
  cases hverdict.unique hverdict'
  refine ⟨r, hverdict, ?_, hparse⟩
  rw [split, statements_of_fault h]
  exact hsplit

/-- A source that cannot be cut into tokens fails with what stopped the scan. -/
theorem split_of_fault (h : src.fault ≠ none) :
    ∃ f : ScanFailure, src.split = .error f.toError ∧ src.parse = .error f.toError := by
  cases hscan : src.scan.failure with
  | none => exact absurd (fault_of_scan hscan) h
  | some f =>
    refine ⟨f, ?_, ?_⟩
    · unfold split statements
      rw [show src.scan = ⟨src.scan.tokens, some f⟩ by rw [← hscan]]
      rfl
    · unfold parse read
      rw [show src.scan = ⟨src.scan.tokens, some f⟩ by rw [← hscan]]

/-- A source is split without an error if nothing is wrong with it, and only then. -/
theorem split_eq_ok_iff :
    (∃ texts, src.split = .ok texts) ↔ src.fault = none ∧ Verdict src.body none := by
  by_cases hfault : src.fault = none
  · obtain ⟨r, hverdict, hsplit, -⟩ := explains_split hfault
    rw [hsplit.exists_ok_iff]
    constructor
    · rintro rfl
      exact ⟨hfault, hverdict⟩
    · intro h
      exact hverdict.unique h.2
  · obtain ⟨f, hsplit, -⟩ := split_of_fault hfault
    rw [hsplit]
    exact iff_of_false (by simp) fun h => hfault h.1

/-- A source that is no command is incomplete if all that is wrong is its end. -/
theorem isIncomplete_iff (h : (Text.trimStart (src.mark ++ src.chars)).head? ≠ some ':') :
    src.isIncomplete = true ↔ src.fault = none ∧ Verdict src.body (some .unexpectedEnd) := by
  have hcommand : src.isCommand = false := by
    rw [isCommand_eq]
    exact decide_eq_false h
  unfold isIncomplete
  rw [hcommand]
  by_cases hfault : src.fault = none
  · obtain ⟨r, hverdict, hsplit, -⟩ := explains_split hfault
    generalize src.split = result at hsplit
    cases hsplit with
    | ok texts =>
      refine iff_of_false (by simp) fun h => ?_
      cases hverdict.unique h.2
    | error t reason note =>
      show (Growth.errorAt t reason note).isBecause .unexpectedEnd = true ↔ _
      rw [Growth.isBecause_errorAt]
      constructor
      · rintro rfl
        exact ⟨hfault, hverdict⟩
      · intro h
        exact Option.some.inj (hverdict.unique h.2)
  · obtain ⟨f, hsplit, -⟩ := split_of_fault hfault
    rw [hsplit]
    refine iff_of_false ?_ fun h => hfault h.1
    simp [ScanFailure.toError, Error.isBecause, Error.chain]

end Source

namespace Input

/-- **Only an early end can be mended below a text.** -/
theorem unclosed_of_completed {bytes more : ByteArray} {e : Error} {texts : List String}
    (hfails : (ofBytes bytes).source.split = .error e)
    (hmended : ((ofBytes bytes).above (ofBytes more)).source.split = .ok texts) :
    (ofBytes bytes).source.fault = none
      ∧ Verdict (ofBytes bytes).source.body (some .unexpectedEnd) := by
  obtain ⟨hwhole, hbalanced⟩ := Source.split_eq_ok_iff.1 ⟨texts, hmended⟩
  obtain ⟨hfault, hprefix⟩ := prefix_body_above hwhole
  refine ⟨hfault, ?_⟩
  obtain ⟨r, hverdict, -⟩ := Source.explains_split hfault
  cases hverdict with
  | balanced hcovered hcounts =>
    -- nothing was wrong in the first place
    obtain ⟨xs, hxs⟩ := Source.split_eq_ok_iff.2 ⟨hfault, .balanced hcovered hcounts⟩
    rw [hxs] at hfails
    cases hfails
  | unopened hnot =>
    -- what closes too much in the text does so in the longer one
    cases hbalanced with
    | balanced hcovered _ => exact absurd (hcovered.of_prefix hprefix) hnot
  | unclosed hcovered hlt => exact .unclosed hcovered hlt

/-- **An early end is mended by the parentheses that are missing.** -/
theorem exists_completed {src : Input} (hfault : src.source.fault = none)
    (h : Verdict src.source.body (some .unexpectedEnd)) :
    ∃ d texts, (src.closedBy d).source.split = .ok texts := by
  cases h with
  | unclosed hcovered _ =>
    obtain ⟨g, hg, -⟩ :=
      Source.grown_of_read hfault ((Source.error_read_eq_none_iff hfault).2 hcovered)
    have hclosed := (body_closedBy hfault g.pending.length).1
    obtain ⟨r, hverdict, -, hexplains⟩ := Source.explains_split hclosed
    rw [parse_closedBy hfault hg] at hexplains
    cases hexplains with
    | ok _ => exact ⟨_, Source.split_eq_ok_iff.2 ⟨hclosed, hverdict⟩⟩

end Input

/-- How a text is judged by the reader of statements, by the reader of trees and at the
prompt. -/
structure Input.Judgements (src : Input) : Prop where
  /-- It is split into statements if it has a tree, and only then. -/
  accepted_iff : (∃ texts, src.source.split = .ok texts) ↔ ∃ root, src.source.parse = .ok root
  /-- Otherwise both fail for the same reason: it cannot be cut into tokens, it closes what is
  not open, or it ends too early. -/
  cause_eq : ∀ e e', src.source.split = .error e → src.source.parse = .error e' →
    e.cause = e'.cause
      ∧ ((∃ f, e.cause = some (.unscannable f)) ∨ e.cause = some (.because .unbalanced)
        ∨ e.cause = some (.because .unexpectedEnd))
  /-- Unless it is a command, it is incomplete if it is refused and some text on the line below
  completes it. -/
  incomplete_iff : (Text.trimStart (src.source.mark ++ src.source.chars)).head? ≠ some ':' →
    (src.source.isIncomplete = true ↔ (∃ e, src.source.split = .error e)
      ∧ ∃ (more : String) (texts : List String),
        (src.above (.ofString more)).source.split = .ok texts)
  /-- If it is refused and not incomplete, no bytes on the line below complete it. -/
  hopeless : (Text.trimStart (src.source.mark ++ src.source.chars)).head? ≠ some ':' →
    src.source.isIncomplete = false → (∃ e, src.source.split = .error e) →
    ∀ more : ByteArray, ∃ e, (src.above (.ofBytes more)).source.split = .error e

/-- **Reader, parser and prompt agree.**  Whatever the bytes of a text are, splitting it into
statements and growing its tree succeed together or fail for the same reason, and the prompt
asks for another line exactly when some continuation completes the text. -/
theorem reader_parser_prompt_agree (bytes : ByteArray) : (Input.ofBytes bytes).Judgements := by
  exact {
    accepted_iff := by
      by_cases hfault : (Input.ofBytes bytes).source.fault = none
      · obtain ⟨r, -, hsplit, hparse⟩ := Source.explains_split hfault
        rw [hsplit.exists_ok_iff, hparse.exists_ok_iff]
      · obtain ⟨f, hsplit, hparse⟩ := Source.split_of_fault hfault
        rw [hsplit, hparse]
        simp
    cause_eq := by
      intro e e' hsplit hparse
      by_cases hfault : (Input.ofBytes bytes).source.fault = none
      · obtain ⟨r, hverdict, hsplit', hparse'⟩ := Source.explains_split hfault
        rw [hsplit] at hsplit'
        rw [hparse] at hparse'
        rw [hsplit'.cause_eq, hparse'.cause_eq]
        cases hverdict with
        | balanced _ _ => cases hsplit'
        | unopened _ => exact ⟨rfl, .inr (.inl rfl)⟩
        | unclosed _ _ => exact ⟨rfl, .inr (.inr rfl)⟩
      · obtain ⟨f, hsplit', hparse'⟩ := Source.split_of_fault hfault
        rw [hsplit'] at hsplit
        rw [hparse'] at hparse
        cases hsplit
        cases hparse
        exact ⟨rfl, .inl ⟨f, rfl⟩⟩
    incomplete_iff := by
      intro hcolon
      rw [Source.isIncomplete_iff hcolon]
      constructor
      · rintro ⟨hfault, hverdict⟩
        obtain ⟨d, texts, hmended⟩ := Input.exists_completed hfault hverdict
        refine ⟨?_, _, texts, hmended⟩
        obtain ⟨r, hverdict', hsplit, -⟩ := Source.explains_split hfault
        cases hverdict.unique hverdict'
        generalize (Input.ofBytes bytes).source.split = result at hsplit
        cases hsplit with
        | error t reason note => exact ⟨_, rfl⟩
      · rintro ⟨⟨e, hfails⟩, more, texts, hmended⟩
        exact Input.unclosed_of_completed hfails hmended
    hopeless := by
      intro hcolon hcomplete hfails more
      obtain ⟨e, hfails⟩ := hfails
      cases hmended : ((Input.ofBytes bytes).above (.ofBytes more)).source.split with
      | error e => exact ⟨e, rfl⟩
      | ok texts =>
        have hincomplete :=
          (Source.isIncomplete_iff hcolon).2 (Input.unclosed_of_completed hfails hmended)
        rw [hcomplete] at hincomplete
        cases hincomplete }

/-- What would close the expression stands in a comment, so more is asked for; a parenthesis
before it would have left no hope. -/
theorem reader_parser_prompt_agree_comment :
    let src := Input.ofBytes "(a ; )".toUTF8
    let stray := Input.ofBytes ")(a ; )".toUTF8
    (∃ (more : String) (texts : List String),
        (src.above (.ofString more)).source.split = .ok texts)
      ∧ ∀ more : ByteArray, ∃ e, (stray.above (.ofBytes more)).source.split = .error e := by
  intro src stray
  have hsrc := reader_parser_prompt_agree "(a ; )".toUTF8
  have hstray := reader_parser_prompt_agree ")(a ; )".toUTF8
  have hfails : ∃ e, stray.source.split = .error e :=
    ⟨.located ⟨1, 1⟩ (.because .unbalanced) "unexpected )", by decide +kernel⟩
  refine ⟨((hsrc.incomplete_iff (by decide +kernel)).1 (by decide +kernel)).2, ?_⟩
  exact hstray.hopeless (by decide +kernel) (by decide +kernel) hfails

end IntLisp
