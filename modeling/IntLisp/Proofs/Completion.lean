/-
  IntLisp.Proofs.Completion
  ─────────────────────────
  **CLOSING WHAT IS OPEN COMPLETES A TEXT.**

  A tree can be read strictly, or with every expression closed that is open
  at the end of the text.  The two ways build the same tree, token by token,
  and only disagree about the end (`Growth.root_grow_autoClose`).  So:

    • the tree with all expressions closed is the tree of the text with the
      missing parentheses on a line below it, where no comment can hide them,
    • what is left behind by a strict reading that ends too early is that
      tree too,
    • what is left behind at a parenthesis that closes nothing is the tree of
      the text before it.

  Closing the innermost expression does not change the tree that closing all
  of them gives (`Growth.root_leave`), and that is all that the first needs.
-/
import IntLisp.Proofs.Recovery

namespace IntLisp

open Token

/-! ## §1. Closing one expression after the other. -/

namespace Growth

variable {g g' : Growth}

/-- The two ways of reading build the same tree. -/
theorem root_grow_autoClose (g : Growth) (ts : List Token) :
    (g.grow true ts).root = (g.grow false ts).root := by
  induction ts generalizing g with
  | nil =>
    show (g.finish true).root = (g.finish false).root
    unfold finish
    cases g.pending <;> rfl
  | cons t ts ih =>
    rw [grow_cons, grow_cons]
    cases t.kind with
    | opening | newline | separator | comment | word => exact ih _
    | closing =>
      cases hleave : g.leave? with
      | none => rfl
      | some g' => exact ih g'
    | finish =>
      show (g.finish true).root = (g.finish false).root
      unfold finish
      cases g.pending <;> rfl
    | other code => rfl

theorem finish_autoClose (g : Growth) : g.finish true = ⟨g.root, none⟩ := by
  unfold finish
  cases g.pending <;> rfl

/-- All that a text can miss at its end is a parenthesis. -/
theorem isBecause_finish {autoClose : Bool} {e : Error} {reason : Reason}
    (h : (g.finish autoClose).error = some e) (hbecause : e.isBecause reason = true) :
    reason = .unexpectedEnd := by
  unfold finish at h
  cases hpending : g.pending with
  | nil =>
    rw [hpending] at h
    cases h
  | cons innermost es =>
    rw [hpending] at h
    cases autoClose with
    | true => cases h
    | false =>
      cases h
      exact (isBecause_errorAt.1 hbecause).symm

/-- Closing the innermost expression is part of closing all of them. -/
theorem root_leave (h : g.leave? = some g') : g'.root = g.root := by
  obtain ⟨pending, newest⟩ := g
  cases pending with
  | nil => cases h
  | cons e es =>
    cases h
    -- the closed expression is added where the one around it would have added it
    cases es with
    | nil => rfl
    | cons e' es => rfl

theorem length_pending_leave (h : g.leave? = some g') :
    g.pending.length = g'.pending.length + 1 := by
  obtain ⟨pending, newest⟩ := g
  cases pending with
  | nil => cases h
  | cons e es =>
    cases h
    cases es with
    | nil => rfl
    | cons e' es => rfl

end Growth

namespace Grown

variable {ts us : List Token} {g : Growth}

/-- **Closing each open expression in turn spells the tree with all of them closed.** -/
theorem reads_closed (h : Grown ts g) (hus : ∀ u ∈ us, u.kind = .closing)
    (hlength : us.length = g.pending.length) :
    ∃ ns, Reads (ts ++ us) ns ∧ g.root = .list none ns := by
  induction us generalizing ts g with
  | nil =>
    cases h with
    | outside h => exact ⟨_, by rwa [List.append_nil], rfl⟩
    | inside _ _ _ => cases hlength
  | cons u us ih =>
    have hu : u.kind = .closing := hus u (.head us)
    cases hleave : g.leave? with
    | none =>
      rw [Growth.leave?_eq_none_iff.1 hleave] at hlength
      cases hlength
    | some g' =>
      have hpending := Growth.length_pending_leave hleave
      rw [List.length_cons] at hlength
      obtain ⟨ns, hns, hroot⟩ :=
        ih (h.leave hu hleave) (fun u hu => hus u (.tail _ hu)) (by omega)
      refine ⟨ns, ?_, ?_⟩
      · rwa [List.append_assoc] at hns
      · rw [← Growth.root_leave hleave, hroot]

end Grown

/-! ## §2. Reading a source in either way. -/

namespace Source

variable {src : Source}

/-- **A source without a fault is grown to its end, or up to a parenthesis that closes
nothing.** -/
theorem read_cases (h : src.fault = none) (autoClose : Bool) :
    (∃ g, Grown src.body g ∧ src.read autoClose = g.finish autoClose)
      ∨ ∃ before u after g, src.body = before ++ u :: after ∧ u.kind = .closing
          ∧ Grown before g ∧ g.pending = []
          ∧ src.read autoClose
            = ⟨g.root, some (Growth.errorAt u .unbalanced "unexpected )")⟩ := by
  obtain ⟨e, he, hscan⟩ := scan_eq_body h
  have hread : src.read autoClose = Growth.empty.grow autoClose (src.body ++ [e]) := by
    simp only [read, hscan]
  rw [hread]
  exact Grown.empty.grow_cases he autoClose fun t ht => exists_kind_eq ht

theorem root_read_autoClose (src : Source) : (src.read true).root = (src.read false).root := by
  unfold read
  rcases src.scan with ⟨tokens, _ | failure⟩
  · exact Growth.root_grow_autoClose _ tokens
  · rfl

theorem covered_tokens_iff (h : src.fault = none) :
    Covered 0 src.scan.tokens ↔ Covered 0 src.body := by
  obtain ⟨e, he, hscan⟩ := scan_eq_body h
  rw [hscan]
  refine ⟨fun hc => hc.of_prefix (List.prefix_append _ _), fun hc => ?_⟩
  have hend : Covered 0 [e] := by
    rw [covered_plain (by simp [he]) (by simp [he])]
    exact covered_nil 0
  exact Covered.append hc hend

end Source

/-! ## §3. The completed text, and the text before a token. -/

/-- Nothing goes on with a parenthesis, not even another one. -/
theorem Token.lexemes_closings (d : Nat) :
    lexemes (List.replicate d ')') = List.replicate d [')'] := by
  have hclosing : Kind.ofChar ')' = .closing := rfl
  induction d with
  | zero => exact lexemes_nil
  | succ d ih =>
    have hstop : ∀ x, (List.replicate d ')').head? = some x →
        (Kind.ofChar ')').continues x = false := by
      intro x _
      rw [hclosing]
      rfl
    have hcons : lexemes ([')'] ++ List.replicate d ')')
        = [')'] :: lexemes (List.replicate d ')') :=
      lexemes_cons_append (fun x hx => by cases hx) hstop
    rw [List.replicate_succ, List.replicate_succ, ← ih]
    exact hcons

namespace Input

variable {a : Input} {before after : List Token} {u : Token}

/-- The text with `d` closing parentheses on a line below it. -/
def closedBy (a : Input) (d : Nat) : Input :=
  a.above (.ofString (String.ofList (List.replicate d ')')))

/-- The text before the byte `i`. -/
def upTo (a : Input) (i : Nat) : Input := ⟨a.bytes.extract 0 i, none⟩

/-- **The tokens of the completed text**: those of the text, a newline and parentheses. -/
theorem body_closedBy (ha : a.source.fault = none) (d : Nat) :
    (a.closedBy d).source.fault = none
      ∧ ∃ newline us, (a.closedBy d).source.body = a.source.body ++ newline :: us
        ∧ newline.kind = .newline ∧ us.length = d ∧ ∀ u ∈ us, u.kind = .closing := by
  have hnul : '\x00' ∉ List.replicate d ')' := by
    intro hmem
    cases List.eq_of_mem_replicate hmem
  have hmark : Source.isMarked (List.replicate d ')') = false := by
    cases d <;> rfl
  have hsource : (ofString (String.ofList (List.replicate d ')'))).source
      = ⟨false, List.replicate d ')', none⟩ := by
    rw [source_ofString, Source.ofString_unmarked (by rwa [String.toList_ofList])
      (by rwa [String.toList_ofList]), String.toList_ofList]
  have hfault : (a.closedBy d).source.fault = none := by
    rw [closedBy, source_above ha (by rw [hsource]) (by rw [hsource])]
  refine ⟨hfault, ?_⟩
  obtain ⟨newline, bytes, hnewline, hbody⟩ :=
    body_above (a := a) (b := ofString (String.ofList (List.replicate d ')'))) ha
      (by rw [hsource]) (by rw [hsource])
  refine ⟨newline, _, hbody, (Token.content_eq_iff (u := ⟨.newline, "\n", 0, .start⟩)).1 hnewline |>.1,
    ?_, ?_⟩
  · rw [List.length_map, hsource, Source.body, length_placed, lexemes_closings,
      List.length_replicate]
  · intro u hu
    obtain ⟨t, ht, rfl⟩ := List.mem_map.1 hu
    rw [hsource, Source.body, lexemes_closings] at ht
    obtain ⟨hlexeme, hkind⟩ := kind_of_mem_placed ht
    rw [kind_moved, hkind, List.eq_of_mem_replicate hlexeme]
    rfl

/-- **The completed text has the tree with all expressions closed.** -/
theorem parse_closedBy (ha : a.source.fault = none) {g : Growth} (hg : Grown a.source.body g) :
    (a.closedBy g.pending.length).source.parse = .ok g.root := by
  obtain ⟨hfault, newline, us, hbody, hnewline, hlength, hclosing⟩ :=
    body_closedBy ha g.pending.length
  have hblank : newline.kind.isBlank = true := by rw [hnewline]; rfl
  obtain ⟨ns, hns, hroot⟩ := (hg.blanks (.blank hblank .nil)).reads_closed hclosing hlength
  rw [List.append_assoc] at hns
  exact Source.parse_eq_ok_iff.2 ⟨hfault, ns, hroot, hbody ▸ hns⟩

/-- The characters of the text before a token. -/
theorem source_upTo (ha : a.source.fault = none) (h : a.source.body = before ++ u :: after) :
    (a.upTo u.offset).source = ⟨a.source.marked, (spelling before).toList, none⟩ := by
  obtain ⟨-, hnul, hbytes⟩ := bytes_of_fault ha
  have hchars : a.source.chars = (spelling before).toList ++ (spelling (u :: after)).toList := by
    rw [← Source.toList_spelling_body, h, spelling_append, String.toList_append]
  have hne : a.source.chars ≠ [] := Source.chars_ne_nil_of_body (by simp [h])
  -- the offset of the token counts the mark and the characters before it
  have hupTo : a.upTo u.offset
      = ofString (String.ofList (a.source.mark ++ (spelling before).toList)) := by
    have hsplit : a.bytes = (a.source.mark ++ (spelling before).toList).utf8Encode
        ++ (spelling (u :: after)).toList.utf8Encode := by
      rw [hbytes, hchars, List.utf8Encode_append, List.utf8Encode_append, ByteArray.append_assoc]
    have hoffset : u.offset = (a.source.mark ++ (spelling before).toList).utf8Encode.size := by
      rw [Token.offset_of_placed h, Source.firstOffset_eq hne, List.utf8Encode_append,
        ByteArray.size_append, String.utf8Encode_toList]
      rfl
    rw [upTo, hsplit, ByteArray.extract_append_eq_left hoffset]
    rfl
  have hnul' : '\x00' ∉ a.source.mark ++ (spelling before).toList := by
    intro hmem
    rcases List.mem_append.1 hmem with hmark | hbefore
    · exact a.source.nul_not_mem_mark hmark
    · exact hnul (hchars ▸ List.mem_append_left _ hbefore)
  have hmarked : a.source.marked = false →
      Source.isMarked (spelling before).toList = false := by
    intro hmarked
    have hhead := isMarked_chars ha hmarked
    rw [hchars] at hhead
    cases hcs : (spelling before).toList with
    | nil => rfl
    | cons c cs =>
      rw [hcs] at hhead
      exact hhead
  obtain ⟨his, hdrop⟩ := Source.dropMark_mark_append hmarked
  rw [hupTo, source_ofString, Source.ofString_eq (by rwa [String.toList_ofList]),
    String.toList_ofList, his, hdrop]

/-- **The tokens of the text before a token** are those before it. -/
theorem body_upTo (ha : a.source.fault = none) (h : a.source.body = before ++ u :: after) :
    (a.upTo u.offset).source.body = before := by
  have hlexed : Lexed (before.map lexeme) := by
    have hall := lexed_lexemes a.source.chars
    rw [← Source.map_lexeme_body, h, List.map_append] at hall
    exact hall.left
  have hlexemes : lexemes (spelling before).toList = before.map lexeme := by
    rw [toList_spelling, hlexed.lexemes_flatten]
  have hplaced : before = placed a.source.firstOffset .start (before.map lexeme) :=
    (placed_eq_append h).1
  rw [source_upTo ha h, Source.body, hlexemes]
  by_cases hbefore : before = []
  · -- a mark with nothing behind it counts for no offset, but then there is no token
    subst hbefore
    rfl
  · have hcs : (spelling before).toList ≠ [] := by
      intro hnil
      rw [hnil, lexemes_nil] at hlexemes
      exact hbefore (List.map_eq_nil_iff.1 hlexemes.symm)
    have hne : a.source.chars ≠ [] := Source.chars_ne_nil_of_body (by simp [h])
    have hoffset : Source.firstOffset ⟨a.source.marked, (spelling before).toList, none⟩
        = a.source.firstOffset := by
      simp [Source.firstOffset, hcs, hne]
    rw [hoffset]
    exact hplaced.symm

/-- A tree without open expressions is spelled by the text that it has grown by. -/
theorem parse_grown {g : Growth} (ha : a.source.fault = none) (hg : Grown a.source.body g)
    (hpending : g.pending = []) : a.source.parse = .ok g.root := by
  have hclosed : ∃ ns, Reads (a.source.body ++ []) ns ∧ g.root = .list none ns :=
    hg.reads_closed (fun u hu => by cases hu) (by rw [hpending]; rfl)
  obtain ⟨ns, hns, hroot⟩ := hclosed
  rw [List.append_nil] at hns
  exact Source.parse_eq_ok_iff.2 ⟨ha, ns, hroot, hns⟩

end Input

/-! ## §4. Completion. -/

/-- How many parentheses the tokens leave open. -/
def Token.leftOpen (ts : List Token) : Nat := openings ts - closings ts

namespace Source

variable {src : Source}

theorem leftOpen_tokens {g : Growth} (h : src.fault = none) (hg : Grown src.body g) :
    leftOpen src.scan.tokens = g.pending.length := by
  obtain ⟨e, he, hscan⟩ := scan_eq_body h
  have hcounts := hg.counts
  rw [hscan]
  simp [leftOpen, openings_cons, closings_cons, he]
  omega

/-- A text that can be completed is grown to its end. -/
theorem grown_of_read (h : src.fault = none) (herror : (src.read true).error = none) :
    ∃ g, Grown src.body g ∧ src.read true = ⟨g.root, none⟩ := by
  rcases read_cases h true with ⟨g, hg, hread⟩ | ⟨before, u, after, g, -, -, -, -, hread⟩
  · exact ⟨g, hg, by rw [hread, Growth.finish_autoClose]⟩
  · rw [hread] at herror
    cases herror

/-- A parenthesis that closes nothing is the only thing that cannot be completed. -/
theorem error_read_eq_none_iff (h : src.fault = none) :
    (src.read true).error = none ↔ Covered 0 src.body := by
  rcases read_cases h true with ⟨g, hg, hread⟩ | ⟨before, u, after, g, hbody, hu, hg, hpending, hread⟩
  · rw [hread, Growth.finish_autoClose]
    exact iff_of_true rfl hg.covered
  · rw [hread, hbody]
    exact iff_of_false (by simp) (hg.firstUnopened hpending hu).not_covered

end Source

/-- What closing all open expressions at the end of a text does. -/
structure Input.Completes (src : Input) : Prop where
  /-- It succeeds if no beginning of the text closes more than it opens, and only then. -/
  succeeds_iff : (src.source.read true).error = none ↔ Covered 0 src.source.scan.tokens
  /-- The tree is that of the text with the missing parentheses on a line below it. -/
  completed : (src.source.read true).error = none →
    (src.closedBy (leftOpen src.source.scan.tokens)).source.parse
      = .ok (src.source.read true).root
  /-- Where none is missing, it is that of the text itself. -/
  balanced : (src.source.read true).error = none → leftOpen src.source.scan.tokens = 0 →
    src.source.parse = .ok (src.source.read true).root
  /-- A strict reading that ends too early leaves the same tree behind. -/
  tooEarly : ∀ e, (src.source.read false).error = some e → e.isBecause .unexpectedEnd = true →
    (src.source.read true).error = none ∧ (src.source.read false).root = (src.source.read true).root
  /-- At a parenthesis that closes nothing, the tree of the text before it is left behind. -/
  unopened : ∀ autoClose e, (src.source.read autoClose).error = some e →
    e.isBecause .unbalanced = true →
    ∃ u, FirstUnopened src.source.scan.tokens u
      ∧ e = Growth.errorAt u .unbalanced "unexpected )"
      ∧ (src.upTo u.offset).source.parse = .ok (src.source.read autoClose).root

/-- **Auto-close is completion.**  Reading a text that can be cut into tokens, with all
expressions closed that are open at its end, reads the text completed by the parentheses that
are missing. -/
theorem auto_close_completes (src : Input) (h : src.source.scan.failure = none) :
    src.Completes := by
  have hfault := Source.fault_of_scan h
  exact {
    succeeds_iff := by
      rw [Source.covered_tokens_iff hfault, Source.error_read_eq_none_iff hfault]
    completed := by
      intro herror
      obtain ⟨g, hg, hread⟩ := Source.grown_of_read hfault herror
      rw [Source.leftOpen_tokens hfault hg, hread]
      exact Input.parse_closedBy hfault hg
    balanced := by
      intro herror hnone
      obtain ⟨g, hg, hread⟩ := Source.grown_of_read hfault herror
      rw [Source.leftOpen_tokens hfault hg] at hnone
      rw [hread]
      exact Input.parse_grown hfault hg (List.length_eq_zero_iff.1 hnone)
    tooEarly := by
      intro e herror hbecause
      refine ⟨?_, src.source.root_read_autoClose.symm⟩
      rw [Source.error_read_eq_none_iff hfault]
      rcases Source.read_cases hfault false with
        ⟨g, hg, -⟩ | ⟨before, u, after, g, -, -, -, -, hread⟩
      · exact hg.covered
      · -- this error has another reason
        rw [hread] at herror
        cases herror
        cases Growth.isBecause_errorAt.1 hbecause
    unopened := by
      intro autoClose e herror hbecause
      rcases Source.read_cases hfault autoClose with
        ⟨g, -, hread⟩ | ⟨before, u, after, g, hbody, hu, hg, hpending, hread⟩
      · rw [hread] at herror
        cases Growth.isBecause_finish herror hbecause
      · rw [hread] at herror
        cases herror
        obtain ⟨e, -, hscan⟩ := Source.scan_eq_body hfault
        refine ⟨u, ?_, rfl, ?_⟩
        · rw [hscan, hbody, List.append_assoc]
          exact hg.firstUnopened hpending hu
        · have hupTo := Input.body_upTo hfault hbody
          rw [hread]
          refine Input.parse_grown ?_ (by rwa [hupTo]) hpending
          rw [Input.source_upTo hfault hbody] }

/-- The parenthesis that could close one of the two open expressions stands in a comment. -/
theorem auto_close_completes_comment :
    let src := Input.ofString "\uFEFF(a (b ; )"
    src.source.scan.failure = none ∧ src.Completes ∧ leftOpen src.source.scan.tokens = 2
      ∧ (src.closedBy 2).source.parse = .ok (src.source.read true).root := by
  intro src
  have h : src.source.scan.failure = none := by decide +kernel
  have hopen : leftOpen src.source.scan.tokens = 2 := by decide +kernel
  have herror : (src.source.read true).error = none := by decide +kernel
  have hcompletes := auto_close_completes src h
  refine ⟨h, hcompletes, hopen, ?_⟩
  rw [← hopen]
  exact hcompletes.completed herror

end IntLisp
