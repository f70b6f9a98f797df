/-
  IntLisp.Proofs.Idempotence
  ──────────────────────────
  **CANONICAL TEXTS, MADE CANONICAL AGAIN.**

  A canonical text is a text like any other, and has a canonical text itself.
  It is the same text, of a node of the same kind:

      n.encode does not begin with U+FEFF  ↔  canonicalize n.encode = .ok n.encode

  The exception is the first character of a text, which is dropped if it is a
  byte order mark, while a mark anywhere else belongs to a word.  Only a name
  can begin with one.  Written alone, such a name is read again as what
  follows the mark: as another name, as a number, or as nothing at all.
-/
import IntLisp.Proofs.Meaning
import IntLisp.Proofs.Words

namespace IntLisp

/-! ## §1. What a canonical text begins with. -/

/-- No numeral begins with a byte order mark. -/
theorem Text.head?_decimal_ne_mark (z : Int) : (decimal z).toList.head? ≠ some byteOrderMark := by
  intro h
  exact ((isNumeral_decimal z).isTight.head _ h).2 rfl

namespace Node

/-- Only the canonical text of a name begins with a byte order mark. -/
theorem eq_symbol_of_marked {n : Node} (h : n.IsSpellable)
    (hmark : n.encode.toList.head? = some byteOrderMark) : ∃ token, n = .symbol token n.encode := by
  cases n with
  | int _ z => exact absurd hmark (Text.head?_decimal_ne_mark z)
  | symbol token name => exact ⟨token, rfl⟩
  | expression _ children =>
    rw [← flatten_pieces, pieces] at hmark
    cases hmark
  | list _ _ => simp [IsSpellable] at h
  | foreign _ _ _ => simp [IsSpellable] at h

/-- A leaf is not written with a mark before its word. -/
theorem encode_ofWord_ne_marked (t : Token) : (ofWord t).encode ≠ "\uFEFF" ++ t.text := by
  intro h
  unfold ofWord at h
  split at h
  · next z _ =>
    refine Text.head?_decimal_ne_mark z ?_
    rw [encode] at h
    rw [h, String.toList_append]
    rfl
  · rw [encode] at h
    have hlength := congrArg String.length h
    simp at hlength

theorem kindName_bare (n : Node) : n.bare.kindName = n.kindName := by
  cases n <;> rfl

end Node

/-! ## §2. Reading a canonical text again. -/

/-- The canonical text of what was read is read as the rest of it behind a mark. -/
theorem Input.parseStatement_marked {rest : String} (h : Text.IsWord ("\uFEFF" ++ rest)) :
    (rest = "" → (ofString ("\uFEFF" ++ rest)).source.parseStatement
        = .error (.located .start (.because .emptyStatement) ""))
      ∧ (rest ≠ "" → ∃ t, t.text = rest
          ∧ (ofString ("\uFEFF" ++ rest)).source.parseStatement = .ok (.ofWord t)) := by
  have htoList : ("\uFEFF" ++ rest).toList = byteOrderMark :: rest.toList := by
    rw [String.toList_append]
    rfl
  have hsource : (ofString ("\uFEFF" ++ rest)).source = ⟨true, rest.toList, none⟩ := by
    rw [source_ofString, Source.ofString_eq h.nul_not_mem, htoList]
    rfl
  rw [hsource]
  refine ⟨?_, fun hne => ?_⟩
  · rintro rfl
    exact Source.parseStatement_nil true
  · have hword : Text.IsWord rest := by
      refine ⟨hne, fun c hc => h.not_reserved c ?_⟩
      rw [htoList]
      exact .tail _ hc
    obtain ⟨offset, hparse⟩ := Source.parseStatement_word true hword.toList
    rw [String.ofList_toList] at hparse
    exact ⟨_, rfl, hparse⟩

/-- How the canonical text `text` of the node `n` is read again. -/
structure Node.ReadAgain (n : Node) (text : String) : Prop where
  /-- It is canonical exactly if it does not begin with a mark. -/
  same_iff : (Input.ofString text).source.canonicalize = .ok text
    ↔ text.toList.head? ≠ some '\uFEFF'
  /-- And then it is a node of the same kind. -/
  kind_eq : text.toList.head? ≠ some '\uFEFF' →
    ∃ m, (Input.ofString text).source.parseStatement = .ok m ∧ m.kindName = n.kindName
  /-- A text that begins with a mark is a name, and it is read as what stands behind the mark. -/
  marked : ∀ rest, text = "\uFEFF" ++ rest → (∃ token, n = .symbol token text)
    ∧ (rest = "" → (Input.ofString text).source.parseStatement
        = .error (.located .start (.because .emptyStatement) ""))
    ∧ (rest ≠ "" → ∃ t, t.text = rest
        ∧ (Input.ofString text).source.parseStatement = .ok (.ofWord t))

namespace Input

variable {stmt : Input} {n : Node}

theorem canonicalize_encode (h : stmt.source.parseStatement = .ok n)
    (hmark : n.encode.toList.head? ≠ some '\uFEFF') :
    (ofString n.encode).source.canonicalize = .ok n.encode
      ∧ ∃ m, (ofString n.encode).source.parseStatement = .ok m ∧ m.kindName = n.kindName := by
  obtain ⟨m, hm, hbare⟩ := parseStatement_encode h hmark
  refine ⟨?_, m, hm, ?_⟩
  · rw [Source.canonicalize_of_ok hm, ← m.encode_bare, hbare, n.encode_bare]
  · rw [← m.kindName_bare, hbare, n.kindName_bare]

theorem symbol_of_marked {rest : String} (h : stmt.source.parseStatement = .ok n)
    (hrest : n.encode = "\uFEFF" ++ rest) :
    (∃ token, n = .symbol token n.encode) ∧ Text.IsWord ("\uFEFF" ++ rest) := by
  have hspellable := isSpellable_of_parseStatement h
  have hmark : n.encode.toList.head? = some byteOrderMark := by
    rw [hrest, String.toList_append]
    rfl
  obtain ⟨token, hsymbol⟩ := Node.eq_symbol_of_marked hspellable hmark
  rw [hsymbol, Node.IsSpellable, hrest] at hspellable
  exact ⟨⟨token, hsymbol⟩, hspellable.toIsWord⟩

/-- A canonical text that begins with a mark is not canonical itself. -/
theorem canonicalize_marked {rest : String} (h : Text.IsWord ("\uFEFF" ++ rest)) :
    (ofString ("\uFEFF" ++ rest)).source.canonicalize ≠ .ok ("\uFEFF" ++ rest) := by
  obtain ⟨hempty, hword⟩ := parseStatement_marked h
  by_cases hrest : rest = ""
  · rw [Source.canonicalize_of_error (hempty hrest)]
    simp
  · obtain ⟨t, ht, hparse⟩ := hword hrest
    rw [Source.canonicalize_of_ok hparse, ← ht]
    intro heq
    exact Node.encode_ofWord_ne_marked t (Except.ok.inj heq)

end Input

/-- **A canonical text is canonical, unless it begins with a byte order mark.**  If a statement
has a canonical text, that text is its own canonical text, and of a node of the same kind,
exactly if no mark leads it.  If one does, the statement is a name, and its canonical text is
read as what is left behind the mark. -/
theorem canonical_text_read_again (stmt : Input) (text : String)
    (h : stmt.source.canonicalize = .ok text) :
    ∃ n, stmt.source.parseStatement = .ok n ∧ n.ReadAgain text := by
  cases hparse : stmt.source.parseStatement with
  | error e =>
    rw [Source.canonicalize_of_error hparse] at h
    cases h
  | ok n =>
    rw [Source.canonicalize_of_ok hparse] at h
    cases h
    refine ⟨n, rfl, ⟨?_, ?_⟩, ?_, ?_⟩
    · intro hcanonical hmark
      -- the mark and what is left behind it make up the text
      obtain ⟨cs, hcs⟩ := List.head?_eq_some_iff.1 hmark
      have hrest : n.encode = "\uFEFF" ++ String.ofList cs :=
        String.toList_injective (by simp [hcs])
      have hword := (Input.symbol_of_marked hparse hrest).2
      rw [hrest] at hcanonical
      exact Input.canonicalize_marked hword hcanonical
    · intro hmark
      exact (Input.canonicalize_encode hparse hmark).1
    · intro hmark
      exact (Input.canonicalize_encode hparse hmark).2
    · intro rest hrest
      obtain ⟨hsymbol, hword⟩ := Input.symbol_of_marked hparse hrest
      refine ⟨hsymbol, ?_⟩
      rw [hrest]
      exact Input.parseStatement_marked hword

/-- A name with a mark in it, inside an expression with a comment. -/
theorem canonical_text_read_again_inside :
    let stmt := Input.ofString "( \uFEFF5 ;\n +07)"
    ∃ n, stmt.source.canonicalize = .ok "(\uFEFF5 7)" ∧ stmt.source.parseStatement = .ok n
      ∧ n.ReadAgain "(\uFEFF5 7)" := by
  intro stmt
  have h : stmt.source.canonicalize = .ok "(\uFEFF5 7)" := by
    rw [Input.source_ofString]
    decide +kernel
  obtain ⟨n, hparse, hagain⟩ := canonical_text_read_again stmt _ h
  exact ⟨n, h, hparse, hagain⟩

/-- Behind a space a mark makes a name of a digit.  The canonical text of the name has no space
before the mark, and its own canonical text is the number. -/
theorem canonical_text_loses_mark :
    let stmt := Input.ofString " \uFEFF5"
    let again := Input.ofString "\uFEFF5"
    stmt.source.canonicalize = .ok "\uFEFF5" ∧ again.source.canonicalize = .ok "5"
      ∧ Node.kindName <$> stmt.source.parseStatement = .ok "symbol"
      ∧ Node.kindName <$> again.source.parseStatement = .ok "int" := by
  intro stmt again
  rw [Input.source_ofString, Input.source_ofString]
  refine ⟨?_, ?_, ?_, ?_⟩ <;> decide +kernel

end IntLisp
