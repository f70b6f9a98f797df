/-
  IntLisp.Proofs.Interruption
  ───────────────────────────
  **WHAT IS LEFT OF A TEXT THAT CANNOT BE READ TO ITS END.**

  A text `p` is followed by a NUL, by a byte that begins no character, or by
  a failure of the input itself.  The reader meets this while it takes the
  last character of `p`, and two things follow for every `p`:

      tokens    those of `p` alone, less its end and less the last of them,
      position  that of the last character of `p`, not that of the fault.

  The first is as it should be: the last token of `p` might have gone on.
  The second is one character short, so that behind the end of a line even
  the line is wrong; only a fault that nothing precedes is reported where
  it is.
-/
import IntLisp.Proofs.Tiling

namespace IntLisp

/-! ## §1. Texts and the fault behind them. -/

/-- The input holds the text `p`, and behind it what no reader gets past. -/
inductive Input.Breaks (p : String) : Input → Fault → Prop where
  /-- A NUL, and then anything. -/
  | nul (rest : ByteArray) (failure : Option String) :
      Breaks p ⟨p.toUTF8 ++ "\x00".toUTF8 ++ rest, failure⟩ .nul
  /-- A byte that begins no character, and then anything up to the end of the input. -/
  | encoding {rest : ByteArray} (hne : rest ≠ .empty) (h : rest.utf8DecodeChar? 0 = none) :
      Breaks p ⟨p.toUTF8 ++ rest, none⟩ .encoding
  /-- A failure of the input. -/
  | input (reason : String) : Breaks p ⟨p.toUTF8, some reason⟩ (.input reason)

/-- Characters are read up to the first NUL. -/
theorem Source.ofChars_append_nul {cs : List Char} (hnul : '\x00' ∉ cs) (rest : List Char)
    (ending : Option Fault) :
    ofChars (cs ++ '\x00' :: rest) ending = ⟨isMarked cs, dropMark cs, some .nul⟩ := by
  obtain ⟨hmarked, hdrop⟩ := dropMark_append_cons (by decide : '\x00' ≠ byteOrderMark) cs rest
  have hhead := takeWhile_of_nul_not_mem (nul_not_mem_dropMark hnul)
  unfold ofChars
  rw [hmarked, hdrop, if_pos (by simp), List.takeWhile_append, hhead]
  simp

namespace Input

variable {p : String} {input : Input} {fault : Fault}

theorem decodeFrom_text (p : String) (rest : ByteArray) :
    decodeFrom (p.toUTF8 ++ rest) 0
      = (p.toList ++ (decodeFrom (p.toUTF8 ++ rest) p.toUTF8.size).1,
          (decodeFrom (p.toUTF8 ++ rest) p.toUTF8.size).2) := by
  have h := decodeFrom_behind ByteArray.empty p.toList rest
  rwa [ByteArray.empty_append, String.utf8Encode_toList] at h

/-- **All of the text is read, and then the fault is met.** -/
theorem Breaks.source_eq (h : input.Breaks p fault) (hnul : '\x00' ∉ p.toList) :
    input.source = ⟨Source.isMarked p.toList, Source.dropMark p.toList, some fault⟩ := by
  cases h with
  | nul rest failure =>
    -- the NUL is one more character of a text, whatever is behind it
    have hbytes : p.toUTF8 ++ "\x00".toUTF8 = (p ++ "\x00").toUTF8 :=
      String.toByteArray_append.symm
    have hlist : (p ++ "\x00").toList = p.toList ++ ['\x00'] := String.toList_append
    unfold source
    dsimp only
    rw [hbytes, decodeFrom_text, hlist, List.append_assoc]
    exact Source.ofChars_append_nul hnul _ _
  | @encoding rest hne h =>
    have hnone : (p.toUTF8 ++ rest).utf8DecodeChar? p.toUTF8.size = none := by
      rw [ByteArray.utf8DecodeChar?_eq_utf8DecodeChar?_extract,
        ByteArray.extract_append_eq_right rfl ByteArray.size_append, h]
    -- bytes are left over, and whether they are cut short does not matter at the end
    have htail : (p.toUTF8 ++ rest).data.toList.drop p.toUTF8.size ≠ [] := by
      have hpos : rest.size ≠ 0 := fun h0 => hne (ByteArray.size_eq_zero_iff.1 h0)
      have hsize : (p.toUTF8 ++ rest).data.toList.length = p.toUTF8.size + rest.size := by
        rw [Array.length_toList]
        exact ByteArray.size_append
      intro hnil
      have hle := List.drop_eq_nil_iff.1 hnil
      omega
    unfold source
    dsimp only
    rw [decodeFrom_text, decodeFrom_of_none hnone, List.append_nil, Source.ofChars_eq hnul,
      if_neg (by simpa using htail)]
    simp
  | input reason =>
    unfold source
    dsimp only
    rw [decodeFrom_toUTF8, Source.ofChars_eq hnul, if_pos]
    · rfl
    · rw [List.isEmpty_iff, List.drop_eq_nil_iff, Array.length_toList]
      exact Nat.le_refl _

end Input

/-! ## §2. Tokens before the fault. -/

namespace Source

open Token

variable {src : Source} {t : Token}

theorem utf8ByteSize_pos_of_mem_body (ht : t ∈ src.body) : 0 < t.text.utf8ByteSize := by
  obtain ⟨c, cs, hlexeme, -⟩ := (lexed_lexemes src.chars).exists_cons (kind_of_mem_placed ht).1
  rw [Nat.pos_iff_ne_zero, Ne, String.utf8ByteSize_eq_zero_iff]
  intro hempty
  rw [lexeme, hempty] at hlexeme
  cases hlexeme

/-- A token with another one behind it ends before the text does. -/
theorem finalOffset_lt_of_mem_dropLast (ht : t ∈ src.body.dropLast) :
    t.finalOffset < src.firstOffset + (String.ofList src.chars).utf8ByteSize := by
  obtain ⟨before, after, hsplit⟩ := List.append_of_mem ht
  have hne : src.body ≠ [] := fun hnil => by simp [hnil] at ht
  have hbody : src.body = before ++ t :: (after ++ [src.body.getLast hne]) := by
    rw [← List.cons_append, ← List.append_assoc, ← hsplit, List.dropLast_concat_getLast]
  have hlast := utf8ByteSize_pos_of_mem_body (List.getLast_mem hne)
  have hchars : String.ofList src.chars
      = spelling (before ++ [t]) ++ spelling after ++ (src.body.getLast hne).text := by
    rw [← toList_spelling_body, String.ofList_toList]
    nth_rewrite 1 [hbody]
    simp [spelling, String.append_assoc]
  rw [finalOffset_of_placed hbody, hchars, String.utf8ByteSize_append, String.utf8ByteSize_append]
  omega

end Source

/-- The scan `s` was stopped by `fault` behind the text `p`, whose tokens up to its end are `ts`. -/
structure Scan.StopsBehind (p : String) (ts : List Token) (fault : Fault) (s : Scan) : Prop where
  /-- The fault is reported in its own words. -/
  reports : ∃ failure place, s.failure = some failure ∧ failure.fault = fault
    ∧ failure.message = place ++ ": " ++ fault.message
  /-- The last token of the text is given up, and no other. -/
  tokens_eq : s.tokens = ts.dropLast
  /-- No token holds the fault or could go on with it. -/
  ends_before : ∀ t ∈ s.tokens, t.finalOffset < p.utf8ByteSize
  unfinished : ∀ t ∈ s.tokens, t.kind ≠ .finish

namespace Input

variable {p : String} {input : Input} {fault : Fault}

/-- **Of an interrupted text all tokens but the last are found.** -/
theorem Breaks.scan_eq (h : input.Breaks p fault) (hnul : '\x00' ∉ p.toList) :
    input.source.scan
      = ⟨(ofString p).source.body.dropLast,
          some ⟨Position.behind (Source.dropMark p.toList).dropLast, fault⟩⟩ := by
  rw [source_ofString, Source.ofString_eq hnul, Source.scan, h.source_eq hnul,
    Source.scanFrom_some, Position.advanceBy_start, Token.placed_dropLast]
  rfl

end Input

/-- **Tokens found before a fault.**  A text without NUL has tokens.  If behind it there is a NUL,
a byte that begins no character, or a failure of the input, the scan fails with just that fault,
and has found the tokens of the text but for the last of them and the end. -/
theorem tokens_before_fault {p : String} (hnul : '\x00' ∉ p.toList) {input : Input} {fault : Fault}
    (h : input.Breaks p fault) :
    ∃ ts e, (Input.ofString p).source.scan = ⟨ts ++ [e], none⟩ ∧ e.kind = .finish
      ∧ input.source.scan.StopsBehind p ts fault := by
  have hsource : (Input.ofString p).source
      = ⟨Source.isMarked p.toList, Source.dropMark p.toList, none⟩ := by
    rw [Input.source_ofString, Source.ofString_eq hnul]
  have hscan := h.scan_eq hnul
  have hfault : (Input.ofString p).source.fault = none := by
    rw [hsource]
  obtain ⟨e, he, hplain⟩ := Source.scan_eq_body hfault
  refine ⟨_, e, hplain, he, {
    reports := ⟨_, _, congrArg Scan.failure hscan, rfl, rfl⟩
    tokens_eq := congrArg Scan.tokens hscan
    ends_before := ?ends
    unfinished := ?unfinished }⟩
  case ends =>
    intro t ht
    rw [hscan] at ht
    have hlt := Source.finalOffset_lt_of_mem_dropLast ht
    have hlist : p.toList = (Input.ofString p).source.mark ++ (Input.ofString p).source.chars := by
      rw [hsource]
      exact (Source.mark_append_dropMark p.toList none).symm
    -- of a byte order mark alone nothing is left to be counted
    rw [Source.endOffset_eq hlist (by rw [hsource])] at hlt
    split at hlt
    · omega
    · exact hlt
  case unfinished =>
    intro t ht
    rw [hscan] at ht
    exact Source.kind_ne_finish ((List.dropLast_sublist _).subset ht)

/-- A word that the first half of a letter may go on with, behind a mark and a letter of two
bytes. -/
theorem tokens_before_fault_word :
    let p := "\uFEFF(é\n b"
    let input : Input := ⟨p.toUTF8 ++ ⟨#[0xC3, 0x28]⟩, none⟩
    '\x00' ∉ p.toList ∧ input.Breaks p .encoding
      ∧ input.source.scan.tokens.map Token.text = ["(", "é", "\n", " "]
      ∧ input.source.scan.failure.map ScanFailure.fault = some .encoding := by
  intro p input
  have hnul : '\x00' ∉ p.toList := by decide
  have hbreaks : input.Breaks p .encoding := .encoding (by decide) (by decide)
  obtain ⟨ts, e, hscan, -, hstops⟩ := tokens_before_fault hnul hbreaks
  obtain ⟨failure, place, hfailure, hfault, -⟩ := hstops.reports
  have htexts : (ts ++ [e]).map Token.text = ["(", "é", "\n", " ", "b", ""] := by
    have heq : ts ++ [e] = (Source.ofString p).scan.tokens := by
      rw [← Input.source_ofString, hscan]
    rw [heq]
    decide +kernel
  refine ⟨hnul, hbreaks, ?_, ?_⟩
  · have hdrop := congrArg (fun texts => texts.dropLast.dropLast) htexts
    rw [List.map_append, List.map_singleton, List.dropLast_concat] at hdrop
    rw [hstops.tokens_eq, List.map_dropLast]
    exact hdrop
  · rw [hfailure, Option.map_some, hfault]

/-! ## §3. Where the fault is reported. -/

theorem Position.advance_ne_self (pos : Position) (c : Char) : pos.advance c ≠ pos := by
  intro h
  unfold advance at h
  split at h
  · have hline := congrArg Position.line h
    dsimp only at hline
    omega
  · have hcol := congrArg Position.col h
    dsimp only at hcol
    omega

/-- Only behind nothing is the place behind the same as that of the last character. -/
theorem Position.behind_dropLast_eq_iff {cs : List Char} :
    behind cs.dropLast = behind cs ↔ cs = [] := by
  rcases cs.eq_nil_or_concat with rfl | ⟨cs, c, rfl⟩
  · simp
  · rw [List.concat_eq_append, List.dropLast_concat, ← advanceBy_start, ← advanceBy_start,
      advanceBy_append]
    constructor
    · intro h
      exact absurd h.symm (advance_ne_self _ c)
    · intro h
      simp at h

/-- The place that is reported is that of the character behind the text `p`. -/
def Input.PlacesFault (p : String) (input : Input) : Prop :=
  ∃ failure, input.source.scan.failure = some failure
    ∧ failure.pos = Position.behind (Source.dropMark p.toList)

theorem Source.dropMark_eq_nil_iff {s : String} :
    dropMark s.toList = [] ↔ s = "" ∨ s = "\uFEFF" := by
  constructor
  · intro h
    have hmark := mark_append_dropMark s.toList none
    rw [h, List.append_nil] at hmark
    unfold mark at hmark
    split at hmark
    · exact .inr (String.toList_injective hmark.symm)
    · exact .inl (String.toList_injective hmark.symm)
  · rintro (rfl | rfl) <;> rfl

/-- **A fault is reported one character early.**  Behind a text without NUL, the place in the
message is that of the last character of the text, or the beginning if there is none; so it is
the place of the fault only behind no text at all, or behind a byte order mark alone. -/
theorem fault_placed_one_early {p : String} (hnul : '\x00' ∉ p.toList) {input : Input}
    {fault : Fault} (h : input.Breaks p fault) :
    ∃ failure, input.source.scan.failure = some failure
      ∧ failure.message = Text.decimal failure.pos.line ++ ":" ++ Text.decimal failure.pos.col
          ++ ": " ++ fault.message
      ∧ failure.pos = Position.behind (Source.dropMark p.toList).dropLast
      ∧ (input.PlacesFault p ↔ p = "" ∨ p = "\uFEFF") := by
  have hfailure := congrArg Scan.failure (h.scan_eq hnul)
  refine ⟨_, hfailure, rfl, rfl, ?_⟩
  rw [← Source.dropMark_eq_nil_iff, ← Position.behind_dropLast_eq_iff]
  constructor
  · rintro ⟨failure, hsome, hpos⟩
    rw [hfailure] at hsome
    cases hsome
    exact hpos
  · intro hpos
    exact ⟨_, hfailure, hpos⟩

/-- A NUL at the beginning of the second line is reported at the end of the first. -/
theorem fault_placed_one_early_line :
    let p := "x\n"
    let input : Input := ⟨p.toUTF8 ++ "\x00".toUTF8 ++ ")".toUTF8, none⟩
    '\x00' ∉ p.toList ∧ input.Breaks p .nul ∧ Position.behind (Source.dropMark p.toList) = ⟨2, 1⟩
      ∧ ¬ input.PlacesFault p
      ∧ input.source.scan.failure.map ScanFailure.message = some "1:2: invalid character NUL" := by
  intro p input
  have hnul : '\x00' ∉ p.toList := by decide
  have hbreaks : input.Breaks p .nul := .nul _ _
  obtain ⟨failure, hfailure, hmessage, hpos, hplaces⟩ := fault_placed_one_early hnul hbreaks
  refine ⟨hnul, hbreaks, by decide, fun h => ?_, ?_⟩
  · rcases hplaces.1 h with h | h <;> exact absurd h (by decide)
  · rw [hfailure, Option.map_some, hmessage, hpos]
    decide +kernel

/-- The byte 0xFF is the eighth character of its line, and is reported at the seventh. -/
theorem stray_byte_misplaced :
    let input : Input := ⟨"(print ".toUTF8 ++ ⟨#[0xFF, 0x29]⟩, none⟩
    input.Breaks "(print " .encoding ∧ Position.behind (Source.dropMark "(print ".toList) = ⟨1, 8⟩
      ∧ input.source.scan.failure.map ScanFailure.message = some "1:7: invalid UTF-8 encoding"
      ∧ ¬ input.PlacesFault "(print " := by
  intro input
  have hbreaks : input.Breaks "(print " .encoding := .encoding (by decide) (by decide)
  have hfailure := congrArg Scan.failure (hbreaks.scan_eq (by decide))
  refine ⟨hbreaks, by decide, ?_, ?_⟩
  · rw [hfailure]
    decide +kernel
  · rintro ⟨failure, hsome, hpos⟩
    rw [hfailure] at hsome
    cases hsome
    exact absurd hpos (by decide)

end IntLisp
