/-
  IntLisp.Proofs.Tiling
  ─────────────────────
  **THE TOKENS OF A TEXT COVER IT, EACH AT ITS PLACE.**

  A token carries two places: the bytes before it, and a line and a column,
  in characters.  The first counts a byte order mark that leads the text, the
  second does not.  Both are right, for every text: the tokens are the pieces
  of the text from its beginning to its end, each is the slice of bytes that
  its offsets give, and its line and column are those of a reader who counts
  newlines, and characters behind the last of them.
-/
import IntLisp.Proofs.Encoding
import IntLisp.Proofs.Lexeme
import Mathlib.Data.List.Chain
import Mathlib.Data.List.DropRight

namespace IntLisp

/-! ## §1. Lines and columns. -/

/-- The place behind the characters `cs` of a text, by counting: the newlines, and
the characters behind the last of them. -/
def Position.behind (cs : List Char) : Position :=
  ⟨1 + cs.count '\n', 1 + (cs.rtakeWhile (· ≠ '\n')).length⟩

theorem Position.advanceBy_start (cs : List Char) : start.advanceBy cs = behind cs := by
  induction cs using List.reverseRecOn with
  | nil => rfl
  | append_singleton cs c ih =>
    rw [advanceBy_append, ih]
    show (behind cs).advance c = behind (cs ++ [c])
    unfold advance behind
    by_cases hc : c = '\n'
    · subst hc
      simp
      omega
    · simp [hc]
      omega

/-! ## §2. Offsets. -/

namespace Source

open Token

variable {src : Source}

/-- Offsets count the bytes of the mark, unless there is nothing else. -/
theorem firstOffset_eq (h : src.chars ≠ []) : src.firstOffset = src.mark.utf8Encode.size := by
  cases hmarked : src.marked <;> simp [firstOffset, mark, hmarked, h, List.utf8Encode_singleton]

theorem chars_ne_nil_of_body (h : src.body ≠ []) : src.chars ≠ [] := by
  intro hnil
  rw [body, hnil, lexemes_nil] at h
  exact h rfl

end Source

/-- **The text of a run of tokens is the bytes that it takes up in the input.** -/
theorem Input.extract_between {input : Input} {before us after : List Token}
    (hfault : input.source.fault = none)
    (h : input.source.body = before ++ (us ++ after)) (hus : us ≠ []) :
    (Token.spelling us).toUTF8 =
      input.bytes.extract (input.source.firstOffset + (Token.spelling before).utf8ByteSize)
        (input.source.firstOffset + (Token.spelling (before ++ us)).utf8ByteSize) := by
  have hbody : input.source.body ≠ [] := by simp [h, hus]
  have hbytes : input.bytes = input.source.mark.utf8Encode
      ++ ((Token.spelling before).toByteArray
        ++ ((Token.spelling us).toByteArray ++ (Token.spelling after).toByteArray)) := by
    rw [(bytes_of_fault hfault).2.2, ← Source.toList_spelling_body, String.utf8Encode_toList, h,
      Token.spelling_append, Token.spelling_append, String.toByteArray_append,
      String.toByteArray_append]
  calc (Token.spelling us).toUTF8
      = ((Token.spelling us).toByteArray ++ (Token.spelling after).toByteArray).extract 0
          (Token.spelling us).utf8ByteSize :=
        (ByteArray.extract_append_eq_left rfl).symm
    _ = ((Token.spelling before).toByteArray
          ++ ((Token.spelling us).toByteArray ++ (Token.spelling after).toByteArray)).extract
          ((Token.spelling before).utf8ByteSize + 0)
          ((Token.spelling before).utf8ByteSize + (Token.spelling us).utf8ByteSize) :=
        ByteArray.extract_append_size_add.symm
    _ = input.bytes.extract
          (input.source.mark.utf8Encode.size + ((Token.spelling before).utf8ByteSize + 0))
          (input.source.mark.utf8Encode.size
            + ((Token.spelling before).utf8ByteSize + (Token.spelling us).utf8ByteSize)) := by
        rw [hbytes, ByteArray.extract_append_size_add]
    _ = input.bytes.extract
          (input.source.firstOffset + (Token.spelling before).utf8ByteSize)
          (input.source.firstOffset + (Token.spelling (before ++ us)).utf8ByteSize) := by
        rw [Source.firstOffset_eq (Source.chars_ne_nil_of_body hbody), Token.spelling_append,
          String.utf8ByteSize_append, Nat.add_zero]

/-- A token is the slice of bytes that its offsets give. -/
theorem Input.extract_token {input : Input} {t : Token} (hfault : input.source.fault = none)
    (ht : t ∈ input.source.body) :
    t.text.toUTF8 = input.bytes.extract t.offset t.finalOffset := by
  obtain ⟨before, after, h⟩ := List.append_of_mem ht
  have hsingle : input.source.body = before ++ ([t] ++ after) := h
  have hslice := Input.extract_between hfault hsingle (List.cons_ne_nil _ _)
  rw [← Token.offset_of_placed h, ← Token.finalOffset_of_placed h] at hslice
  rw [← hslice]
  simp [Token.spelling]

/-- The end of a text stands behind all its bytes; only a mark that stands alone is
not counted. -/
theorem Source.endOffset_eq {s : String} {src : Source} (hs : s.toList = src.mark ++ src.chars)
    (hmark : src.marked = isMarked s.toList) :
    src.firstOffset + (String.ofList src.chars).utf8ByteSize
      = if s = "\uFEFF" then 0 else s.utf8ByteSize := by
  by_cases hchars : src.chars = []
  · have hfirst : src.firstOffset = 0 := by
      simp [firstOffset, hchars]
    have hlist : s.toList = src.mark := by
      rw [hs, hchars, List.append_nil]
    rw [hfirst, hchars]
    cases hm : src.marked with
    | true =>
      have hbom : s = "\uFEFF" := String.toList_injective (by rw [hlist, mark, hm]; rfl)
      simp [hbom]
    | false =>
      have hempty : s = "" := String.toList_injective (by rw [hlist, mark, hm]; rfl)
      subst hempty
      rfl
  · have hsize : s.utf8ByteSize = src.mark.utf8Encode.size + src.chars.utf8Encode.size := by
      rw [← ByteArray.size_append, ← List.utf8Encode_append, ← hs, String.utf8Encode_toList]
      rfl
    have hbom : s ≠ "\uFEFF" := by
      intro hbom
      subst hbom
      rw [mark, hmark] at hs
      exact hchars (List.cons.inj hs).2.symm
    rw [if_neg hbom, firstOffset_eq hchars, hsize]
    rfl

/-! ## §3. Tokens of whole texts. -/

/-- The tokens `ts` cover the text `s`. -/
structure Token.Tile (s : String) (ts : List Token) : Prop where
  /-- Nothing is left out but a mark that leads the text. -/
  spelling_eq : spelling ts = String.ofList (Source.dropMark s.toList)
  /-- Each token ends where the next one begins. -/
  contiguous : ts.IsChain fun t u => t.finalOffset = u.offset
  /-- The first token begins behind the mark, unless it is the end. -/
  first_offset : ∀ t rest, ts = t :: rest → t.kind ≠ .finish →
    t.offset = if Source.isMarked s.toList then 3 else 0
  /-- A token is a slice of the bytes. -/
  slice_eq : ∀ t ∈ ts, t.text.toUTF8 = s.toUTF8.extract t.offset t.finalOffset
  /-- The last token, and no other, is the end. -/
  ending : ∃ body e, ts = body ++ [e] ∧ (∀ t ∈ body, t.kind ≠ .finish) ∧ e.kind = .finish
    ∧ e.text = "" ∧ e.offset = if s = "\uFEFF" then 0 else s.utf8ByteSize
  /-- Lines and columns are counted in the text before a token. -/
  pos_eq : ∀ before t after, ts = before ++ t :: after →
    t.pos = Position.behind (spelling before).toList

theorem Token.isChain_placed (offset : Nat) (pos : Position) (ls : List (List Char)) :
    (placed offset pos ls).IsChain fun t u => t.finalOffset = u.offset := by
  induction ls generalizing offset pos with
  | nil => exact .nil
  | cons l ls ih =>
    cases ls with
    | nil => exact .singleton _
    | cons m ls => exact .cons_cons rfl (ih _ _)

/-- The tokens of a source, its end included, and where it stands. -/
theorem Source.scan_eq_placed {src : Source} (h : src.fault = none) :
    src.scan = ⟨Token.placed src.firstOffset Position.start (Token.lexemes src.chars ++ [[]]), none⟩
      ∧ Token.placed src.firstOffset Position.start (Token.lexemes src.chars ++ [[]])
        = src.body ++ [⟨.finish, "", src.firstOffset + (String.ofList src.chars).utf8ByteSize,
            Position.start.advanceBy src.chars⟩] := by
  refine ⟨?_, ?_⟩
  · rw [scan, h, scanFrom_none]
  · rw [Token.placed_append, Token.flatten_lexemes]
    rfl

/-- **The tokens of a text without NUL cover it.** -/
theorem Input.tile_ofString {s : String} (hnul : '\x00' ∉ s.toList) :
    ∃ ts, (ofString s).source.scan = ⟨ts, none⟩ ∧ Token.Tile s ts := by
  have hsource : (ofString s).source
      = ⟨Source.isMarked s.toList, Source.dropMark s.toList, none⟩ := by
    rw [source_ofString, Source.ofString_eq hnul]
  have hfault : (ofString s).source.fault = none := by
    rw [hsource]
  have hlist : s.toList = (ofString s).source.mark ++ (ofString s).source.chars := by
    rw [hsource]
    exact (Source.mark_append_dropMark s.toList none).symm
  obtain ⟨hscan, hbody⟩ := Source.scan_eq_placed hfault
  refine ⟨_, hscan, {
    spelling_eq := ?spelling
    contiguous := Token.isChain_placed _ _ _
    first_offset := ?first
    slice_eq := ?slice
    ending := ?ending
    pos_eq := ?pos }⟩
  case spelling =>
    refine String.toList_injective ?_
    rw [Token.toList_spelling, Token.map_lexeme_placed]
    simp [Token.flatten_lexemes, hsource]
  case first =>
    intro t rest h hkind
    have hfirst : Token.placed (ofString s).source.firstOffset Position.start
        (Token.lexemes (ofString s).source.chars ++ [[]]) = [] ++ t :: rest := h
    have hoffset := Token.offset_of_placed hfirst
    have hchars : (ofString s).source.chars ≠ [] := by
      intro hnil
      rw [hnil, Token.lexemes_nil] at h
      cases h
      exact hkind rfl
    rw [hoffset, Source.firstOffset_eq hchars, Source.mark, hsource]
    cases Source.isMarked s.toList <;> rfl
  case slice =>
    intro t ht
    rw [hbody] at ht
    rcases List.mem_append.1 ht with ht | ht
    · exact @extract_token (ofString s) t hfault ht
    · -- the end takes up no bytes
      rw [List.mem_singleton.1 ht]
      exact ByteArray.extract_same.symm
  case ending =>
    refine ⟨_, _, hbody, fun t ht => Source.kind_ne_finish ht, rfl, rfl, ?_⟩
    exact Source.endOffset_eq hlist (by rw [hsource])
  case pos =>
    intro before t after h
    rw [Token.pos_of_placed h, Position.advanceBy_start]

/-- **Tokens cover their text, each at its place.**  The tokens of a text without NUL
are its pieces from its beginning to its end, and say where in it they stand.  Bytes
that are no UTF-8, or among which there is a NUL, have no tokens. -/
theorem tokens_tile :
    (∀ s : String, '\x00' ∉ s.toList →
        ∃ ts, (Input.ofString s).source.scan = ⟨ts, none⟩ ∧ Token.Tile s ts)
      ∧ ∀ bytes : ByteArray, ¬ bytes.IsValidUTF8 ∨ 0 ∈ bytes.data →
          (Input.mk bytes none).source.scan.failure ≠ none := by
  refine ⟨fun s hnul => Input.tile_ofString hnul, fun bytes h hscan => ?_⟩
  exact Input.fault_of_bytes h (Source.fault_of_scan hscan)

/-- A text with a mark, letters of two bytes and lines of its own, and bytes that end
inside a character. -/
theorem tokens_tile_marked :
    (∃ ts, (Input.ofString "\uFEFF(é\n\tx);ü").source.scan = ⟨ts, none⟩
        ∧ Token.Tile "\uFEFF(é\n\tx);ü" ts)
      ∧ (Input.mk ⟨#[0x28, 0xC3]⟩ none).source.scan.failure ≠ none
      ∧ (Input.mk ⟨#[0x28, 0x00, 0x29]⟩ none).source.scan.failure ≠ none := by
  refine ⟨tokens_tile.1 _ (by decide), tokens_tile.2 _ (.inl (by decide)), ?_⟩
  exact tokens_tile.2 _ (.inr (by simp))

end IntLisp
