/-
  IntLisp.Proofs.Lexeme
  ─────────────────────
  **THE PIECES THAT A TEXT IS CUT INTO.**

  Scanning does two things at once: it cuts the characters into lexemes, and
  it puts each lexeme at its place.  Here the two are taken apart.  The end
  of the text is placed like any other token, as the lexeme without
  characters:

      scanFrom none offset pos cs = ⟨placed offset pos (lexemes cs ++ [[]]), none⟩

  A list of pieces is a scan of their text exactly if each piece goes on as
  its first character demands and stops before the next piece.  This is a
  property of neighbours only, so any run of lexemes, taken out of its text,
  is cut into the same lexemes again.
-/
import IntLisp.Token.Scan
import Mathlib.Tactic.SplitIfs

namespace IntLisp

namespace Token

/-! ## §1. Cutting. -/

theorem Kind.eq_of_ofChar_opening {c : Char} (h : Kind.ofChar c = .opening) : c = '(' := by
  unfold Kind.ofChar at h
  split_ifs at h
  assumption

theorem Kind.eq_of_ofChar_closing {c : Char} (h : Kind.ofChar c = .closing) : c = ')' := by
  unfold Kind.ofChar at h
  split_ifs at h
  assumption

theorem Kind.ofChar_ne_finish (c : Char) : Kind.ofChar c ≠ .finish := by
  unfold Kind.ofChar
  split_ifs <;> simp

theorem Kind.ofChar_ne_other (c : Char) (code : UInt8) : Kind.ofChar c ≠ .other code := by
  unfold Kind.ofChar
  split_ifs <;> simp

theorem Kind.ofChar_eq_word_iff {c : Char} :
    Kind.ofChar c = .word ↔ c ∉ ['(', ')', ';', '\n', ' ', '\t', '\x0c', '\r'] := by
  unfold Kind.ofChar
  simp only [List.mem_cons, List.not_mem_nil, Bool.or_eq_true, decide_eq_true_eq]
  split_ifs <;> grind

/-- The kind of the token that a lexeme makes; no characters make the end. -/
def Kind.ofLexeme : List Char → Kind
  | [] => .finish
  | c :: _ => .ofChar c

/-- The lexemes of a text. -/
def lexemes : List Char → List (List Char)
  | [] => []
  | c :: cs =>
    (c :: cs.takeWhile (Kind.ofChar c).continues) :: lexemes (cs.dropWhile (Kind.ofChar c).continues)
termination_by cs => cs.length
decreasing_by
  exact Nat.lt_succ_of_le (List.dropWhile_sublist _).length_le

@[simp] theorem lexemes_nil : lexemes [] = [] := by
  rw [lexemes]

theorem lexemes_cons (c : Char) (cs : List Char) :
    lexemes (c :: cs) =
      (c :: cs.takeWhile (Kind.ofChar c).continues)
        :: lexemes (cs.dropWhile (Kind.ofChar c).continues) := by
  rw [lexemes]

/-- Pieces each of which goes on as its first character demands, and stops before
the next. -/
inductive Lexed : List (List Char) → Prop where
  | nil : Lexed []
  | cons {c : Char} {cs : List Char} {ls : List (List Char)}
      (hcs : ∀ x ∈ cs, (Kind.ofChar c).continues x = true)
      (hstop : ∀ x, ls.flatten.head? = some x → (Kind.ofChar c).continues x = false)
      (h : Lexed ls) : Lexed ((c :: cs) :: ls)

theorem flatten_lexemes (cs : List Char) : (lexemes cs).flatten = cs := by
  fun_induction lexemes cs with
  | case1 => rfl
  | case2 c cs ih =>
    rw [List.flatten_cons, ih, List.cons_append, List.takeWhile_append_dropWhile]

theorem lexed_lexemes (cs : List Char) : Lexed (lexemes cs) := by
  fun_induction lexemes cs with
  | case1 => exact .nil
  | case2 c cs ih =>
    refine .cons (fun x hx => List.all_eq_true.1 List.all_takeWhile x hx) (fun x hx => ?_) ih
    -- what is left behind the lexeme begins with the character that stopped it
    rw [flatten_lexemes] at hx
    have h := List.head?_dropWhile_not (Kind.ofChar c).continues cs
    rw [hx] at h
    simpa using h

/-- A piece is the first lexeme of every text that it begins and that does not go
on with it. -/
theorem lexemes_cons_append {c : Char} {cs rest : List Char}
    (hcs : ∀ x ∈ cs, (Kind.ofChar c).continues x = true)
    (hstop : ∀ x, rest.head? = some x → (Kind.ofChar c).continues x = false) :
    lexemes (c :: cs ++ rest) = (c :: cs) :: lexemes rest := by
  have hrest : rest.takeWhile (Kind.ofChar c).continues = []
      ∧ rest.dropWhile (Kind.ofChar c).continues = rest := by
    cases rest with
    | nil => exact ⟨rfl, rfl⟩
    | cons x xs => simp [hstop x rfl]
  rw [List.cons_append, lexemes_cons, List.takeWhile_append_of_pos hcs,
    List.dropWhile_append_of_pos hcs, hrest.1, hrest.2, List.append_nil]

/-- **Pieces that stop where they should are cut out of their text again.** -/
theorem Lexed.lexemes_flatten {ls : List (List Char)} (h : Lexed ls) :
    lexemes ls.flatten = ls := by
  induction h with
  | nil => exact lexemes_nil
  | cons hcs hstop _ ih =>
    rw [List.flatten_cons, lexemes_cons_append hcs hstop, ih]

theorem Lexed.left {ls ms : List (List Char)} (h : Lexed (ls ++ ms)) : Lexed ls := by
  induction ls with
  | nil => exact .nil
  | cons l ls ih =>
    rw [List.cons_append] at h
    -- only the end of `ls` can lose its neighbour, and an end stops nothing
    generalize hms : ls ++ ms = rest at h
    cases h with
    | cons hcs hstop h =>
      subst hms
      refine .cons hcs (fun x hx => hstop x ?_) (ih h)
      rw [List.flatten_append, List.head?_append, hx]
      rfl

theorem Lexed.right {ls ms : List (List Char)} (h : Lexed (ls ++ ms)) : Lexed ms := by
  induction ls with
  | nil => exact h
  | cons l ls ih =>
    cases h with
    | cons _ _ h => exact ih h

theorem Lexed.exists_cons {ls : List (List Char)} (h : Lexed ls) {l : List Char} (hl : l ∈ ls) :
    ∃ c cs, l = c :: cs ∧ ∀ x ∈ cs, (Kind.ofChar c).continues x = true := by
  induction h with
  | nil => cases hl
  | @cons c cs ls hcs _ _ ih =>
    cases hl with
    | head => exact ⟨c, cs, rfl, hcs⟩
    | tail _ hl => exact ih hl

/-- Nothing goes on with a parenthesis. -/
theorem Lexed.eq_of_parenthesis {ls : List (List Char)} (h : Lexed ls) {l : List Char} (hl : l ∈ ls) :
    (Kind.ofLexeme l = .opening → l = ['(']) ∧ (Kind.ofLexeme l = .closing → l = [')']) := by
  obtain ⟨c, cs, rfl, hcs⟩ := h.exists_cons hl
  -- a kind that nothing goes on with leaves no second character
  have hnil : ∀ k, Kind.ofChar c = k → (∀ x, k.continues x = false) → cs = [] := by
    intro k hk hno
    refine List.eq_nil_iff_forall_not_mem.2 fun x hx => ?_
    rw [hk] at hcs
    simpa [hno x] using hcs x hx
  refine ⟨fun hk => ?_, fun hk => ?_⟩
  · rw [hnil _ hk fun _ => rfl, Kind.eq_of_ofChar_opening hk]
  · rw [hnil _ hk fun _ => rfl, Kind.eq_of_ofChar_closing hk]

/-- Characters that make a word. -/
def IsWord (cs : List Char) : Prop := cs ≠ [] ∧ ∀ c ∈ cs, Kind.ofChar c = .word

theorem IsWord.kind {cs : List Char} (h : IsWord cs) : Kind.ofLexeme cs = .word := by
  cases cs with
  | nil => exact absurd rfl h.1
  | cons c cs => exact h.2 c (.head cs)

/-- A word stops before whatever is no part of one. -/
theorem Lexed.word {l : List Char} {ls : List (List Char)} (hl : IsWord l)
    (hstop : ∀ x, ls.flatten.head? = some x → Kind.ofChar x ≠ .word) (h : Lexed ls) :
    Lexed (l :: ls) := by
  cases l with
  | nil => exact absurd rfl hl.1
  | cons c cs =>
    have hc : Kind.ofChar c = .word := hl.2 c (.head cs)
    refine .cons ?_ ?_ h
    · intro x hx
      rw [hc]
      exact decide_eq_true (hl.2 x (.tail c hx))
    · intro x hx
      rw [hc]
      exact decide_eq_false (hstop x hx)

theorem Lexed.isWord {ls : List (List Char)} (h : Lexed ls) {l : List Char} (hl : l ∈ ls)
    (hk : Kind.ofLexeme l = .word) : IsWord l := by
  obtain ⟨c, cs, rfl, hcs⟩ := h.exists_cons hl
  have hc : Kind.ofChar c = .word := hk
  rw [hc] at hcs
  refine ⟨List.cons_ne_nil c cs, ?_⟩
  intro x hx
  cases hx with
  | head => exact hc
  | tail _ hx => exact of_decide_eq_true (hcs x hx)

/-! ## §2. Placing. -/

/-- The characters of a token. -/
def lexeme (t : Token) : List Char := t.text.toList

/-- What a token says, wherever it stands. -/
def content (t : Token) : Kind × String := (t.kind, t.text)

theorem content_eq_iff {t u : Token} : t.content = u.content ↔ t.kind = u.kind ∧ t.text = u.text := by
  rw [content, content, Prod.mk.injEq]

theorem toList_spelling (ts : List Token) : (spelling ts).toList = (ts.map lexeme).flatten := by
  rw [spelling, String.toList_join, List.flatMap_map, List.flatMap_def]
  rfl

@[simp] theorem spelling_append (ts us : List Token) :
    spelling (ts ++ us) = spelling ts ++ spelling us := by
  rw [spelling, List.map_append, String.join_append]
  rfl

/-- The tokens that lexemes make, one after the other from a place on. -/
def placed (offset : Nat) (pos : Position) : List (List Char) → List Token
  | [] => []
  | l :: ls =>
    ⟨.ofLexeme l, String.ofList l, offset, pos⟩
      :: placed (offset + (String.ofList l).utf8ByteSize) (pos.advanceBy l) ls

section

variable {offset : Nat} {pos : Position} {ls : List (List Char)}

theorem map_lexeme_placed (offset : Nat) (pos : Position) (ls : List (List Char)) :
    (placed offset pos ls).map lexeme = ls := by
  induction ls generalizing offset pos with
  | nil => rfl
  | cons l ls ih => simp [placed, lexeme, ih]

theorem map_content_placed (offset : Nat) (pos : Position) (ls : List (List Char)) :
    (placed offset pos ls).map content = ls.map fun l => (.ofLexeme l, String.ofList l) := by
  induction ls generalizing offset pos with
  | nil => rfl
  | cons l ls ih => simp [placed, content, ih]

theorem length_placed (offset : Nat) (pos : Position) (ls : List (List Char)) :
    (placed offset pos ls).length = ls.length := by
  rw [← congrArg List.length (map_lexeme_placed offset pos ls), List.length_map]

theorem kind_of_mem_placed {t : Token} (ht : t ∈ placed offset pos ls) :
    t.lexeme ∈ ls ∧ t.kind = .ofLexeme t.lexeme := by
  induction ls generalizing offset pos with
  | nil => cases ht
  | cons l ls ih =>
    cases ht with
    | head => simp [lexeme]
    | tail _ ht => exact ⟨.tail _ (ih ht).1, (ih ht).2⟩

theorem placed_append (offset : Nat) (pos : Position) (ls ms : List (List Char)) :
    placed offset pos (ls ++ ms) =
      placed offset pos ls
        ++ placed (offset + (String.ofList ls.flatten).utf8ByteSize) (pos.advanceBy ls.flatten) ms := by
  induction ls generalizing offset pos with
  | nil => simp [placed]
  | cons l ls ih =>
    simp [placed, ih, Position.advanceBy_append, Nat.add_assoc, String.ofList_append]

theorem placed_dropLast (offset : Nat) (pos : Position) (ls : List (List Char)) :
    placed offset pos ls.dropLast = (placed offset pos ls).dropLast := by
  rcases ls.eq_nil_or_concat with rfl | ⟨ls, l, rfl⟩
  · rfl
  · rw [List.concat_eq_append, List.dropLast_concat, placed_append]
    exact List.dropLast_concat.symm

/-- Both parts of placed tokens are placed, the second where the first ends. -/
theorem placed_eq_append {ts us : List Token} (h : placed offset pos ls = ts ++ us) :
    ts = placed offset pos (ts.map lexeme)
      ∧ us = placed (offset + (spelling ts).utf8ByteSize) (pos.advanceBy (spelling ts).toList)
          (us.map lexeme) := by
  -- the lexemes are split where the tokens are, and `placed_append` does the rest
  have hls : ls = ts.map lexeme ++ us.map lexeme := by
    rw [← List.map_append, ← h, map_lexeme_placed]
  have hlength : ts.length = (placed offset pos (ts.map lexeme)).length := by
    rw [length_placed, List.length_map]
  rw [hls, placed_append] at h
  obtain ⟨hts, hus⟩ := List.append_inj h.symm hlength
  refine ⟨hts, ?_⟩
  rw [toList_spelling, ← String.ofList_toList (s := spelling ts), toList_spelling]
  exact hus

theorem offset_of_placed {ts us : List Token} {u : Token}
    (h : placed offset pos ls = ts ++ u :: us) :
    u.offset = offset + (spelling ts).utf8ByteSize := by
  obtain ⟨-, hus⟩ := placed_eq_append h
  rw [List.map_cons, placed] at hus
  rw [(List.cons.inj hus).1]

theorem pos_of_placed {ts us : List Token} {u : Token}
    (h : placed offset pos ls = ts ++ u :: us) :
    u.pos = pos.advanceBy (spelling ts).toList := by
  obtain ⟨-, hus⟩ := placed_eq_append h
  rw [List.map_cons, placed] at hus
  rw [(List.cons.inj hus).1]

theorem finalOffset_of_placed {ts us : List Token} {u : Token}
    (h : placed offset pos ls = ts ++ u :: us) :
    u.finalOffset = offset + (spelling (ts ++ [u])).utf8ByteSize := by
  rw [finalOffset, offset_of_placed h, spelling_append, String.utf8ByteSize_append, Nat.add_assoc]
  simp [spelling]

end

end Token

/-! ## §3. Scanning. -/

namespace Source

open Token

/-- **A text without a fault is scanned into its lexemes, each at its place.** -/
theorem scanFrom_none (offset : Nat) (pos : Position) (cs : List Char) :
    scanFrom none offset pos cs = ⟨placed offset pos (lexemes cs ++ [[]]), none⟩ := by
  fun_induction lexemes cs generalizing offset pos with
  | case1 => rw [scanFrom]; rfl
  | case2 c cs ih =>
    rw [scanFrom]
    simp only [ite_self, ih]
    rfl

/-- **A fault costs the last lexeme, and is met at its last character.** -/
theorem scanFrom_some (f : Fault) (offset : Nat) (pos : Position) (cs : List Char) :
    scanFrom (some f) offset pos cs
      = ⟨placed offset pos (lexemes cs).dropLast, some ⟨pos.advanceBy cs.dropLast, f⟩⟩ := by
  fun_induction lexemes cs generalizing offset pos with
  | case1 => rw [scanFrom]; rfl
  | case2 c cs ih =>
    rw [scanFrom]
    have hcs := List.takeWhile_append_dropWhile (p := (Kind.ofChar c).continues) (l := cs)
    cases hrest : cs.dropWhile (Kind.ofChar c).continues with
    | nil =>
      rw [hrest, List.append_nil] at hcs
      simp [hcs, placed]
    | cons d ds =>
      -- more lexemes follow, and the last of them is lost
      rw [hrest] at ih hcs
      have hlexemes : lexemes (d :: ds) ≠ [] := by
        rw [lexemes_cons]
        exact List.cons_ne_nil _ _
      have hchars : (c :: cs).dropLast
          = (c :: cs.takeWhile (Kind.ofChar c).continues) ++ (d :: ds).dropLast := by
        rw [← List.dropLast_append_of_ne_nil (List.cons_ne_nil d ds), List.cons_append, hcs]
      rw [List.dropLast_cons_of_ne_nil hlexemes, hchars, Position.advanceBy_append]
      simp only [List.isEmpty_cons, Bool.false_eq_true, if_false, ih]
      rfl

/-- The tokens of a source, less its end. -/
def body (src : Source) : List Token := placed src.firstOffset Position.start (lexemes src.chars)

variable {src : Source} {t : Token}

theorem scan_eq_body (h : src.fault = none) :
    ∃ e : Token, e.kind = .finish ∧ src.scan = ⟨src.body ++ [e], none⟩ := by
  rw [scan, h, scanFrom_none, placed_append]
  exact ⟨_, rfl, rfl⟩

theorem failure_scan (h : src.fault = none) : src.scan.failure = none := by
  obtain ⟨e, -, heq⟩ := scan_eq_body h
  rw [heq]

theorem fault_of_scan (h : src.scan.failure = none) : src.fault = none := by
  cases hfault : src.fault with
  | none => rfl
  | some f =>
    rw [scan, hfault, scanFrom_some] at h
    cases h

theorem map_lexeme_body (src : Source) : src.body.map lexeme = lexemes src.chars :=
  map_lexeme_placed ..

theorem toList_spelling_body (src : Source) : (spelling src.body).toList = src.chars := by
  rw [toList_spelling, map_lexeme_body, flatten_lexemes]

theorem exists_kind_eq (ht : t ∈ src.body) : ∃ c, t.kind = .ofChar c := by
  obtain ⟨hmem, hkind⟩ := kind_of_mem_placed ht
  obtain ⟨c, cs, hlexeme, -⟩ := (lexed_lexemes src.chars).exists_cons hmem
  rw [hkind, hlexeme]
  exact ⟨c, rfl⟩

theorem kind_ne_finish (ht : t ∈ src.body) : t.kind ≠ .finish := by
  obtain ⟨c, hc⟩ := exists_kind_eq ht
  rw [hc]
  exact Kind.ofChar_ne_finish c

theorem isWord_lexeme (ht : t ∈ src.body) (hk : t.kind = .word) : IsWord t.lexeme := by
  obtain ⟨hmem, hkind⟩ := kind_of_mem_placed ht
  exact (lexed_lexemes src.chars).isWord hmem (hkind ▸ hk)

theorem mem_chars_of_mem_lexeme {c : Char} (ht : t ∈ src.body) (hc : c ∈ t.lexeme) :
    c ∈ src.chars := by
  rw [← flatten_lexemes src.chars]
  exact List.mem_flatten_of_mem (kind_of_mem_placed ht).1 hc

theorem lexeme_of_opening (ht : t ∈ src.body) (hk : t.kind = .opening) : t.lexeme = ['('] := by
  obtain ⟨hmem, hkind⟩ := kind_of_mem_placed ht
  exact ((lexed_lexemes src.chars).eq_of_parenthesis hmem).1 (hkind ▸ hk)

theorem lexeme_of_closing (ht : t ∈ src.body) (hk : t.kind = .closing) : t.lexeme = [')'] := by
  obtain ⟨hmem, hkind⟩ := kind_of_mem_placed ht
  exact ((lexed_lexemes src.chars).eq_of_parenthesis hmem).2 (hkind ▸ hk)

end Source

end IntLisp
