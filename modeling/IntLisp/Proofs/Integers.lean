/-
  IntLisp.Proofs.Integers
  ───────────────────────
  **WHICH WORDS ARE INTEGERS, AND WHICH INTEGERS.**

  Whether a word is an integer, which integer it is and how that integer is
  written are three questions with three answers of their own: a word is
  judged by its characters, its value is gathered digit by digit from the
  left, and digits are written by division from the right.  What they have in
  common is the value of digits by their places:

      numeral? w = some z   ↔   Denotes w z
      w = decimal z         ↔   IsReduced w ∧ Denotes w z

  So an integer has many words and one of them is its own: the one without a
  plus sign and without a needless zero.  A tree has one leaf for each word
  of its text, an integer where the word denotes one and a symbol elsewhere,
  and no text is refused for a word.
-/
import IntLisp.Proofs.Completion
import IntLisp.Proofs.Words
import Mathlib.Algebra.Ring.Nat

namespace IntLisp

namespace Text

/-! ## §1. The integer that a word denotes. -/

/-- The number that decimal digits denote, each by its place. -/
def placeValue : List Char → Nat
  | [] => 0
  | d :: ds => (d.toNat - '0'.toNat) * 10 ^ ds.length + placeValue ds

/-- One or more decimal digits. -/
structure AreDigits (ds : List Char) : Prop where
  ne_nil : ds ≠ []
  isDigit : ∀ d ∈ ds, d.isDigit = true

/-- The word is an optional sign and then decimal digits, and these denote the integer. -/
inductive Denotes (w : String) : Int → Prop where
  | unsigned {ds : List Char} (hw : w.toList = ds) (hds : AreDigits ds) :
      Denotes w (placeValue ds)
  | plus {ds : List Char} (hw : w.toList = '+' :: ds) (hds : AreDigits ds) :
      Denotes w (placeValue ds)
  | minus {ds : List Char} (hw : w.toList = '-' :: ds) (hds : AreDigits ds) :
      Denotes w (-placeValue ds)

theorem placeValue_append (ds es : List Char) :
    placeValue (ds ++ es) = placeValue ds * 10 ^ es.length + placeValue es := by
  induction ds with
  | nil => simp [placeValue]
  | cons d ds ih =>
    rw [List.cons_append, placeValue, placeValue, ih, List.length_append, Nat.pow_add,
      Nat.add_mul, Nat.mul_assoc, Nat.add_assoc]

/-- **Digits gathered from the left have their value by places.** -/
theorem ofDigitChars_eq_placeValue (ds : List Char) :
    Nat.ofDigitChars 10 ds 0 = placeValue ds := by
  induction ds with
  | nil => rfl
  | cons d ds ih =>
    rw [Nat.ofDigitChars_cons, Nat.ofDigitChars_eq_ofDigitChars_zero, ih, placeValue,
      Nat.mul_zero, Nat.zero_add, Nat.mul_comm]

theorem natural?_eq_some_iff {ds : List Char} {n : Nat} :
    natural? ds = some n ↔ AreDigits ds ∧ n = placeValue ds := by
  constructor
  · intro h
    obtain ⟨hne, hds⟩ := digits_of_natural? (Option.isSome_of_eq_some h)
    rw [natural?_of_digits hne hds, ofDigitChars_eq_placeValue] at h
    exact ⟨⟨hne, hds⟩, (Option.some.inj h).symm⟩
  · rintro ⟨⟨hne, hds⟩, rfl⟩
    rw [natural?_of_digits hne hds, ofDigitChars_eq_placeValue]

/-- **A word is read as an integer exactly if it denotes that integer.** -/
theorem numeral?_eq_some_iff {w : String} {z : Int} : numeral? w = some z ↔ Denotes w z := by
  constructor
  · intro h
    unfold numeral? numeralOf? at h
    split at h
    · next ds hw =>
      obtain ⟨n, hn, rfl⟩ := Option.map_eq_some_iff.1 h
      obtain ⟨hds, rfl⟩ := natural?_eq_some_iff.1 hn
      exact .plus hw hds
    · next ds hw =>
      obtain ⟨n, hn, rfl⟩ := Option.map_eq_some_iff.1 h
      obtain ⟨hds, rfl⟩ := natural?_eq_some_iff.1 hn
      exact .minus hw hds
    · obtain ⟨n, hn, rfl⟩ := Option.map_eq_some_iff.1 h
      obtain ⟨hds, rfl⟩ := natural?_eq_some_iff.1 hn
      exact .unsigned rfl hds
  · intro h
    unfold numeral?
    cases h with
    | unsigned hw hds =>
      rw [hw, numeralOf?_of_digits hds.ne_nil hds.isDigit, ofDigitChars_eq_placeValue]
      rfl
    | plus hw hds =>
      rw [hw, numeralOf?, natural?_eq_some_iff.2 ⟨hds, rfl⟩]
      rfl
    | minus hw hds =>
      rw [hw, numeralOf?, natural?_eq_some_iff.2 ⟨hds, rfl⟩]
      rfl

theorem isNumeral_iff_denotes {w : String} : IsNumeral w ↔ ∃ z, Denotes w z := by
  rw [← isSome_numeral?_iff, Option.isSome_iff_exists]
  exact exists_congr fun z => numeral?_eq_some_iff

theorem Denotes.isNumeral {w : String} {z : Int} (h : Denotes w z) : IsNumeral w :=
  isNumeral_iff_denotes.2 ⟨z, h⟩

theorem Denotes.unique {w : String} {y z : Int} (hy : Denotes w y) (hz : Denotes w z) : y = z :=
  Option.some.inj ((numeral?_eq_some_iff.2 hy).symm.trans (numeral?_eq_some_iff.2 hz))

/-! ## §2. The canonical word of an integer. -/

/-- No plus sign, and no zero that leads other digits or stands behind a minus. -/
structure IsReduced (w : String) : Prop where
  plus_not_mem : '+' ∉ w.toList
  eq_zero : ∀ ds, w.toList = '0' :: ds ∨ w.toList = '-' :: '0' :: ds → w = "0"

/-- A digit is the one that its value is written as. -/
theorem digitChar_of_isDigit {d : Char} (h : d.isDigit = true) :
    d.toNat - '0'.toNat < 10 ∧ (d.toNat - '0'.toNat).digitChar = d := by
  obtain ⟨hlow, hhigh⟩ : 48 ≤ d.toNat ∧ d.toNat ≤ 57 := Char.isDigit_iff_toNat.1 h
  have hzero : '0'.toNat = 48 := rfl
  have hlt : d.toNat - '0'.toNat < 10 := by omega
  refine ⟨hlt, Char.toNat_inj.1 ?_⟩
  rw [Nat.toNat_digitChar_of_lt_ten hlt]
  omega

/-- Digits that do not begin with a zero denote a positive number. -/
theorem placeValue_pos {ds : List Char} (hds : AreDigits ds) (hzero : ds.head? ≠ some '0') :
    0 < placeValue ds := by
  obtain ⟨d, ds, rfl⟩ := List.exists_cons_of_ne_nil hds.ne_nil
  obtain ⟨hlow, -⟩ : 48 ≤ d.toNat ∧ d.toNat ≤ 57 :=
    Char.isDigit_iff_toNat.1 (hds.isDigit d (.head ds))
  have hne : d.toNat ≠ 48 := by
    intro heq
    exact hzero (congrArg some (Char.toNat_inj.1 heq))
  have hfirst : 0 < d.toNat - '0'.toNat := by
    show 0 < d.toNat - 48
    omega
  have hplace := Nat.mul_pos hfirst (Nat.pow_pos (n := ds.length) (by decide : 0 < 10))
  rw [placeValue]
  omega

/-- **Digits without a needless zero are the digits of their value.** -/
theorem toDigits_placeValue {ds : List Char} (hds : AreDigits ds)
    (hzero : ds.head? = some '0' → ds = ['0']) : Nat.toDigits 10 (placeValue ds) = ds := by
  -- digits are written from the right, so the last one is split off
  induction ds using List.reverseRecOn with
  | nil => exact absurd rfl hds.ne_nil
  | append_singleton ds d ih =>
    obtain ⟨hlt, hchar⟩ := digitChar_of_isDigit (hds.isDigit d (by simp))
    have hlast : placeValue [d] = d.toNat - '0'.toNat := by simp [placeValue]
    cases ds with
    | nil => rw [List.nil_append, hlast, Nat.toDigits_of_lt_base hlt, hchar]
    | cons e es =>
      have hfirst : AreDigits (e :: es) :=
        ⟨List.cons_ne_nil e es, fun x hx => hds.isDigit x (List.mem_append_left _ hx)⟩
      have hhead : (e :: es).head? ≠ some '0' := by
        intro heq
        have hsingle := congrArg List.length (hzero heq)
        simp at hsingle
      have hpos := placeValue_pos hfirst hhead
      have hvalue : placeValue (e :: es ++ [d])
          = 10 * placeValue (e :: es) + (d.toNat - '0'.toNat) := by
        rw [placeValue_append, hlast, List.length_singleton, Nat.pow_one, Nat.mul_comm]
      rw [hvalue, ← Nat.toDigits_append_toDigits (by decide) hpos hlt,
        ih hfirst fun heq => absurd heq hhead, Nat.toDigits_of_lt_base hlt, hchar]

theorem areDigits_toDigits (n : Nat) : AreDigits (Nat.toDigits 10 n) :=
  ⟨Nat.toDigits_ne_nil, isDigit_of_mem_toDigits_ten⟩

/-- Only zero is written with a zero in front. -/
theorem eq_zero_of_head_toDigits {n : Nat} (h : (Nat.toDigits 10 n).head? = some '0') :
    n = 0 := by
  induction n using Nat.strongRecOn with
  | ind n ih =>
    by_cases hn : n < 10
    · rw [Nat.toDigits_of_lt_base hn] at h
      exact Nat.digitChar_eq_zero.1 (Option.some.inj h)
    · rw [Nat.toDigits_of_base_le (by decide) (by omega),
        List.head?_append_of_ne_nil _ Nat.toDigits_ne_nil] at h
      have hquot := ih (n / 10) (by omega) h
      omega

theorem denotes_decimal (z : Int) : Denotes (decimal z) z :=
  numeral?_eq_some_iff.1 (numeral?_decimal z)

theorem isReduced_decimal (z : Int) : IsReduced (decimal z) := by
  have hdigits := areDigits_toDigits z.natAbs
  refine ⟨?_, ?_⟩
  · intro hplus
    rw [toList_decimal] at hplus
    rcases List.mem_append.1 hplus with hplus | hplus
    · split at hplus
      · exact absurd (List.mem_singleton.1 hplus) (by decide)
      · cases hplus
    · exact absurd (hdigits.isDigit _ hplus) (by decide)
  · intro ds hw
    rw [toList_decimal] at hw
    by_cases hz : z < 0
    · -- behind a minus the digits are those of a number that is not zero
      rw [if_pos hz, List.singleton_append] at hw
      rcases hw with hw | hw
      · exact absurd (List.cons.inj hw).1 (by decide)
      · have habs := eq_zero_of_head_toDigits (by rw [(List.cons.inj hw).2]; rfl)
        omega
    · rw [if_neg hz, List.nil_append] at hw
      rcases hw with hw | hw
      · have habs := eq_zero_of_head_toDigits (by rw [hw]; rfl)
        have hzero : z = 0 := by omega
        rw [hzero]
        rfl
      · exact absurd (hdigits.isDigit '-' (by rw [hw]; exact .head _)) (by decide)

/-- **The canonical word of an integer is the one reduced word that denotes it.** -/
theorem eq_decimal_iff {w : String} {z : Int} : w = decimal z ↔ IsReduced w ∧ Denotes w z := by
  constructor
  · rintro rfl
    exact ⟨isReduced_decimal z, denotes_decimal z⟩
  · rintro ⟨hreduced, hw⟩
    refine String.toList_injective ?_
    rw [toList_decimal]
    cases hw with
    | @unsigned ds hlist hds =>
      have hzero : ds.head? = some '0' → ds = ['0'] := by
        intro hhead
        obtain ⟨es, rfl⟩ := List.head?_eq_some_iff.1 hhead
        rw [← hlist, hreduced.eq_zero es (.inl hlist)]
        rfl
      have hdigits := toDigits_placeValue hds hzero
      rw [if_neg (by omega), Int.natAbs_natCast, hdigits, hlist, List.nil_append]
    | @plus ds hlist hds => exact absurd (hlist ▸ .head ds) hreduced.plus_not_mem
    | @minus ds hlist hds =>
      have hhead : ds.head? ≠ some '0' := by
        intro hhead
        obtain ⟨es, rfl⟩ := List.head?_eq_some_iff.1 hhead
        rw [hreduced.eq_zero es (.inr hlist)] at hlist
        exact absurd (List.cons.inj hlist).1 (by decide)
      have hpos := placeValue_pos hds hhead
      have hdigits := toDigits_placeValue hds fun heq => absurd heq hhead
      rw [if_pos (by omega), Int.natAbs_neg, Int.natAbs_natCast, hdigits, hlist]
      rfl

end Text

/-! ## §3. The leaves of a tree. -/

/-- The leaf that a stroke stands for. -/
def Stroke.leaf? : Stroke → Option Node
  | leaf n => some n
  | opening _ | closing => none

/-- The leaves of a tree, in their order. -/
def Node.leaves (n : Node) : List Node := n.outline.filterMap Stroke.leaf?

/-- The words among the tokens. -/
def Token.words (ts : List Token) : List Token := ts.filter fun t => t.kind = .word

theorem Token.words_append (ts us : List Token) : words (ts ++ us) = words ts ++ words us :=
  List.filter_append ts us

theorem Token.words_closings {us : List Token} (h : ∀ u ∈ us, u.kind = .closing) :
    words us = [] := by
  refine List.filter_eq_nil_iff.2 fun u hu => ?_
  simp [h u hu]

/-- **Spelled nodes have one leaf for each word of their tokens.** -/
theorem Reads.leaves_eq {ts : List Token} {ns : List Node} (h : Reads ts ns) :
    (Node.list none ns).leaves = (Token.words ts).map Node.ofWord := by
  rw [Node.leaves, Node.outline, h.outlineAll_eq, List.filterMap_map, Token.words]
  clear h
  induction ts with
  | nil => rfl
  | cons t ts ih =>
    cases hk : t.kind <;> simp [Token.isSignificant, Token.stroke, Stroke.leaf?, hk, ih]

/-- **A growing tree has one leaf for each word it has grown by**, also while expressions are
open. -/
theorem Grown.leaves_root {ts : List Token} {g : Growth} (h : Grown ts g) :
    g.root.leaves = (Token.words ts).map Node.ofWord := by
  -- closing what is open adds no word
  have hclosings : ∀ u ∈ List.replicate g.pending.length
      (⟨.closing, ")", 0, .start⟩ : Token), u.kind = .closing := by
    intro u hu
    rw [List.eq_of_mem_replicate hu]
  obtain ⟨ns, hns, hroot⟩ := h.reads_closed hclosings List.length_replicate
  rw [hroot, hns.leaves_eq, Token.words_append, Token.words_closings hclosings, List.append_nil]

/-! ## §4. Words as leaves. -/

/-- The node is the leaf that the word `t` makes. -/
structure Token.Makes (t : Token) (n : Node) : Prop where
  /-- It is an integer if the word is a numeral, and only then. -/
  int_iff : (∃ z, n = .int (some t) z) ↔ Text.IsNumeral t.text
  /-- The integer is the one that the word denotes. -/
  denotes : ∀ z, n = .int (some t) z → Text.Denotes t.text z
  /-- A word that is no numeral is a name. -/
  symbol_eq : ¬ Text.IsNumeral t.text → n = .symbol (some t) t.text

theorem Node.ofWord_eq_int_iff {t : Token} {z : Int} :
    ofWord t = .int (some t) z ↔ Text.Denotes t.text z := by
  rw [← Text.numeral?_eq_some_iff, ofWord]
  cases Text.numeral? t.text <;> simp

/-- A word makes one leaf. -/
theorem Token.makes_iff {t : Token} {n : Node} : t.Makes n ↔ n = .ofWord t := by
  constructor
  · intro h
    by_cases hnumeral : Text.IsNumeral t.text
    · obtain ⟨z, rfl⟩ := h.int_iff.2 hnumeral
      exact (Node.ofWord_eq_int_iff.2 (h.denotes z rfl)).symm
    · rw [h.symbol_eq hnumeral, Node.ofWord, Text.numeral?_eq_none_iff.2 hnumeral]
  · rintro rfl
    refine ⟨?_, fun z => Node.ofWord_eq_int_iff.1, fun hnumeral => ?_⟩
    · rw [Text.isNumeral_iff_denotes]
      exact exists_congr fun z => Node.ofWord_eq_int_iff
    · rw [Node.ofWord, Text.numeral?_eq_none_iff.2 hnumeral]

theorem Token.forall₂_makes (ts : List Token) :
    List.Forall₂ Makes ts (ts.map Node.ofWord) := by
  rw [List.forall₂_map_right_iff]
  exact List.forall₂_same.2 fun t _ => makes_iff.2 rfl

/-- What a reading makes of the words of a source. -/
structure Source.TakesWords (src : Source) (autoClose : Bool) : Prop where
  /-- Each word makes a leaf, in the order of the words, up to where the reading stops, and
  without an error it stops behind the last word. -/
  leaves : ∃ taken, taken <+: Token.words src.scan.tokens
    ∧ List.Forall₂ Token.Makes taken (src.read autoClose).root.leaves
    ∧ ((src.read autoClose).error = none → taken = Token.words src.scan.tokens)
  /-- An error is one of the characters, or of a parenthesis that has no partner, and never of
  a word. -/
  error_cases : ∀ e, (src.read autoClose).error = some e →
    (∃ failure, src.scan.failure = some failure ∧ e = failure.toError)
      ∨ (∃ u, Token.FirstUnopened src.significant u
          ∧ e = Growth.errorAt u .unbalanced "unexpected )")
      ∨ ∃ t, Token.LastUnclosed src.significant t
          ∧ e = Growth.errorAt t .unexpectedEnd "unclosed ("

namespace Source

variable {src : Source}

theorem words_significant (src : Source) :
    Token.words src.significant = Token.words src.scan.tokens := by
  rw [Token.words, significant, List.filter_filter, Token.words]
  refine List.filter_congr fun t _ => ?_
  cases hk : t.kind <;> simp [Token.isSignificant, hk]

theorem takesWords_of_failure {failure : ScanFailure} (h : src.scan.failure = some failure)
    (autoClose : Bool) : src.TakesWords autoClose := by
  have hread : src.read autoClose = ⟨Growth.empty.root, some failure.toError⟩ := by
    unfold read
    rcases hscan : src.scan with ⟨tokens, found⟩
    rw [hscan] at h
    cases h
    rfl
  refine ⟨⟨[], List.nil_prefix, ?_, ?_⟩, ?_⟩
  · rw [hread]
    exact .nil
  · rw [hread]
    intro herror
    cases herror
  · rw [hread]
    intro e he
    exact .inl ⟨failure, h, (Option.some.inj he).symm⟩

/-- A tree that has grown to the end of its source has taken all words. -/
theorem takesWords_of_finish {g : Growth} {autoClose : Bool} (hg : Grown src.significant g)
    (hread : src.read autoClose = g.finish autoClose) : src.TakesWords autoClose := by
  have hroot : (src.read autoClose).root = g.root := by
    rw [hread, Growth.finish]
    cases g.pending <;> rfl
  refine ⟨⟨_, List.prefix_rfl, ?_, fun _ => rfl⟩, ?_⟩
  · rw [hroot, hg.leaves_root, words_significant]
    exact Token.forall₂_makes _
  · intro e he
    rw [hread, Growth.finish] at he
    cases hpending : g.pending with
    | nil =>
      rw [hpending] at he
      cases he
    | cons innermost es =>
      rw [hpending] at he
      cases autoClose with
      | true => cases he
      | false =>
        exact .inr (.inr ⟨innermost.token, hg.lastUnclosed hpending, (Option.some.inj he).symm⟩)

/-- **A reading makes a leaf of each word it comes to, and none of them stops it.** -/
theorem takesWords (src : Source) (autoClose : Bool) : src.TakesWords autoClose := by
  cases hfailure : src.scan.failure with
  | some failure => exact takesWords_of_failure hfailure autoClose
  | none =>
    have hfault := fault_of_scan hfailure
    obtain ⟨w, hw, hgrow⟩ := read_eq_grow hfault autoClose
    rcases Grown.empty.grow_cases hw autoClose (exists_kind_eq_of_significant hfault) with
      ⟨g, hg, hread⟩ | ⟨before, u, after, g, hsplit, hu, hg, hpending, hread⟩
    · exact takesWords_of_finish hg (hgrow.trans hread)
    · -- what was built before the parenthesis is kept beside the error
      rw [List.nil_append] at hsplit
      have hread := hgrow.trans hread
      have hwords : Token.words src.scan.tokens
          = Token.words before ++ Token.words (u :: after) := by
        rw [← words_significant, hsplit, Token.words_append]
      refine ⟨⟨Token.words before, ?_, ?_, ?_⟩, ?_⟩
      · rw [hwords]
        exact List.prefix_append _ _
      · rw [hread, hg.leaves_root]
        exact Token.forall₂_makes _
      · rw [hread]
        intro herror
        cases herror
      · intro e he
        rw [hread] at he
        refine .inr (.inl ⟨u, ?_, (Option.some.inj he).symm⟩)
        rw [hsplit]
        exact hg.firstUnopened hpending hu

end Source

/-- A numeral that stands alone is read as its integer. -/
theorem Input.parseStatement_numeral {w : String} {z : Int} (h : Text.Denotes w z) :
    ∃ t : Token, t.text = w
      ∧ (ofString w).source.parseStatement = .ok (.int (some t) z) := by
  have hword := h.isNumeral.isWord
  have hsource : (ofString w).source = ⟨Source.isMarked w.toList, w.toList, none⟩ := by
    have hmark : Source.dropMark w.toList = w.toList :=
      Source.dropMark_eq_self_iff.2 fun c hc => (h.isNumeral.isTight.head c hc).2
    rw [source_ofString, Source.ofString_eq hword.nul_not_mem, hmark]
  obtain ⟨offset, hparse⟩ :=
    Source.parseStatement_word (Source.isMarked w.toList) hword.toList
  rw [String.ofList_toList] at hparse
  refine ⟨⟨.word, w, offset, .start⟩, rfl, ?_⟩
  rw [hsource, hparse, Node.ofWord_eq_int_iff.2 h]

/-- **Numerals are read and written as integers.**  Wherever a word stands, it makes an integer
exactly if it is a numeral, and the integer is the one that its digits denote by their places;
no word is ever an error.  The word that an integer is written as is the one reduced numeral
that denotes it, so numerals are written alike exactly if they denote the same integer. -/
theorem numerals_read_and_written :
    (∀ (input : Input) (autoClose : Bool), input.source.TakesWords autoClose)
      ∧ (∀ (w : String) (z : Int), Text.Denotes w z → ∃ t : Token, t.text = w
          ∧ (Input.ofString w).source.parseStatement = .ok (.int (some t) z))
      ∧ (∀ (token : Option Token) (z : Int), ∃ text, (Node.int token z).encode? = some text
          ∧ Text.Denotes text z ∧ Text.IsReduced text
          ∧ ∀ w, Text.IsReduced w → Text.Denotes w z → w = text)
      ∧ ∀ (t t' : Token) (n n' : Node), t.Makes n → t'.Makes n' → Text.IsNumeral t.text →
          Text.IsNumeral t'.text →
          (n.encode? = n'.encode? ↔ ∃ z, Text.Denotes t.text z ∧ Text.Denotes t'.text z) := by
  refine ⟨fun input autoClose => Source.takesWords _ autoClose, fun w z h =>
    Input.parseStatement_numeral h, ?written, ?alike⟩
  case written =>
    intro token z
    refine ⟨Text.decimal z, rfl, Text.denotes_decimal z, Text.isReduced_decimal z, ?_⟩
    intro w hreduced hdenotes
    exact Text.eq_decimal_iff.2 ⟨hreduced, hdenotes⟩
  case alike =>
    intro t t' n n' hn hn' hnumeral hnumeral'
    obtain ⟨z, rfl⟩ := hn.int_iff.2 hnumeral
    obtain ⟨z', rfl⟩ := hn'.int_iff.2 hnumeral'
    have hz := hn.denotes z rfl
    have hz' := hn'.denotes z' rfl
    constructor
    · intro hencode
      have hdecimal : Text.decimal z = Text.decimal z' := Option.some.inj hencode
      have hread := Text.denotes_decimal z
      rw [hdecimal] at hread
      rw [hread.unique (Text.denotes_decimal z')] at hz
      exact ⟨z', hz, hz'⟩
    · rintro ⟨y, hy, hy'⟩
      rw [hz.unique hy, hz'.unique hy']
      rfl

/-- A sign alone is a name, digits of another script are one, and a minus changes nothing of a
zero. -/
theorem numerals_read_and_written_zeros :
    let src := (Input.ofString "(+ -007 ٣)").source
    let t : Token := ⟨.word, "-00", 0, .start⟩
    let t' : Token := ⟨.word, "+0", 0, .start⟩
    (∃ taken, taken.map Token.text = ["+", "-007", "٣"]
        ∧ List.Forall₂ Token.Makes taken (src.read false).root.leaves)
      ∧ (Text.Denotes "-007" (-7) ∧ ∃ t : Token, t.text = "-007"
          ∧ (Input.ofString "-007").source.parseStatement = .ok (.int (some t) (-7)))
      ∧ (∃ text, (Node.int none (-7)).encode? = some text
          ∧ (Text.IsReduced "-7" ∧ Text.Denotes "-7" (-7)) ∧ "-7" = text)
      ∧ (Text.IsNumeral "-00" ∧ Text.IsNumeral "+0")
      ∧ ((Node.ofWord t).encode? = (Node.ofWord t').encode?
          ↔ ∃ z, Text.Denotes "-00" z ∧ Text.Denotes "+0" z) := by
  intro src t t'
  obtain ⟨htakes, halone, hwritten, halike⟩ := numerals_read_and_written
  have hseven : Text.Denotes "-007" (-7) := Text.numeral?_eq_some_iff.1 (by decide)
  have hreduced : Text.IsReduced "-7" ∧ Text.Denotes "-7" (-7) :=
    Text.eq_decimal_iff.1 (by decide)
  have hminus : Text.IsNumeral "-00" := Text.isSome_numeral?_iff.1 (by decide)
  have hplus : Text.IsNumeral "+0" := Text.isSome_numeral?_iff.1 (by decide)
  refine ⟨?_, ⟨hseven, halone _ _ hseven⟩, ?_, ⟨hminus, hplus⟩, ?_⟩
  · obtain ⟨taken, -, hmakes, hall⟩ := (htakes (.ofString "(+ -007 ٣)") false).leaves
    refine ⟨taken, ?_, hmakes⟩
    rw [hall (by decide +kernel)]
    decide +kernel
  · obtain ⟨text, hencode, -, -, honly⟩ := hwritten none (-7)
    exact ⟨text, hencode, hreduced, honly _ hreduced.1 hreduced.2⟩
  · exact halike t t' _ _ (Token.makes_iff.2 rfl) (Token.makes_iff.2 rfl) hminus hplus

end IntLisp
