/-
  IntLisp.Proofs.Numeral
  ──────────────────────
  **WORDS THAT DENOTE INTEGERS.**

  A numeral is an optional sign and then one or more decimal digits.  These
  are exactly the words that are read as integers, and the canonical word of
  every integer is one of them, and reads back as that integer.
-/
import IntLisp.Text.Numeral

namespace IntLisp.Text

/-! ## §1. Numerals. -/

/-- An optional sign, and then one or more decimal digits. -/
def IsNumeral (w : String) : Prop :=
  ∃ sign digits : List Char, w.toList = sign ++ digits ∧ sign ∈ [[], ['+'], ['-']]
    ∧ digits ≠ [] ∧ ∀ d ∈ digits, d.isDigit = true

/-- A numeral is made of digits, but for its sign. -/
theorem IsNumeral.sign_or_digit {w : String} (h : IsNumeral w) {c : Char} (hc : c ∈ w.toList) :
    c = '+' ∨ c = '-' ∨ c.isDigit = true := by
  obtain ⟨sign, digits, hw, hsign, -, hdigits⟩ := h
  rw [hw] at hc
  rcases List.mem_append.1 hc with hc | hc
  · simp only [List.mem_cons, List.not_mem_nil, or_false] at hsign
    rcases hsign with rfl | rfl | rfl
    · cases hc
    · exact .inl (List.mem_singleton.1 hc)
    · exact .inr (.inl (List.mem_singleton.1 hc))
  · exact .inr (.inr (hdigits c hc))

theorem isDigits_iff {cs : List Char} :
    isDigits cs = true ↔ cs ≠ [] ∧ ∀ d ∈ cs, d.isDigit = true := by
  simp [isDigits]

theorem natural?_of_digits {cs : List Char} (hne : cs ≠ [])
    (hcs : ∀ d ∈ cs, d.isDigit = true) : natural? cs = some (Nat.ofDigitChars 10 cs 0) :=
  if_pos (isDigits_iff.2 ⟨hne, hcs⟩)

theorem digits_of_natural? {cs : List Char} (h : (natural? cs).isSome = true) :
    cs ≠ [] ∧ ∀ d ∈ cs, d.isDigit = true := by
  refine isDigits_iff.1 ?_
  unfold natural? at h
  split at h
  · assumption
  · cases h

/-- Digits without a sign are read as they stand. -/
theorem numeralOf?_of_digits {cs : List Char} (hne : cs ≠ [])
    (hcs : ∀ d ∈ cs, d.isDigit = true) :
    numeralOf? cs = some (Int.ofNat (Nat.ofDigitChars 10 cs 0)) := by
  unfold numeralOf?
  split
  · exact absurd (hcs '+' (.head _)) (by decide)
  · exact absurd (hcs '-' (.head _)) (by decide)
  · rw [natural?_of_digits hne hcs]
    rfl

/-- **A word is read as an integer if it is a numeral, and only then.** -/
theorem isSome_numeral?_iff {w : String} : (numeral? w).isSome = true ↔ IsNumeral w := by
  constructor
  · intro h
    unfold numeral? numeralOf? at h
    split at h
    · next ds hds =>
      rw [Option.isSome_map] at h
      exact ⟨['+'], ds, hds, by simp, digits_of_natural? h⟩
    · next ds hds =>
      rw [Option.isSome_map] at h
      exact ⟨['-'], ds, hds, by simp, digits_of_natural? h⟩
    · rw [Option.isSome_map] at h
      exact ⟨[], w.toList, rfl, by simp, digits_of_natural? h⟩
  · intro h
    obtain ⟨sign, digits, hw, hsign, hne, hdigits⟩ := h
    unfold numeral?
    rw [hw]
    simp only [List.mem_cons, List.not_mem_nil, or_false] at hsign
    rcases hsign with rfl | rfl | rfl
    · rw [List.nil_append, numeralOf?_of_digits hne hdigits]
      rfl
    · simp [numeralOf?, natural?_of_digits hne hdigits]
    · simp [numeralOf?, natural?_of_digits hne hdigits]

theorem numeral?_eq_none_iff {w : String} : numeral? w = none ↔ ¬ IsNumeral w := by
  rw [← isSome_numeral?_iff, Option.not_isSome_iff_eq_none]

/-- A word that is written as an integer is read as one. -/
theorem isInteger_eq (w : String) : isInteger w = (numeral? w).isSome := by
  have hdigits : ∀ cs, isDigits cs = (natural? cs).isSome := by
    intro cs
    unfold natural?
    cases isDigits cs <;> rfl
  unfold isInteger numeral? numeralOf?
  split <;> rw [Option.isSome_map, hdigits]

/-! ## §2. Canonical words. -/

/-- The canonical word of an integer is its digits, behind a minus if it is negative. -/
theorem toList_decimal (z : Int) :
    (decimal z).toList = (if z < 0 then ['-'] else []) ++ Nat.toDigits 10 z.natAbs := by
  rw [decimal, Int.repr_eq_if]
  by_cases hz : 0 ≤ z
  · have habs : z.toNat = z.natAbs := by omega
    rw [if_pos hz, if_neg (by omega), habs, Nat.toList_repr, List.nil_append]
  · have habs : (-z).toNat = z.natAbs := by omega
    rw [if_neg hz, if_pos (by omega), habs, String.toList_append, Nat.toList_repr]
    rfl

theorem isDigit_of_mem_toDigits_ten {n : Nat} :
    ∀ d ∈ Nat.toDigits 10 n, d.isDigit = true := by
  intro d hd
  exact Nat.isDigit_of_mem_toDigits (by omega) (by omega) hd

/-- **The canonical word of an integer reads back as that integer.** -/
theorem numeral?_decimal (z : Int) : numeral? (decimal z) = some z := by
  have hvalue : Nat.ofDigitChars 10 (Nat.toDigits 10 z.natAbs) 0 = z.natAbs :=
    Nat.ofDigitChars_ten_toDigits
  rw [numeral?, toList_decimal]
  by_cases hz : z < 0
  · rw [if_pos hz, List.singleton_append, numeralOf?,
      natural?_of_digits Nat.toDigits_ne_nil isDigit_of_mem_toDigits_ten, hvalue]
    show some (-(z.natAbs : Int)) = some z
    congr 1
    omega
  · rw [if_neg hz, List.nil_append,
      numeralOf?_of_digits Nat.toDigits_ne_nil isDigit_of_mem_toDigits_ten, hvalue]
    show some (z.natAbs : Int) = some z
    congr 1
    omega

theorem isNumeral_decimal (z : Int) : IsNumeral (decimal z) := by
  rw [← isSome_numeral?_iff, numeral?_decimal]
  rfl

end IntLisp.Text
